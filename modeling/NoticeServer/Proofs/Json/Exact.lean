import NoticeServer.Json.Token

/-!
# `NoticeServer.Proofs.Json.Exact` — the values that read back as they are

A double is written with the fewest digits, an integer beyond 64 bits would read back as a double, and an
object keeps its members in ascending order. The other values are *exact* (`Json.Exact`), and so is an object
that is built from exact members in any order (`exact_ofMembers`). Beside them stand the two things that the
reader sees of a value: its tokens, and how deep it is nested.
-/

namespace NoticeServer
namespace Json

/-! ## Exact values -/

/-- The members of an object in strictly ascending order of their keys; so no key occurs twice. -/
def Ascending (members : List (String × Json)) : Prop := members.Pairwise (·.1 < ·.1)

instance (members : List (String × Json)) : Decidable (Ascending members) :=
  inferInstanceAs (Decidable (List.Pairwise _ _))

/-- A value without doubles, with all integers in range and all objects in order. -/
inductive Exact : Json → Prop where
  | null : Exact .null
  | bool (b : Bool) : Exact (.bool b)
  | int (n : Int) (range : IntRange n) : Exact (.int n)
  | string (s : String) : Exact (.string s)
  | array (items : List Json) (exact : ∀ v ∈ items, Exact v) : Exact (.array items)
  | object (members : List (String × Json)) (ascending : Ascending members)
      (exact : ∀ m ∈ members, Exact m.2) : Exact (.object members)

/-- What is in a list behind an insertion: the new member and old ones. -/
theorem mem_insertMember {key : String} {value : Json} {members : List (String × Json)}
    {m : String × Json} (h : m ∈ insertMember key value members) : m = (key, value) ∨ m ∈ members := by
  induction members with
  | nil => exact Or.inl (List.mem_singleton.mp h)
  | cons m' members ih =>
    unfold insertMember at h
    split at h
    · rcases List.mem_cons.mp h with h | h
      · exact Or.inl h
      · exact Or.inr (List.mem_cons_of_mem _ h)
    split at h
    · exact List.mem_cons.mp h
    · rcases List.mem_cons.mp h with h | h
      · exact Or.inr (h ▸ List.mem_cons_self)
      · exact (ih h).imp_right (List.mem_cons_of_mem _)

theorem ascending_insertMember (key : String) (value : Json) {members : List (String × Json)}
    (h : Ascending members) : Ascending (insertMember key value members) := by
  induction members with
  | nil => exact List.pairwise_singleton _ _
  | cons m members ih =>
    obtain ⟨hm, htail⟩ := List.pairwise_cons.mp h
    unfold insertMember
    split
    · next heq => exact List.pairwise_cons.mpr ⟨fun m' hm' => heq ▸ hm m' hm', htail⟩
    split
    · next hlt =>
      refine List.pairwise_cons.mpr ⟨fun m' hm' => ?_, h⟩
      rcases List.mem_cons.mp hm' with rfl | hm'
      · exact hlt
      · exact String.lt_trans hlt (hm m' hm')
    · next hne hnlt =>
      refine List.pairwise_cons.mpr ⟨fun m' hm' => ?_, ih htail⟩
      rcases mem_insertMember hm' with rfl | hm'
      · exact Std.lt_of_le_of_ne (Std.not_lt.mp hnlt) (Ne.symm hne)
      · exact hm m' hm'

/-- A member whose key is above all others goes to the end. -/
theorem insertMember_last {key : String} {value : Json} {members : List (String × Json)}
    (h : ∀ m ∈ members, m.1 < key) : insertMember key value members = members ++ [(key, value)] := by
  induction members with
  | nil => rfl
  | cons m members ih =>
    have hm : m.1 < key := h m List.mem_cons_self
    have hne : key ≠ m.1 := fun heq => String.lt_irrefl _ (heq ▸ hm)
    have hnlt : ¬key < m.1 := fun hlt => String.lt_irrefl _ (String.lt_trans hm hlt)
    rw [insertMember, if_neg hne, if_neg hnlt, ih fun m' hm' => h m' (List.mem_cons_of_mem _ hm')]
    rfl

/-- **Exact values under any keys, in any order, make an exact object.** -/
theorem exact_ofMembers {members : List (String × Json)} (h : ∀ m ∈ members, Exact m.2) :
    Exact (ofMembers members) := by
  -- the members put in so far are exact and in order, whichever are still to come
  have building : ∀ sorted, Ascending sorted → (∀ m ∈ sorted, Exact m.2) →
      Exact (.object (members.foldl (fun sorted m => insertMember m.1 m.2 sorted) sorted)) := by
    induction members with
    | nil => exact fun sorted => .object sorted
    | cons m members ih =>
      intro sorted hsorted hexact
      refine ih (fun m' hm' => h m' (List.mem_cons_of_mem _ hm')) _
        (ascending_insertMember m.1 m.2 hsorted) fun m' hm' => ?_
      rcases mem_insertMember hm' with rfl | hm'
      · exact h m List.mem_cons_self
      · exact hexact m' hm'
  exact building [] List.Pairwise.nil fun _ hm => absurd hm List.not_mem_nil

/-! ## Tokens -/

mutual

/-- The tokens of a value's text. -/
def tokens : Json → List Token
  | .string s => [.string s]
  | .array items => .openArray :: (itemsTokens items ++ [.closeArray])
  | .object members => .openObject :: (membersTokens members ++ [.closeObject])
  | v => [.scalar v]

/-- The tokens of the items of an array. -/
def itemsTokens : List Json → List Token
  | [] => []
  | [v] => tokens v
  | v :: w :: items => tokens v ++ .comma :: itemsTokens (w :: items)

/-- The tokens of the members of an object. -/
def membersTokens : List (String × Json) → List Token
  | [] => []
  | [(key, v)] => .string key :: .colon :: tokens v
  | (key, v) :: m :: members => .string key :: .colon :: (tokens v ++ .comma :: membersTokens (m :: members))

end

/-! ## Depth -/

mutual

/-- How many arrays and objects are open at once within a value. -/
def depth : Json → Nat
  | .array items => itemsDepth items + 1
  | .object members => membersDepth members + 1
  | _ => 0

/-- The depth of the deepest item. -/
def itemsDepth : List Json → Nat
  | [] => 0
  | v :: items => max (depth v) (itemsDepth items)

/-- The depth of the deepest member. -/
def membersDepth : List (String × Json) → Nat
  | [] => 0
  | (_, v) :: members => max (depth v) (membersDepth members)

end

end Json
end NoticeServer
