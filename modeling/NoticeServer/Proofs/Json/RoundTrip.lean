import NoticeServer.Proofs.Json.Reading

/-!
# `NoticeServer.Proofs.Json.RoundTrip` — written values read back

The text of an exact value has the tokens of the value, and these denote it, as its members are in order
already. So the text is one of the grammar, at any bound that leaves room for its depth (`isText_text`), and
the reader, which accepts just these, gives the value back (`readBytes?_encode`).
-/

namespace NoticeServer
namespace Json

/-! ## The tokens of a value -/

theorem itemsTokens_eq (items : List Json) : itemsTokens items = separated (items.map tokens) := by
  match items with
  | [] => rfl
  | [v] => rw [itemsTokens, List.map_singleton, separated_singleton]
  | v :: w :: items =>
    rw [itemsTokens, itemsTokens_eq (w :: items)]
    exact (separated_cons_cons v.tokens w.tokens (items.map tokens)).symm

theorem membersTokens_eq (members : List (String × Json)) :
    membersTokens members = separated (members.map fun m => memberTokens m.1 m.2.tokens) := by
  match members with
  | [] => rfl
  | [m] =>
    rw [membersTokens, List.map_singleton, separated_singleton]
    rfl
  | m :: n :: members =>
    rw [membersTokens, membersTokens_eq (n :: members)]
    exact (separated_cons_cons (memberTokens m.1 m.2.tokens) _ _).symm

/-- Members in order stay as they are. -/
theorem ofMembers_of_ascending {members : List (String × Json)} (h : Ascending members) :
    ofMembers members = .object members := by
  -- each member goes to the end of those put in before it
  have building : ∀ sorted, Ascending (sorted ++ members) →
      members.foldl (fun sorted m => insertMember m.1 m.2 sorted) sorted = sorted ++ members := by
    clear h
    induction members with
    | nil => exact fun sorted _ => (List.append_nil sorted).symm
    | cons m members ih =>
      intro sorted h
      have hlast : ∀ m' ∈ sorted, m'.1 < m.1 := fun m' hm' =>
        (List.pairwise_append.mp h).2.2 m' hm' m List.mem_cons_self
      rw [List.append_cons] at h
      rw [List.foldl_cons, insertMember_last hlast]
      exact (ih _ h).trans (List.append_cons sorted m members).symm
  exact congrArg Json.object (building [] h)

theorem le_itemsDepth {items : List Json} {v : Json} (h : v ∈ items) : v.depth ≤ itemsDepth items := by
  induction items with
  | nil => exact absurd h List.not_mem_nil
  | cons w items ih =>
    rcases List.mem_cons.mp h with rfl | h
    · exact Nat.le_max_left _ _
    · exact Nat.le_trans (ih h) (Nat.le_max_right _ _)

theorem le_membersDepth {members : List (String × Json)} {m : String × Json} (h : m ∈ members) :
    m.2.depth ≤ membersDepth members := by
  induction members with
  | nil => exact absurd h List.not_mem_nil
  | cons n members ih =>
    rcases List.mem_cons.mp h with rfl | h
    · exact Nat.le_max_left _ _
    · exact Nat.le_trans (ih h) (Nat.le_max_right _ _)

/-- The tokens of an exact value denote it, where there is room for its depth. -/
theorem denotes_tokens {v : Json} (hv : Exact v) {room : Nat} (hroom : v.depth ≤ room) :
    Denotes room v.tokens v := by
  induction hv generalizing room with
  | null => exact .scalar room .null
  | bool b => exact .scalar room (.bool b)
  | int n _ => exact .scalar room (.int n)
  | string s => exact .string room s
  | array items _ ih =>
    rw [depth] at hroom
    obtain ⟨room, rfl⟩ := Nat.exists_eq_add_one_of_ne_zero (show room ≠ 0 by omega)
    have hitems : itemsDepth items ≤ room := Nat.le_of_succ_le_succ hroom
    have h : Denotes (room + 1) _ _ := .array (items.map fun v => (v.tokens, v)) (List.forall_mem_map.mpr
      fun v hv => ih v hv (Nat.le_trans (le_itemsDepth hv) hitems))
    simpa [tokens, itemsTokens_eq, Function.comp_def] using h
  | object members hascending _ ih =>
    rw [depth] at hroom
    obtain ⟨room, rfl⟩ := Nat.exists_eq_add_one_of_ne_zero (show room ≠ 0 by omega)
    have hmembers : membersDepth members ≤ room := Nat.le_of_succ_le_succ hroom
    have h : Denotes (room + 1) _ _ := .object (members.map fun m => (m.1, m.2.tokens, m.2))
      (List.forall_mem_map.mpr fun m hm => ih m hm (Nat.le_trans (le_membersDepth hm) hmembers))
    simpa [tokens, membersTokens_eq, Function.comp_def, ofMembers_of_ascending hascending] using h

/-! ## Texts -/

/-- **The text of an exact value is a text of this value**, for any bound that its depth keeps. -/
theorem isText_text {v : Json} {limit : Nat} (hv : Exact v) (hdepth : v.depth ≤ limit) :
    IsText limit (Utf8.encode v.text) v :=
  ⟨v.text, v.tokens, rfl, tokens?_eq_some_iff.mp (tokens?_text hv), denotes_tokens hv hdepth⟩

theorem readBytes?_encode {v : Json} (hv : Exact v) (hdepth : v.depth ≤ maxDepth) :
    readBytes? (Utf8.encode v.text) = some v :=
  readBytes?_eq_some_iff.mpr (isText_text hv hdepth)

end Json
end NoticeServer
