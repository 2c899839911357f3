import NoticeServer.Proofs.Json.Grammar

/-!
# `NoticeServer.Proofs.Json.Building` — the value of a list of tokens

The reader keeps a stack of the arrays and objects that are open. The tokens of a value, read where a value
is expected, leave the stack as it was and put the value into its top (`Builds`); the only bound is that the
stack has room for the depth of the value. Items and members follow by induction along their lists, with the
ones read before them in the top of the stack, and `builds_of_denotes` by induction on the value.
-/

namespace NoticeServer
namespace Json

/-! ## Commas -/

@[simp] theorem separated_nil : separated [] = [] := rfl

@[simp] theorem separated_singleton (ts : List Token) : separated [ts] = ts := by
  simp [separated, List.intercalate]

@[simp] theorem separated_cons_cons (ts us : List Token) (parts : List (List Token)) :
    separated (ts :: us :: parts) = ts ++ .comma :: separated (us :: parts) := by
  simp [separated, List.intercalate]

/-! ## Where a value begins -/

namespace Builder

/-- A state in which a value may begin. The end of an empty array is the one token that it may read in
another way. -/
def AwaitsValue (limit : Nat) (stack : List Open) (state : Builder) : Prop :=
  ∀ t, t ≠ .closeArray → step? limit state t = begin? limit stack t

theorem awaitsValue_value (limit : Nat) (stack : List Open) : AwaitsValue limit stack (.value stack) :=
  fun _ _ => rfl

theorem awaitsValue_firstItem (limit : Nat) (stack : List Open) :
    AwaitsValue limit stack (.firstItem stack) := by
  intro t ht
  -- only the first clause of the machine tells this state from one that awaits a value
  unfold step?
  split <;> simp_all

/-- The value `v` is built from the tokens `ts` wherever there is room for it. -/
def Builds (limit room : Nat) (ts : List Token) (v : Json) : Prop :=
  ∀ stack state, AwaitsValue limit stack state → stack.length + room ≤ limit →
    ts.foldlM (step? limit) state = some (complete stack v)

variable {limit room : Nat}

/-- A token that is a value of its own. -/
theorem builds_single {v : Json} {t : Token} (ht : t ≠ .closeArray)
    (hbegin : ∀ stack, begin? limit stack t = some (complete stack v)) : Builds limit room [t] v := by
  intro stack state hstate _
  rw [List.foldlM_cons, hstate t ht, hbegin]
  rfl

/-! ## Arrays -/

/-- Items, read behind the items `before`, which are in reverse. -/
theorem foldlM_items {items : List (List Token × Json)} (hne : items ≠ [])
    (h : ∀ item ∈ items, Builds limit room item.1 item.2) {before : List Json} {stack : List Open}
    {state : Builder} (hstate : AwaitsValue limit (.array before :: stack) state)
    (hroom : stack.length + 1 + room ≤ limit) :
    (separated (items.map (·.1))).foldlM (step? limit) state =
      some (.more (.array ((items.map (·.2)).reverse ++ before) :: stack)) := by
  -- the first item may stand where the array could end; behind a comma a value has to follow
  match items with
  | [] => exact absurd rfl hne
  | [item] =>
    rw [List.map_singleton, separated_singleton]
    exact h item List.mem_cons_self _ state hstate hroom
  | item :: next :: items =>
    have hfirst := h item List.mem_cons_self _ state hstate hroom
    have hmore := foldlM_items (List.cons_ne_nil next items)
      (fun u hu => h u (List.mem_cons_of_mem _ hu))
      (awaitsValue_value limit (.array (item.2 :: before) :: stack)) hroom
    rw [List.map_cons, List.map_cons, separated_cons_cons, List.foldlM_append, hfirst]
    refine hmore.trans ?_
    simp

theorem builds_array {items : List (List Token × Json)}
    (h : ∀ item ∈ items, Builds limit room item.1 item.2) :
    Builds limit (room + 1) (.openArray :: (separated (items.map (·.1)) ++ [.closeArray]))
      (.array (items.map (·.2))) := by
  intro stack state hstate hroom
  have hopen : step? limit state .openArray = some (.firstItem (.array [] :: stack)) := by
    rw [hstate .openArray nofun, begin?, if_pos (by omega)]
  rw [List.foldlM_cons, hopen]
  by_cases hne : items = []
  · rw [hne]
    rfl
  · have hitems := foldlM_items hne h (awaitsValue_firstItem limit (.array [] :: stack)) (by omega)
    have hclose : step? limit (.more (.array (items.map (·.2)).reverse :: stack)) .closeArray =
        some (complete stack (.array (items.map (·.2)))) := by
      simp [step?]
    rw [List.append_nil] at hitems
    rw [Option.bind_eq_bind, Option.bind_some, List.foldlM_append, hitems]
    exact congrArg (Option.bind · some) hclose

/-! ## Objects -/

/-- The members of an object behind those that are read. -/
def insertAll (before : List (String × Json)) (members : List (String × List Token × Json)) :
    List (String × Json) :=
  members.foldl (fun sorted m => insertMember m.1 m.2.2 sorted) before

theorem object_insertAll (members : List (String × List Token × Json)) :
    Json.object (insertAll [] members) = ofMembers (members.map fun m => (m.1, m.2.2)) := by
  unfold insertAll ofMembers
  rw [List.foldl_map]

/-- One member, read behind the members `before`. -/
theorem foldlM_member {name : String} {ts : List Token} {v : Json} (h : Builds limit room ts v)
    {before : List (String × Json)} {stack : List Open} {state : Builder}
    (hstate : step? limit state (.string name) = some (.colon (.object before name :: stack)))
    (hroom : stack.length + 1 + room ≤ limit) (more : List Token) :
    (memberTokens name ts ++ more).foldlM (step? limit) state =
      more.foldlM (step? limit) (.more (.object (insertMember name v before) name :: stack)) := by
  have hvalue := h (.object before name :: stack) (.value (.object before name :: stack))
    (awaitsValue_value limit _) hroom
  unfold memberTokens
  rw [List.cons_append, List.cons_append, List.foldlM_cons, hstate]
  show (ts ++ more).foldlM (step? limit) (.value (.object before name :: stack)) = _
  rw [List.foldlM_append, hvalue]
  rfl

/-- Members, read behind the members `before`. -/
theorem foldlM_members {members : List (String × List Token × Json)} (hne : members ≠ [])
    (h : ∀ m ∈ members, Builds limit room m.2.1 m.2.2) {before : List (String × Json)}
    {stack : List Open} {state : Builder}
    (hstate : ∀ name, step? limit state (.string name) = some (.colon (.object before name :: stack)))
    (hroom : stack.length + 1 + room ≤ limit) :
    ∃ current, (separated (members.map fun m => memberTokens m.1 m.2.1)).foldlM (step? limit) state =
      some (.more (.object (insertAll before members) current :: stack)) := by
  match members with
  | [] => exact absurd rfl hne
  | [m] =>
    have hmember := foldlM_member (h m List.mem_cons_self) (hstate m.1) hroom []
    rw [List.append_nil] at hmember
    rw [List.map_singleton, separated_singleton]
    exact ⟨m.1, hmember⟩
  | m :: next :: members =>
    -- the state behind the member awaits a comma, and behind it a key
    have hmember := foldlM_member (h m List.mem_cons_self) (hstate m.1) hroom
    obtain ⟨current, hmore⟩ := foldlM_members (List.cons_ne_nil next members)
      (fun m' hm' => h m' (List.mem_cons_of_mem _ hm'))
      (show ∀ name', step? limit (.key (insertMember m.1 m.2.2 before) stack) (.string name') = _ from
        fun _ => rfl) hroom
    refine ⟨current, ?_⟩
    rw [List.map_cons, List.map_cons, separated_cons_cons]
    refine (hmember _).trans ?_
    rw [List.foldlM_cons]
    exact hmore

theorem builds_object {members : List (String × List Token × Json)}
    (h : ∀ m ∈ members, Builds limit room m.2.1 m.2.2) :
    Builds limit (room + 1)
      (.openObject :: (separated (members.map fun m => memberTokens m.1 m.2.1) ++ [.closeObject]))
      (.ofMembers (members.map fun m => (m.1, m.2.2))) := by
  intro stack state hstate hroom
  have hopen : step? limit state .openObject = some (.firstKey stack) := by
    rw [hstate .openObject nofun, begin?, if_pos (by omega)]
  rw [List.foldlM_cons, hopen, ← object_insertAll]
  by_cases hne : members = []
  · rw [hne]
    rfl
  · obtain ⟨current, hmembers⟩ := foldlM_members hne h
      (show ∀ name, step? limit (.firstKey stack) (.string name) = some (.colon (.object [] name :: stack))
        from fun _ => rfl) (by omega)
    rw [Option.bind_eq_bind, Option.bind_some, List.foldlM_append, hmembers]
    rfl

/-! ## Values -/

/-- **The tokens of a value build it, wherever there is room for its depth.** -/
theorem builds_of_denotes {ts : List Token} {v : Json} (h : Denotes room ts v) : Builds limit room ts v := by
  induction h with
  | scalar room v => exact builds_single nofun fun _ => rfl
  | string room s => exact builds_single nofun fun _ => rfl
  | array items _ ih => exact builds_array ih
  | object members _ ih => exact builds_object ih

end Builder

end Json
end NoticeServer
