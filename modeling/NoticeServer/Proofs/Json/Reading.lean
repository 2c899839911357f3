import NoticeServer.Proofs.Json.Building
import NoticeServer.Proofs.Json.Spelling
import NoticeServer.Proofs.Text.Decoding

/-!
# `NoticeServer.Proofs.Json.Reading` — the texts that are read

The machine reads exactly the tokens that denote a value. Its state tells what the tokens behind it were
(`Reads`): each array and object on the stack stands for a bracket and the items or members read so far, each
with its comma (`Opened`). One token keeps this (`reads_step`), so at the end the tokens denote the value that
is complete.
-/

namespace NoticeServer
namespace Json

/-- Parts with a comma behind each. -/
def eachComma (parts : List (List Token)) : List Token := parts.flatMap (· ++ [.comma])

theorem separated_append_comma {parts : List (List Token)} (hne : parts ≠ []) :
    separated parts ++ [.comma] = eachComma parts := by
  match parts with
  | [] => exact absurd rfl hne
  | [ts] => simp [eachComma]
  | ts :: us :: parts =>
    have hmore := separated_append_comma (List.cons_ne_nil us parts)
    rw [separated_cons_cons, List.append_assoc, List.cons_append, hmore]
    simp [eachComma]

/-- One more part. -/
theorem separated_append_singleton (parts : List (List Token)) (ts : List Token) :
    separated (parts ++ [ts]) = eachComma parts ++ ts := by
  match parts with
  | [] => simp [eachComma]
  | [us] => simp [eachComma]
  | us :: vs :: parts =>
    have hmore := separated_append_singleton (vs :: parts) ts
    rw [List.cons_append] at hmore
    rw [List.cons_append, List.cons_append, separated_cons_cons, hmore]
    simp [eachComma]

namespace Builder

variable {limit : Nat}

/-- The tokens behind a stack, up to where the next value of its innermost array or object begins. -/
inductive Opened (limit : Nat) : List Open → List Token → Prop where
  | nil : Opened limit [] []
  | array {stack : List Open} {ts : List Token} {room : Nat} (outer : Opened limit stack ts)
      (items : List (List Token × Json)) (each : ∀ item ∈ items, Denotes room item.1 item.2)
      (fits : stack.length + 1 + room = limit) :
      Opened limit (.array (items.map (·.2)).reverse :: stack)
        (ts ++ .openArray :: eachComma (items.map (·.1)))
  | object {stack : List Open} {ts : List Token} {room : Nat} (outer : Opened limit stack ts)
      (members : List (String × List Token × Json)) (each : ∀ m ∈ members, Denotes room m.2.1 m.2.2)
      (fits : stack.length + 1 + room = limit) (name : String) :
      Opened limit (.object (insertAll [] members) name :: stack)
        (ts ++ .openObject ::
          (eachComma (members.map fun m => memberTokens m.1 m.2.1) ++ [.string name, .colon]))

/-- The tokens behind a state. -/
inductive Reads (limit : Nat) : Builder → List Token → Prop where
  | firstItem {stack : List Open} {ts : List Token} (opened : Opened limit stack ts)
      (fits : stack.length < limit) : Reads limit (.firstItem (.array [] :: stack)) (ts ++ [.openArray])
  | value {stack : List Open} {ts : List Token} (opened : Opened limit stack ts) :
      Reads limit (.value stack) ts
  | firstKey {stack : List Open} {ts : List Token} (opened : Opened limit stack ts)
      (fits : stack.length < limit) : Reads limit (.firstKey stack) (ts ++ [.openObject])
  | key {stack : List Open} {ts : List Token} {room : Nat} (outer : Opened limit stack ts)
      (members : List (String × List Token × Json)) (each : ∀ m ∈ members, Denotes room m.2.1 m.2.2)
      (fits : stack.length + 1 + room = limit) :
      Reads limit (.key (insertAll [] members) stack)
        (ts ++ .openObject :: eachComma (members.map fun m => memberTokens m.1 m.2.1))
  | colon {stack : List Open} {ts : List Token} (opened : Opened limit stack (ts ++ [.colon])) :
      Reads limit (.colon stack) ts
  | moreItems {stack : List Open} {ts : List Token} {room : Nat} (outer : Opened limit stack ts)
      {items : List (List Token × Json)} (ne : items ≠ [])
      (each : ∀ item ∈ items, Denotes room item.1 item.2) (fits : stack.length + 1 + room = limit) :
      Reads limit (.more (.array (items.map (·.2)).reverse :: stack))
        (ts ++ .openArray :: separated (items.map (·.1)))
  | moreMembers {stack : List Open} {ts : List Token} {room : Nat} (outer : Opened limit stack ts)
      {members : List (String × List Token × Json)} (ne : members ≠ [])
      (each : ∀ m ∈ members, Denotes room m.2.1 m.2.2) (fits : stack.length + 1 + room = limit)
      (name : String) :
      Reads limit (.more (.object (insertAll [] members) name :: stack))
        (ts ++ .openObject :: separated (members.map fun m => memberTokens m.1 m.2.1))
  | done {ts : List Token} {v : Json} (denotes : Denotes limit ts v) : Reads limit (.done v) ts

theorem Opened.length_le {stack : List Open} {ts : List Token} (h : Opened limit stack ts) :
    stack.length ≤ limit := by
  cases h with
  | nil => exact Nat.zero_le _
  | array _ _ _ fits => simp only [List.length_cons]; omega
  | object _ _ _ fits _ => simp only [List.length_cons]; omega

/-- A complete value goes into the innermost array or object. -/
theorem reads_complete {stack : List Open} {ts us : List Token} {v : Json} {room : Nat}
    (h : Opened limit stack ts) (hv : Denotes room us v) (hroom : stack.length + room = limit) :
    Reads limit (complete stack v) (ts ++ us) := by
  cases h with
  | nil =>
    obtain rfl : room = limit := by simpa using hroom
    exact .done hv
  | @array stack ts room' outer items each fits =>
    obtain rfl : room' = room := by simp only [List.length_cons] at hroom; omega
    have hall : ∀ item ∈ items ++ [(us, v)], Denotes room' item.1 item.2 :=
      List.forall_mem_append.mpr ⟨each, List.forall_mem_singleton.mpr hv⟩
    have hreads := Reads.moreItems outer (by simp) hall fits
    simpa [complete, separated_append_singleton] using hreads
  | @object stack ts room' outer members each fits name =>
    obtain rfl : room' = room := by simp only [List.length_cons] at hroom; omega
    have hall : ∀ m ∈ members ++ [(name, us, v)], Denotes room' m.2.1 m.2.2 :=
      List.forall_mem_append.mpr ⟨each, List.forall_mem_singleton.mpr hv⟩
    have hreads := Reads.moreMembers outer (by simp) hall fits name
    simpa [complete, separated_append_singleton, insertAll, memberTokens] using hreads

/-- A token that begins a value. -/
theorem reads_begin {stack : List Open} {ts : List Token} {t : Token} {next : Builder}
    (h : Opened limit stack ts) (hbegin : begin? limit stack t = some next) : Reads limit next (ts ++ [t]) := by
  have hroom : stack.length + (limit - stack.length) = limit := Nat.add_sub_cancel' h.length_le
  cases t with
  | scalar v =>
    obtain rfl := Option.some.inj hbegin
    exact reads_complete h (.scalar _ v) hroom
  | string s =>
    obtain rfl := Option.some.inj hbegin
    exact reads_complete h (.string _ s) hroom
  | openArray =>
    rw [begin?] at hbegin
    split at hbegin
    · next hfits =>
      obtain rfl := Option.some.inj hbegin
      exact .firstItem h hfits
    · cases hbegin
  | openObject =>
    rw [begin?] at hbegin
    split at hbegin
    · next hfits =>
      obtain rfl := Option.some.inj hbegin
      exact .firstKey h hfits
    · cases hbegin
  | _ => simp [begin?] at hbegin

/-- **One token keeps what the state tells of the tokens behind it.** -/
theorem reads_step {state next : Builder} {ts : List Token} {t : Token} (h : Reads limit state ts)
    (hstep : step? limit state t = some next) : Reads limit next (ts ++ [t]) := by
  cases h with
  | value opened => exact reads_begin opened hstep
  | @firstItem stack ts opened fits =>
    have hfits : stack.length + 1 + (limit - (stack.length + 1)) = limit := Nat.add_sub_cancel' fits
    by_cases hclose : t = .closeArray
    · subst hclose
      obtain rfl := Option.some.inj hstep
      have hempty : Denotes (limit - (stack.length + 1) + 1) [.openArray, .closeArray] (.array []) :=
        .array [] nofun
      have hreads := reads_complete opened hempty (by omega)
      simpa using hreads
    · rw [awaitsValue_firstItem limit _ t hclose] at hstep
      exact reads_begin (.array opened [] nofun hfits) hstep
  | @firstKey stack ts opened fits =>
    have hfits : stack.length + 1 + (limit - (stack.length + 1)) = limit := Nat.add_sub_cancel' fits
    cases t with
    | closeObject =>
      obtain rfl := Option.some.inj hstep
      have hempty : Denotes (limit - (stack.length + 1) + 1) [.openObject, .closeObject] (.object []) :=
        .object [] nofun
      have hreads := reads_complete opened hempty (by omega)
      simpa using hreads
    | string name =>
      obtain rfl := Option.some.inj hstep
      have hopened := Opened.object opened [] nofun hfits name
      exact .colon (by simpa [eachComma, insertAll] using hopened)
    | _ => exact absurd hstep nofun
  | @key stack ts room outer members each fits =>
    cases t with
    | string name =>
      obtain rfl := Option.some.inj hstep
      have hopened := Opened.object outer members each fits name
      exact .colon (by simpa using hopened)
    | _ => exact absurd hstep nofun
  | @colon stack ts opened =>
    cases t with
    | colon =>
      obtain rfl := Option.some.inj hstep
      exact .value opened
    | _ => exact absurd hstep nofun
  | @moreItems stack ts room outer items ne each fits =>
    cases t with
    | comma =>
      obtain rfl := Option.some.inj hstep
      have hopened := Opened.array outer items each fits
      rw [← separated_append_comma (by simpa using ne)] at hopened
      exact .value (by simpa using hopened)
    | closeArray =>
      obtain rfl := Option.some.inj hstep
      have hreads := reads_complete outer (.array items each) (by omega)
      simpa using hreads
    | _ => exact absurd hstep nofun
  | @moreMembers stack ts room outer members ne each fits name =>
    cases t with
    | comma =>
      obtain rfl := Option.some.inj hstep
      have hreads := Reads.key outer members each fits
      rw [← separated_append_comma (by simpa using ne)] at hreads
      simpa using hreads
    | closeObject =>
      obtain rfl := Option.some.inj hstep
      have hreads := reads_complete outer (.object members each) (by omega)
      rw [object_insertAll]
      simpa using hreads
    | _ => exact absurd hstep nofun
  | done denotes => exact absurd hstep nofun

/-- What the state tells of the tokens behind it stays true along further tokens. -/
theorem reads_run {state final : Builder} {ts us : List Token} (h : Reads limit state ts)
    (hrun : us.foldlM (step? limit) state = some final) : Reads limit final (ts ++ us) := by
  induction us generalizing state ts with
  | nil =>
    obtain rfl := Option.some.inj hrun
    simpa using h
  | cons t us ih =>
    rw [List.foldlM_cons] at hrun
    obtain ⟨next, hstep, hrest⟩ := Option.bind_eq_some_iff.mp hrun
    rw [List.append_cons]
    exact ih (reads_step h hstep) hrest

end Builder

/-! ## Whole texts -/

/-- **The reader accepts the texts of values, and only these.** -/
theorem readLimited?_eq_some_iff {limit : Nat} {text : List Char} {v : Json} :
    readLimited? limit text = some v ↔ ∃ ts, Spells text ts ∧ Denotes limit ts v := by
  unfold readLimited?
  constructor
  · intro h
    obtain ⟨ts, hts, h⟩ := Option.bind_eq_some_iff.mp h
    obtain ⟨final, hrun, hresult⟩ := Option.bind_eq_some_iff.mp h
    have hreads := Builder.reads_run (.value .nil) hrun
    rw [List.nil_append] at hreads
    cases hreads with
    | done denotes =>
      obtain rfl := Option.some.inj hresult
      exact ⟨ts, tokens?_eq_some_iff.mp hts, denotes⟩
    | _ => exact absurd hresult nofun
  · rintro ⟨ts, hspells, hdenotes⟩
    have hbuilds : Builder.Builds limit limit ts v := Builder.builds_of_denotes hdenotes
    have hrun := hbuilds [] (.value []) (Builder.awaitsValue_value limit [])
      (Nat.le_of_eq (Nat.zero_add limit))
    rw [tokens?_eq_some_iff.mpr hspells, Option.bind_some, hrun]
    rfl

theorem readBytes?_eq_some_iff {bytes : List UInt8} {v : Json} :
    readBytes? bytes = some v ↔ IsText maxDepth bytes v := by
  unfold readBytes? IsText
  constructor
  · intro h
    obtain ⟨text, htext, h⟩ := Option.bind_eq_some_iff.mp h
    obtain ⟨ts, hspells, hdenotes⟩ := readLimited?_eq_some_iff.mp h
    exact ⟨text, ts, (Utf8.decode?_eq_some_iff.mp htext).symm, hspells, hdenotes⟩
  · rintro ⟨text, ts, rfl, hspells, hdenotes⟩
    rw [Utf8.decode?_encode, Option.bind_some]
    exact readLimited?_eq_some_iff.mpr ⟨ts, hspells, hdenotes⟩

end Json
end NoticeServer
