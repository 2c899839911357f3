import NoticeServer.Proofs.Text.Utf8
import NoticeServer.Text.Excerpt

/-!
# `NoticeServer.Proofs.Text.Excerpt` — the longest start of a text within a limit

An offset into a text is in one of its characters or at its end (`exists_char_at`). In a character only the
offset of its first byte is a boundary, so the search goes back by less than the size of the character, which
is four bytes at most (`StepsBack`), and what stands in front of this character is the longest start that fits
(`LongestStart`).
-/

namespace NoticeServer
namespace Text

open Utf8

/-! ## Characters at offsets -/

theorem length_encode_cons (c : Char) (text : List Char) :
    (encode (c :: text)).length = c.utf8Size + (encode text).length := by
  rw [encode_cons, List.length_append, String.length_utf8EncodeChar]

theorem length_encode_append (s t : List Char) :
    (encode (s ++ t)).length = (encode s).length + (encode t).length := by
  rw [encode_append, List.length_append]

/-- **Every offset in front of the end is in a character.** -/
theorem exists_char_at {text : List Char} {offset : Nat} (h : offset < (encode text).length) :
    ∃ start c rest, text = start ++ c :: rest ∧ (encode start).length ≤ offset ∧
      offset < (encode start).length + c.utf8Size := by
  induction text generalizing offset with
  | nil => exact absurd h (Nat.not_lt_zero offset)
  | cons c text ih =>
    by_cases hc : offset < c.utf8Size
    · exact ⟨[], c, text, rfl, Nat.zero_le offset, by rwa [encode_nil, List.length_nil, Nat.zero_add]⟩
    · rw [length_encode_cons] at h
      obtain ⟨start, d, rest, rfl, hle, hlt⟩ := @ih (offset - c.utf8Size) (by omega)
      refine ⟨c :: start, d, rest, rfl, ?_, ?_⟩ <;> rw [length_encode_cons] <;> omega

variable {start rest : List Char} {c : Char}

/-- **In a character** only the offset of its first byte is a boundary. -/
theorem isBoundary_inside {k : Nat} (hk : k < c.utf8Size) :
    isBoundary (encode (start ++ c :: rest)) ((encode start).length + k) = true ↔ k = 0 := by
  have hchar : k < (String.utf8EncodeChar c).length := by rwa [String.length_utf8EncodeChar]
  have hbyte : (encode (start ++ c :: rest))[(encode start).length + k]? =
      some ((String.utf8EncodeChar c)[k]) := by
    rw [encode_append, encode_cons, List.getElem?_append_right (Nat.le_add_right _ k),
      Nat.add_sub_cancel_left, List.getElem?_append_left hchar, List.getElem?_eq_getElem hchar]
  have hend : (encode start).length + k ≠ (encode (start ++ c :: rest)).length := by
    rw [length_encode_append, length_encode_cons]
    omega
  rw [isBoundary, hbyte]
  simp only [Option.any_some, UInt8.isUTF8FirstByte_getElem_utf8EncodeChar, Bool.or_eq_true, beq_iff_eq,
    decide_eq_true_eq, hend, or_false]
  omega

/-- **Boundaries are where the starts of a text end.** -/
theorem isBoundary_iff {text : List Char} {offset : Nat} :
    isBoundary (encode text) offset = true ↔ ∃ start, start <+: text ∧ (encode start).length = offset := by
  constructor
  · intro h
    by_cases hlt : offset < (encode text).length
    · obtain ⟨start, c, rest, rfl, hle, hinside⟩ := exists_char_at hlt
      obtain ⟨k, rfl⟩ := Nat.exists_eq_add_of_le hle
      obtain rfl := (isBoundary_inside (by omega)).mp h
      exact ⟨start, List.prefix_append start _, rfl⟩
    · -- behind the last byte there is only the end
      have hnone : (encode text)[offset]? = none := List.getElem?_eq_none (Nat.le_of_not_lt hlt)
      rw [isBoundary, hnone, Option.any_none, Bool.or_false, Bool.or_eq_true, beq_iff_eq, beq_iff_eq] at h
      rcases h with rfl | rfl
      · exact ⟨[], List.nil_prefix, rfl⟩
      · exact ⟨text, List.prefix_refl text, rfl⟩
  · rintro ⟨start, ⟨rest, rfl⟩, rfl⟩
    cases rest with
    | nil => rw [List.append_nil, isBoundary, beq_self_eq_true, Bool.or_true, Bool.true_or]
    | cons c rest => exact (isBoundary_inside (k := 0) c.utf8Size_pos).mpr rfl

/-! ## The search -/

/-- The search from an offset takes a number of steps back, each from an offset that is no boundary and not
the start, and stops at a boundary. -/
inductive StepsBack (bytes : List UInt8) : Nat → Nat → Nat → Prop where
  | stop {offset : Nat} (h : isBoundary bytes offset = true) : StepsBack bytes offset 0 offset
  | back {offset steps stop : Nat} (h : ¬ isBoundary bytes (offset + 1) = true)
      (more : StepsBack bytes offset steps stop) : StepsBack bytes (offset + 1) (steps + 1) stop

/-- **The search finds a boundary just where its steps lead to it.** -/
theorem boundaryUpTo?_eq_some_iff {bytes : List UInt8} {offset stop : Nat} :
    boundaryUpTo? bytes offset = some stop ↔ ∃ steps, StepsBack bytes offset steps stop := by
  constructor
  · intro h
    induction offset with
    | zero =>
      obtain rfl := Option.some.inj h
      exact ⟨0, .stop (isBoundary_zero bytes)⟩
    | succ offset ih =>
      rw [boundaryUpTo?] at h
      split at h
      · next hboundary =>
        obtain rfl := Option.some.inj h
        exact ⟨0, .stop hboundary⟩
      · next hboundary =>
        obtain ⟨steps, hsteps⟩ := ih h
        exact ⟨steps + 1, .back hboundary hsteps⟩
  · rintro ⟨steps, h⟩
    induction h with
    | stop h => rw [boundaryUpTo?.eq_def, if_pos h]
    | back h more ih => rw [boundaryUpTo?, if_neg h]; exact ih

/-- From inside a character the search goes back to where the character begins. -/
theorem stepsBack_inside {k : Nat} (hk : k < c.utf8Size) :
    StepsBack (encode (start ++ c :: rest)) ((encode start).length + k) k (encode start).length := by
  induction k with
  | zero => exact .stop ((isBoundary_inside hk).mpr rfl)
  | succ k ih =>
    have hinside : ¬ isBoundary (encode (start ++ c :: rest)) ((encode start).length + (k + 1)) = true := by
      rw [isBoundary_inside hk]
      exact Nat.succ_ne_zero k
    exact .back hinside (ih (Nat.lt_of_succ_lt hk))

/-! ## Excerpts -/

/-- The longest start of a text that has at most `limit` bytes. -/
structure LongestStart (limit : Nat) (text kept : List Char) : Prop where
  start : kept <+: text
  fits : (encode kept).length ≤ limit
  longest : ∀ other, other <+: text → (encode other).length ≤ limit → other <+: kept

/-- What stands in front of the character at the limit is the longest start that fits. -/
theorem longestStart_inside {limit : Nat} (hle : (encode start).length ≤ limit)
    (hlt : limit < (encode start).length + c.utf8Size) : LongestStart limit (start ++ c :: rest) start where
  start := List.prefix_append start (c :: rest)
  fits := hle
  longest := by
    intro other hother hfits
    rcases List.prefix_or_prefix_of_prefix hother (List.prefix_append start (c :: rest)) with h | ⟨more, rfl⟩
    · exact h
    · cases more with
      | nil => simp
      | cons d more =>
        -- a longer start contains the character at the limit
        obtain ⟨rfl, -⟩ := List.cons_prefix_cons.mp ((List.prefix_append_right_inj start).mp hother)
        rw [length_encode_append, length_encode_cons] at hfits
        omega

theorem decodeLossy_encode (text : List Char) : decodeLossy (encode text) = text := by
  rw [decodeLossy, pieces_encode, List.map_map]
  exact List.map_id text

/-- The text in front of a character is what was written there. -/
theorem before?_inside :
    before? (encode (start ++ c :: rest)) (encode start).length = some start := by
  have hboundary : isBoundary (encode (start ++ c :: rest)) (encode start).length = true :=
    isBoundary_iff.mpr ⟨start, List.prefix_append start (c :: rest), rfl⟩
  rw [before?, if_pos hboundary, encode_append, List.take_left, decodeLossy_encode]

/-- **A text that fits** is its own excerpt. -/
theorem excerpt?_of_le {text : List Char} {limit : Nat} (h : (encode text).length ≤ limit) :
    excerpt? text limit = some text := by
  rw [excerpt?, if_pos h]

/-- **A text that does not fit** is cut behind its longest start that does, at most three steps in front of
the limit. -/
theorem excerpt?_of_lt {text : List Char} {limit : Nat} (h : limit < (encode text).length) :
    ∃ kept steps, LongestStart limit text kept ∧
      boundaryUpTo? (encode text) limit = some (encode kept).length ∧
      StepsBack (encode text) limit steps (encode kept).length ∧ steps ≤ 3 ∧
      excerpt? text limit = some (kept ++ ['…']) := by
  obtain ⟨start, c, rest, rfl, hle, hlt⟩ := exists_char_at h
  obtain ⟨k, rfl⟩ := Nat.exists_eq_add_of_le hle
  have hk : k < c.utf8Size := by omega
  have hsize : c.utf8Size ≤ 4 := c.utf8Size_le_four
  have hback : StepsBack (encode (start ++ c :: rest)) ((encode start).length + k) k (encode start).length :=
    stepsBack_inside hk
  have hsearch := boundaryUpTo?_eq_some_iff.mpr ⟨k, hback⟩
  refine ⟨start, k, longestStart_inside hle hlt, hsearch, hback, by omega, ?_⟩
  rw [excerpt?, if_neg (Nat.not_le_of_lt h), hsearch, Option.bind_some, before?_inside]
  rfl

example : excerpt "aéz".toList 2 = "a…".toList := by decide

/-- The excerpt of a text is a start of it that fits, or such a start with an ellipsis. -/
theorem exists_kept_of_excerpt? {text told : List Char} {limit : Nat} (h : excerpt? text limit = some told) :
    ∃ kept, kept <+: text ∧ (encode kept).length ≤ limit ∧ (told = kept ∨ told = kept ++ ['…']) := by
  by_cases hfits : (encode text).length ≤ limit
  · rw [excerpt?_of_le hfits] at h
    exact ⟨text, List.prefix_refl text, hfits, .inl (Option.some.inj h).symm⟩
  · obtain ⟨kept, _, hkept, -, -, -, hcut⟩ := excerpt?_of_lt (Nat.lt_of_not_le hfits)
    rw [hcut] at h
    exact ⟨kept, hkept.start, hkept.fits, .inr (Option.some.inj h).symm⟩

end Text
end NoticeServer
