import NoticeServer.Text.Utf8

/-!
# `NoticeServer.Proofs.Text.Utf8` — what is written as UTF-8 reads back

The decoder is followed through the bytes of one character: the lead byte fixes how many bytes are missing
and which second bytes are allowed, and the bytes behind it restore the code point. A text follows by
induction, because the decoder stands between characters again after each of them (`decode?_encode`).
-/

namespace NoticeServer
namespace Utf8

/-! ## Single bytes -/

theorem ofNat_eq_iff {n : Nat} (h : n < 256) (b : UInt8) : UInt8.ofNat n = b ↔ n = b.toNat := by
  rw [← UInt8.toNat_inj, UInt8.toNat_ofNat_of_lt' h]

/-- A byte of its own. -/
theorem lead_one {n : Nat} (h : n < 0x80) :
    lead (UInt8.ofNat n) = (none, [.char (Char.ofNat n)]) := by
  have hn : n < 256 := by omega
  unfold lead
  simp only [UInt8.ofNat_lt_iff hn, UInt8.toNat_ofNat_of_lt' hn, UInt8.reduceToNat]
  rw [if_pos h]

/-- The first of two bytes. -/
theorem lead_two {n : Nat} (hl : 0xC2 ≤ n) (hu : n < 0xE0) :
    lead (UInt8.ofNat n) = (some ⟨n - 0xC0, 1, 0x80, 0xBF⟩, []) := by
  have hn : n < 256 := by omega
  unfold lead
  simp only [UInt8.ofNat_lt_iff hn, UInt8.toNat_ofNat_of_lt' hn, UInt8.reduceToNat]
  rw [if_neg (by omega), if_neg (by omega), if_pos hu]

/-- The first of three bytes. Two of these lead bytes restrict the second byte. -/
theorem lead_three {n : Nat} (hl : 0xE0 ≤ n) (hu : n < 0xF0) :
    lead (UInt8.ofNat n) =
      (some ⟨n - 0xE0, 2, if n = 0xE0 then 0xA0 else 0x80, if n = 0xED then 0x9F else 0xBF⟩, []) := by
  have hn : n < 256 := by omega
  unfold lead
  simp only [UInt8.ofNat_lt_iff hn, ofNat_eq_iff hn, UInt8.toNat_ofNat_of_lt' hn, UInt8.reduceToNat]
  rw [if_neg (by omega), if_neg (by omega), if_neg (by omega), if_pos hu]

/-- The first of four bytes. Two of these lead bytes restrict the second byte. -/
theorem lead_four {n : Nat} (hl : 0xF0 ≤ n) (hu : n < 0xF5) :
    lead (UInt8.ofNat n) =
      (some ⟨n - 0xF0, 3, if n = 0xF0 then 0x90 else 0x80, if n = 0xF4 then 0x8F else 0xBF⟩, []) := by
  have hn : n < 256 := by omega
  unfold lead
  simp only [UInt8.ofNat_lt_iff hn, ofNat_eq_iff hn, UInt8.toNat_ofNat_of_lt' hn, UInt8.reduceToNat]
  rw [if_neg (by omega), if_neg (by omega), if_neg (by omega), if_neg (by omega), if_pos hu]

/-- The bounds of an unfinished character, as numbers. -/
theorem allowed {p : Pending} {n : Nat} (hn : n < 256) (hl : p.low.toNat ≤ n)
    (hh : n ≤ p.high.toNat) : p.low ≤ UInt8.ofNat n ∧ UInt8.ofNat n ≤ p.high := by
  rw [UInt8.le_iff_toNat_le, UInt8.le_iff_toNat_le, UInt8.toNat_ofNat_of_lt' hn]
  exact ⟨hl, hh⟩

/-- A byte in the middle of a character adds six bits. -/
theorem step_continue {p : Pending} {n : Nat} (hn : n < 256) (hl : p.low.toNat ≤ n)
    (hh : n ≤ p.high.toNat) (hm : p.missing ≠ 1) :
    step (some p) (UInt8.ofNat n) =
      (some ⟨p.value * 64 + (n - 0x80), p.missing - 1, 0x80, 0xBF⟩, []) := by
  simp only [step, if_pos (allowed hn hl hh), if_neg hm, UInt8.toNat_ofNat_of_lt' hn]

/-- The last byte of a character completes it. -/
theorem step_last {p : Pending} {n : Nat} (hn : n < 256) (hl : p.low.toNat ≤ n)
    (hh : n ≤ p.high.toNat) (hm : p.missing = 1) :
    step (some p) (UInt8.ofNat n) = (none, [.char (Char.ofNat (p.value * 64 + (n - 0x80)))]) := by
  simp only [step, if_pos (allowed hn hl hh), if_pos hm, UInt8.toNat_ofNat_of_lt' hn]

/-- One byte, with the pieces it completes put in front of those found before. -/
theorem feed_of_step {state next : Option Pending} {b : UInt8} {found now : List Piece}
    (h : step state b = (next, now)) : feed (state, found) b = (next, now.reverse ++ found) := by
  unfold feed
  rw [h]

/-! ## The bytes of one character, as numbers -/

theorem toNat_ite_le {p : Prop} [Decidable p] {x y : UInt8} {b : Nat} (hx : p → x.toNat ≤ b)
    (hy : y.toNat ≤ b) : (if p then x else y).toNat ≤ b := by
  split
  · exact hx ‹_›
  · exact hy

theorem le_toNat_ite {p : Prop} [Decidable p] {x y : UInt8} {b : Nat} (hx : p → b ≤ x.toNat)
    (hy : b ≤ y.toNat) : b ≤ (if p then x else y).toNat := by
  split
  · exact hx ‹_›
  · exact hy

theorem foldl_feed_two {a b : Nat} (ha : 0xC2 ≤ a ∧ a < 0xE0) (hb : 0x80 ≤ b ∧ b ≤ 0xBF)
    (found : List Piece) :
    [UInt8.ofNat a, UInt8.ofNat b].foldl feed (none, found) =
      (none, .char (Char.ofNat ((a - 0xC0) * 64 + (b - 0x80))) :: found) := by
  have h₁ : step none (UInt8.ofNat a) = _ := lead_two ha.1 ha.2
  rw [List.foldl_cons, feed_of_step h₁, List.foldl_cons,
    feed_of_step (step_last (by omega) hb.1 hb.2 rfl)]
  rfl

theorem foldl_feed_three {a b c : Nat} (ha : 0xE0 ≤ a ∧ a < 0xF0) (hb : 0x80 ≤ b ∧ b ≤ 0xBF)
    (hlow : a = 0xE0 → 0xA0 ≤ b) (hhigh : a = 0xED → b ≤ 0x9F) (hc : 0x80 ≤ c ∧ c ≤ 0xBF)
    (found : List Piece) :
    [UInt8.ofNat a, UInt8.ofNat b, UInt8.ofNat c].foldl feed (none, found) =
      (none, .char (Char.ofNat (((a - 0xE0) * 64 + (b - 0x80)) * 64 + (c - 0x80))) :: found) := by
  have h₁ : step none (UInt8.ofNat a) = _ := lead_three ha.1 ha.2
  have hl : (if a = 0xE0 then 0xA0 else 0x80 : UInt8).toNat ≤ b := toNat_ite_le hlow hb.1
  have hh : b ≤ (if a = 0xED then 0x9F else 0xBF : UInt8).toNat := le_toNat_ite hhigh hb.2
  rw [List.foldl_cons, feed_of_step h₁, List.foldl_cons,
    feed_of_step (step_continue (by omega) hl hh (by simp)), List.foldl_cons,
    feed_of_step (step_last (by omega) hc.1 hc.2 rfl)]
  rfl

theorem foldl_feed_four {a b c d : Nat} (ha : 0xF0 ≤ a ∧ a < 0xF5) (hb : 0x80 ≤ b ∧ b ≤ 0xBF)
    (hlow : a = 0xF0 → 0x90 ≤ b) (hhigh : a = 0xF4 → b ≤ 0x8F) (hc : 0x80 ≤ c ∧ c ≤ 0xBF)
    (hd : 0x80 ≤ d ∧ d ≤ 0xBF) (found : List Piece) :
    [UInt8.ofNat a, UInt8.ofNat b, UInt8.ofNat c, UInt8.ofNat d].foldl feed (none, found) =
      (none, .char (Char.ofNat
        ((((a - 0xF0) * 64 + (b - 0x80)) * 64 + (c - 0x80)) * 64 + (d - 0x80))) :: found) := by
  have h₁ : step none (UInt8.ofNat a) = _ := lead_four ha.1 ha.2
  have hl : (if a = 0xF0 then 0x90 else 0x80 : UInt8).toNat ≤ b := toNat_ite_le hlow hb.1
  have hh : b ≤ (if a = 0xF4 then 0x8F else 0xBF : UInt8).toNat := le_toNat_ite hhigh hb.2
  rw [List.foldl_cons, feed_of_step h₁, List.foldl_cons,
    feed_of_step (step_continue (by omega) hl hh (by simp)), List.foldl_cons,
    feed_of_step (step_continue (by omega) hc.1 hc.2 (by simp)), List.foldl_cons,
    feed_of_step (step_last (by omega) hd.1 hd.2 rfl)]
  rfl

/-! ## Characters and texts -/

/-- The bytes of one character are read as this character. -/
theorem foldl_feed_encodeChar (c : Char) (found : List Piece) :
    (String.utf8EncodeChar c).foldl feed (none, found) = (none, .char c :: found) := by
  have hofNat : Char.ofNat c.val.toNat = c := Char.ofNat_toNat c
  -- surrogates are no characters, so the second byte behind `0xED` is in bounds
  have hvalid : c.val.toNat < 0xD800 ∨ (0xDFFF < c.val.toNat ∧ c.val.toNat < 0x110000) := c.valid
  unfold String.utf8EncodeChar
  generalize c.val.toNat = v at hofNat hvalid
  dsimp only
  split
  · have h₁ : step none (UInt8.ofNat v) = _ := lead_one (by omega)
    rw [List.foldl_cons, feed_of_step h₁, hofNat]
    rfl
  -- two bytes or more: the code point is put together again from its parts of six bits
  split
  · have hvalue : (v / 64 % 32 + 0xC0 - 0xC0) * 64 + (v % 64 + 0x80 - 0x80) = v := by omega
    rw [foldl_feed_two (by omega) (by omega), hvalue, hofNat]
  split
  · have hvalue : ((v / 4096 % 16 + 0xE0 - 0xE0) * 64 + (v / 64 % 64 + 0x80 - 0x80)) * 64 +
        (v % 64 + 0x80 - 0x80) = v := by omega
    rw [foldl_feed_three (by omega) (by omega) (by omega) (by omega) (by omega), hvalue, hofNat]
  · have hvalue : (((v / 262144 % 8 + 0xF0 - 0xF0) * 64 + (v / 4096 % 64 + 0x80 - 0x80)) * 64 +
        (v / 64 % 64 + 0x80 - 0x80)) * 64 + (v % 64 + 0x80 - 0x80) = v := by omega
    rw [foldl_feed_four (by omega) (by omega) (by omega) (by omega) (by omega) (by omega), hvalue,
      hofNat]

theorem foldl_feed_encode (text : List Char) (found : List Piece) :
    (encode text).foldl feed (none, found) = (none, (text.map Piece.char).reverse ++ found) := by
  -- each character leaves the decoder between characters, so the induction goes on with more pieces found
  induction text generalizing found with
  | nil => rfl
  | cons c text ih =>
    rw [encode_cons, List.foldl_append, foldl_feed_encodeChar, ih]
    simp

/-- A written text is made of its characters, without a malformed run. -/
theorem pieces_encode (text : List Char) : pieces (encode text) = text.map Piece.char := by
  unfold pieces
  rw [foldl_feed_encode]
  simp [flush]

/-- **The strict reading of a written text is this text.** -/
theorem decode?_encode (text : List Char) : decode? (encode text) = some text := by
  unfold decode?
  rw [pieces_encode]
  induction text with
  | nil => rfl
  | cons c text ih =>
    rw [List.map_cons, List.mapM_cons, ih]
    rfl

end Utf8
end NoticeServer
