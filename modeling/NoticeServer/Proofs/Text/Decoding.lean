import NoticeServer.Proofs.Text.Utf8

/-!
# `NoticeServer.Proofs.Text.Decoding` — the byte strings that are UTF-8

A byte string without a malformed run is the bytes of its characters. A lead byte says how many bytes are
missing; each of them has to keep the bounds of the unfinished character, so the bits that they add up to
have just these bytes as their written form (`encodeChar_one` to `encodeChar_four`). Hence the strict reading
accepts the written texts, and only these (`decode?_eq_some_iff`).
-/

namespace NoticeServer
namespace Utf8

/-! ## Pieces from a state on -/

/-- The pieces from a state on, without those found before. -/
def piecesFrom (state : Option Pending) : List UInt8 → List Piece
  | [] => flush state
  | b :: bytes => (step state b).2 ++ piecesFrom (step state b).1 bytes

theorem foldl_feed_eq (state : Option Pending) (found : List Piece) (bytes : List UInt8) :
    (bytes.foldl feed (state, found)).2.reverse ++ flush (bytes.foldl feed (state, found)).1 =
      found.reverse ++ piecesFrom state bytes := by
  induction bytes generalizing state found with
  | nil => rfl
  | cons b bytes ih =>
    rw [List.foldl_cons, feed, ih, piecesFrom]
    simp

theorem pieces_eq (bytes : List UInt8) : pieces bytes = piecesFrom none bytes :=
  foldl_feed_eq none [] bytes

theorem mapM_char?_eq_some_iff {found : List Piece} {text : List Char} :
    found.mapM Piece.char? = some text ↔ found = text.map .char := by
  induction found generalizing text with
  | nil => cases text <;> simp
  | cons piece found ih =>
    cases piece with
    | malformed => cases text <;> simp [Piece.char?]
    | char c =>
      have hbind : (Piece.char c :: found).mapM Piece.char? = (found.mapM Piece.char?).map (c :: ·) := by
        rw [List.mapM_cons]
        exact Option.map_eq_bind.symm
      rw [hbind, Option.map_eq_some_iff]
      cases text with
      | nil => simp
      | cons d text =>
        simp only [ih, List.cons.injEq, List.map_cons, Piece.char.injEq]
        exact ⟨fun ⟨_, hfound, hc, htext⟩ => ⟨hc, htext ▸ hfound⟩,
          fun ⟨hc, hfound⟩ => ⟨text, hfound, hc, rfl⟩⟩

/-- The bytes behind an unfinished character: one within its bounds, and those behind that byte. -/
theorem rest_of_pending {p : Pending} {bytes : List UInt8} {text : List Char}
    (h : piecesFrom (some p) bytes = text.map .char) :
    ∃ b rest, bytes = b :: rest ∧ p.low.toNat ≤ b.toNat ∧ b.toNat ≤ p.high.toNat ∧
      if p.missing = 1 then
        ∃ more, text = Char.ofNat (p.value * 64 + (b.toNat - 0x80)) :: more ∧
          piecesFrom none rest = more.map .char
      else
        piecesFrom (some ⟨p.value * 64 + (b.toNat - 0x80), p.missing - 1, 0x80, 0xBF⟩) rest =
          text.map .char := by
  cases bytes with
  | nil => cases text <;> simp [piecesFrom, flush] at h
  | cons b rest =>
    by_cases hrange : p.low ≤ b ∧ b ≤ p.high
    · refine ⟨b, rest, rfl, UInt8.le_iff_toNat_le.mp hrange.1, UInt8.le_iff_toNat_le.mp hrange.2, ?_⟩
      by_cases hlast : p.missing = 1
      · rw [if_pos hlast]
        cases text with
        | nil => simp [piecesFrom, step, hrange, hlast] at h
        | cons c more =>
          simp only [piecesFrom, step, hrange, hlast, and_self, if_true, List.cons_append, List.nil_append,
            List.map_cons, List.cons.injEq, Piece.char.injEq] at h
          exact ⟨more, by rw [h.1], h.2⟩
      · rw [if_neg hlast]
        simpa [piecesFrom, step, hrange, hlast] using h
    · cases text <;> simp [piecesFrom, step, hrange] at h

/-! ## The bytes of a code point -/

theorem toNat_ofNat {n : Nat} (h : n < 0xD800 ∨ (0xDFFF < n ∧ n < 0x110000)) :
    (Char.ofNat n).val.toNat = n := by
  have hvalid : n.isValidChar := h
  rw [Char.ofNat, dif_pos hvalid]
  rfl

theorem encodeChar_one {a : Nat} (ha : a < 0x80) :
    String.utf8EncodeChar (Char.ofNat a) = [UInt8.ofNat a] := by
  unfold String.utf8EncodeChar
  simp only [toNat_ofNat (show a < 0xD800 ∨ _ from .inl (by omega))]
  rw [if_pos (by omega)]

theorem encodeChar_two {a b : Nat} (ha : 0xC2 ≤ a ∧ a < 0xE0) (hb : 0x80 ≤ b ∧ b ≤ 0xBF) :
    String.utf8EncodeChar (Char.ofNat ((a - 0xC0) * 64 + (b - 0x80))) =
      [UInt8.ofNat a, UInt8.ofNat b] := by
  generalize hn : (a - 0xC0) * 64 + (b - 0x80) = n
  have hparts : n / 64 % 32 + 0xC0 = a ∧ n % 64 + 0x80 = b := by omega
  unfold String.utf8EncodeChar
  simp only [toNat_ofNat (show n < 0xD800 ∨ _ from .inl (by omega))]
  rw [if_neg (by omega), if_pos (by omega), hparts.1, hparts.2]

theorem encodeChar_three {a b c : Nat} (ha : 0xE0 ≤ a ∧ a < 0xF0) (hb : 0x80 ≤ b ∧ b ≤ 0xBF)
    (hlow : a = 0xE0 → 0xA0 ≤ b) (hhigh : a = 0xED → b ≤ 0x9F) (hc : 0x80 ≤ c ∧ c ≤ 0xBF) :
    String.utf8EncodeChar (Char.ofNat (((a - 0xE0) * 64 + (b - 0x80)) * 64 + (c - 0x80))) =
      [UInt8.ofNat a, UInt8.ofNat b, UInt8.ofNat c] := by
  generalize hn : ((a - 0xE0) * 64 + (b - 0x80)) * 64 + (c - 0x80) = n
  have hvalid : n < 0xD800 ∨ (0xDFFF < n ∧ n < 0x110000) := by omega
  have hparts : n / 4096 % 16 + 0xE0 = a ∧ n / 64 % 64 + 0x80 = b ∧ n % 64 + 0x80 = c := by omega
  unfold String.utf8EncodeChar
  simp only [toNat_ofNat hvalid]
  rw [if_neg (by omega), if_neg (by omega), if_pos (by omega), hparts.1, hparts.2.1, hparts.2.2]

theorem encodeChar_four {a b c d : Nat} (ha : 0xF0 ≤ a ∧ a < 0xF5) (hb : 0x80 ≤ b ∧ b ≤ 0xBF)
    (hlow : a = 0xF0 → 0x90 ≤ b) (hhigh : a = 0xF4 → b ≤ 0x8F) (hc : 0x80 ≤ c ∧ c ≤ 0xBF)
    (hd : 0x80 ≤ d ∧ d ≤ 0xBF) :
    String.utf8EncodeChar
        (Char.ofNat ((((a - 0xF0) * 64 + (b - 0x80)) * 64 + (c - 0x80)) * 64 + (d - 0x80))) =
      [UInt8.ofNat a, UInt8.ofNat b, UInt8.ofNat c, UInt8.ofNat d] := by
  generalize hn : (((a - 0xF0) * 64 + (b - 0x80)) * 64 + (c - 0x80)) * 64 + (d - 0x80) = n
  have hvalid : n < 0xD800 ∨ (0xDFFF < n ∧ n < 0x110000) := by omega
  have hparts : n / 262144 % 8 + 0xF0 = a ∧ n / 4096 % 64 + 0x80 = b ∧ n / 64 % 64 + 0x80 = c ∧
      n % 64 + 0x80 = d := by omega
  unfold String.utf8EncodeChar
  simp only [toNat_ofNat hvalid]
  rw [if_neg (by omega), if_neg (by omega), if_neg (by omega), hparts.1, hparts.2.1, hparts.2.2.1,
    hparts.2.2.2]

/-- An ASCII byte belongs only to the character that it is. -/
theorem mem_encodeChar_iff {n : Nat} (hn : n < 0x80) (c : Char) :
    UInt8.ofNat n ∈ String.utf8EncodeChar c ↔ c.toNat = n := by
  have hmax : c.val.toNat < 0x110000 := by
    rcases c.valid with h | h
    · exact Nat.lt_trans h (by decide)
    · exact h.2
  have hbyte : ∀ m, m < 256 → (UInt8.ofNat n = UInt8.ofNat m ↔ n = m) := fun m hm => by
    rw [ofNat_eq_iff (by omega), UInt8.toNat_ofNat_of_lt' hm]
  show _ ↔ c.val.toNat = n
  unfold String.utf8EncodeChar
  generalize c.val.toNat = v at hmax
  dsimp only
  split
  · rw [List.mem_singleton]
    exact (hbyte v (by omega)).trans eq_comm
  -- every byte of a longer form has its highest bit set
  split
  · simp only [List.mem_cons, List.not_mem_nil, or_false]
    rw [hbyte _ (by omega), hbyte _ (by omega)]
    omega
  split
  · simp only [List.mem_cons, List.not_mem_nil, or_false]
    rw [hbyte _ (by omega), hbyte _ (by omega), hbyte _ (by omega)]
    omega
  · simp only [List.mem_cons, List.not_mem_nil, or_false]
    rw [hbyte _ (by omega), hbyte _ (by omega), hbyte _ (by omega), hbyte _ (by omega)]
    omega

/-- An ASCII byte is among the bytes of a text only as the character that it is. -/
theorem mem_encode_iff {d : Char} (hd : d.toNat < 0x80) (text : List Char) :
    UInt8.ofNat d.toNat ∈ encode text ↔ d ∈ text := by
  unfold encode
  rw [List.mem_flatMap]
  constructor
  · rintro ⟨c, hc, hmem⟩
    obtain rfl : c = d := Char.toNat_inj.mp ((mem_encodeChar_iff hd c).mp hmem)
    exact hc
  · exact fun h => ⟨d, h, (mem_encodeChar_iff hd d).mpr rfl⟩

/-! ## Texts -/

/-- The bytes that begin no character. -/
theorem lead_malformed {n : Nat} (h : (0x80 ≤ n ∧ n < 0xC2) ∨ (0xF5 ≤ n ∧ n < 256)) :
    lead (UInt8.ofNat n) = (none, [.malformed]) := by
  have hn : n < 256 := by omega
  unfold lead
  simp only [UInt8.ofNat_lt_iff hn, UInt8.reduceToNat]
  rw [if_neg (by omega)]
  split
  · rfl
  · rw [if_neg (by omega), if_neg (by omega), if_neg (by omega)]

theorem le_of_toNat_ite_le {p : Prop} [Decidable p] {x y : UInt8} {b : Nat}
    (h : (if p then x else y).toNat ≤ b) (hxy : y.toNat ≤ x.toNat) :
    (p → x.toNat ≤ b) ∧ y.toNat ≤ b := by
  split at h
  · exact ⟨fun _ => h, Nat.le_trans hxy h⟩
  · next hp => exact ⟨fun hp' => absurd hp' hp, h⟩

theorem le_of_le_toNat_ite {p : Prop} [Decidable p] {x y : UInt8} {b : Nat}
    (h : b ≤ (if p then x else y).toNat) (hxy : x.toNat ≤ y.toNat) :
    (p → b ≤ x.toNat) ∧ b ≤ y.toNat := by
  split at h
  · exact ⟨fun _ => h, Nat.le_trans h hxy⟩
  · next hp => exact ⟨fun hp' => absurd hp' hp, h⟩

/-- The pieces of some bytes are characters, of which the first is written as these bytes begin. -/
def Begins (bytes : List UInt8) (text : List Char) : Prop :=
  ∃ c more rest, text = c :: more ∧ bytes = String.utf8EncodeChar c ++ rest ∧
    piecesFrom none rest = more.map .char

theorem begins_two {a : Nat} {bytes : List UInt8} {text : List Char} (ha : 0xC2 ≤ a ∧ a < 0xE0)
    (h : piecesFrom (some ⟨a - 0xC0, 1, 0x80, 0xBF⟩) bytes = text.map .char) :
    Begins (UInt8.ofNat a :: bytes) text := by
  obtain ⟨b, rest, rfl, hbl, hbh, more, rfl, hmore⟩ := rest_of_pending h
  refine ⟨_, more, rest, rfl, ?_, hmore⟩
  rw [encodeChar_two ha ⟨hbl, hbh⟩, UInt8.ofNat_toNat]
  rfl

theorem begins_three {a : Nat} {bytes : List UInt8} {text : List Char} (ha : 0xE0 ≤ a ∧ a < 0xF0)
    (h : piecesFrom
      (some ⟨a - 0xE0, 2, if a = 0xE0 then 0xA0 else 0x80, if a = 0xED then 0x9F else 0xBF⟩) bytes =
        text.map .char) : Begins (UInt8.ofNat a :: bytes) text := by
  obtain ⟨b, rest, rfl, hbl, hbh, h⟩ := rest_of_pending h
  obtain ⟨c, rest, rfl, hcl, hch, more, rfl, hmore⟩ := rest_of_pending h
  obtain ⟨hlow, hbl⟩ := le_of_toNat_ite_le hbl (by decide)
  obtain ⟨hhigh, hbh⟩ := le_of_le_toNat_ite hbh (by decide)
  refine ⟨_, more, rest, rfl, ?_, hmore⟩
  rw [encodeChar_three ha ⟨hbl, hbh⟩ hlow hhigh ⟨hcl, hch⟩, UInt8.ofNat_toNat, UInt8.ofNat_toNat]
  rfl

theorem begins_four {a : Nat} {bytes : List UInt8} {text : List Char} (ha : 0xF0 ≤ a ∧ a < 0xF5)
    (h : piecesFrom
      (some ⟨a - 0xF0, 3, if a = 0xF0 then 0x90 else 0x80, if a = 0xF4 then 0x8F else 0xBF⟩) bytes =
        text.map .char) : Begins (UInt8.ofNat a :: bytes) text := by
  obtain ⟨b, rest, rfl, hbl, hbh, h⟩ := rest_of_pending h
  obtain ⟨c, rest, rfl, hcl, hch, h⟩ := rest_of_pending h
  obtain ⟨d, rest, rfl, hdl, hdh, more, rfl, hmore⟩ := rest_of_pending h
  obtain ⟨hlow, hbl⟩ := le_of_toNat_ite_le hbl (by decide)
  obtain ⟨hhigh, hbh⟩ := le_of_le_toNat_ite hbh (by decide)
  refine ⟨_, more, rest, rfl, ?_, hmore⟩
  rw [encodeChar_four ha ⟨hbl, hbh⟩ hlow hhigh ⟨hcl, hch⟩ ⟨hdl, hdh⟩, UInt8.ofNat_toNat,
    UInt8.ofNat_toNat, UInt8.ofNat_toNat]
  rfl

theorem begins_of_piecesFrom {b : UInt8} {bytes : List UInt8} {text : List Char}
    (h : piecesFrom none (b :: bytes) = text.map .char) : Begins (b :: bytes) text := by
  obtain ⟨a, ha, rfl⟩ : ∃ a, a < 256 ∧ b = UInt8.ofNat a := ⟨b.toNat, b.toNat_lt, UInt8.ofNat_toNat.symm⟩
  rw [piecesFrom, show step none (UInt8.ofNat a) = lead (UInt8.ofNat a) from rfl] at h
  by_cases hbad : (0x80 ≤ a ∧ a < 0xC2) ∨ (0xF5 ≤ a ∧ a < 256)
  · rw [lead_malformed hbad] at h
    cases text <;> simp at h
  by_cases hone : a < 0x80
  · rw [lead_one hone] at h
    cases text with
    | nil => exact absurd h nofun
    | cons c more =>
      obtain ⟨hc, hmore⟩ := List.cons.inj h
      obtain rfl := Piece.char.inj hc
      exact ⟨_, more, bytes, rfl, by rw [encodeChar_one hone]; rfl, hmore⟩
  by_cases htwo : a < 0xE0
  · rw [lead_two (by omega) htwo] at h
    exact begins_two ⟨by omega, htwo⟩ h
  by_cases hthree : a < 0xF0
  · rw [lead_three (by omega) hthree] at h
    exact begins_three ⟨by omega, hthree⟩ h
  · rw [lead_four (by omega) (by omega)] at h
    exact begins_four (by omega) h

/-- Bytes without a malformed run are the bytes of their characters. -/
theorem encode_of_piecesFrom {bytes : List UInt8} {text : List Char}
    (h : piecesFrom none bytes = text.map .char) : encode text = bytes := by
  induction text generalizing bytes with
  | nil =>
    cases bytes with
    | nil => rfl
    | cons b bytes =>
      obtain ⟨_, _, _, htext, _⟩ := begins_of_piecesFrom h
      exact absurd htext nofun
  | cons c text ih =>
    cases bytes with
    | nil => exact absurd h nofun
    | cons b bytes =>
      obtain ⟨c', more, rest, htext, hbytes, hrest⟩ := begins_of_piecesFrom h
      obtain ⟨rfl, rfl⟩ := List.cons.inj htext
      rw [encode_cons, ih hrest, hbytes]

/-- **The strict reading accepts the written texts, and only these.** -/
theorem decode?_eq_some_iff {bytes : List UInt8} {text : List Char} :
    decode? bytes = some text ↔ encode text = bytes := by
  constructor
  · intro h
    rw [decode?, pieces_eq, mapM_char?_eq_some_iff] at h
    exact encode_of_piecesFrom h
  · rintro rfl
    exact decode?_encode text

end Utf8
end NoticeServer
