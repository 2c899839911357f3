import NoticeServer.Proofs.Text.Decoding
import NoticeServer.Text.Percent

/-!
# `NoticeServer.Proofs.Text.Percent` — what is percent-encoded reads back

As long as only ASCII bytes other than the percent sign stand for themselves (`Percent.IsTransparent`), each
byte is decoded from its own text, whatever follows it (`Percent.decode_encode`); so different byte strings have
different texts.
-/

namespace NoticeServer
namespace Percent

/-- The bytes that stand for themselves are ASCII, and the percent sign is not one of them. -/
structure IsTransparent (plain : UInt8 → Bool) : Prop where
  ascii : ∀ b, plain b = true → b.toNat < 0x80
  sign : plain percentSign = false

variable {plain : UInt8 → Bool} {b : UInt8}

/-! ## Hexadecimal digits -/

/-- A digit is one ASCII byte, whose value is that of the digit. -/
theorem hexDigit_byte {n : Nat} (hn : n < 16) :
    ∃ x : UInt8, String.utf8EncodeChar (hexDigit n) = [x] ∧ hexValue? x = some (UInt8.ofNat n) := by
  have hall : ∀ m : Fin 16,
      String.utf8EncodeChar (hexDigit m) = [UInt8.ofNat (hexDigit m).toNat] ∧
        hexValue? (UInt8.ofNat (hexDigit m).toNat) = some (UInt8.ofNat m) := by decide
  exact ⟨_, hall ⟨n, hn⟩⟩

/-- A byte is put together again from its two digits. -/
theorem ofNat_digits (b : UInt8) :
    UInt8.ofNat (b.toNat / 16) * 16 + UInt8.ofNat (b.toNat % 16) = b := by
  have hb := b.toNat_lt
  have hhigh : b.toNat / 16 < 256 := by omega
  have hlow : b.toNat % 16 < 256 := by omega
  rw [← UInt8.toNat_inj, UInt8.toNat_add, UInt8.toNat_mul, UInt8.toNat_ofNat_of_lt' hhigh,
    UInt8.toNat_ofNat_of_lt' hlow]
  have hsixteen : (16 : UInt8).toNat = 16 := rfl
  rw [hsixteen]
  omega

/-! ## Reading back -/

theorem decode_of_ne_sign (hb : b ≠ percentSign) (rest : List UInt8) :
    decode (b :: rest) = b :: decode rest := by
  cases rest with
  | nil => simp [decode, hb]
  | cons x rest => cases rest <;> simp [decode, hb]

theorem decode_of_digits {x y high low : UInt8} (hx : hexValue? x = some high)
    (hy : hexValue? y = some low) (rest : List UInt8) :
    decode (percentSign :: x :: y :: rest) = (high * 16 + low) :: decode rest := by
  rw [decode, if_pos rfl]
  simp only [hx, hy]

/-- **A byte is decoded from its own text**, whatever follows it. -/
theorem decode_encodeByte (h : IsTransparent plain) (b : UInt8) (rest : List UInt8) :
    decode (Utf8.encode (encodeByte plain b) ++ rest) = b :: decode rest := by
  unfold encodeByte
  cases hplain : plain b with
  | true =>
    have hbyte : String.utf8EncodeChar (Char.ofNat b.toNat) = [b] := by
      rw [Utf8.encodeChar_one (h.ascii b hplain), UInt8.ofNat_toNat]
    have hne : b ≠ percentSign := by
      rintro rfl
      exact absurd (hplain.symm.trans h.sign) nofun
    simp only [if_true, Utf8.encode_cons, Utf8.encode_nil, hbyte]
    exact decode_of_ne_sign hne rest
  | false =>
    have hb := b.toNat_lt
    obtain ⟨x, hx, hhigh⟩ := hexDigit_byte (show b.toNat / 16 < 16 by omega)
    obtain ⟨y, hy, hlow⟩ := hexDigit_byte (show b.toNat % 16 < 16 by omega)
    have hsign : String.utf8EncodeChar '%' = [percentSign] := by decide
    simp only [Bool.false_eq_true, if_false, Utf8.encode_cons, Utf8.encode_nil, hsign, hx, hy]
    have hread := decode_of_digits hhigh hlow rest
    rw [ofNat_digits] at hread
    exact hread

/-- **What is percent-encoded reads back.** -/
theorem decode_encode (h : IsTransparent plain) (bytes : List UInt8) :
    decode (Utf8.encode (encode plain bytes)) = bytes := by
  induction bytes with
  | nil => rw [encode, List.flatMap_nil, Utf8.encode_nil, decode]
  | cons b bytes ih =>
    have hsplit : encode plain (b :: bytes) = encodeByte plain b ++ encode plain bytes := rfl
    rw [hsplit, Utf8.encode_append, decode_encodeByte h, ih]

/-- Different byte strings are written differently. -/
theorem encode_injective (h : IsTransparent plain) : Function.Injective (encode plain) := by
  intro bytes bytes' heq
  rw [← decode_encode h bytes, heq, decode_encode h]

/-! ## Characters -/

/-- The characters of an encoded byte are this byte if it stands for itself, or the percent sign and
digits. -/
theorem mem_encodeByte {c : Char} (hc : c ∈ encodeByte plain b) :
    (plain b = true ∧ c = Char.ofNat b.toNat) ∨ c = '%' ∨ ∃ n < 16, c = hexDigit n := by
  have hb := b.toNat_lt
  unfold encodeByte at hc
  split at hc
  · next hplain => exact .inl ⟨hplain, List.mem_singleton.mp hc⟩
  · simp only [List.mem_cons, List.not_mem_nil, or_false] at hc
    rcases hc with rfl | rfl | rfl
    · exact .inr (.inl rfl)
    · exact .inr (.inr ⟨_, by omega, rfl⟩)
    · exact .inr (.inr ⟨_, by omega, rfl⟩)

end Percent
end NoticeServer
