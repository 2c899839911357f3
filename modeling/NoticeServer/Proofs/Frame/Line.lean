import NoticeServer.Frame.Writer
import NoticeServer.Proofs.Frame.Grammar

/-!
# `NoticeServer.Proofs.Frame.Line` — the lines and the body of a frame

How the reader gets over one header line and over a body (`FrameReader.readFrom_line`,
`FrameReader.readFrom_body`), and that the lines which are written are those of a frame
(`Frame.valid_parts`).
-/

namespace NoticeServer

open Text

/-! ## Reading on -/

namespace FrameReader

/-- The bytes of a line are collected up to its line feed. -/
theorem readFrom_line (length? : Option Nat) (begun : Bool) {bytes : List UInt8}
    (h : lineFeed ∉ bytes) (line rest : List UInt8) :
    readFrom (.header length? begun line) (bytes ++ lineFeed :: rest) =
      match endLine length? (bytes.reverse ++ line) with
      | (_, some result) => (result, rest)
      | (next, none) => readFrom next rest := by
  -- `line` holds the bytes read before, in reverse
  induction bytes generalizing line with
  | nil =>
    rw [List.nil_append, readFrom, step, if_pos rfl]
    rfl
  | cons b bytes ih =>
    have hb : b ≠ lineFeed := fun heq => h (heq ▸ List.mem_cons_self)
    rw [List.cons_append, readFrom, step, if_neg hb]
    show readFrom (.header length? begun (b :: line)) (bytes ++ lineFeed :: rest) = _
    rw [ih (fun hmem => h (List.mem_cons_of_mem _ hmem)) (b :: line)]
    simp

/-- The bytes of a body are collected until none is missing. -/
theorem readFrom_body {bytes : List UInt8} (h : bytes ≠ []) (collected rest : List UInt8) :
    readFrom (.body bytes.length collected) (bytes ++ rest) =
      (parseBody (collected.reverse ++ bytes), rest) := by
  induction bytes generalizing collected with
  | nil => exact absurd rfl h
  | cons b bytes ih =>
    rw [List.cons_append, readFrom, step]
    by_cases hlast : bytes = []
    · rw [hlast]
      simp
    · have hmore : ¬(b :: bytes).length ≤ 1 := by
        have := List.length_pos_iff.mpr hlast
        simp only [List.length_cons]
        omega
      rw [if_neg hmore]
      show readFrom (.body bytes.length (b :: collected)) (bytes ++ rest) = _
      rw [ih hlast (b :: collected)]
      simp

end FrameReader

/-! ## The header -/

namespace Frame

/-- The name of the header that is written. -/
def lengthName : List Char := "Content-Length".toList

/-- The line with the length, without its line feed. -/
def lengthLine (length : Nat) : List Char := lengthName ++ ':' :: ' ' :: (decimal length ++ ['\r'])

/-- A header is the line with the length and a blank line. -/
theorem header_eq (length : Nat) :
    header length = lengthLine length ++ '\n' :: ['\r', '\n'] := by
  have hname : "Content-Length: ".toList = lengthName ++ [':', ' '] := by decide
  unfold header lengthLine
  rw [hname]
  simp

theorem mem_lengthName {c : Char} (hc : c ∈ lengthName) : c ≠ ':' ∧ c ≠ '\n' ∧ c.toNat < 0x80 := by
  have all : lengthName.all (fun c => c ≠ ':' ∧ c ≠ '\n' ∧ c.toNat < 0x80) = true := by decide
  exact of_decide_eq_true (List.all_eq_true.mp all c hc)

theorem mem_lengthLine {length : Nat} {c : Char} (hc : c ∈ lengthLine length) :
    c ≠ '\n' ∧ c.toNat < 0x80 := by
  simp only [lengthLine, List.mem_append, List.mem_cons, List.not_mem_nil, or_false] at hc
  rcases hc with hc | rfl | rfl | hc | rfl
  · exact (mem_lengthName hc).2
  · decide
  · decide
  · have hcode := toNat_of_isSome_digitValue? (isSome_digitValue?_of_mem_decimal hc)
    refine ⟨?_, by omega⟩
    rintro rfl
    exact absurd hcode (by decide)
  · decide

theorem isBlank_of_mem_decimal {n : Nat} {c : Char} (hc : c ∈ decimal n) : isBlank c = false := by
  have hcode := toNat_of_isSome_digitValue? (isSome_digitValue?_of_mem_decimal hc)
  simp [isBlank]
  omega

/-- Behind a numeral no white space is in the way. -/
theorem isBlank_getLast?_decimal (text : List Char) (n : Nat) :
    ∀ c ∈ (text ++ decimal n).getLast?, isBlank c = false := by
  intro c hc
  rw [List.getLast?_append, List.getLast?_eq_some_getLast (decimal_ne_nil n)] at hc
  cases hc
  exact isBlank_of_mem_decimal (List.getLast_mem _)

/-- The carriage return at the end of the line is white space. -/
theorem trim_lengthLine (length : Nat) :
    trim (lengthLine length) = lengthName ++ ':' :: ' ' :: decimal length := by
  have hform : lengthLine length =
      [] ++ ((lengthName ++ ':' :: ' ' :: decimal length) ++ ['\r']) := by
    simp [lengthLine]
  have hlast := isBlank_getLast?_decimal (lengthName ++ [':', ' ']) length
  rw [List.append_assoc] at hlast
  rw [hform]
  exact trim_append (fun _ h => absurd h List.not_mem_nil) (List.all_eq_true.mp rfl) (by simp)
    (by rintro _ ⟨⟩; rfl) hlast

theorem trim_value (length : Nat) : trim (' ' :: decimal length) = decimal length := by
  have hform : ' ' :: decimal length = [' '] ++ (decimal length ++ []) := by simp
  rw [hform]
  exact trim_append (List.all_eq_true.mp rfl) (fun _ h => absurd h List.not_mem_nil) (decimal_ne_nil _)
    (fun c hc => isBlank_of_mem_decimal (List.mem_of_mem_head? hc)) (isBlank_getLast?_decimal [] length)

theorem lengthValue?_lengthLine (length : Nat) :
    lengthValue? (trim (lengthLine length)) = some (decimal length) := by
  have hcolon : ∀ c ∈ lengthName, decide (c ≠ ':') = true := fun c hc =>
    decide_eq_true (mem_lengthName hc).1
  have hvalue : (lengthName ++ ':' :: ' ' :: decimal length).dropWhile (· ≠ ':') =
      ':' :: ' ' :: decimal length := dropWhile_append_stop hcolon (by rintro _ ⟨⟩; rfl)
  have hname : (lengthName ++ ':' :: ' ' :: decimal length).takeWhile (· ≠ ':') = lengthName := by
    rw [List.takeWhile_append_of_pos hcolon]
    simp
  have hlower : (trim lengthName).map Char.toLower = lengthHeader := by decide
  rw [trim_lengthLine]
  unfold lengthValue?
  rw [hvalue, hname]
  dsimp only
  rw [if_pos hlower, trim_value]

theorem readLength?_decimal {length : Nat} (h : length ≤ maxLength) :
    readLength? (decimal length) = some length := by
  have hsign : (decimal length).head? ≠ some '+' := by
    intro heq
    have := isSome_digitValue?_of_mem_decimal (List.mem_of_mem_head? (by rw [heq]; rfl))
    exact absurd this (by decide)
  unfold readLength?
  rw [if_neg hsign]
  exact readBounded?_decimal h

/-! ## Frames that are written -/

/-- The parts of a frame that is written: the line with the length, a blank line, and the body. -/
def parts (body : List UInt8) : FrameText := ⟨[lengthLine body.length], ['\r'], body⟩

theorem bytes_parts (body : List UInt8) : (parts body).bytes = withHeader body := by
  have hfeed : Utf8.encode ['\n', '\r', '\n'] = [FrameReader.lineFeed] ++ lineBytes ['\r'] := rfl
  unfold withHeader
  rw [header_eq, Utf8.encode_append, hfeed]
  simp [parts, FrameText.bytes, linesBytes, lineBytes]

/-- **What is written keeps the rules of a frame**, if the body is not too long. -/
theorem valid_parts {body : List UInt8} (h : body.length ≤ maxFrameBytes) : (parts body).Valid := by
  have hmax : body.length ≤ maxLength := Nat.le_trans h (by decide)
  have htells := lengthValue?_eq_some_iff.mp (lengthValue?_lengthLine body.length)
  have hlength := readLength?_eq_some_iff.mp (readLength?_decimal hmax)
  have hcontent : trim (lengthLine body.length) ≠ [] := by
    rw [trim_lengthLine]
    simp
  have hblank : IsBlankLine ['\r'] := ⟨by decide, rfl⟩
  refine ⟨?_, hblank, ?_, ⟨[], _, [], _, rfl, htells, hlength, nofun⟩, h⟩
  · exact List.forall_mem_singleton.mpr ⟨fun hmem => (mem_lengthLine hmem).1 rfl, hcontent⟩
  · exact List.forall_mem_singleton.mpr fun value hvalue => ⟨_, htells.unique hvalue ▸ hlength⟩

end Frame
end NoticeServer
