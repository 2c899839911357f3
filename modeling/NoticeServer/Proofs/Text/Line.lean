import Mathlib.Data.List.Basic
import NoticeServer.Text.Line

/-!
# `NoticeServer.Proofs.Text.Line` — texts line by line

A text is a first line up to its first line feed and the lines behind it (`lines_append_lineFeed`), or a last
line without a line feed (`lines_of_lineFeed_not_mem`). What is shown of both is shown of every text
(`separated_induction`).
-/

namespace NoticeServer
namespace Text

/-- A line without the carriage return at its end. -/
def withoutReturn (line : List Char) : List Char := (dropReturn line.reverse).reverse

@[simp] theorem withoutReturn_concat (line : List Char) : withoutReturn (line ++ ['\r']) = line := by
  simp [withoutReturn, dropReturn]

/-- A line that ends otherwise stays as it is. -/
theorem withoutReturn_of_getLast? {line : List Char} (h : line.getLast? ≠ some '\r') :
    withoutReturn line = line := by
  rw [← List.head?_reverse] at h
  unfold withoutReturn dropReturn
  split
  · next heq =>
    rw [heq] at h
    exact absurd rfl h
  · exact List.reverse_reverse line

/-- The lines found before stand in front. -/
theorem linesFrom_eq (found : List (List Char)) (line text : List Char) :
    linesFrom found line text = found.reverse ++ linesFrom [] line text := by
  induction text generalizing found line with
  | nil =>
    unfold linesFrom
    split <;> simp
  | cons c text ih =>
    unfold linesFrom
    split
    · rw [ih, ih [_]]
      simp
    · exact ih found (c :: line)

/-- Up to a line feed the characters go to the line that has begun. -/
theorem linesFrom_append {start : List Char} (h : '\n' ∉ start) (line rest : List Char) :
    linesFrom [] line (start ++ rest) = linesFrom [] (start.reverse ++ line) rest := by
  induction start generalizing line with
  | nil => rfl
  | cons c start ih =>
    rw [List.mem_cons, not_or] at h
    rw [List.cons_append, linesFrom, if_neg (Ne.symm h.1), ih h.2, List.reverse_cons, List.append_assoc]
    rfl

/-- **The first line** ends at the first line feed. -/
theorem lines_append_lineFeed {line : List Char} (h : '\n' ∉ line) (rest : List Char) :
    lines (line ++ '\n' :: rest) = withoutReturn line :: lines rest := by
  rw [lines, linesFrom_append h, List.append_nil, linesFrom, if_pos rfl, linesFrom_eq]
  rfl

/-- **The last line** has no line feed, and does not count if it is empty. -/
theorem lines_of_lineFeed_not_mem {line : List Char} (h : '\n' ∉ line) :
    lines line = if line = [] then [] else [line] := by
  have hlines := linesFrom_append h [] []
  rw [List.append_nil, List.append_nil] at hlines
  rw [lines, hlines, linesFrom]
  by_cases hempty : line = []
  · simp [hempty]
  · simp [hempty]

/-- **From separator to separator.** What holds of lists without the separator, and of what begins with such a
list and the separator if it holds of the rest, holds of every list. -/
theorem separated_induction {α : Type} (separator : α) {motive : List α → Prop}
    (last : ∀ piece, separator ∉ piece → motive piece)
    (more : ∀ piece rest, separator ∉ piece → motive rest → motive (piece ++ separator :: rest))
    (text : List α) : motive text := by
  induction hlength : text.length using Nat.strongRecOn generalizing text with
  | ind length ih =>
    by_cases hmem : separator ∈ text
    · obtain ⟨piece, rest, rfl, hpiece⟩ := List.eq_append_cons_of_mem hmem
      refine more piece rest hpiece (ih rest.length ?_ rest rfl)
      rw [← hlength, List.length_append, List.length_cons]
      omega
    · exact last text hmem

end Text
end NoticeServer
