import NoticeServer.Text.Blank

/-!
# `NoticeServer.Proofs.Text.Blank` — trimming

White space around a text is taken away by `trim`, and nothing else is if the text itself neither begins nor
ends with white space (`trim_append`). This is a case of a text that is cut in front of the first character for
which a test fails.
-/

namespace NoticeServer
namespace Text

theorem dropWhile_append_stop {p : Char → Bool} {s t : List Char} (hs : ∀ c ∈ s, p c = true)
    (ht : ∀ c ∈ t.head?, p c = false) : (s ++ t).dropWhile p = t := by
  rw [List.dropWhile_append_of_pos hs]
  cases t with
  | nil => rfl
  | cons c t => rw [List.dropWhile_cons, ht c rfl, if_neg (by decide)]

theorem takeWhile_append_stop {p : Char → Bool} {s t : List Char} (hs : ∀ c ∈ s, p c = true)
    (ht : ∀ c ∈ t.head?, p c = false) : (s ++ t).takeWhile p = s := by
  rw [List.takeWhile_append_of_pos hs]
  cases t with
  | nil => simp
  | cons c t => rw [List.takeWhile_cons, ht c rfl, if_neg (by decide), List.append_nil]

/-- White space in front of a text that does not begin with any. -/
theorem trimLeft_append {s t : List Char} (hs : ∀ c ∈ s, isBlank c = true)
    (ht : ∀ c ∈ t.head?, isBlank c = false) : trimLeft (s ++ t) = t :=
  dropWhile_append_stop hs ht

/-- White space behind a text that does not end with any. -/
theorem trimRight_append {t u : List Char} (hu : ∀ c ∈ u, isBlank c = true)
    (ht : ∀ c ∈ t.getLast?, isBlank c = false) : trimRight (t ++ u) = t := by
  unfold trimRight
  rw [List.reverse_append, dropWhile_append_stop (fun c hc => hu c (List.mem_reverse.mp hc)),
    List.reverse_reverse]
  rw [List.head?_reverse]
  exact ht

/-- **Trimming takes the white space around a text and nothing of the text.** -/
theorem trim_append {s t u : List Char} (hs : ∀ c ∈ s, isBlank c = true)
    (hu : ∀ c ∈ u, isBlank c = true) (hne : t ≠ []) (hfirst : ∀ c ∈ t.head?, isBlank c = false)
    (hlast : ∀ c ∈ t.getLast?, isBlank c = false) : trim (s ++ (t ++ u)) = t := by
  have hhead : (t ++ u).head? = t.head? := by
    cases t with
    | nil => exact absurd rfl hne
    | cons c t => rfl
  unfold trim
  rw [trimLeft_append hs (by rw [hhead]; exact hfirst)]
  exact trimRight_append hu hlast

end Text
end NoticeServer
