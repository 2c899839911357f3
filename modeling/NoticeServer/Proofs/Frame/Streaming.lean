import NoticeServer.Frame.Reader

/-!
# `NoticeServer.Proofs.Frame.Streaming` — frames in a stream that arrives in pieces

The reader keeps all that it has to know about the bytes behind it in its state, so it can stop between
any two bytes (`FrameReader.run_append`). A result puts it back between two frames
(`FrameReader.start_of_step`); therefore its results along a stream, closed by the result of the end of the
input, are those of reading the stream one frame after the other (`FrameReader.readFrom_cases`,
`FrameReader.finish_cases`).
-/

namespace NoticeServer
namespace FrameReader

/-! ## Bytes in pieces -/

theorem foldl_feed (reader : FrameReader) (found : List FrameRead) (bytes : List UInt8) :
    bytes.foldl feed (reader, found) = ((reader.run bytes).1, (reader.run bytes).2.reverse ++ found) := by
  -- the results found before stay behind those found later
  have hgeneral : ∀ (reader : FrameReader) (found : List FrameRead),
      bytes.foldl feed (reader, found) =
        ((bytes.foldl feed (reader, [])).1, (bytes.foldl feed (reader, [])).2 ++ found) := by
    induction bytes with
    | nil => exact fun _ _ => rfl
    | cons b bytes ih =>
      intro reader found
      simp only [List.foldl_cons, feed]
      cases hstep : reader.step b with
      | mk next result =>
        cases result with
        | none => exact ih next found
        | some result =>
          simp only
          rw [ih next (result :: found), ih next [result]]
          simp
  rw [hgeneral]
  simp [run]

@[simp] theorem run_nil (reader : FrameReader) : reader.run [] = (reader, []) := rfl

/-- One byte, and the bytes behind it. -/
theorem run_cons (reader : FrameReader) (b : UInt8) (bytes : List UInt8) :
    reader.run (b :: bytes) =
      (((reader.step b).1.run bytes).1, (reader.step b).2.toList ++ ((reader.step b).1.run bytes).2) := by
  conv => lhs; unfold run
  rw [List.foldl_cons]
  cases hstep : reader.step b with
  | mk next result =>
    cases result with
    | none => simp [feed, hstep, foldl_feed]
    | some result => simp [feed, hstep, foldl_feed]

/-- **Bytes in two pieces** lead to the same state and the same results as at once. -/
theorem run_append (reader : FrameReader) (a b : List UInt8) :
    reader.run (a ++ b) =
      (((reader.run a).1.run b).1, (reader.run a).2 ++ ((reader.run a).1.run b).2) := by
  induction a generalizing reader with
  | nil => rfl
  | cons c a ih => rw [List.cons_append, run_cons, ih, run_cons, List.append_assoc]

/-! ## One frame after the other -/

theorem start_of_beginBody {length? : Option Nat} {result : FrameRead}
    (h : (beginBody length?).2 = some result) : (beginBody length?).1 = start := by
  unfold beginBody at h ⊢
  split at h
  · rfl
  · split at h
    · next hover => simp [hover]
    · split at h
      · next hzero => simp [hzero]
      · exact absurd h nofun

theorem start_of_endLine {length? : Option Nat} {line : List UInt8} {result : FrameRead}
    (h : (endLine length? line).2 = some result) : (endLine length? line).1 = start := by
  unfold endLine at h ⊢
  split at h
  · rfl
  · exact start_of_beginBody h
  · exact absurd h nofun
  · exact absurd h nofun

/-- Behind a result the reader stands between two frames. -/
theorem start_of_step (reader : FrameReader) (b : UInt8) {result : FrameRead}
    (h : (reader.step b).2 = some result) : (reader.step b).1 = start := by
  cases reader with
  | header length? begun line =>
    by_cases hb : b = lineFeed
    · simp only [step, if_pos hb] at h ⊢
      exact start_of_endLine h
    · simp only [step, if_neg hb] at h
      exact absurd h nofun
  | body missing bytes =>
    by_cases hlast : missing ≤ 1
    · simp only [step, if_pos hlast]
    · simp only [step, if_neg hlast] at h
      exact absurd h nofun

/-- **The first result of an input.** Either the bytes complete it, and the results along the input are
this one and those along the bytes behind it; or they complete none, and it is that of the end of the
input. -/
theorem readFrom_cases (reader : FrameReader) (input : List UInt8) :
    (∃ result rest, reader.readFrom input = (result, rest) ∧ rest.length < input.length ∧
      reader.run input = ((start.run rest).1, result :: (start.run rest).2)) ∨
    (reader.readFrom input = ((reader.run input).1.finish, []) ∧ (reader.run input).2 = []) := by
  induction input generalizing reader with
  | nil => exact .inr ⟨rfl, rfl⟩
  | cons b input ih =>
    rw [readFrom, run_cons]
    cases hstep : reader.step b with
    | mk next result =>
      cases result with
      | some result =>
        have hstart : next = start := by
          have := start_of_step reader b (by rw [hstep])
          rwa [hstep] at this
        exact .inl ⟨result, input, rfl, Nat.lt_succ_self _, by rw [hstart]; rfl⟩
      | none =>
        rcases ih next with ⟨result, rest, hread, hlength, hrun⟩ | ⟨hread, hrun⟩
        · exact .inl ⟨result, rest, hread, Nat.lt_succ_of_lt hlength, hrun⟩
        · exact .inr ⟨hread, hrun⟩

/-! ## The end of the input -/

/-- An empty body is no text. -/
theorem parseBody_nil : parseBody [] = .error .invalidJson := rfl

/-- A result that the end of the headers gives is an error. -/
theorem error_of_beginBody {length? : Option Nat} {result : FrameRead}
    (h : (beginBody length?).2 = some result) : ∃ e, result = .error e := by
  unfold beginBody at h
  split at h
  · exact ⟨_, (Option.some.inj h).symm⟩
  · split at h
    · exact ⟨_, (Option.some.inj h).symm⟩
    · split at h
      · exact ⟨_, (Option.some.inj h).symm.trans parseBody_nil⟩
      · exact absurd h nofun

/-- A result that the end of a line gives is an error. -/
theorem error_of_endLine {length? : Option Nat} {line : List UInt8} {result : FrameRead}
    (h : (endLine length? line).2 = some result) : ∃ e, result = .error e := by
  unfold endLine at h
  split at h
  · exact ⟨_, (Option.some.inj h).symm⟩
  · exact error_of_beginBody h
  · exact absurd h nofun
  · exact absurd h nofun

/-- The end of the input is an error, except between two frames. -/
theorem finish_cases (reader : FrameReader) :
    (∃ length?, reader = .header length? false []) ∧ reader.finish = .finished ∨
      ∃ e, reader.finish = .error e := by
  unfold finish
  split
  · exact .inl ⟨⟨_, rfl⟩, rfl⟩
  · exact .inr ⟨_, rfl⟩
  · next length? _ line _ _ =>
    split
    · next result hline => exact .inr (error_of_endLine (by rw [hline]))
    · exact .inr ⟨_, rfl⟩
    · exact .inr ⟨_, rfl⟩
  · exact .inr ⟨_, rfl⟩

/-- The end of the input is never a frame. -/
theorem finish_ne_frame (reader : FrameReader) (v : Json) : reader.finish ≠ .frame v := by
  rcases reader.finish_cases with ⟨_, h⟩ | ⟨e, h⟩
  · rw [h]
    nofun
  · rw [h]
    nofun

/-- No byte is the end of the input. -/
theorem step_ne_finished (reader : FrameReader) (b : UInt8) : (reader.step b).2 ≠ some .finished := by
  intro h
  cases reader with
  | header length? begun line =>
    by_cases hb : b = lineFeed
    · rw [step, if_pos hb] at h
      obtain ⟨e, he⟩ := error_of_endLine h
      exact absurd he nofun
    · rw [step, if_neg hb] at h
      exact absurd h nofun
  | body missing bytes =>
    by_cases hlast : missing ≤ 1
    · rw [step, if_pos hlast] at h
      have hbody : parseBody (b :: bytes).reverse = .finished := Option.some.inj h
      unfold parseBody at hbody
      split at hbody <;> exact absurd hbody nofun
    · rw [step, if_neg hlast] at h
      exact absurd h nofun

/-- Behind a byte that gives no result the reader is within a frame. -/
theorem step_ne_between (reader : FrameReader) (b : UInt8) (h : (reader.step b).2 = none)
    (length? : Option Nat) : (reader.step b).1 ≠ .header length? false [] := by
  cases reader with
  | body missing bytes =>
    by_cases hlast : missing ≤ 1
    · rw [step, if_pos hlast] at h
      exact absurd h nofun
    · rw [step, if_neg hlast]
      nofun
  | header told? begun line =>
    by_cases hb : b = lineFeed
    · rw [step, if_pos hb] at h ⊢
      unfold endLine at h ⊢
      split
      · next heq => simp [heq] at h
      · next heq =>
        simp only [heq] at h
        unfold beginBody at h ⊢
        split
        · exact absurd h nofun
        · split
          · next hover => simp [hover] at h
          · split
            · next hover hempty => simp [hempty] at h
            · nofun
      · nofun
      · nofun
    · rw [step, if_neg hb]
      nofun

/-- **Only an empty input, between two frames, is at its end.** -/
theorem finished_of_readFrom {reader : FrameReader} {input : List UInt8}
    (h : (reader.readFrom input).1 = .finished) :
    (∃ length?, reader = .header length? false []) ∧ input = [] := by
  induction input generalizing reader with
  | nil =>
    rcases reader.finish_cases with ⟨hbetween, _⟩ | ⟨e, he⟩
    · exact ⟨hbetween, rfl⟩
    · exact absurd ((show reader.finish = .finished from h).symm.trans he) nofun
  | cons b input ih =>
    rw [readFrom] at h
    cases hstep : reader.step b with
    | mk next result =>
      rw [hstep] at h
      cases result with
      | some result =>
        have hresult : result = .finished := h
        exact absurd (by rw [hstep, hresult]) (reader.step_ne_finished b)
      | none =>
        obtain ⟨⟨length?, hbetween⟩, _⟩ := ih h
        have hnext := step_ne_between reader b (by rw [hstep]) length?
        rw [hstep] at hnext
        exact absurd hbetween hnext

end FrameReader
end NoticeServer
