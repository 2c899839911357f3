import NoticeServer.Proofs.Frame.Streaming

/-!
# `NoticeServer.Proofs.Frame.Progress` — reading on behind an error

Whatever a call finds, a frame or an error, it takes at least one byte (`FrameReader.read_consumes`), and the
next call begins where it has stopped. So a reader that carries on comes to the end of the input, after at
most as many calls as there are bytes, and stays there (`FrameReader.carries_on_to_end`).
-/

namespace NoticeServer
namespace FrameReader

/-! ## One call -/

/-- What is left is the end of the input. -/
theorem readFrom_suffix (reader : FrameReader) (input : List UInt8) :
    (reader.readFrom input).2 <:+ input := by
  induction input generalizing reader with
  | nil => exact List.suffix_refl []
  | cons b input ih =>
    rw [readFrom]
    split
    · exact List.suffix_cons b input
    · next next _ => exact (ih next).trans (List.suffix_cons b input)

/-- Only the end of the input leaves all of it. -/
theorem finished_of_read_self {input : List UInt8} {result : FrameRead} (h : read input = (result, input)) :
    result = .finished := by
  rcases readFrom_cases start input with ⟨found, rest, hread, hlength, -⟩ | ⟨hread, -⟩
  · have hrest : rest = input := congrArg Prod.snd (hread.symm.trans h)
    exact absurd hlength (hrest ▸ Nat.lt_irrefl _)
  · have hinput : [] = input := congrArg Prod.snd (hread.symm.trans h)
    subst hinput
    exact (congrArg Prod.fst h).symm

/-- **One call** takes the bytes at the front of the input, and at least one unless it finds the end. -/
theorem read_consumes {input rest : List UInt8} {result : FrameRead} (h : read input = (result, rest)) :
    ∃ consumed, input = consumed ++ rest ∧ (result ≠ .finished → consumed ≠ []) := by
  have hsuffix := readFrom_suffix start input
  rw [show readFrom start input = (result, rest) from h] at hsuffix
  obtain ⟨consumed, rfl⟩ := hsuffix
  refine ⟨consumed, rfl, ?_⟩
  rintro hresult rfl
  exact hresult (finished_of_read_self h)

/-! ## All calls -/

/-- A call: the bytes that it takes, and what it finds in them. -/
structure Call where
  consumed : List UInt8
  result : FrameRead

/-- The calls on an input, each on what the one before has left, up to one that finds the end. -/
inductive CarriesOn : (input : List UInt8) → (calls : List Call) → Prop
  | finished {input : List UInt8} (h : (read input).1 = .finished) : CarriesOn input []
  | call {consumed rest : List UInt8} {result : FrameRead} {calls : List Call}
      (h : read (consumed ++ rest) = (result, rest)) (hresult : result ≠ .finished)
      (hrest : CarriesOn rest calls) : CarriesOn (consumed ++ rest) (⟨consumed, result⟩ :: calls)

/-- **Every reader that carries on finds the end**, since each call leaves less. -/
theorem exists_carriesOn (input : List UInt8) : ∃ calls, CarriesOn input calls := by
  induction hlength : input.length using Nat.strongRecOn generalizing input with
  | ind length ih =>
    cases hread : read input with
    | mk result rest =>
      by_cases hfinished : result = .finished
      · exact ⟨[], .finished (by rw [hread, hfinished])⟩
      · obtain ⟨consumed, rfl, hconsumed⟩ := read_consumes hread
        have hpos : 0 < consumed.length := List.length_pos_iff.mpr (hconsumed hfinished)
        rw [List.length_append] at hlength
        obtain ⟨calls, hcalls⟩ := ih rest.length (by omega) rest rfl
        exact ⟨⟨consumed, result⟩ :: calls, .call hread hfinished hcalls⟩

namespace CarriesOn

variable {input : List UInt8} {calls : List Call}

/-- No call is the end of the input, and each takes a byte. -/
theorem proceeds (h : CarriesOn input calls) : ∀ c ∈ calls, c.consumed ≠ [] ∧ c.result ≠ .finished := by
  induction h with
  | finished => exact nofun
  | call hread hresult _ ih =>
    refine List.forall_mem_cons.mpr ⟨⟨?_, hresult⟩, ih⟩
    obtain ⟨taken, hsplit, htaken⟩ := read_consumes hread
    rw [List.append_cancel_right hsplit]
    exact htaken hresult

/-- **Every byte is taken once**, in its place. -/
theorem flatMap_consumed (h : CarriesOn input calls) : calls.flatMap Call.consumed = input := by
  induction h with
  | finished hfinished => exact (finished_of_readFrom hfinished).2.symm
  | call _ _ _ ih => rw [List.flatMap_cons, ih]

/-- There are no more calls than bytes. -/
theorem length_le (h : CarriesOn input calls) : calls.length ≤ input.length := by
  induction h with
  | finished => exact Nat.zero_le _
  | @call consumed _ _ _ hread hresult hrest ih =>
    have hproceeds := (CarriesOn.call hread hresult hrest).proceeds _ List.mem_cons_self
    have hpos : 0 < consumed.length := List.length_pos_iff.mpr hproceeds.1
    rw [List.length_cons, List.length_append]
    omega

/-- Behind the end of the input every call finds it again. -/
theorem readTimes_nil (count : Nat) : readTimes [] count = List.replicate count .finished := by
  induction count with
  | zero => rfl
  | succ count ih => exact congrArg (FrameRead.finished :: ·) ih

/-- **The results in a row** are those of the calls, and behind them the end again and again. -/
theorem readTimes_eq (h : CarriesOn input calls) {count ends : Nat} (hcount : count ≤ ends) :
    readTimes input count =
      (calls.map Call.result ++ List.replicate ends FrameRead.finished).take count := by
  induction h generalizing count with
  | finished hfinished =>
    rw [(finished_of_readFrom hfinished).2, readTimes_nil, List.map_nil, List.nil_append,
      List.take_replicate, Nat.min_eq_left hcount]
  | @call _ _ result _ hread _ _ ih =>
    cases count with
    | zero => rfl
    | succ count =>
      rw [readTimes, hread, List.map_cons, List.cons_append, List.take_succ_cons]
      exact congrArg (result :: ·) (ih (Nat.le_of_succ_le hcount))

end CarriesOn

/-- **Reading on always comes to the end.** A call takes the bytes at the front of what is left, at least one
unless it finds the end of the input, and leaves the others to the next call. So an input of `n` bytes has at
most `n` results, frames and errors together, whose calls take every byte once; and all later calls find the
end of the input. -/
theorem carries_on_to_end (input : List UInt8) :
    (∀ result rest, read input = (result, rest) →
      ∃ consumed, input = consumed ++ rest ∧ (result ≠ .finished → consumed ≠ [])) ∧
    ∃ calls, CarriesOn input calls ∧ calls.length ≤ input.length ∧
      calls.flatMap Call.consumed = input ∧
      (∀ c ∈ calls, c.consumed ≠ [] ∧ c.result ≠ .finished) ∧
      ∀ count, readTimes input count =
        (calls.map Call.result ++ List.replicate count FrameRead.finished).take count := by
  refine ⟨fun result rest hread => read_consumes hread, ?_⟩
  obtain ⟨calls, hcalls⟩ := exists_carriesOn input
  exact ⟨calls, hcalls, hcalls.length_le, hcalls.flatMap_consumed, hcalls.proceeds,
    fun _ => hcalls.readTimes_eq (Nat.le_refl _)⟩

/-- A header that is no text, a length that is none, a blank line without a length, a frame, and a body that
is too short. -/
example :
    readTimes ([0xFF, 0x0A] ++ Utf8.encode "Content-Length: x\n\nContent-Length: 1\n\n0".toList ++
        Utf8.encode "Content-Length: 9\n\n0".toList) 7 =
      [.error .headerText, .error .invalidLength, .error .missingLength, .frame (.int 0),
        .error .endInBody, .finished, .finished] := by
  rfl

end FrameReader
end NoticeServer
