import NoticeServer.Proofs.Frame.Streaming
import NoticeServer.Proofs.Session.Run

/-!
# `NoticeServer.Proofs.Session.Cuts` — a session whose input arrives in pieces

A session that goes on carries the reader along, so bytes that arrive in two pieces are taken in as if
they came at once (`Session.deliver_append`). After its end it takes in nothing, so the reader, which may stand
elsewhere then, does not count any more: sessions are compared up to it (`Session.Alike`), and alike ones go on
alike. Hence no division of the input matters (`Session.cuts_immaterial`).
-/

namespace NoticeServer
namespace Session

/-! ## Alike sessions -/

/-- Sessions that differ at most in where the reader of an ended session stands. -/
structure Alike (s t : Session) : Prop where
  server : s.server = t.server
  invocations : s.invocations = t.invocations
  outputBroken : s.outputBroken = t.outputBroken
  ended : s.ended? = t.ended?
  reader : s.ended? = none → s.reader = t.reader

/-- Alike sessions, with the same output. -/
def SameCourse (r r' : Session × SessionOutput) : Prop := r.1.Alike r'.1 ∧ r.2 = r'.2

namespace Alike

theorem refl (s : Session) : s.Alike s := ⟨rfl, rfl, rfl, rfl, fun _ => rfl⟩

theorem symm {s t : Session} (h : s.Alike t) : t.Alike s :=
  ⟨h.server.symm, h.invocations.symm, h.outputBroken.symm, h.ended.symm,
    fun hended => (h.reader (h.ended.trans hended)).symm⟩

theorem trans {s t u : Session} (h : s.Alike t) (h' : t.Alike u) : s.Alike u :=
  ⟨h.server.trans h'.server, h.invocations.trans h'.invocations, h.outputBroken.trans h'.outputBroken,
    h.ended.trans h'.ended,
    fun hended => (h.reader hended).trans (h'.reader (h.ended.symm.trans hended))⟩

/-- The reader of an ended session does not count. -/
theorem of_ended {s : Session} (h : s.ended?.isSome = true) (reader : FrameReader) :
    Alike { s with reader } s := by
  refine ⟨rfl, rfl, rfl, rfl, fun hended => ?_⟩
  have hnone : s.ended? = none := hended
  rw [hnone] at h
  exact absurd h nofun

/-- Alike sessions that go on are equal. -/
theorem eq_of_open {s t : Session} (h : s.Alike t) (hopen : s.ended? = none) : s = t := by
  obtain ⟨server, reader, invocations, outputBroken, ended⟩ := s
  obtain ⟨server', reader', invocations', outputBroken', ended'⟩ := t
  obtain ⟨rfl, rfl, rfl, rfl, hreader⟩ := h
  obtain rfl := hreader hopen
  rfl

end Alike

namespace SameCourse

theorem refl (r : Session × SessionOutput) : SameCourse r r := ⟨.refl _, rfl⟩

theorem symm {r r' : Session × SessionOutput} (h : SameCourse r r') : SameCourse r' r :=
  ⟨h.1.symm, h.2.symm⟩

theorem trans {r r' r'' : Session × SessionOutput} (h : SameCourse r r') (h' : SameCourse r' r'') :
    SameCourse r r'' := ⟨h.1.trans h'.1, h.2.trans h'.2⟩

end SameCourse

/-- Alike sessions take in an event alike. -/
theorem alike_step {s t : Session} (h : s.Alike t) (event : SessionEvent) :
    SameCourse (s.step event) (t.step event) := by
  cases hended : s.ended? with
  | none =>
    rw [h.eq_of_open hended]
    exact .refl _
  | some e =>
    have hs : s.ended?.isSome = true := by rw [hended]; rfl
    have ht : t.ended?.isSome = true := by rw [← h.ended]; exact hs
    rw [step_of_ended hs, step_of_ended ht]
    exact ⟨h, rfl⟩

/-- Alike sessions go on alike. -/
theorem alike_run {s t : Session} (h : s.Alike t) (events : List SessionEvent) :
    SameCourse (s.run events) (t.run events) := by
  induction events generalizing s t with
  | nil => exact ⟨h, rfl⟩
  | cons event events ih =>
    obtain ⟨hnext, houtput⟩ := alike_step h event
    obtain ⟨hlast, hmore⟩ := ih hnext
    rw [run_cons, run_cons, houtput, hmore]
    exact ⟨hlast, rfl⟩

/-- What is alike so far stays so along further events. -/
theorem sameCourse_append {s t : Session} {events events' : List SessionEvent}
    (h : SameCourse (s.run events) (t.run events')) (more : List SessionEvent) :
    SameCourse (s.run (events ++ more)) (t.run (events' ++ more)) := by
  obtain ⟨hlast, hmore⟩ := alike_run h.1 more
  rw [run_append, run_append, h.2, hmore]
  exact ⟨hlast, rfl⟩

/-! ## Bytes in pieces -/

/-- To take in a result of the reader does not depend on where the reader stands. -/
theorem receive_with_reader (s : Session) (reader : FrameReader) (result : FrameRead) :
    ({ s with reader } : Session).receive result =
      ({ (s.receive result).1 with reader }, (s.receive result).2) := by
  unfold receive
  dsimp only
  split
  · rfl
  · cases result with
    | frame v =>
      unfold send
      dsimp only
      split <;> rfl
    | error e => rfl
    | finished => rfl

theorem receiveAll_with_reader (s : Session) (reader : FrameReader) (results : List FrameRead) :
    ({ s with reader } : Session).receiveAll results =
      ({ (s.receiveAll results).1 with reader }, (s.receiveAll results).2) := by
  induction results generalizing s with
  | nil => rfl
  | cons result results ih => rw [receiveAll_cons, receive_with_reader, ih, receiveAll_cons]

/-- Bytes that arrive while a session goes on. -/
theorem step_deliver {s : Session} (h : s.ended? = none) (bytes : List UInt8) :
    s.step (.deliver bytes) =
      ({ (s.receiveAll (s.reader.run bytes).2).1 with reader := (s.reader.run bytes).1 },
        (s.receiveAll (s.reader.run bytes).2).2) := by
  have hopen : ¬ s.ended?.isSome = true := by simp [h]
  unfold step
  rw [if_neg hopen]
  exact receiveAll_with_reader s _ _

/-- **Bytes in two pieces** are taken in as if they came at once. -/
theorem deliver_append (s : Session) (a b : List UInt8) :
    SameCourse (s.run [.deliver a, .deliver b]) (s.run [.deliver (a ++ b)]) := by
  by_cases hs : s.ended?.isSome = true
  · rw [run_of_ended hs, run_of_ended hs]
    exact .refl _
  have hopen : s.ended? = none := by simpa using hs
  simp only [run_cons, run_nil, SessionOutput.append_empty, step_deliver hopen,
    FrameReader.run_append, receiveAll_append]
  -- the first piece may end the session; then the second has no effect, in both courses
  generalize (s.receiveAll (s.reader.run a).2).1 = first
  by_cases hfirst : first.ended?.isSome = true
  · have hcarried : ({ first with reader := (s.reader.run a).1 } : Session).ended?.isSome = true := hfirst
    rw [step_of_ended hcarried, receiveAll_of_ended hfirst]
    exact ⟨(Alike.of_ended hfirst _).trans (Alike.of_ended hfirst _).symm, rfl⟩
  · have hcarried : ({ first with reader := (s.reader.run a).1 } : Session).ended? = none := by
      simpa using hfirst
    rw [step_deliver hcarried, receiveAll_with_reader]
    exact .refl _

/-- **Bytes in any number of pieces** are taken in as if they came at once. -/
theorem run_deliveries (s : Session) (pieces : List (List UInt8)) :
    SameCourse (s.run (pieces.map .deliver)) (s.run [.deliver pieces.flatten]) := by
  induction pieces generalizing s with
  | nil =>
    by_cases hs : s.ended?.isSome = true
    · rw [run_of_ended hs, run_of_ended hs]
      exact .refl _
    · have hopen : s.ended? = none := by simpa using hs
      simp only [run_cons, step_deliver hopen, List.flatten_nil, FrameReader.run_nil]
      exact .refl _
  | cons piece pieces ih =>
    -- the first piece, then the others at once, then all at once
    have hrest : SameCourse (s.run ((piece :: pieces).map .deliver))
        (s.run [.deliver piece, .deliver pieces.flatten]) := by
      obtain ⟨hlast, hmore⟩ := ih (s.step (.deliver piece)).1
      rw [List.map_cons, run_cons, hmore, run_cons s (.deliver piece)]
      exact ⟨hlast, rfl⟩
    rw [List.flatten_cons]
    exact hrest.trans (deliver_append s piece pieces.flatten)

/-! ## The end of a session -/

/-- The results that end a session: an `exit` notification, and all that is no frame. -/
def Closes : FrameRead → Prop
  | .frame v => ∃ params, Incoming.ofFrame v = .notification "exit" params
  | _ => True

theorem closes_of_ne_frame {result : FrameRead} (h : ∀ v, result ≠ .frame v) : Closes result := by
  cases result with
  | frame v => exact absurd rfl (h v)
  | error e => trivial
  | finished => trivial

theorem ended_of_closes (s : Session) {result : FrameRead} (h : Closes result) :
    (s.receive result).1.ended?.isSome = true := by
  unfold receive
  split
  · next hended => exact hended
  · cases result with
    | error e => rfl
    | finished => rfl
    | frame v =>
      obtain ⟨params, hexit⟩ := h
      have hreply : s.server.handle v = (s.server, { ends := true }) := by
        unfold Server.handle
        rw [hexit]
        exact if_pos rfl
      simp [hreply, send]

/-- Along results of which one ends the session, it ends. -/
theorem ended_of_mem (s : Session) {results : List FrameRead} {result : FrameRead}
    (hmem : result ∈ results) (h : Closes result) : (s.receiveAll results).1.ended?.isSome = true := by
  obtain ⟨before, more, rfl⟩ := List.append_of_mem hmem
  have hended := ended_of_closes (s.receiveAll before).1 h
  rw [receiveAll_append, receiveAll_cons, receiveAll_of_ended hended]
  exact hended

/-- A piece in which a result ends the session leaves it ended. -/
theorem ended_of_deliver (s : Session) {bytes : List UInt8}
    (h : ∃ result ∈ (s.reader.run bytes).2, Closes result) :
    (s.step (.deliver bytes)).1.ended?.isSome = true := by
  obtain ⟨result, hmem, hcloses⟩ := h
  by_cases hs : s.ended?.isSome = true
  · rw [step_of_ended hs]
    exact hs
  · have hopen : s.ended? = none := by simpa using hs
    rw [step_deliver hopen]
    exact s.ended_of_mem hmem hcloses

/-! ## Whole streams -/

theorem receiveAll_cons_of_ne_frame (s : Session) {result : FrameRead} (h : ∀ v, result ≠ .frame v)
    (results : List FrameRead) : s.receiveAll (result :: results) = s.receiveAll [result] := by
  rw [receiveAll_cons, receiveAll_cons, receiveAll_of_ended (s.ended_of_closes (closes_of_ne_frame h))]
  rfl

theorem readUntil_of_frame {input rest : List UInt8} {v : Json}
    (h : FrameReader.read input = (.frame v, rest)) (fuel : Nat) :
    FrameReader.readUntil input (fuel + 1) = .frame v :: FrameReader.readUntil rest fuel := by
  rw [FrameReader.readUntil, h]

theorem readUntil_of_ne_frame {input rest : List UInt8} {result : FrameRead}
    (h : FrameReader.read input = (result, rest)) (hne : ∀ v, result ≠ .frame v) (fuel : Nat) :
    FrameReader.readUntil input (fuel + 1) = [result] := by
  rw [FrameReader.readUntil, h]
  cases result with
  | frame v => exact absurd rfl (hne v)
  | error e => rfl
  | finished => rfl

/-- The results along a stream, that of its end included, are taken in as those of reading the stream one
frame after the other; behind the first that is no frame nothing counts. -/
theorem receiveAll_readUntil (s : Session) {input : List UInt8} {fuel : Nat} (h : input.length < fuel) :
    s.receiveAll ((FrameReader.start.run input).2 ++ [(FrameReader.start.run input).1.finish]) =
      s.receiveAll (FrameReader.readUntil input fuel) := by
  induction fuel generalizing s input with
  | zero => exact absurd h (Nat.not_lt_zero _)
  | succ fuel ih =>
    rcases FrameReader.readFrom_cases .start input with ⟨result, rest, hread, hlength, hrun⟩ | ⟨hread, hrun⟩
    · rw [hrun, List.cons_append]
      by_cases hframe : ∃ v, result = .frame v
      · obtain ⟨v, rfl⟩ := hframe
        rw [readUntil_of_frame hread, receiveAll_cons, receiveAll_cons s (.frame v), ih _ (by omega)]
      · have hne : ∀ v, result ≠ .frame v := not_exists.mp hframe
        rw [readUntil_of_ne_frame hread hne, receiveAll_cons_of_ne_frame s hne]
    · rw [hrun, readUntil_of_ne_frame hread (FrameReader.finish_ne_frame _)]
      rfl

/-- The end of the input, while a session goes on. -/
theorem step_close {s : Session} (h : s.ended? = none) : s.step .close = s.receive s.reader.finish := by
  unfold step
  rw [if_neg (by simp [h])]

/-- **A whole stream** is taken in as its frames, read one after the other. -/
theorem run_close {s : Session} (hstart : s.reader = .start) (input : List UInt8) :
    SameCourse (s.run [.deliver input, .close]) (s.receiveAll (FrameReader.readAll input)) := by
  by_cases hs : s.ended?.isSome = true
  · rw [run_of_ended hs, receiveAll_of_ended hs]
    exact .refl _
  have hopen : s.ended? = none := by simpa using hs
  simp only [run_cons, run_nil, SessionOutput.append_empty, step_deliver hopen, hstart, FrameReader.readAll,
    ← receiveAll_readUntil s (Nat.lt_succ_self input.length), receiveAll_append, receiveAll_cons,
    receiveAll_nil]
  -- a frame in the stream may end the session; then its close has no effect, in both courses
  generalize (s.receiveAll (FrameReader.start.run input).2).1 = last
  by_cases hlast : last.ended?.isSome = true
  · have hcarried :
        ({ last with reader := (FrameReader.start.run input).1 } : Session).ended?.isSome = true := hlast
    rw [step_of_ended hcarried, receive_of_ended hlast]
    exact ⟨.of_ended hlast _, rfl⟩
  · have hcarried : ({ last with reader := (FrameReader.start.run input).1 } : Session).ended? = none := by
      simpa using hlast
    rw [step_close hcarried, receive_with_reader]
    have hended := last.ended_of_closes (closes_of_ne_frame (FrameReader.start.run input).1.finish_ne_frame)
    exact ⟨.of_ended hended _, rfl⟩

/-- **No division of the input matters.** Whatever state a session is in, bytes in two pieces lead to the
same server, the same end and the same output as at once; so does a stream in any two divisions, whatever
happens later. An `exit` notification or a frame that cannot be read ends the session, and once it has ended
nothing counts any more. A whole stream, in any division, is taken in as its frames, one after the
other. -/
theorem cuts_immaterial (s : Session) :
    (∀ a b : List UInt8, SameCourse (s.run [.deliver a, .deliver b]) (s.run [.deliver (a ++ b)])) ∧
    (∀ (pieces pieces' : List (List UInt8)) (later : List SessionEvent),
      pieces.flatten = pieces'.flatten →
        SameCourse (s.run (pieces.map .deliver ++ later)) (s.run (pieces'.map .deliver ++ later))) ∧
    (∀ a : List UInt8, (∃ result ∈ (s.reader.run a).2, Closes result) →
      (s.step (.deliver a)).1.ended?.isSome = true) ∧
    (s.ended?.isSome = true → ∀ events : List SessionEvent, s.run events = (s, {})) ∧
    (s.reader = .start → ∀ pieces : List (List UInt8),
      SameCourse (s.run (pieces.map .deliver ++ [.close]))
        (s.receiveAll (FrameReader.readAll pieces.flatten))) := by
  refine ⟨s.deliver_append, fun pieces pieces' later hsame => ?_, fun a => s.ended_of_deliver, run_of_ended,
    fun hstart pieces => ?_⟩
  · have hpieces' := s.run_deliveries pieces'
    rw [← hsame] at hpieces'
    exact sameCourse_append ((s.run_deliveries pieces).trans hpieces'.symm) later
  · exact (sameCourse_append (s.run_deliveries pieces) [.close]).trans (run_close hstart pieces.flatten)

end Session
end NoticeServer
