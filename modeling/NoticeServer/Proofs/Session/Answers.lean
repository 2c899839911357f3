import NoticeServer.Frame.Writer
import NoticeServer.Proofs.Server.Answers
import NoticeServer.Proofs.Session.Run

/-!
# `NoticeServer.Proofs.Session.Answers` — one answer to each request

As long as frames can be written, what a session writes is what its server answers to what it takes in
(`Session.frames_run`). So each request gets its answer, in order, and only the exit notification of the client
ends the session. Until then every frame is taken in (`Session.inputsOfReads_frames`).
-/

namespace NoticeServer
namespace Session

/-- Nothing that was to be written was lost. -/
def AllWritten (s : Session) : Prop := s.ended? ≠ some .writeFailed

variable {s : Session}

/-- A session that has ended is not carried on, so what is lost stays lost. -/
theorem AllWritten.of_receiveAll {results : List FrameRead} (h : (s.receiveAll results).1.AllWritten) :
    s.AllWritten := by
  intro hfailed
  have hended : s.ended?.isSome = true := by rw [hfailed]; rfl
  rw [receiveAll_of_ended hended] at h
  exact h hfailed

theorem AllWritten.of_run {events : List SessionEvent} (h : (s.run events).1.AllWritten) :
    s.AllWritten := by
  intro hfailed
  have hended : s.ended?.isSome = true := by rw [hfailed]; rfl
  rw [run_of_ended hended] at h
  exact h hfailed

/-- A session that can write, and has written all so far. -/
structure CanWrite (s : Session) : Prop where
  unbroken : s.outputBroken = false
  allWritten : s.AllWritten

namespace CanWrite

theorem of_send (h : s.outputBroken = false) (operation : Server × Reply) :
    (s.send operation).1.CanWrite := by
  have hguard : ¬ (s.outputBroken && !operation.2.frames.isEmpty) = true := by simp [h]
  unfold send
  dsimp only
  rw [if_neg hguard]
  refine ⟨h, fun hfailed => ?_⟩
  have hends : (if operation.2.ends then some SessionEnd.done else none) = some .writeFailed := hfailed
  split at hends
  · exact absurd hends (by decide)
  · exact absurd hends nofun

theorem receive (h : s.CanWrite) (result : FrameRead) : (s.receive result).1.CanWrite := by
  unfold Session.receive
  split
  · exact h
  · cases result with
    | frame v => exact of_send h.unbroken _
    | error e => exact ⟨h.unbroken, by simp [AllWritten]⟩
    | finished => exact ⟨h.unbroken, by simp [AllWritten]⟩

theorem receiveAll (h : s.CanWrite) (results : List FrameRead) : (s.receiveAll results).1.CanWrite := by
  induction results generalizing s with
  | nil => exact h
  | cons result results ih =>
    rw [receiveAll_cons]
    exact ih (h.receive result)

theorem finish (h : s.CanWrite) (number : Nat) (outcome : Outcome) :
    (s.finish number outcome).1.CanWrite := by
  unfold Session.finish
  cases s.invocations.finish? number with
  | none => exact h
  | some call => exact of_send (s := { s with invocations := call.2 }) h.unbroken _

theorem step (h : s.CanWrite) {event : SessionEvent} (hevent : event ≠ .breakOutput) :
    (s.step event).1.CanWrite := by
  unfold Session.step
  split
  · exact h
  · cases event with
    | deliver bytes =>
      have hread : ({ s with reader := (s.reader.run bytes).1 } : Session).CanWrite :=
        ⟨h.unbroken, h.allWritten⟩
      exact hread.receiveAll _
    | close => exact h.receive _
    | breakOutput => exact absurd rfl hevent
    | finish number outcome => exact h.finish number outcome

end CanWrite

/-- **As long as writing works, all is written.** -/
theorem allWritten_run (h : s.CanWrite) {events : List SessionEvent} (hevents : .breakOutput ∉ events) :
    (s.run events).1.AllWritten := by
  induction events generalizing s with
  | nil => exact h.allWritten
  | cons event events ih =>
    have hevent : event ≠ .breakOutput := fun heq => hevents (heq ▸ List.mem_cons_self)
    exact ih (h.step hevent) fun hmem => hevents (List.mem_cons_of_mem _ hmem)

theorem canWrite_fresh (config : ScanConfig) : (fresh config).CanWrite := ⟨rfl, nofun⟩

/-! ## What is written -/

/-- What is sent is what the server answers. -/
theorem frames_send (input : ServerInput) (h : (s.send (s.server.take input)).1.AllWritten) :
    (s.send (s.server.take input)).2.frames = s.server.frames [input] := by
  have hframes : s.server.frames [input] = (s.server.take input).2.frames := List.append_nil _
  rw [hframes]
  unfold send at h ⊢
  dsimp only at h ⊢
  split at h
  · exact absurd rfl h
  · next hwritten => rw [if_neg hwritten]

theorem frames_receive {result : FrameRead} (h : (s.receive result).1.AllWritten) :
    (s.receive result).2.frames = s.server.frames (s.inputsOfRead result) := by
  unfold receive at h ⊢
  unfold inputsOfRead
  split
  · rfl
  · next hopen =>
    rw [if_neg hopen] at h
    cases result with
    | frame v => exact frames_send (.frame v) h
    | error e => rfl
    | finished => rfl

theorem frames_receiveAll {results : List FrameRead} (h : (s.receiveAll results).1.AllWritten) :
    (s.receiveAll results).2.frames = s.server.frames (s.inputsOfReads results) := by
  induction results generalizing s with
  | nil => rfl
  | cons result results ih =>
    rw [receiveAll_cons] at h ⊢
    have hfirst := frames_receive h.of_receiveAll
    have hserver := (s.follows_receive result).server
    rw [SessionOutput.frames_append, hfirst, ih h, hserver, inputsOfReads, Server.frames_append]

theorem frames_finish {number : Nat} {outcome : Outcome} (h : (s.finish number outcome).1.AllWritten) :
    (s.finish number outcome).2.frames = s.server.frames (s.inputsOfFinish number outcome) := by
  unfold finish at h ⊢
  unfold inputsOfFinish
  cases hf : s.invocations.finish? number with
  | none => rfl
  | some call =>
    obtain ⟨root, invocations⟩ := call
    rw [hf] at h
    exact frames_send (s := { s with invocations }) (.completion ⟨root, outcome⟩) h

theorem frames_step {event : SessionEvent} (h : (s.step event).1.AllWritten) :
    (s.step event).2.frames = s.server.frames (s.inputsOfEvent event) := by
  unfold step at h ⊢
  unfold inputsOfEvent
  split
  · rfl
  · next hopen =>
    rw [if_neg hopen] at h
    cases event with
    | deliver bytes => exact frames_receiveAll h
    | close => exact frames_receive h
    | breakOutput => rfl
    | finish number outcome => exact frames_finish h

/-- **What a session writes** is what its server answers to what it takes in. -/
theorem frames_run {events : List SessionEvent} (h : (s.run events).1.AllWritten) :
    (s.run events).2.frames = s.server.frames (s.inputs events) := by
  induction events generalizing s with
  | nil => rfl
  | cons event events ih =>
    rw [run_cons] at h ⊢
    have hfirst := frames_step h.of_run
    have hserver := (s.follows_step event).server
    rw [SessionOutput.frames_append, hfirst, ih h, hserver, inputs, Server.frames_append]

/-! ## What ends a session -/

/-- A reply ends the session well if it is said to and is all written. -/
theorem ended_send_iff (s : Session) (operation : Server × Reply) :
    (s.send operation).1.ended? = some .done ↔
      operation.2.ends = true ∧ ¬ (s.outputBroken = true ∧ operation.2.frames ≠ []) := by
  have hguard : (s.outputBroken && !operation.2.frames.isEmpty) = true ↔
      s.outputBroken = true ∧ operation.2.frames ≠ [] := by simp
  unfold send
  dsimp only
  by_cases hlost : s.outputBroken = true ∧ operation.2.frames ≠ []
  · rw [if_pos (hguard.mpr hlost)]
    exact iff_of_false (by simp) fun h => h.2 hlost
  · rw [if_neg (mt hguard.mp hlost)]
    cases hends : operation.2.ends with
    | true => exact iff_of_true rfl ⟨rfl, hlost⟩
    | false => exact iff_of_false (by simp) fun h => absurd h.1 (by simp)

/-- **A frame ends a session well** only if it is an exit notification. -/
theorem ended_receive_iff (h : s.ended? = none) (v : Json) :
    (s.receive (.frame v)).1.ended? = some .done ↔ IsExit v := by
  have hopen : ¬ s.ended?.isSome = true := by simp [h]
  have hreceive : s.receive (.frame v) = s.send (s.server.handle v) := if_neg hopen
  have hends : (s.server.handle v).2.ends = true ↔ IsExit v := s.server.ends_take_iff (.frame v)
  rw [hreceive, ended_send_iff, hends]
  refine ⟨And.left, fun hexit => ⟨hexit, ?_⟩⟩
  -- nothing is written for it, so it does not matter whether something could be
  rintro ⟨-, hframes⟩
  rcases s.server.handle_of_no_request (requestId?_of_isExit hexit) with ⟨-, hreply⟩ | ⟨hnot, -⟩
  · rw [hreply] at hframes
    exact hframes rfl
  · exact hnot hexit

/-- The end of an analyzer call does not end a session well. -/
theorem ended_finish (h : s.ended? = none) (number : Nat) (outcome : Outcome) :
    (s.finish number outcome).1.ended? ≠ some .done := by
  unfold finish
  cases hf : s.invocations.finish? number with
  | none =>
    rw [h]
    exact nofun
  | some call =>
    obtain ⟨root, invocations⟩ := call
    intro hdone
    have hends := ((ended_send_iff _ _).mp hdone).1
    exact (s.server.ends_take_iff (.completion ⟨root, outcome⟩)).mp hends

/-- A frame that is no exit notification is followed by the next, if all is written. -/
theorem open_of_receive (h : s.ended? = none) {v : Json} (hv : ¬ IsExit v)
    (hwritten : (s.receive (.frame v)).1.AllWritten) : (s.receive (.frame v)).1.ended? = none := by
  cases hended : (s.receive (.frame v)).1.ended? with
  | none => rfl
  | some e =>
    cases e with
    | done => exact absurd ((ended_receive_iff h v).mp hended) hv
    | writeFailed => exact absurd hended hwritten

/-- **No frame is lost** before the exit notification: the server takes in every one that is read. -/
theorem inputsOfReads_frames (h : s.ended? = none) {frames : List Json}
    (hframes : ∀ v ∈ frames, ¬ IsExit v) (hwritten : (s.receiveAll (frames.map .frame)).1.AllWritten) :
    s.inputsOfReads (frames.map .frame) = frames.map .frame := by
  induction frames generalizing s with
  | nil => rfl
  | cons v frames ih =>
    have hv : ¬ IsExit v := hframes v List.mem_cons_self
    have hrest : ∀ w ∈ frames, ¬ IsExit w := fun w hw => hframes w (List.mem_cons_of_mem v hw)
    rw [List.map_cons, receiveAll_cons] at hwritten
    have hopen := open_of_receive h hv hwritten.of_receiveAll
    have htaken : s.inputsOfRead (.frame v) = [.frame v] := if_neg (by simp [h])
    rw [List.map_cons, inputsOfReads, htaken, ih hopen hrest hwritten]
    rfl

/-- **One answer to each request, in order.** Whatever state a server is in, for a frame with a method and
an id it writes first one answer, with this id and with either a result or an error; besides it writes
publications only, as it does for every other frame and every finished scan. In a session in which all is
written, the frames are those of the server for what it takes in, so the ids in them are those of the
requests, in order. A frame ends a session that goes on just if it is an exit notification, and a finished
scan does not; so of the frames that are read none is lost before the exit notification. -/
theorem answers_in_order :
    (∀ (s : Server) (input : ServerInput), InAnswerTo input.requestId? (s.take input).2.frames) ∧
    (∀ (config : ScanConfig) (events : List SessionEvent),
      let r := (fresh config).run events
      let inputs := (fresh config).inputs events
      r.1.AllWritten →
        r.1.server = (Server.fresh config).run inputs ∧
        r.2.frames = (Server.fresh config).frames inputs ∧
        r.2.frames.filterMap (Json.member? "id") = inputs.filterMap ServerInput.requestId?) ∧
    ∀ t : Session, t.ended? = none →
      (∀ v, (t.receive (.frame v)).1.ended? = some .done ↔ IsExit v) ∧
      (∀ number outcome, (t.finish number outcome).1.ended? ≠ some .done) ∧
      ∀ frames : List Json, (∀ v ∈ frames, ¬ IsExit v) →
        (t.receiveAll (frames.map .frame)).1.AllWritten →
          t.inputsOfReads (frames.map .frame) = frames.map .frame := by
  refine ⟨Server.inAnswerTo_take, ?_, ?_⟩
  · intro config events r inputs hwritten
    have hserver : r.1.server = (Server.fresh config).run inputs :=
      ((fresh config).follows_inputs events).server
    have hframes : r.2.frames = (Server.fresh config).frames inputs := frames_run hwritten
    have hids := (Server.fresh config).ids_frames inputs
    rw [← hframes] at hids
    exact ⟨hserver, hframes, hids⟩
  · intro t ht
    refine ⟨ended_receive_iff ht, ended_finish ht, ?_⟩
    intro frames hframes hwritten
    exact inputsOfReads_frames ht hframes hwritten

/-- The requests of a client that starts and stops, under ids of several kinds; the last of them asks for an
answer to `exit`. -/
def briefVisit : List Json :=
  [.object [("id", .null), ("method", .string "initialize")],
    .object [("id", .string "a"), ("method", .string "shutdown")],
    .object [("id", .int 7), ("method", .string "exit")]]

theorem answers_briefVisit :
    let events := [SessionEvent.deliver (Frame.writeAll briefVisit)]
    let r := (fresh {}).run events
    r.1.AllWritten ∧ r.1.ended? = none ∧ r.2.frames.length = 3 ∧
      r.2.frames.filterMap (Json.member? "id") =
        ((fresh {}).inputs events).filterMap ServerInput.requestId? ∧
      (fresh {}).inputsOfReads (briefVisit.map .frame) = briefVisit.map .frame := by
  intro events r
  obtain ⟨-, hsession, hend⟩ := answers_in_order
  have hwritten : r.1.AllWritten := allWritten_run (canWrite_fresh {}) (by simp [events])
  have hread : ((fresh {}).receiveAll (briefVisit.map .frame)).1.AllWritten :=
    ((canWrite_fresh {}).receiveAll _).allWritten
  have hstay : ∀ v ∈ briefVisit, ¬ IsExit v := by
    simp only [briefVisit, List.forall_mem_cons]
    exact ⟨Server.not_isExit_of_request rfl, Server.not_isExit_of_request rfl,
      Server.not_isExit_of_request rfl, nofun⟩
  exact ⟨hwritten, by decide +kernel, by decide +kernel, (hsession {} events hwritten).2.2,
    (hend _ rfl).2.2 briefVisit hstay hread⟩

end Session
end NoticeServer
