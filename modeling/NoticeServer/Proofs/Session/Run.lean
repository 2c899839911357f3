import NoticeServer.Proofs.Orchestrator.Calls
import NoticeServer.Proofs.Server.Run
import NoticeServer.Session

/-!
# `NoticeServer.Proofs.Session.Run` — sessions along events

A session takes in events one after the other (`Session.run`), and its output is all that comes out along
them. Whatever the events are, the server of the session takes in frames and finished scans
(`Session.inputs`), and the analyzer calls that are started are just the scans of the server
(`Session.follows_inputs`).
-/

namespace NoticeServer

/-! ## Outputs -/

namespace SessionOutput

@[simp] theorem frames_append (a b : SessionOutput) : (a ++ b).frames = a.frames ++ b.frames := rfl

@[simp] theorem scans_append (a b : SessionOutput) : (a ++ b).scans = a.scans ++ b.scans := rfl

@[simp] theorem empty_append (a : SessionOutput) : ({} : SessionOutput) ++ a = a := rfl

@[simp] theorem append_empty (a : SessionOutput) : a ++ ({} : SessionOutput) = a := by
  show SessionOutput.mk _ _ = _
  simp

theorem append_assoc (a b c : SessionOutput) : a ++ b ++ c = a ++ (b ++ c) := by
  show SessionOutput.mk _ _ = SessionOutput.mk _ _
  simp

end SessionOutput

namespace Session

/-- Events one after the other: the session behind them, and all that comes out. -/
def run (s : Session) : List SessionEvent → Session × SessionOutput
  | [] => (s, {})
  | event :: events =>
    (((s.step event).1.run events).1, (s.step event).2 ++ ((s.step event).1.run events).2)

@[simp] theorem run_nil (s : Session) : s.run [] = (s, {}) := rfl

theorem run_cons (s : Session) (event : SessionEvent) (events : List SessionEvent) :
    s.run (event :: events) =
      (((s.step event).1.run events).1, (s.step event).2 ++ ((s.step event).1.run events).2) := rfl

theorem run_append (s : Session) (events more : List SessionEvent) :
    s.run (events ++ more) =
      (((s.run events).1.run more).1, (s.run events).2 ++ ((s.run events).1.run more).2) := by
  induction events generalizing s with
  | nil => rfl
  | cons event events ih => rw [List.cons_append, run_cons, ih, run_cons, SessionOutput.append_assoc]

variable {s : Session}

/-! ## Results of the reader -/

theorem foldl_receive (s : Session) (before : SessionOutput) (results : List FrameRead) :
    results.foldl (fun (s, output) result => ((s.receive result).1, output ++ (s.receive result).2))
        (s, before) = ((s.receiveAll results).1, before ++ (s.receiveAll results).2) := by
  -- what came out before stays in front of what comes out later
  unfold receiveAll
  induction results generalizing s before with
  | nil => simp
  | cons result results ih =>
    rw [List.foldl_cons, List.foldl_cons, ih, ih _ ({} ++ _)]
    simp [SessionOutput.append_assoc]

@[simp] theorem receiveAll_nil (s : Session) : s.receiveAll [] = (s, {}) := rfl

theorem receiveAll_cons (s : Session) (result : FrameRead) (results : List FrameRead) :
    s.receiveAll (result :: results) =
      (((s.receive result).1.receiveAll results).1,
        (s.receive result).2 ++ ((s.receive result).1.receiveAll results).2) := by
  rw [receiveAll, List.foldl_cons, foldl_receive]
  rfl

theorem receiveAll_append (s : Session) (results more : List FrameRead) :
    s.receiveAll (results ++ more) =
      (((s.receiveAll results).1.receiveAll more).1,
        (s.receiveAll results).2 ++ ((s.receiveAll results).1.receiveAll more).2) := by
  rw [receiveAll, List.foldl_append]
  exact foldl_receive _ _ more

theorem receive_of_ended (h : s.ended?.isSome = true) (result : FrameRead) :
    s.receive result = (s, {}) := if_pos h

/-- After its end a session takes in nothing. -/
theorem receiveAll_of_ended (h : s.ended?.isSome = true) (results : List FrameRead) :
    s.receiveAll results = (s, {}) := by
  induction results with
  | nil => rfl
  | cons result results ih => rw [receiveAll_cons, receive_of_ended h, ih]; rfl

theorem step_of_ended (h : s.ended?.isSome = true) (event : SessionEvent) :
    s.step event = (s, {}) := if_pos h

theorem run_of_ended (h : s.ended?.isSome = true) (events : List SessionEvent) :
    s.run events = (s, {}) := by
  induction events with
  | nil => rfl
  | cons event events ih => rw [run_cons, step_of_ended h, ih]; rfl

/-! ## What the server takes in -/

/-- What the server takes in of a result of the reader: a frame, unless the session has ended. -/
def inputsOfRead (s : Session) (result : FrameRead) : List ServerInput :=
  if s.ended?.isSome then []
  else
    match result with
    | .frame v => [.frame v]
    | _ => []

/-- What the server takes in of results one after the other. -/
def inputsOfReads (s : Session) : List FrameRead → List ServerInput
  | [] => []
  | result :: results => s.inputsOfRead result ++ (s.receive result).1.inputsOfReads results

/-- What the server takes in of the end of an analyzer call: the finished scan, if the call is running. -/
def inputsOfFinish (s : Session) (number : Nat) (outcome : Outcome) : List ServerInput :=
  match s.invocations.finish? number with
  | some (root, _) => [.completion ⟨root, outcome⟩]
  | none => []

/-- What the server takes in of an event. -/
def inputsOfEvent (s : Session) (event : SessionEvent) : List ServerInput :=
  if s.ended?.isSome then []
  else
    match event with
    | .deliver bytes =>
      let (reader, results) := s.reader.run bytes
      { s with reader }.inputsOfReads results
    | .close => s.inputsOfRead s.reader.finish
    | .breakOutput => []
    | .finish number outcome => s.inputsOfFinish number outcome

/-- All that the server takes in along events, in order. -/
def inputs (s : Session) : List SessionEvent → List ServerInput
  | [] => []
  | event :: events => s.inputsOfEvent event ++ (s.step event).1.inputs events

/-- A session with what came out follows from another by what its server took in: the server is that
behind these inputs, and the scans that start are theirs, each an analyzer call of its own. -/
structure Follows (s : Session) (r : Session × SessionOutput) (inputs : List ServerInput) : Prop where
  server : r.1.server = s.server.run inputs
  scans : r.2.scans = s.server.scans inputs
  calls : r.1.invocations.calls.map (·.root) = s.invocations.calls.map (·.root) ++ r.2.scans

namespace Follows

/-- A session whose server and analyzer calls are the same. -/
theorem refl {s' : Session} (hserver : s'.server = s.server) (hcalls : s'.invocations = s.invocations) :
    Follows s (s', {}) [] where
  server := hserver
  scans := rfl
  calls := by rw [hcalls, List.append_nil]

theorem trans {r r' : Session × SessionOutput} {inputs more : List ServerInput}
    (h : Follows s r inputs) (h' : Follows r.1 r' more) :
    Follows s (r'.1, r.2 ++ r'.2) (inputs ++ more) where
  server := by rw [Server.run_append, ← h.server]; exact h'.server
  scans := by
    rw [Server.scans_append, ← h.server, ← h.scans, ← h'.scans]
    rfl
  calls := by
    show r'.1.invocations.calls.map (·.root) = _ ++ (r.2.scans ++ r'.2.scans)
    rw [h'.calls, h.calls, List.append_assoc]

end Follows

/-- What is sent is what the server answers to one input. -/
theorem follows_send (s : Session) (input : ServerInput) :
    Follows s (s.send (s.server.take input)) [input] := by
  have hcalls := s.invocations.roots_start (s.server.take input).2.scans
  -- the scans start whether or not the frames can be written
  unfold send
  dsimp only
  split
  · exact ⟨rfl, (List.append_nil _).symm, hcalls⟩
  · exact ⟨rfl, (List.append_nil _).symm, hcalls⟩

theorem follows_receive (s : Session) (result : FrameRead) :
    Follows s (s.receive result) (s.inputsOfRead result) := by
  unfold receive inputsOfRead
  split
  · exact .refl rfl rfl
  · cases result with
    | frame v => exact s.follows_send (.frame v)
    | error e => exact .refl rfl rfl
    | finished => exact .refl rfl rfl

theorem follows_receiveAll (s : Session) (results : List FrameRead) :
    Follows s (s.receiveAll results) (s.inputsOfReads results) := by
  induction results generalizing s with
  | nil => exact .refl rfl rfl
  | cons result results ih =>
    have hfirst := s.follows_receive result
    have hrest := ih (s.receive result).1
    rw [receiveAll_cons]
    exact hfirst.trans hrest

theorem follows_finish (s : Session) (number : Nat) (outcome : Outcome) :
    Follows s (s.finish number outcome) (s.inputsOfFinish number outcome) := by
  unfold finish inputsOfFinish
  cases hf : s.invocations.finish? number with
  | none => exact .refl rfl rfl
  | some call =>
    obtain ⟨root, invocations⟩ := call
    have hsend := ({ s with invocations } : Session).follows_send (.completion ⟨root, outcome⟩)
    exact ⟨hsend.server, hsend.scans, by rw [← Invocations.roots_finish hf]; exact hsend.calls⟩

theorem follows_step (s : Session) (event : SessionEvent) :
    Follows s (s.step event) (s.inputsOfEvent event) := by
  unfold step inputsOfEvent
  split
  · exact .refl rfl rfl
  · cases event with
    | deliver bytes =>
      have hreads := ({ s with reader := (s.reader.run bytes).1 } : Session).follows_receiveAll
        (s.reader.run bytes).2
      exact ⟨hreads.server, hreads.scans, hreads.calls⟩
    | close => exact s.follows_receive s.reader.finish
    | breakOutput => exact .refl rfl rfl
    | finish number outcome => exact s.follows_finish number outcome

/-- **The server of a session takes in frames and finished scans**, whatever the events are. -/
theorem follows_inputs (s : Session) (events : List SessionEvent) :
    Follows s (s.run events) (s.inputs events) := by
  induction events generalizing s with
  | nil => exact .refl rfl rfl
  | cons event events ih =>
    have hfirst := s.follows_step event
    have hrest := ih (s.step event).1
    exact hfirst.trans hrest

end Session
end NoticeServer
