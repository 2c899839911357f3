import NoticeServer.Frame.Reader
import NoticeServer.Orchestrator.Invocations
import NoticeServer.Server

/-!
# `NoticeServer.Session` — a server between its client and its analyzer

A session takes in bytes from the client and finished analyzer calls, and yields frames and analyzer
calls to start. It ends well on an `exit` notification, at the end of the input and at a frame that
cannot be read, and badly when a frame cannot be written. After its end nothing happens.
-/

namespace NoticeServer

/-- What can happen to a session. -/
inductive SessionEvent where
  /-- Bytes from the client. -/
  | deliver (bytes : List UInt8)
  /-- The end of the client's bytes. -/
  | close
  /-- From now on nothing can be written. -/
  | breakOutput
  /-- The analyzer call of this number ends. -/
  | finish (number : Nat) (outcome : Outcome)

/-- How a session ended. -/
inductive SessionEnd where
  | done
  | writeFailed
  deriving DecidableEq, Repr

/-- The wording of a failure to write. -/
def SessionEnd.writeMessage : String := "writing frame header"

/-- What comes out of a session: frames for the client, and roots to call the analyzer for. -/
structure SessionOutput where
  frames : List Json := []
  scans : List Path := []

/-- One output and then another. -/
def SessionOutput.append (a b : SessionOutput) : SessionOutput :=
  ⟨a.frames ++ b.frames, a.scans ++ b.scans⟩

instance : Append SessionOutput := ⟨SessionOutput.append⟩

/-- The state of a session. -/
structure Session where
  server : Server
  reader : FrameReader := .start
  invocations : Invocations := .empty
  outputBroken : Bool := false
  ended? : Option SessionEnd := none

namespace Session

/-- The state before anything happened. -/
def fresh (config : ScanConfig) : Session := { server := .fresh config }

/-- Sends a reply of the server. The scans of a reply start even if its frames cannot be written. -/
def send (s : Session) (operation : Server × Reply) : Session × SessionOutput :=
  let (server, reply) := operation
  let s := { s with server, invocations := s.invocations.start reply.scans }
  if s.outputBroken && !reply.frames.isEmpty then
    ({ s with ended? := some .writeFailed }, { scans := reply.scans })
  else
    ({ s with ended? := if reply.ends then some .done else none },
      { frames := reply.frames, scans := reply.scans })

/-- Takes in one result of the reader. -/
def receive (s : Session) (result : FrameRead) : Session × SessionOutput :=
  if s.ended?.isSome then (s, {})
  else
    match result with
    | .frame v => s.send (s.server.handle v)
    | .error _ => ({ s with ended? := some .done }, {})
    | .finished => ({ s with ended? := some .done }, {})

/-- Takes in results one after the other. -/
def receiveAll (s : Session) (results : List FrameRead) : Session × SessionOutput :=
  results.foldl (fun (s, output) result => ((s.receive result).1, output ++ (s.receive result).2)) (s, {})

/-- Takes in bytes from the client. -/
def deliver (s : Session) (bytes : List UInt8) : Session × SessionOutput :=
  let (reader, results) := s.reader.run bytes
  { s with reader }.receiveAll results

/-- The end of an analyzer call; a call that is not running is ignored. -/
def finish (s : Session) (number : Nat) (outcome : Outcome) : Session × SessionOutput :=
  match s.invocations.finish? number with
  | none => (s, {})
  | some (root, invocations) => { s with invocations }.send (s.server.complete ⟨root, outcome⟩)

/-- Takes in one event. -/
def step (s : Session) (event : SessionEvent) : Session × SessionOutput :=
  if s.ended?.isSome then (s, {})
  else
    match event with
    | .deliver bytes => s.deliver bytes
    | .close => s.receive s.reader.finish
    | .breakOutput => ({ s with outputBroken := true }, {})
    | .finish number outcome => s.finish number outcome

end Session
end NoticeServer
