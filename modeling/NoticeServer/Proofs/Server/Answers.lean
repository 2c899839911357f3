import NoticeServer.Proofs.Protocol.Message
import NoticeServer.Proofs.Server.Run

/-!
# `NoticeServer.Proofs.Server.Answers` — what the server writes for a frame

A request is either refused, and then nothing else happens, or answered with a result. All else that the
server writes are publications (`InAnswerTo`), so the ids in what it writes are those of the requests, one
answer each (`Server.ids_frames`).
-/

namespace NoticeServer

/-- The reply that answers a request with a result, and then sends what a reaction publishes. -/
def Reply.answered (id result : Json) (r : Reaction) : Reply :=
  { frames := response id result :: publicationFrames r.publications, scans := r.scans }

namespace Server

variable {s : Server} {frame id : Json}

/-! ## Messages -/

theorem command_cases (s : Server) (id params : Json) :
    (∃ e, s.command id params = s.refuse id e) ∨
    ∃ (next : Server) (result : Json) (r : Reaction),
      s.command id params = (next, .answered id result r) := by
  unfold command
  cases readCommand? params with
  | none => exact .inl ⟨_, rfl⟩
  | some name =>
    dsimp only
    split
    · exact .inl ⟨_, rfl⟩
    · exact .inr ⟨_, .null, s.orchestrator.toggle.2, rfl⟩

/-- **A request** is refused, or answered with a result. -/
theorem request_cases (s : Server) (id : Json) (method : String) (params : Json) :
    (∃ e, s.request id method params = s.refuse id e) ∨
    ∃ (next : Server) (result : Json) (r : Reaction),
      s.request id method params = (next, .answered id result r) := by
  unfold request
  split
  · exact .inl ⟨_, rfl⟩
  split
  · -- the scans of the reaction start, and it publishes nothing
    exact .inr ⟨_, initializeResult, { scans := (s.orchestrator.addRoots _).2.scans }, rfl⟩
  split
  · exact .inr ⟨_, .null, {}, rfl⟩
  split
  · exact s.command_cases id params
  · exact .inl ⟨_, rfl⟩

theorem ready_cases (s : Server) :
    ∃ (next : Server) (r : Reaction), s.ready = (next, .ofReaction r) := by
  unfold ready
  split
  · exact ⟨_, _, rfl⟩
  · exact ⟨s, {}, rfl⟩

theorem saved_cases (s : Server) (uri : String) :
    ∃ (next : Server) (r : Reaction), s.saved uri = (next, .ofReaction r) := by
  unfold saved
  cases s.language? uri with
  | none => exact ⟨s, {}, rfl⟩
  | some language => exact ⟨_, _, rfl⟩

/-- **A notification** ends the session if it is `exit`; any other sends what some reaction publishes. -/
theorem notification_cases (s : Server) (method : String) (params : Json) :
    (method = "exit" ∧ s.notification method params = (s, { ends := true })) ∨
    (method ≠ "exit" ∧
      ∃ (next : Server) (r : Reaction), s.notification method params = (next, .ofReaction r)) := by
  unfold notification
  split
  · next hexit => exact .inl ⟨hexit, rfl⟩
  next hexit =>
  refine .inr ⟨hexit, ?_⟩
  split
  · exact s.ready_cases
  split
  · cases OpenedDocument.read? params with
    | none => exact ⟨s, {}, rfl⟩
    | some doc => exact ⟨s.openDocument doc, {}, rfl⟩
  split
  · cases readDocumentUri? params with
    | none => exact ⟨s, {}, rfl⟩
    | some uri => exact ⟨s.closeDocument uri, {}, rfl⟩
  split
  · cases readDocumentUri? params with
    | none => exact ⟨s, {}, rfl⟩
    | some uri => exact s.saved_cases uri
  split
  · cases FolderChange.read? params with
    | none => exact ⟨s, {}, rfl⟩
    | some change => exact ⟨_, _, rfl⟩
  · exact ⟨s, {}, rfl⟩

/-- What comes of a frame that asks for an answer. -/
theorem handle_of_request (h : requestId? frame = some id) :
    (∃ e, s.handle frame = s.refuse id e) ∨
    ∃ (next : Server) (result : Json) (r : Reaction), s.handle frame = (next, .answered id result r) := by
  rw [Incoming.requestId?_eq] at h
  unfold handle
  split at h
  · next id' method params hframe =>
    obtain rfl : id' = id := Option.some.inj h
    rw [hframe]
    exact s.request_cases id' method params
  · exact absurd h nofun

/-- What comes of a frame that asks for no answer. -/
theorem handle_of_no_request (h : requestId? frame = none) :
    (IsExit frame ∧ s.handle frame = (s, { ends := true })) ∨
    (¬ IsExit frame ∧
      ∃ (next : Server) (r : Reaction), s.handle frame = (next, .ofReaction r)) := by
  rw [Incoming.requestId?_eq] at h
  rw [Incoming.isExit_iff]
  unfold handle
  cases hframe : Incoming.ofFrame frame with
  | request id method params =>
    rw [hframe] at h
    exact absurd h nofun
  | notification method params =>
    rcases s.notification_cases method params with ⟨rfl, hreply⟩ | ⟨hmethod, next, r, hreply⟩
    · exact .inl ⟨⟨params, rfl⟩, hreply⟩
    · refine .inr ⟨?_, next, r, hreply⟩
      rintro ⟨params', hexit⟩
      exact hmethod (Incoming.notification.inj hexit).1
  | other => exact .inr ⟨fun ⟨_, hexit⟩ => absurd hexit nofun, s, {}, rfl⟩

end Server

/-! ## What may be written -/

/-- The frames that may be written for a request of an id, and for anything else: for a request first its
answer; and besides publications only. -/
inductive InAnswerTo : Option Json → List Json → Prop where
  | request {id answer : Json} {publications : List Json} (hanswer : Answers answer id)
      (hrest : ∀ frame ∈ publications, Publishes frame) : InAnswerTo (some id) (answer :: publications)
  | noRequest {publications : List Json} (h : ∀ frame ∈ publications, Publishes frame) :
      InAnswerTo none publications

/-- Publications carry no id. -/
theorem ids_of_publishes {frames : List Json} (h : ∀ frame ∈ frames, Publishes frame) :
    frames.filterMap (Json.member? "id") = [] :=
  List.filterMap_eq_nil_iff.mpr fun frame hframe => (h frame hframe).id

/-- The ids in what is written for a request are its id, once. -/
theorem InAnswerTo.ids {request? : Option Json} {frames : List Json} (h : InAnswerTo request? frames) :
    frames.filterMap (Json.member? "id") = request?.toList := by
  cases h with
  | request hanswer hrest =>
    rw [List.filterMap_cons, hanswer.id, ids_of_publishes hrest]
    rfl
  | noRequest h => exact ids_of_publishes h

/-- The id of the answer that an input asks for; a finished scan asks for none. -/
def ServerInput.requestId? : ServerInput → Option Json
  | .frame v => NoticeServer.requestId? v
  | .completion _ => none

/-- A frame that tells the server to exit. -/
def ServerInput.IsExit : ServerInput → Prop
  | .frame v => NoticeServer.IsExit v
  | .completion _ => False

namespace Server

variable {s : Server}

theorem not_isExit_of_request {frame id : Json} (h : requestId? frame = some id) : ¬ IsExit frame := by
  intro hexit
  exact absurd (h.symm.trans (requestId?_of_isExit hexit)) nofun

/-- **What is written** for one frame or one finished scan: the answer if it is a request, and
publications. -/
theorem inAnswerTo_take (s : Server) (input : ServerInput) :
    InAnswerTo input.requestId? (s.take input).2.frames := by
  cases input with
  | completion c => exact .noRequest fun frame hframe => publishes_of_mem hframe
  | frame v =>
    show InAnswerTo (requestId? v) (s.handle v).2.frames
    cases hrequest : requestId? v with
    | some id =>
      rcases s.handle_of_request hrequest with ⟨e, hreply⟩ | ⟨next, result, r, hreply⟩
      · rw [hreply]
        exact .request (answers_errorResponse id e) fun frame hframe => absurd hframe List.not_mem_nil
      · rw [hreply]
        exact .request (answers_response id result) fun frame hframe => publishes_of_mem hframe
    | none =>
      rcases s.handle_of_no_request hrequest with ⟨-, hreply⟩ | ⟨-, next, r, hreply⟩
      · rw [hreply]
        exact .noRequest fun frame hframe => absurd hframe List.not_mem_nil
      · rw [hreply]
        exact .noRequest fun frame hframe => publishes_of_mem hframe

/-- **What ends the session**: the exit notification, and nothing else. -/
theorem ends_take_iff (s : Server) (input : ServerInput) :
    (s.take input).2.ends = true ↔ input.IsExit := by
  cases input with
  | completion c => exact iff_of_false Bool.false_ne_true id
  | frame v =>
    show (s.handle v).2.ends = true ↔ IsExit v
    cases hrequest : requestId? v with
    | some id =>
      have hnot := not_isExit_of_request hrequest
      rcases s.handle_of_request hrequest with ⟨e, hreply⟩ | ⟨next, result, r, hreply⟩
      · rw [hreply]
        exact iff_of_false Bool.false_ne_true hnot
      · rw [hreply]
        exact iff_of_false Bool.false_ne_true hnot
    | none =>
      rcases s.handle_of_no_request hrequest with ⟨hexit, hreply⟩ | ⟨hnot, next, r, hreply⟩
      · rw [hreply]
        exact iff_of_true rfl hexit
      · rw [hreply]
        exact iff_of_false Bool.false_ne_true hnot

/-! ## Runs -/

/-- All frames that are written along frames and finished scans, in order. -/
def frames (s : Server) : List ServerInput → List Json
  | [] => []
  | input :: inputs => (s.take input).2.frames ++ frames (s.take input).1 inputs

theorem frames_append (s : Server) (inputs more : List ServerInput) :
    s.frames (inputs ++ more) = s.frames inputs ++ (s.run inputs).frames more := by
  induction inputs generalizing s with
  | nil => rfl
  | cons input inputs ih =>
    rw [List.cons_append, frames, frames, ih, List.append_assoc]
    rfl

/-- **The ids along a run** are the ids of its requests, in order. -/
theorem ids_frames (s : Server) (inputs : List ServerInput) :
    (s.frames inputs).filterMap (Json.member? "id") = inputs.filterMap ServerInput.requestId? := by
  induction inputs generalizing s with
  | nil => rfl
  | cons input inputs ih =>
    have hfirst := (s.inAnswerTo_take input).ids
    rw [frames, List.filterMap_append, hfirst, ih, List.filterMap_cons]
    cases input.requestId? <;> rfl

end Server
end NoticeServer
