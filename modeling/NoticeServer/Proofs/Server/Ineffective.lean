import NoticeServer.Proofs.Server.Answers

/-!
# `NoticeServer.Proofs.Server.Ineffective` — frames that change nothing

A request that is refused, a frame that is no message, a notification that the server does not know and a
message whose parameters cannot be read as a whole leave the server as it is (`Server.handle_of_ineffective`).
All parameters of a message are read before any of it is acted upon, so a single folder that cannot be read
undoes its whole change (`FolderChange.read?_of_spoiledBy`).
-/

namespace NoticeServer

/-! ## Parameters that cannot be read -/

/-- A list of which one item cannot be read cannot be read. -/
theorem Record.list?_of_mem {α : Type} {read? : Json → Option α} {items : List Json} {item : Json}
    (hmem : item ∈ items) (hitem : read? item = none) : list? read? (.array items) = none := by
  show items.mapM read? = none
  induction items with
  | nil => exact absurd hmem List.not_mem_nil
  | cons first items ih =>
    rw [List.mapM_cons]
    rcases List.mem_cons.mp hmem with rfl | hmem
    · rw [hitem]
      rfl
    · rw [ih hmem]
      cases read? first <;> rfl

/-- A change of folders one of whose entries, added or removed, cannot be read. -/
def FolderChange.SpoiledBy (params item : Json) : Prop :=
  ∃ event fields items,
    Record.fields? ["event"] params = some [some event] ∧
    Record.fields? ["added", "removed"] event = some fields ∧
    some (.array items) ∈ fields ∧ item ∈ items ∧ readFolder? item = none

theorem FolderChange.read?_of_spoiledBy {params item : Json} (h : SpoiledBy params item) :
    read? params = none := by
  obtain ⟨event, fields, items, hevent, hfields, hitems, hmem, hitem⟩ := h
  have hlist : Record.listOrEmpty? readFolder? (some (.array items)) = none :=
    Record.list?_of_mem hmem hitem
  have hread : readEvent? event = none := by
    unfold readEvent?
    rw [hfields]
    split
    · next added removed heq =>
      obtain rfl := Option.some.inj heq
      -- the entry stands among the added folders or among the removed ones
      rcases List.mem_cons.mp hitems with rfl | hremoved
      · rw [hlist]
        rfl
      · obtain rfl := List.mem_singleton.mp hremoved
        rw [hlist]
        cases Record.listOrEmpty? readFolder? added <;> rfl
    · rfl
  simp only [read?, Record.single?, hevent, Record.required?, Option.bind_some, hread]

/-- The messages whose parameters cannot be read as a whole. -/
inductive Unreadable : String → Json → Prop where
  | starting {params : Json} (h : InitializeParams.read? params = none) :
      Unreadable "initialize" params
  | opened {params : Json} (h : OpenedDocument.read? params = none) :
      Unreadable "textDocument/didOpen" params
  | closed {params : Json} (h : readDocumentUri? params = none) :
      Unreadable "textDocument/didClose" params
  | saved {params : Json} (h : readDocumentUri? params = none) :
      Unreadable "textDocument/didSave" params
  | folders {params : Json} (h : FolderChange.read? params = none) :
      Unreadable "workspace/didChangeWorkspaceFolders" params
  /-- One folder that cannot be read is enough. -/
  | folder {params item : Json} (h : FolderChange.SpoiledBy params item) :
      Unreadable "workspace/didChangeWorkspaceFolders" params

/-- The notifications that the server knows. -/
def notificationMethods : List String :=
  ["exit", "initialized", "textDocument/didOpen", "textDocument/didClose", "textDocument/didSave",
    "workspace/didChangeWorkspaceFolders"]

namespace Server

variable {s : Server} {frame id params : Json} {method : String}

/-! ## Messages without effect -/

/-- A notification that the server does not know has no effect. -/
theorem notification_of_unknown (h : method ∉ notificationMethods) :
    s.notification method params = (s, {}) := by
  simp only [notificationMethods, List.mem_cons, List.not_mem_nil, or_false, not_or] at h
  obtain ⟨hexit, hinitialized, hopen, hclose, hsave, hfolders⟩ := h
  simp only [notification, if_neg hexit, if_neg hinitialized, if_neg hopen, if_neg hclose, if_neg hsave,
    if_neg hfolders]

/-- A notification whose parameters cannot be read has no effect. -/
theorem notification_of_unreadable (h : Unreadable method params) :
    s.notification method params = (s, {}) := by
  cases h with
  | starting h => exact notification_of_unknown (by decide)
  | opened h => simp [notification, h]
  | closed h => simp [notification, h]
  | saved h => simp [notification, h]
  | folders h => simp [notification, h]
  | folder h => simp [notification, FolderChange.read?_of_spoiledBy h]

/-- A frame that asks for an answer, gets it, and has no other effect. -/
def OnlyAnswered (s : Server) (id : Json) (outcome : Server × Reply) : Prop :=
  ∃ answer, Answers answer id ∧ outcome = (s, { frames := [answer] })

theorem onlyAnswered_refuse (s : Server) (id : Json) (e : RequestError) :
    s.OnlyAnswered id (s.refuse id e) := ⟨_, answers_errorResponse id e, rfl⟩

/-- A client that starts with parameters that cannot be read is answered, and nothing else happens. -/
theorem onlyAnswered_start (h : InitializeParams.read? params = none) :
    s.OnlyAnswered id (s.start id params) := by
  refine ⟨_, answers_response id initializeResult, ?_⟩
  unfold start
  rw [h]
  rfl

/-- A request is refused if it has a method that only a notification has. -/
theorem onlyAnswered_of_notification (h : method ∈ notificationMethods) :
    s.OnlyAnswered id (s.request id method params) := by
  have hunknown :
      method ≠ "initialize" ∧ method ≠ "shutdown" ∧ method ≠ "workspace/executeCommand" := by
    refine ⟨?_, ?_, ?_⟩ <;> rintro rfl <;> exact absurd h (by decide)
  unfold request
  split
  · exact s.onlyAnswered_refuse id _
  · rw [if_neg hunknown.1, if_neg hunknown.2.1, if_neg hunknown.2.2]
    exact s.onlyAnswered_refuse id _

/-- A request whose parameters cannot be read is answered, and has no other effect. -/
theorem request_of_unreadable (h : Unreadable method params) :
    s.OnlyAnswered id (s.request id method params) := by
  cases h with
  | starting h =>
    unfold request
    split
    · exact s.onlyAnswered_refuse id _
    · exact onlyAnswered_start h
  | opened h => exact onlyAnswered_of_notification (by decide)
  | closed h => exact onlyAnswered_of_notification (by decide)
  | saved h => exact onlyAnswered_of_notification (by decide)
  | folders h => exact onlyAnswered_of_notification (by decide)
  | folder h => exact onlyAnswered_of_notification (by decide)

/-! ## Frames without effect -/

/-- The frames that change nothing. -/
inductive Ineffective (s : Server) (frame : Json) : Prop where
  /-- An error is written for it. -/
  | refused {answer : Json} (hanswer : answer ∈ (s.handle frame).2.frames)
      (herror : answer.member? "error" ≠ none)
  /-- It has no method, so it is neither a request nor a notification. -/
  | noMessage (h : ∀ method, frame.member? "method" ≠ some (.string method))
  /-- It is a notification of a method that the server does not know. -/
  | unknown {method : String} (hmethod : frame.member? "method" = some (.string method))
      (hid : frame.member? "id" = none) (h : method ∉ notificationMethods)
  /-- Its parameters cannot be read as a whole; missing ones count as null. -/
  | unreadable {method : String} (hmethod : frame.member? "method" = some (.string method))
      (h : Unreadable method ((frame.member? "params").getD .null))

theorem requestId?_of_method (h : frame.member? "method" = some (.string method)) :
    requestId? frame = frame.member? "id" := by
  unfold requestId?
  rw [h]

/-- The frame of a message does what the message does. -/
theorem handle_of_method (h : frame.member? "method" = some (.string method)) :
    s.handle frame =
      match requestId? frame with
      | some id => s.request id method ((frame.member? "params").getD .null)
      | none => s.notification method ((frame.member? "params").getD .null) := by
  rw [requestId?_of_method h]
  unfold handle
  rw [Incoming.ofFrame_eq, h]
  cases frame.member? "id" <;> rfl

/-- No error is written for a frame that asks for no answer. -/
theorem error_of_no_request (h : requestId? frame = none) {answer : Json}
    (hanswer : answer ∈ (s.handle frame).2.frames) : answer.member? "error" = none := by
  have hwritten := s.inAnswerTo_take (.frame frame)
  rw [show (ServerInput.frame frame).requestId? = none from h] at hwritten
  cases hwritten with
  | noRequest hpublishes => exact (hpublishes answer hanswer).error

/-- A request for which an error is written is refused. -/
theorem onlyAnswered_of_error (h : requestId? frame = some id) {answer : Json}
    (hanswer : answer ∈ (s.handle frame).2.frames) (herror : answer.member? "error" ≠ none) :
    s.OnlyAnswered id (s.handle frame) := by
  rcases s.handle_of_request h with ⟨e, hreply⟩ | ⟨next, result, r, hreply⟩
  · rw [hreply]
    exact s.onlyAnswered_refuse id e
  · -- neither a result nor a publication carries an error
    rw [hreply] at hanswer
    rcases List.mem_cons.mp hanswer with rfl | hrest
    · exact absurd (error_response id result) herror
    · exact absurd (publishes_of_mem hrest).error herror

/-- **Frames that change nothing.** A frame that is answered with an error, that is no message, that is a
notification of an unknown method, or whose parameters cannot be read as a whole leaves the complete state
of the server as it is, starts no scan and does not end the session. If it asks for no answer nothing is
written, else just its answer. -/
theorem handle_of_ineffective (h : s.Ineffective frame) :
    (requestId? frame = none → s.handle frame = (s, {})) ∧
    ∀ id, requestId? frame = some id →
      ∃ answer, Answers answer id ∧ s.handle frame = (s, { frames := [answer] }) := by
  cases h with
  | refused hanswer herror =>
    refine ⟨fun hnone => ?_, fun id hid => onlyAnswered_of_error hid hanswer herror⟩
    exact absurd (error_of_no_request hnone hanswer) herror
  | noMessage h =>
    have hother : Incoming.ofFrame frame = .other := Incoming.ofFrame_eq_other_iff.mpr h
    have hnone : requestId? frame = none := by rw [Incoming.requestId?_eq, hother]
    refine ⟨fun _ => ?_, fun id hid => absurd (hnone.symm.trans hid) nofun⟩
    unfold handle
    rw [hother]
  | unknown hmethod hid hunknown =>
    have hnone : requestId? frame = none := (requestId?_of_method hmethod).trans hid
    refine ⟨fun _ => ?_, fun id hid => absurd (hnone.symm.trans hid) nofun⟩
    rw [handle_of_method hmethod, hnone]
    exact notification_of_unknown hunknown
  | unreadable hmethod hparams =>
    rw [handle_of_method hmethod]
    refine ⟨fun hnone => ?_, fun id hid => ?_⟩
    · rw [hnone]
      exact notification_of_unreadable hparams
    · rw [hid]
      exact request_of_unreadable hparams

/-- A change of folders that removes one and adds one whose URI is no text. -/
def spoiledChange : Json :=
  .object [("method", .string "workspace/didChangeWorkspaceFolders"),
    ("params", .object [("event", .object [
      ("added", .array [.object [("uri", .string "file:///work/b")], .object [("uri", .int 5)]]),
      ("removed", .array [.object [("uri", .string "file:///work/a")]])])])]

/-- A client that starts and gives a number for its parameters. -/
def spoiledStart : Json :=
  .object [("id", .null), ("method", .string "initialize"), ("params", .int 5)]

/-- The change that adds a folder that cannot be read does not remove the other one either, and a client
whose parameters cannot be read is answered under its id. -/
theorem handle_spoiled :
    let s : Server := { orchestrator :=
      { config := {}, active := true, roots := [Path.ofString "/work/a"], inFlight := 1 } }
    s.handle spoiledChange = (s, {}) ∧
    ∃ answer, Answers answer .null ∧ s.handle spoiledStart = (s, { frames := [answer] }) := by
  intro s
  have hchange : FolderChange.SpoiledBy ((spoiledChange.member? "params").getD .null)
      (.object [("uri", .int 5)]) :=
    ⟨_, _, _, rfl, rfl, List.mem_cons_self, by simp, rfl⟩
  have hstart : InitializeParams.read? ((spoiledStart.member? "params").getD .null) = none := rfl
  exact ⟨(handle_of_ineffective (.unreadable rfl (.folder hchange))).1 rfl,
    (handle_of_ineffective (.unreadable rfl (.starting hstart))).2 .null rfl⟩

end Server
end NoticeServer
