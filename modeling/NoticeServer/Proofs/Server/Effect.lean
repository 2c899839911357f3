import NoticeServer.Proofs.Server.Ineffective

/-!
# `NoticeServer.Proofs.Server.Effect` — what can come of an input

Each input has one of a few effects, and its message tells which (`Server.effect_take`). What every input keeps
is shown by going through the effects, and none of the handlers has to be opened for it.
-/

namespace NoticeServer

/-- The requests that the server knows. -/
def requestMethods : List String := ["initialize", "shutdown", "workspace/executeCommand"]

namespace Server

/-- What can come of an input: the state behind it, with the reply. -/
inductive Effect (s : Server) : ServerInput → Server × Reply → Prop where
  | finished (c : Completion) : Effect s (.completion c) (s.complete c)
  | noMessage {v : Json} (h : Incoming.ofFrame v = .other) : Effect s (.frame v) (s, {})
  /-- Shutdown was asked for, or the server does not know the request. -/
  | refused {v id params : Json} {method : String} (e : RequestError)
      (h : Incoming.ofFrame v = .request id method params)
      (hrefused : s.shutdownRequested = true ∨ method ∉ requestMethods) :
      Effect s (.frame v) (s.refuse id e)
  | started {v id params : Json} (h : Incoming.ofFrame v = .request id "initialize" params)
      (hopen : s.shutdownRequested = false) : Effect s (.frame v) (s.start id params)
  | shutdown {v id params : Json} (h : Incoming.ofFrame v = .request id "shutdown" params)
      (hopen : s.shutdownRequested = false) :
      Effect s (.frame v) ({ s with shutdownRequested := true }, { frames := [response id .null] })
  | command {v id params : Json} (h : Incoming.ofFrame v = .request id "workspace/executeCommand" params)
      (hopen : s.shutdownRequested = false) : Effect s (.frame v) (s.command id params)
  | exit {v params : Json} (h : Incoming.ofFrame v = .notification "exit" params) :
      Effect s (.frame v) (s, { ends := true })
  | ready {v params : Json} (h : Incoming.ofFrame v = .notification "initialized" params) :
      Effect s (.frame v) s.ready
  | opened {v params : Json} {doc : OpenedDocument}
      (h : Incoming.ofFrame v = .notification "textDocument/didOpen" params)
      (hdoc : OpenedDocument.read? params = some doc) : Effect s (.frame v) (s.openDocument doc, {})
  | closed {v params : Json} {uri : String}
      (h : Incoming.ofFrame v = .notification "textDocument/didClose" params)
      (huri : readDocumentUri? params = some uri) : Effect s (.frame v) (s.closeDocument uri, {})
  | saved {v params : Json} {uri : String}
      (h : Incoming.ofFrame v = .notification "textDocument/didSave" params)
      (huri : readDocumentUri? params = some uri) : Effect s (.frame v) (s.saved uri)
  | folders {v params : Json} {change : FolderChange}
      (h : Incoming.ofFrame v = .notification "workspace/didChangeWorkspaceFolders" params)
      (hchange : FolderChange.read? params = some change) : Effect s (.frame v) (s.changeFolders change)
  /-- The parameters of the notification cannot be read, or the server does not know it. -/
  | ignored {v params : Json} {method : String} (h : Incoming.ofFrame v = .notification method params)
      (hignored : Unreadable method params ∨ method ∉ notificationMethods) : Effect s (.frame v) (s, {})

variable {s : Server} {v id params : Json} {method : String}

theorem effect_request (h : Incoming.ofFrame v = .request id method params) :
    s.Effect (.frame v) (s.request id method params) := by
  unfold request
  split
  · next hclosing => exact .refused _ h (.inl hclosing)
  next hclosing =>
  have hopen : s.shutdownRequested = false := by simpa using hclosing
  split
  · next hmethod => subst hmethod; exact .started h hopen
  split
  · next hmethod => subst hmethod; exact .shutdown h hopen
  split
  · next hmethod => subst hmethod; exact .command h hopen
  · next hinitialize hshutdown hcommand =>
    exact .refused _ h (.inr (by simp [requestMethods, hinitialize, hshutdown, hcommand]))

theorem effect_notification (h : Incoming.ofFrame v = .notification method params) :
    s.Effect (.frame v) (s.notification method params) := by
  unfold notification
  split
  · next hmethod => subst hmethod; exact .exit h
  split
  · next hmethod => subst hmethod; exact .ready h
  split
  · next hmethod =>
    subst hmethod
    cases hdoc : OpenedDocument.read? params with
    | none => exact .ignored h (.inl (.opened hdoc))
    | some doc => exact .opened h hdoc
  split
  · next hmethod =>
    subst hmethod
    cases huri : readDocumentUri? params with
    | none => exact .ignored h (.inl (.closed huri))
    | some uri => exact .closed h huri
  split
  · next hmethod =>
    subst hmethod
    cases huri : readDocumentUri? params with
    | none => exact .ignored h (.inl (.saved huri))
    | some uri => exact .saved h huri
  split
  · next hmethod =>
    subst hmethod
    cases hchange : FolderChange.read? params with
    | none => exact .ignored h (.inl (.folders hchange))
    | some change => exact .folders h hchange
  · next hexit hready hopen hclose hsave hfolders =>
    refine .ignored h (.inr ?_)
    simp [notificationMethods, hexit, hready, hopen, hclose, hsave, hfolders]

/-- **Every input has one of the effects.** -/
theorem effect_take (s : Server) (input : ServerInput) : s.Effect input (s.take input) := by
  cases input with
  | completion c => exact .finished c
  | frame v =>
    show s.Effect (.frame v) (s.handle v)
    unfold handle
    cases h : Incoming.ofFrame v with
    | request id method params => exact effect_request h
    | notification method params => exact effect_notification h
    | other => exact .noMessage h

end Server
end NoticeServer
