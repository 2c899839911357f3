import NoticeServer.Proofs.Orchestrator.Roots
import NoticeServer.Server

/-!
# `NoticeServer.Proofs.Server.Demand` — what a frame asks of the orchestrator

Few frames ask anything of the orchestrator, and each asks for one of three things: to turn scanning on or
off, to look at a saved document, or to change the roots (`Demand`, `Server.Asks`). Everything that a frame does
to the orchestrator follows from this (`Server.handle_cases`), in particular for which roots it starts scans
(`Server.StartsScans`).
-/

namespace NoticeServer

/-! ## Demands -/

/-- What a frame can ask of the orchestrator. -/
inductive Demand where
  /-- Turn scanning on or off. -/
  | toggle
  /-- A document of this language was saved. -/
  | saved (language : String)
  /-- Remove roots, then add others. -/
  | change (removed added : List Path)

/-- What comes of a demand. -/
def Orchestrator.answer (o : Orchestrator) : Demand → Orchestrator × Reaction
  | .toggle => o.toggle
  | .saved language => o.documentSaved language
  | .change removed added =>
    (((o.removeRoots removed).1.addRoots added).1,
      (o.removeRoots removed).2 ++ ((o.removeRoots removed).1.addRoots added).2)

namespace Orchestrator

variable (o : Orchestrator)

/-- The scans that come of a demand. -/
theorem scans_answer (d : Demand) :
    (o.answer d).2.scans =
      match d with
      | .toggle => if o.active = true then [] else o.roots
      | .saved language => if o.active = true ∧ o.config.watches language = true then o.roots else []
      | .change removed added =>
        if o.active = true then Path.additions (Path.without o.roots removed) added else [] := by
  cases d with
  | toggle => exact o.scans_toggle
  | saved language => exact o.scans_documentSaved language
  | change removed added =>
    obtain ⟨hroots, hremoved⟩ := o.removeRoots_roots removed
    obtain ⟨roots, published, hframe⟩ := o.removeRoots_frame removed
    have hactive : (o.removeRoots removed).1.active = o.active := by rw [hframe]
    show (_ ++ ((o.removeRoots removed).1.addRoots added).2).scans = _
    rw [Reaction.scans_append, hremoved, ((o.removeRoots removed).1.addRoots_roots added).2, hroots,
      hactive, List.nil_append]

/-- The roots behind a demand: only a change of roots changes them. -/
theorem roots_answer (d : Demand) :
    (o.answer d).1.roots =
      match d with
      | .toggle => o.roots
      | .saved _ => o.roots
      | .change removed added =>
        Path.without o.roots removed ++ Path.additions (Path.without o.roots removed) added := by
  cases d with
  | toggle => exact o.perform_roots .toggle
  | saved language => exact o.perform_roots (.documentSaved language)
  | change removed added =>
    have hroots := (o.removeRoots_roots removed).1
    show ((o.removeRoots removed).1.addRoots added).1.roots = _
    rw [((o.removeRoots removed).1.addRoots_roots added).1, hroots]

/-- Whether scanning is active behind a demand: only turning it on or off changes it. -/
theorem active_answer (d : Demand) :
    (o.answer d).1.active =
      match d with
      | .toggle => !o.active
      | _ => o.active := by
  cases d with
  | toggle => exact o.perform_active .toggle
  | saved language => exact o.perform_active (.documentSaved language)
  | change removed added =>
    obtain ⟨roots, published, hremoved⟩ := o.removeRoots_frame removed
    obtain ⟨roots', inFlight, hadded⟩ := (o.removeRoots removed).1.addRoots_frame added
    show ((o.removeRoots removed).1.addRoots added).1.active = o.active
    rw [hadded, hremoved]

/-- No demand changes the configuration. -/
@[simp] theorem config_answer (d : Demand) : (o.answer d).1.config = o.config := by
  cases d with
  | toggle => exact o.perform_config .toggle
  | saved language => exact o.perform_config (.documentSaved language)
  | change removed added =>
    obtain ⟨roots, published, hremoved⟩ := o.removeRoots_frame removed
    obtain ⟨roots', inFlight, hadded⟩ := (o.removeRoots removed).1.addRoots_frame added
    show ((o.removeRoots removed).1.addRoots added).1.config = o.config
    rw [hadded, hremoved]

/-- **A scan is started only while scanning is active, and for a root that is monitored.** -/
theorem monitored_of_scans_answer {d : Demand} {root : Path} (h : root ∈ (o.answer d).2.scans) :
    (o.answer d).1.active = true ∧ root ∈ (o.answer d).1.roots := by
  rw [scans_answer] at h
  rw [active_answer, roots_answer]
  cases d with
  | toggle =>
    cases hactive : o.active with
    | true => simp [hactive] at h
    | false => simpa [hactive] using h
  | saved language =>
    by_cases hguard : o.active = true ∧ o.config.watches language = true
    · simp only [hguard, and_self, if_true] at h
      exact ⟨hguard.1, h⟩
    · simp only [hguard, if_false] at h
      exact absurd h List.not_mem_nil
  | change removed added =>
    by_cases hactive : o.active = true
    · simp only [hactive, if_true] at h
      exact ⟨hactive, List.mem_append_right _ h⟩
    · simp only [hactive] at h
      exact absurd h List.not_mem_nil

/-- No demand makes two monitored roots equal. -/
theorem noTwoEqual_answer {o : Orchestrator} (h : Path.NoTwoEqual o.roots) (d : Demand) :
    Path.NoTwoEqual (o.answer d).1.roots := by
  rw [roots_answer]
  cases d with
  | toggle => exact h
  | saved language => exact h
  | change removed added =>
    exact Path.noTwoEqual_append_additions (Path.noTwoEqual_without h removed) added

end Orchestrator

namespace Server

/-- Which frames ask for what. A request asks for nothing once shutdown was asked for. -/
inductive Asks (s : Server) (frame : Json) : Demand → Prop where
  /-- The command that turns scanning on and off. -/
  | command {id params : Json} (h : Incoming.ofFrame frame = .request id "workspace/executeCommand" params)
      (hopen : s.shutdownRequested = false) (hname : readCommand? params = some checkCommand) :
      Asks s frame .toggle
  /-- The client is ready, and scanning is to start active and is not. -/
  | ready {params : Json} (h : Incoming.ofFrame frame = .notification "initialized" params)
      (hstart : s.orchestrator.config.startActive = true) (hoff : s.orchestrator.active = false) :
      Asks s frame .toggle
  /-- A document was saved whose language is known. -/
  | saved {params : Json} {uri language : String}
      (h : Incoming.ofFrame frame = .notification "textDocument/didSave" params)
      (huri : readDocumentUri? params = some uri) (hlanguage : s.language? uri = some language) :
      Asks s frame (.saved language)
  /-- The client starts and names its roots. -/
  | opening {id params : Json} {p : InitializeParams}
      (h : Incoming.ofFrame frame = .request id "initialize" params)
      (hopen : s.shutdownRequested = false) (hparams : InitializeParams.read? params = some p) :
      Asks s frame (.change [] p.roots)
  /-- The folders of the workspace changed. -/
  | folders {params : Json} {change : FolderChange}
      (h : Incoming.ofFrame frame = .notification "workspace/didChangeWorkspaceFolders" params)
      (hchange : FolderChange.read? params = some change) :
      Asks s frame (.change change.removedRoots change.addedRoots)

/-- The roots for which a frame starts scans: every monitored root where scanning is turned on or a
document of a watched language was saved, and what a change adds to the roots, each while scanning is
active. -/
inductive StartsScans (s : Server) (frame : Json) : List Path → Prop where
  | turnedOn (h : s.Asks frame .toggle) (hoff : s.orchestrator.active = false) :
      StartsScans s frame s.orchestrator.roots
  | saved {language : String} (h : s.Asks frame (.saved language)) (hon : s.orchestrator.active = true)
      (hwatched : s.orchestrator.config.watches language = true) :
      StartsScans s frame s.orchestrator.roots
  | changed {removed added : List Path} (h : s.Asks frame (.change removed added))
      (hon : s.orchestrator.active = true) :
      StartsScans s frame (Path.additions (Path.without s.orchestrator.roots removed) added)

variable {s : Server} {frame : Json}

/-! ## Frames -/

/-- **A frame that asks for something** has just this done. -/
theorem handle_of_asks {d : Demand} (h : s.Asks frame d) :
    (s.handle frame).1.orchestrator = (s.orchestrator.answer d).1 ∧
      (s.handle frame).2.scans = (s.orchestrator.answer d).2.scans := by
  cases h with
  | command h hopen hname =>
    simp [handle, h, request, hopen, command, hname, perform, Reply.ofReaction, Orchestrator.answer]
  | ready h hstart hoff =>
    simp [handle, h, notification, ready, hstart, hoff, perform, Reply.ofReaction, Orchestrator.answer]
  | saved h huri hlanguage =>
    simp [handle, h, notification, huri, saved, hlanguage, perform, Reply.ofReaction,
      Orchestrator.answer]
  | opening h hopen hparams =>
    simp [handle, h, request, hopen, start, hparams, Orchestrator.answer, Orchestrator.removeRoots]
  | folders h hchange =>
    simp [handle, h, notification, hchange, changeFolders, perform, Reply.ofReaction,
      Orchestrator.answer]

/-- **A frame that asks for nothing** leaves the orchestrator as it is, and starts no scan. -/
theorem handle_of_idle (h : ∀ d, ¬ s.Asks frame d) :
    (s.handle frame).1.orchestrator = s.orchestrator ∧ (s.handle frame).2.scans = [] := by
  unfold handle
  cases hmessage : Incoming.ofFrame frame with
  | other => exact ⟨rfl, rfl⟩
  | request id method params =>
    simp only [request]
    split
    · exact ⟨rfl, rfl⟩
    · next hopen =>
      have hopen : s.shutdownRequested = false := by simpa using hopen
      split
      · next hmethod =>
        subst hmethod
        -- parameters that can be read would name roots, and others name none
        cases hparams : InitializeParams.read? params with
        | some p => exact absurd (.opening hmessage hopen hparams) (h _)
        | none => simp [start, hparams, InitializeParams.roots, Orchestrator.addRoots, Reaction.none]
      split
      · exact ⟨rfl, rfl⟩
      split
      · next hmethod =>
        subst hmethod
        unfold command
        cases hname : readCommand? params with
        | none => exact ⟨rfl, rfl⟩
        | some name =>
          by_cases hcheck : name = checkCommand
          · subst hcheck
            exact absurd (.command hmessage hopen hname) (h _)
          · simp [hcheck, refuse]
      · exact ⟨rfl, rfl⟩
  | notification method params =>
    simp only [notification]
    split
    · exact ⟨rfl, rfl⟩
    split
    · next hmethod =>
      subst hmethod
      unfold ready
      split
      · next hguard =>
        rw [Bool.and_eq_true, Bool.not_eq_true'] at hguard
        exact absurd (.ready hmessage hguard.1 hguard.2) (h _)
      · exact ⟨rfl, rfl⟩
    split
    · split <;> exact ⟨rfl, rfl⟩
    split
    · split <;> exact ⟨rfl, rfl⟩
    split
    · next hmethod =>
      subst hmethod
      cases huri : readDocumentUri? params with
      | none => exact ⟨rfl, rfl⟩
      | some uri =>
        simp only [saved]
        cases hlanguage : s.language? uri with
        | none => exact ⟨rfl, rfl⟩
        | some language => exact absurd (.saved hmessage huri hlanguage) (h _)
    split
    · next hmethod =>
      subst hmethod
      cases hchange : FolderChange.read? params with
      | none => exact ⟨rfl, rfl⟩
      | some change => exact absurd (.folders hmessage hchange) (h _)
    · exact ⟨rfl, rfl⟩

/-- A frame has done what it asks for, or leaves the orchestrator as it is. -/
theorem handle_cases (s : Server) (frame : Json) :
    (∃ d, s.Asks frame d ∧ (s.handle frame).1.orchestrator = (s.orchestrator.answer d).1 ∧
      (s.handle frame).2.scans = (s.orchestrator.answer d).2.scans) ∨
    ((s.handle frame).1.orchestrator = s.orchestrator ∧ (s.handle frame).2.scans = []) := by
  by_cases hasks : ∃ d, s.Asks frame d
  · obtain ⟨d, hd⟩ := hasks
    exact .inl ⟨d, hd, handle_of_asks hd⟩
  · exact .inr (handle_of_idle (not_exists.mp hasks))

/-- **The scans of a frame** are those for the roots it starts scans for. -/
theorem scans_of_startsScans {roots : List Path} (h : s.StartsScans frame roots) :
    (s.handle frame).2.scans = roots := by
  cases h with
  | turnedOn h hoff =>
    rw [(handle_of_asks h).2, Orchestrator.scans_answer]
    simp [hoff]
  | saved h hon hwatched =>
    rw [(handle_of_asks h).2, Orchestrator.scans_answer]
    simp [hon, hwatched]
  | changed h hon =>
    rw [(handle_of_asks h).2, Orchestrator.scans_answer]
    simp [hon]

/-- A frame that starts scans for no roots starts none. -/
theorem scans_of_not_startsScans (h : ∀ roots, ¬ s.StartsScans frame roots) :
    (s.handle frame).2.scans = [] := by
  rcases s.handle_cases frame with ⟨d, hd, -, hscans⟩ | ⟨-, hnone⟩
  · rw [hscans, Orchestrator.scans_answer]
    cases d with
    | toggle =>
      cases hactive : s.orchestrator.active with
      | true => rfl
      | false => exact absurd (.turnedOn hd hactive) (h _)
    | saved language => exact if_neg fun hguard => h _ (.saved hd hguard.1 hguard.2)
    | change removed added => exact if_neg fun hactive => h _ (.changed hd hactive)
  · exact hnone

end Server
end NoticeServer
