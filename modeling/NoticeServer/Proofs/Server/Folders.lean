import NoticeServer.Proofs.Server.Operations

/-!
# `NoticeServer.Proofs.Server.Folders` — the monitored roots, as a function of the history

Roots come with the message by which the client starts and with changes of folders, and go with the latter.
So the monitored roots are what a history of these two leaves (`RootHistory.of`, `Server.roots_run`), and
nothing else has a say. Which path a URI denotes is a parameter of a history: two readings that agree on the
URIs in it leave the same roots (`RootHistory.of_congr`).

A root that goes takes all that was published for it along (`Server.cleared_of_changesFolders`).
-/

namespace NoticeServer

/-! ## Histories -/

/-- The roots that a client names when it starts, where `denote` tells which path a URI denotes: its folders
if there are any, else the root's URI, else its path. -/
def InitializeParams.rootsBy (denote : String → Option Path) (p : InitializeParams) : List Path :=
  match p.folders with
  | some (uri :: uris) => (uri :: uris).filterMap denote
  | _ => ((p.rootUri.bind denote).or (p.rootPath.bind absolute?)).toList

/-- The URIs by which a client names roots when it starts. -/
def InitializeParams.rootUris (p : InitializeParams) : List String :=
  match p.folders with
  | some (uri :: uris) => uri :: uris
  | _ => p.rootUri.toList

theorem InitializeParams.rootsBy_congr {denote denote' : String → Option Path} {p : InitializeParams}
    (h : ∀ uri ∈ p.rootUris, denote uri = denote' uri) : p.rootsBy denote = p.rootsBy denote' := by
  unfold rootUris at h
  unfold rootsBy
  split at h
  · exact List.filterMap_congr h
  · have hroot : p.rootUri.bind denote = p.rootUri.bind denote' :=
      Option.bind_congr fun uri huri => h uri (Option.mem_toList.mpr huri)
    rw [hroot]

/-- The URIs by which a request names roots. -/
def requestRootUris (method : String) (params : Json) : List String :=
  if method = "initialize" then ((InitializeParams.read? params).getD {}).rootUris else []

/-- The URIs by which a notification names roots, those of removed folders first. -/
def notificationRootUris (method : String) (params : Json) : List String :=
  if method = "workspace/didChangeWorkspaceFolders" then
    match FolderChange.read? params with
    | some c => c.removed ++ c.added
    | none => []
  else []

/-- The URIs by which an input names roots: those of the client's start and of a change of folders. -/
def ServerInput.rootUris : ServerInput → List String
  | .completion _ => []
  | .frame v =>
    match Incoming.ofFrame v with
    | .request _ method params => requestRootUris method params
    | .notification method params => notificationRootUris method params
    | .other => []

/-- The roots that a history leaves, and whether shutdown was asked for in it. -/
structure RootHistory where
  roots : List Path := []
  closing : Bool := false
  deriving DecidableEq

namespace RootHistory

/-- Some roots are removed, and then those of the others that are not there yet are appended. -/
def change (h : RootHistory) (removed added : List Path) : RootHistory :=
  { h with roots :=
      Path.without h.roots removed ++ Path.additions (Path.without h.roots removed) added }

/-- A request: only the client's start names roots, as long as shutdown was not asked for. -/
def afterRequest (denote : String → Option Path) (h : RootHistory) (method : String) (params : Json) :
    RootHistory :=
  if h.closing then h
  else if method = "initialize" then
    h.change [] ((InitializeParams.read? params).getD {} |>.rootsBy denote)
  else if method = "shutdown" then { h with closing := true }
  else h

/-- A notification: only a change of folders that can be read changes the roots. -/
def afterNotification (denote : String → Option Path) (h : RootHistory) (method : String) (params : Json) :
    RootHistory :=
  if method = "workspace/didChangeWorkspaceFolders" then
    match FolderChange.read? params with
    | some c => h.change (c.removed.filterMap denote) (c.added.filterMap denote)
    | none => h
  else h

/-- One more frame or finished scan. -/
def after (denote : String → Option Path) (h : RootHistory) : ServerInput → RootHistory
  | .completion _ => h
  | .frame v =>
    match Incoming.ofFrame v with
    | .request _ method params => h.afterRequest denote method params
    | .notification method params => h.afterNotification denote method params
    | .other => h

/-- What a history leaves. -/
def of (denote : String → Option Path) (history : List ServerInput) : RootHistory :=
  history.foldl (after denote) {}

variable {denote denote' : String → Option Path} {h : RootHistory}

theorem afterRequest_congr {method : String} {params : Json}
    (hsame : ∀ uri ∈ requestRootUris method params, denote uri = denote' uri) :
    h.afterRequest denote method params = h.afterRequest denote' method params := by
  unfold requestRootUris at hsame
  unfold afterRequest
  by_cases hstart : method = "initialize"
  · simp only [if_pos hstart] at hsame ⊢
    rw [InitializeParams.rootsBy_congr hsame]
  · simp only [if_neg hstart]

theorem afterNotification_congr {method : String} {params : Json}
    (hsame : ∀ uri ∈ notificationRootUris method params, denote uri = denote' uri) :
    h.afterNotification denote method params = h.afterNotification denote' method params := by
  unfold notificationRootUris at hsame
  unfold afterNotification
  by_cases hfolders : method = "workspace/didChangeWorkspaceFolders"
  · simp only [if_pos hfolders] at hsame ⊢
    cases hchange : FolderChange.read? params with
    | none => rfl
    | some c =>
      simp only [hchange, List.forall_mem_append] at hsame
      obtain ⟨hremoved, hadded⟩ := hsame
      simp only [List.filterMap_congr hremoved, List.filterMap_congr hadded]
  · simp only [if_neg hfolders]

/-- An input makes the same of the roots if the URIs in it denote the same paths. -/
theorem after_congr {input : ServerInput} (hsame : ∀ uri ∈ input.rootUris, denote uri = denote' uri) :
    h.after denote input = h.after denote' input := by
  cases input with
  | completion c => rfl
  | frame v =>
    unfold ServerInput.rootUris at hsame
    unfold after
    dsimp only at hsame ⊢
    split
    · next hmessage =>
      rw [hmessage] at hsame
      exact afterRequest_congr hsame
    · next hmessage =>
      rw [hmessage] at hsame
      exact afterNotification_congr hsame
    · rfl

/-- **A history leaves the same roots** if the URIs that it names denote the same paths. -/
theorem of_congr {history : List ServerInput}
    (hsame : ∀ input ∈ history, ∀ uri ∈ input.rootUris, denote uri = denote' uri) :
    of denote history = of denote' history :=
  List.foldl_ext _ _ _ fun _ input hinput => after_congr (hsame input hinput)

end RootHistory

namespace Server

/-! ## The roots of a server -/

/-- The roots and the shutdown of a server, as a history leaves them. -/
def rootHistory (s : Server) : RootHistory := ⟨s.orchestrator.roots, s.shutdownRequested⟩

/-- A server whose roots and shutdown are the same. -/
theorem rootHistory_eq {s t : Server} (hroots : t.orchestrator.roots = s.orchestrator.roots)
    (hclosing : t.shutdownRequested = s.shutdownRequested) : t.rootHistory = s.rootHistory := by
  rw [rootHistory, hroots, hclosing, rootHistory]

theorem rootHistory_start (s : Server) (id params : Json) :
    (s.start id params).1.rootHistory =
      s.rootHistory.change [] ((InitializeParams.read? params).getD {}).roots := by
  have hroots := (s.orchestrator.addRoots_roots ((InitializeParams.read? params).getD {}).roots).1
  unfold RootHistory.change
  rw [Path.without_nil]
  exact congrArg (RootHistory.mk · s.shutdownRequested) hroots

theorem rootHistory_command (s : Server) (id params : Json) :
    (s.command id params).1.rootHistory = s.rootHistory := by
  unfold command
  split
  · rfl
  split
  · rfl
  · exact rootHistory_eq (s.orchestrator.perform_roots .toggle) rfl

theorem rootHistory_ready (s : Server) : s.ready.1.rootHistory = s.rootHistory := by
  unfold ready
  split
  · exact rootHistory_eq (s.orchestrator.perform_roots .toggle) rfl
  · rfl

theorem rootHistory_saved (s : Server) (uri : String) : (s.saved uri).1.rootHistory = s.rootHistory := by
  unfold saved
  cases s.language? uri with
  | none => rfl
  | some language => exact rootHistory_eq (s.orchestrator.perform_roots (.documentSaved language)) rfl

theorem rootHistory_changeFolders (s : Server) (c : FolderChange) :
    (s.changeFolders c).1.rootHistory = s.rootHistory.change c.removedRoots c.addedRoots :=
  congrArg (RootHistory.mk · s.shutdownRequested)
    (s.orchestrator.roots_answer (.change c.removedRoots c.addedRoots))

/-- A refused request leaves the roots. -/
theorem after_refused {h : RootHistory} {v id params : Json} {method : String}
    (hmessage : Incoming.ofFrame v = .request id method params)
    (hrefused : h.closing = true ∨ method ∉ requestMethods) : h.after Uri.toPath? (.frame v) = h := by
  simp only [RootHistory.after, hmessage, RootHistory.afterRequest]
  rcases hrefused with hclosing | hunknown
  · rw [if_pos hclosing]
  · simp only [requestMethods, List.mem_cons, List.not_mem_nil, or_false, not_or] at hunknown
    simp [hunknown.1, hunknown.2.1]

/-- An ignored notification leaves the roots. -/
theorem after_ignored {h : RootHistory} {v params : Json} {method : String}
    (hmessage : Incoming.ofFrame v = .notification method params)
    (hignored : Unreadable method params ∨ method ∉ notificationMethods) :
    h.after Uri.toPath? (.frame v) = h := by
  simp only [RootHistory.after, hmessage]
  rcases hignored with hunreadable | hunknown
  · cases hunreadable with
    | starting h => rfl
    | opened h => rfl
    | closed h => rfl
    | saved h => rfl
    | folders h => simp [RootHistory.afterNotification, h]
    | folder h => simp [RootHistory.afterNotification, FolderChange.read?_of_spoiledBy h]
  · have hfolders : method ≠ "workspace/didChangeWorkspaceFolders" := by
      rintro rfl
      exact hunknown (by decide)
    simp only [RootHistory.afterNotification, if_neg hfolders]

/-- **What an input makes of the roots** is what the history makes of them. -/
theorem rootHistory_take (s : Server) (input : ServerInput) :
    (s.take input).1.rootHistory = s.rootHistory.after Uri.toPath? input := by
  have heffect := s.effect_take input
  generalize s.take input = result at heffect ⊢
  cases heffect with
  | finished c => exact rootHistory_eq (s.orchestrator.apply_roots c) rfl
  | noMessage h => simp only [RootHistory.after, h]
  | refused e h hrefused => exact (after_refused h hrefused).symm
  | started h hopen =>
    rw [rootHistory_start]
    simp only [RootHistory.after, h, RootHistory.afterRequest, rootHistory, hopen]
    rfl
  | shutdown h hopen =>
    simp [RootHistory.after, h, RootHistory.afterRequest, rootHistory, hopen]
  | command h hopen =>
    rw [rootHistory_command]
    simp [RootHistory.after, h, RootHistory.afterRequest, rootHistory, hopen]
  | exit h =>
    simp only [RootHistory.after, h]
    rfl
  | ready h =>
    simp only [RootHistory.after, h]
    exact s.rootHistory_ready
  | opened h hdoc =>
    simp only [RootHistory.after, h]
    rfl
  | closed h huri =>
    simp only [RootHistory.after, h]
    rfl
  | saved h huri =>
    simp only [RootHistory.after, h]
    exact s.rootHistory_saved _
  | folders h hchange =>
    simp only [RootHistory.after, h, RootHistory.afterNotification, hchange]
    exact s.rootHistory_changeFolders _
  | ignored h hignored => exact (after_ignored h hignored).symm

theorem rootHistory_run (s : Server) (history : List ServerInput) :
    (s.run history).rootHistory = history.foldl (RootHistory.after Uri.toPath?) s.rootHistory := by
  induction history generalizing s with
  | nil => rfl
  | cons input history ih => rw [run_cons, ih, rootHistory_take, List.foldl_cons]

/-- **The monitored roots** are those that the history leaves. -/
theorem roots_run (config : ScanConfig) (history : List ServerInput) :
    ((fresh config).run history).orchestrator.roots = (RootHistory.of Uri.toPath? history).roots :=
  congrArg RootHistory.roots ((fresh config).rootHistory_run history)

end Server

/-! ## Roots that are removed -/

namespace Orchestrator

theorem get?_removeRoot (o : Orchestrator) (removed root : Path) :
    (o.removeRoot removed).1.published.get? root =
      if removed ≈ root then none else o.published.get? root :=
  o.get?_perform (.removeRoot removed) root

/-- **Nothing is published for roots that were removed**; the other roots keep what they publish. -/
theorem get?_run_removeRoot (o : Orchestrator) (removed : List Path) (root : Path) :
    (o.run (removed.map .removeRoot)).published.get? root =
      if ∃ r ∈ removed, r ≈ root then none else o.published.get? root := by
  induction removed generalizing o with
  | nil => simp
  | cons r removed ih =>
    show ((o.removeRoot r).1.run (removed.map .removeRoot)).published.get? root = _
    rw [ih, get?_removeRoot]
    by_cases hfirst : r ≈ root
    · rw [if_pos hfirst, ite_self, if_pos ⟨r, List.mem_cons_self, hfirst⟩]
    · have hrest : (∃ q ∈ r :: removed, q ≈ root) ↔ ∃ q ∈ removed, q ≈ root := by
        rw [List.exists_mem_cons_iff]
        exact or_iff_right hfirst
      simp only [hrest, if_neg hfirst]

/-- Adding roots leaves what is published. -/
theorem published_run_addRoot (o : Orchestrator) (added : List Path) :
    (o.run (added.map .addRoot)).published = o.published := by
  obtain ⟨roots, inFlight, hframe⟩ := o.addRoots_frame added
  rw [← (o.addRoots_eq added).1, hframe]

/-- **Every file of a root that is removed is cleared.** -/
theorem clear_mem_publications {o : Orchestrator} {root : Path} {set : DiagnosticSet}
    (hset : o.published.get? root = some set) {f : Path × List Diagnostic} (hf : f ∈ set.files)
    {removed : List Path} (h : ∃ r ∈ removed, r ≈ root) :
    Publication.clear f.1 ∈ o.publications (removed.map .removeRoot) := by
  induction removed generalizing o with
  | nil =>
    obtain ⟨r, hr, -⟩ := h
    exact absurd hr List.not_mem_nil
  | cons r removed ih =>
    show _ ∈ (o.removeRoot r).2.publications ++ (o.removeRoot r).1.publications (removed.map .removeRoot)
    by_cases hfirst : r ≈ root
    · -- the set of the root is still there, and goes now
      refine List.mem_append_left _ ?_
      rw [(o.removeRoot_published r).2, PublishedStore.setOf_congr hfirst, PublishedStore.setOf_of_get? hset]
      exact PublishedStore.mem_transition.mpr (.inl ⟨f, hf, DiagnosticSet.contains_empty _, rfl⟩)
    · refine List.mem_append_right _ (ih ?_ ?_)
      · rw [get?_removeRoot, if_neg hfirst, hset]
      · obtain ⟨q, hq, hequal⟩ := h
        rcases List.mem_cons.mp hq with rfl | hq
        · exact absurd hequal hfirst
        · exact ⟨q, hq, hequal⟩

end Orchestrator

namespace Server

/-- A message that changes the folders of the workspace. -/
inductive ChangesFolders (change : FolderChange) (frame : Json) : Prop where
  | message {params : Json}
      (h : Incoming.ofFrame frame = .notification "workspace/didChangeWorkspaceFolders" params)
      (hchange : FolderChange.read? params = some change)

variable {s : Server} {frame : Json} {change : FolderChange}

theorem operationsOf_changesFolders (h : ChangesFolders change frame) :
    s.operationsOf (.frame frame) = change.operations := by
  obtain ⟨h, hchange⟩ := h
  unfold operationsOf
  dsimp only
  rw [h]
  simp [notificationOperations, hchange]

theorem handle_of_changesFolders (h : ChangesFolders change frame) :
    s.handle frame = s.changeFolders change := by
  obtain ⟨h, hchange⟩ := h
  unfold handle
  rw [h]
  simp [notification, hchange]

/-- A change of folders removes roots first and then appends those that are not there. -/
theorem roots_of_changesFolders (h : ChangesFolders change frame) :
    (s.handle frame).1.orchestrator.roots =
      Path.without s.orchestrator.roots change.removedRoots ++
        Path.additions (Path.without s.orchestrator.roots change.removedRoots) change.addedRoots := by
  rw [handle_of_changesFolders h]
  exact congrArg RootHistory.roots (s.rootHistory_changeFolders change)

/-- Scans are started at most for roots that were not there. -/
theorem mem_scans_of_changesFolders (h : ChangesFolders change frame) {root : Path}
    (hroot : root ∈ (s.handle frame).2.scans) :
    root ∈ Path.additions (Path.without s.orchestrator.roots change.removedRoots) change.addedRoots := by
  rw [handle_of_changesFolders h] at hroot
  obtain ⟨hroots, hnone⟩ := s.orchestrator.removeRoots_roots change.removedRoots
  have hscans := ((s.orchestrator.removeRoots change.removedRoots).1.addRoots_roots change.addedRoots).2
  rw [hroots] at hscans
  change root ∈ ((s.orchestrator.removeRoots change.removedRoots).2 ++
    ((s.orchestrator.removeRoots change.removedRoots).1.addRoots change.addedRoots).2).scans at hroot
  rw [Reaction.scans_append, hnone, List.nil_append, hscans] at hroot
  split at hroot
  · exact hroot
  · exact absurd hroot List.not_mem_nil

/-- Which roots are monitored behind a change of folders. -/
theorem monitors_of_changesFolders (h : ChangesFolders change frame) (root : Path) :
    (s.handle frame).1.orchestrator.monitors root =
      ((s.orchestrator.monitors root && !change.removedRoots.any (· ≈ root)) ||
        change.addedRoots.any (· ≈ root)) := by
  rw [Orchestrator.monitors, roots_of_changesFolders h, Path.any_append_additions, Path.any_without]
  rfl

/-- Just the roots that it removes lose what is published for them. -/
theorem published_of_changesFolders (h : ChangesFolders change frame) (root : Path) :
    (s.handle frame).1.orchestrator.published.get? root =
      if ∃ r ∈ change.removedRoots, r ≈ root then none else s.orchestrator.published.get? root := by
  have hstate := (s.undergoes_take (.frame frame)).1
  rw [operationsOf_changesFolders h] at hstate
  show ((s.take (.frame frame)).1.orchestrator).published.get? root = _
  rw [hstate, FolderChange.operations, Orchestrator.run_append, Orchestrator.published_run_addRoot,
    Orchestrator.get?_run_removeRoot]

/-- **A change of folders clears the roots that it removes**: nothing is published for them afterwards, and
each of their files is cleared by a frame that is written for the change. -/
theorem cleared_of_changesFolders (habs : s.orchestrator.IsAbsolute) (h : ChangesFolders change frame)
    {root : Path} (hroot : ∃ r ∈ change.removedRoots, r ≈ root) :
    (s.handle frame).1.orchestrator.published.get? root = none ∧
      ∀ set, s.orchestrator.published.get? root = some set → ∀ f ∈ set.files,
        ∃ notice ∈ (s.handle frame).2.frames, Shows notice (.clear f.1) := by
  have hnotices := (s.undergoes_take (.frame frame)).2
  rw [operationsOf_changesFolders h] at hnotices
  constructor
  · rw [published_of_changesFolders h, if_pos hroot]
  · intro set hset f hf
    have hcleared : Publication.clear f.1 ∈ s.orchestrator.publications change.operations := by
      rw [FolderChange.operations, Orchestrator.publications_append]
      exact List.mem_append_left _ (Orchestrator.clear_mem_publications hset hf hroot)
    obtain ⟨e, he, rfl⟩ := PublishedStore.exists_mem_roots hset
    have hpath : f.1.isAbsolute = true := habs.published e he f hf
    have hframe : publicationFrame? (.clear f.1) = some _ :=
      Option.map_eq_some_iff.mpr ⟨_, Uri.ofPath?_of_absolute hpath, rfl⟩
    refine ⟨_, ?_, shows_of_publicationFrame hframe⟩
    have hmem := List.mem_filterMap.mpr ⟨_, hcleared, hframe⟩
    rw [← publicationFrames, ← hnotices] at hmem
    exact (List.mem_filter.mp hmem).1

end Server
end NoticeServer
