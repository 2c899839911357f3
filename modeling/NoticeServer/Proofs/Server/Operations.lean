import NoticeServer.Proofs.Orchestrator.Absolute
import NoticeServer.Proofs.Protocol.Publication
import NoticeServer.Proofs.Server.Effect

/-!
# `NoticeServer.Proofs.Server.Operations` — a server as operations of its orchestrator

Each frame and each finished scan comes to a few operations of the orchestrator (`Server.operationsOf`). What
they publish, and nothing else, is what the server writes besides answers (`Server.undergoes_run`); and the only
roots that they add are absolute paths, by whichever message they come (`Server.isAbsolute_operations`).
-/

namespace NoticeServer

/-! ## Several roots -/

namespace Orchestrator

theorem publications_append (o : Orchestrator) (ops more : List Operation) :
    o.publications (ops ++ more) = o.publications ops ++ (o.run ops).publications more := by
  induction ops generalizing o with
  | nil => rfl
  | cons op ops ih => rw [List.cons_append, publications, publications, ih, List.append_assoc]; rfl

theorem removeRoots_eq (o : Orchestrator) (roots : List Path) :
    (o.removeRoots roots).1 = o.run (roots.map .removeRoot) ∧
      (o.removeRoots roots).2.publications = o.publications (roots.map .removeRoot) := by
  induction roots generalizing o with
  | nil => exact ⟨rfl, rfl⟩
  | cons root roots ih =>
    obtain ⟨hstate, hpubs⟩ := ih (o.removeRoot root).1
    rw [removeRoots_cons]
    exact ⟨hstate, by rw [Reaction.publications_append, hpubs]; rfl⟩

theorem addRoots_eq (o : Orchestrator) (roots : List Path) :
    (o.addRoots roots).1 = o.run (roots.map .addRoot) ∧
      (o.addRoots roots).2.publications = o.publications (roots.map .addRoot) := by
  induction roots generalizing o with
  | nil => exact ⟨rfl, rfl⟩
  | cons root roots ih =>
    obtain ⟨hstate, hpubs⟩ := ih (o.addRoot root).1
    rw [addRoots_cons]
    exact ⟨hstate, by rw [Reaction.publications_append, hpubs]; rfl⟩

/-- Adding roots publishes nothing. -/
theorem publications_map_addRoot (o : Orchestrator) (roots : List Path) :
    o.publications (roots.map .addRoot) = [] := by
  induction roots generalizing o with
  | nil => rfl
  | cons root roots ih =>
    obtain ⟨-, -, -, hpubs⟩ := o.addRoot_frame root
    show (o.addRoot root).2.publications ++ (o.addRoot root).1.publications _ = []
    rw [hpubs, ih, List.append_nil]

end Orchestrator

/-! ## Operations -/

/-- The operations that a change of folders comes to: removals, then additions. -/
def FolderChange.operations (c : FolderChange) : List Operation :=
  c.removedRoots.map .removeRoot ++ c.addedRoots.map .addRoot

namespace Server

/-- The operations that a request comes to. -/
def requestOperations (s : Server) (method : String) (params : Json) : List Operation :=
  if s.shutdownRequested then []
  else if method = "initialize" then
    ((InitializeParams.read? params).getD {}).roots.map .addRoot
  else if method = "workspace/executeCommand" ∧ readCommand? params = some checkCommand then [.toggle]
  else []

/-- The operations that a notification comes to. -/
def notificationOperations (s : Server) (method : String) (params : Json) : List Operation :=
  if method = "initialized" then
    if s.orchestrator.config.startActive && !s.orchestrator.active then [.toggle] else []
  else if method = "textDocument/didSave" then
    (((readDocumentUri? params).bind s.language?).map .documentSaved).toList
  else if method = "workspace/didChangeWorkspaceFolders" then
    ((FolderChange.read? params).map FolderChange.operations).getD []
  else []

/-- The operations that a frame or a finished scan comes to. -/
def operationsOf (s : Server) : ServerInput → List Operation
  | .completion c => [.apply c]
  | .frame v =>
    match Incoming.ofFrame v with
    | .request _ method params => s.requestOperations method params
    | .notification method params => s.notificationOperations method params
    | .other => []

/-- The operations that frames and finished scans come to, in order. -/
def operations (s : Server) : List ServerInput → List Operation
  | [] => []
  | input :: inputs => s.operationsOf input ++ operations (s.take input).1 inputs

/-! ## What comes of them -/

/-- A server undergoes operations: its orchestrator is the one behind them, and besides answers just their
publications are written. -/
structure Undergoes (s : Server) (result : Server × Reply) (ops : List Operation) : Prop where
  orchestrator : result.1.orchestrator = s.orchestrator.run ops
  notices : notices result.2.frames = publicationFrames (s.orchestrator.publications ops)

namespace Undergoes

variable {s : Server}

/-- Nothing is done, and nothing is published. -/
theorem nothing {result : Server × Reply} (hstate : result.1.orchestrator = s.orchestrator)
    (hframes : NoticeServer.notices result.2.frames = []) : s.Undergoes result [] := ⟨hstate, hframes⟩

theorem perform (s : Server) {operation : Orchestrator × Reaction} {ops : List Operation}
    (hstate : operation.1 = s.orchestrator.run ops)
    (hpubs : operation.2.publications = s.orchestrator.publications ops) :
    s.Undergoes (s.perform operation) ops := by
  refine ⟨hstate, ?_⟩
  rw [← hpubs]
  exact notices_publicationFrames operation.2.publications

/-- One operation. -/
theorem single (s : Server) (op : Operation) : s.Undergoes (s.perform (s.orchestrator.perform op)) [op] :=
  perform s rfl (List.append_nil _).symm

theorem refuse (s : Server) (id : Json) (e : RequestError) : s.Undergoes (s.refuse id e) [] :=
  nothing rfl (notices_answer (answers_errorResponse id e) [])

theorem start (s : Server) (id params : Json) :
    s.Undergoes (s.start id params) (((InitializeParams.read? params).getD {}).roots.map .addRoot) := by
  refine ⟨(s.orchestrator.addRoots_eq _).1, ?_⟩
  rw [Orchestrator.publications_map_addRoot]
  exact notices_answer (answers_response id initializeResult) []

theorem command (s : Server) (id params : Json) :
    s.Undergoes (s.command id params) (if readCommand? params = some checkCommand then [.toggle] else []) := by
  unfold Server.command
  cases readCommand? params with
  | none => exact refuse s id .missingCommand
  | some name =>
    dsimp only
    by_cases hname : name = checkCommand
    · subst hname
      rw [if_neg (not_not_intro rfl), if_pos rfl]
      obtain ⟨hstate, hnotices⟩ := single s .toggle
      exact ⟨hstate, (notices_answer (answers_response id .null) _).trans hnotices⟩
    · rw [if_pos hname, if_neg (by simp [hname])]
      exact refuse s id (.unknownCommand name)

theorem ready (s : Server) :
    s.Undergoes s.ready
      (if s.orchestrator.config.startActive && !s.orchestrator.active then [.toggle] else []) := by
  unfold Server.ready
  split
  · exact single s .toggle
  · exact nothing rfl rfl

theorem saved (s : Server) (uri : String) :
    s.Undergoes (s.saved uri) ((s.language? uri).map .documentSaved).toList := by
  unfold Server.saved
  cases s.language? uri with
  | none => exact nothing rfl rfl
  | some language => exact single s (.documentSaved language)

theorem changeFolders (s : Server) (change : FolderChange) :
    s.Undergoes (s.changeFolders change) change.operations := by
  obtain ⟨hremoved, hcleared⟩ := s.orchestrator.removeRoots_eq change.removedRoots
  obtain ⟨hadded, hpubs⟩ := (s.orchestrator.removeRoots change.removedRoots).1.addRoots_eq change.addedRoots
  show s.Undergoes (s.perform (s.orchestrator.answer (.change change.removedRoots change.addedRoots))) _
  refine perform s ?_ ?_
  · rw [Orchestrator.answer, hadded, hremoved, FolderChange.operations, Orchestrator.run_append]
  · rw [Orchestrator.answer, Reaction.publications_append, hpubs, hcleared, hremoved,
      FolderChange.operations, Orchestrator.publications_append]

end Undergoes

/-- A refused request comes to no operation. -/
theorem operationsOf_refused {s : Server} {v id params : Json} {method : String}
    (h : Incoming.ofFrame v = .request id method params)
    (hrefused : s.shutdownRequested = true ∨ method ∉ requestMethods) :
    s.operationsOf (.frame v) = [] := by
  simp only [operationsOf, h, requestOperations]
  rcases hrefused with hclosing | hunknown
  · rw [if_pos hclosing]
  · simp only [requestMethods, List.mem_cons, List.not_mem_nil, or_false, not_or] at hunknown
    simp [hunknown.1, hunknown.2.2]

/-- An ignored notification comes to no operation. -/
theorem operationsOf_ignored {s : Server} {v params : Json} {method : String}
    (h : Incoming.ofFrame v = .notification method params)
    (hignored : Unreadable method params ∨ method ∉ notificationMethods) :
    s.operationsOf (.frame v) = [] := by
  simp only [operationsOf, h]
  rcases hignored with hunreadable | hunknown
  · cases hunreadable with
    | starting h => rfl
    | opened h => rfl
    | closed h => rfl
    | saved h => simp [notificationOperations, h]
    | folders h => simp [notificationOperations, h]
    | folder h => simp [notificationOperations, FolderChange.read?_of_spoiledBy h]
  · simp only [notificationMethods, List.mem_cons, List.not_mem_nil, or_false, not_or] at hunknown
    obtain ⟨-, hready, -, -, hsave, hfolders⟩ := hunknown
    simp only [notificationOperations, if_neg hready, if_neg hsave, if_neg hfolders]

/-- **What the server takes in** comes to its operations, and besides answers just their publications are
written. -/
theorem undergoes_take (s : Server) (input : ServerInput) :
    s.Undergoes (s.take input) (s.operationsOf input) := by
  have heffect := s.effect_take input
  generalize s.take input = result at heffect ⊢
  cases heffect with
  | finished c => exact .single s (.apply c)
  | noMessage h =>
    rw [show s.operationsOf _ = [] by simp only [operationsOf, h]]
    exact .nothing rfl rfl
  | refused e h hrefused =>
    rw [operationsOf_refused h hrefused]
    exact .refuse s _ e
  | started h hopen =>
    simp only [operationsOf, h, requestOperations, hopen]
    exact .start s _ _
  | shutdown h hopen =>
    simp only [operationsOf, h, requestOperations, hopen]
    exact .nothing rfl (notices_answer (answers_response _ .null) [])
  | @command v id params h hopen =>
    have hops : s.operationsOf (.frame v) =
        if readCommand? params = some checkCommand then [.toggle] else [] := by
      simp [operationsOf, h, requestOperations, hopen]
    rw [hops]
    exact .command s id params
  | exit h =>
    simp only [operationsOf, h]
    exact .nothing rfl rfl
  | ready h =>
    simp only [operationsOf, h]
    exact .ready s
  | opened h hdoc =>
    simp only [operationsOf, h]
    exact .nothing rfl rfl
  | closed h huri =>
    simp only [operationsOf, h]
    exact .nothing rfl rfl
  | saved h huri =>
    simp only [operationsOf, h, notificationOperations, huri]
    exact .saved s _
  | folders h hchange =>
    simp only [operationsOf, h, notificationOperations, hchange]
    exact .changeFolders s _
  | ignored h hignored =>
    rw [operationsOf_ignored h hignored]
    exact .nothing rfl rfl

/-- **Along a run** the orchestrator undergoes the operations, one after the other. -/
theorem undergoes_run (s : Server) (inputs : List ServerInput) :
    (s.run inputs).orchestrator = s.orchestrator.run (s.operations inputs) ∧
      notices (s.frames inputs) =
        publicationFrames (s.orchestrator.publications (s.operations inputs)) := by
  induction inputs generalizing s with
  | nil => exact ⟨rfl, rfl⟩
  | cons input inputs ih =>
    obtain ⟨hstate, hnotices⟩ := s.undergoes_take input
    obtain ⟨hrest, hmore⟩ := ih (s.take input).1
    rw [run_cons, frames, operations, notices_append, Orchestrator.run_append,
      Orchestrator.publications_append, ← hstate, hnotices, hmore]
    exact ⟨hrest, (List.filterMap_append ..).symm⟩

/-! ## Roots are absolute paths -/

/-- **The roots that the client names when it starts** are absolute paths, in whichever way it does. -/
theorem isAbsolute_of_mem_roots {p : InitializeParams} {root : Path} (h : root ∈ p.roots) :
    root.isAbsolute = true := by
  unfold InitializeParams.roots at h
  split at h
  · obtain ⟨uri, -, huri⟩ := List.mem_filterMap.mp h
    exact Uri.isAbsolute_of_toPath? huri
  · rcases Option.or_eq_some_iff.mp (Option.mem_toList.mp h) with huri | ⟨-, hpath⟩
    · obtain ⟨uri, -, hroot⟩ := Option.bind_eq_some_iff.mp huri
      exact Uri.isAbsolute_of_toPath? hroot
    · obtain ⟨path, -, hroot⟩ := Option.bind_eq_some_iff.mp hpath
      unfold InitializeParams.absolute? at hroot
      dsimp only at hroot
      split at hroot
      · next habs =>
        obtain rfl := Option.some.inj hroot
        exact habs
      · exact absurd hroot nofun

theorem isAbsolute_addRoot_of_mem {roots : List Path} (h : ∀ root ∈ roots, root.isAbsolute = true) :
    ∀ op ∈ roots.map Operation.addRoot, op.IsAbsolute := by
  intro op hop
  obtain ⟨root, hroot, rfl⟩ := List.mem_map.mp hop
  exact h root hroot

theorem isAbsolute_changeFolders (change : FolderChange) : ∀ op ∈ change.operations, op.IsAbsolute := by
  intro op hop
  rcases List.mem_append.mp hop with hremoved | hadded
  · obtain ⟨root, -, rfl⟩ := List.mem_map.mp hremoved
    trivial
  · refine isAbsolute_addRoot_of_mem ?_ op hadded
    intro root hroot
    obtain ⟨uri, -, huri⟩ := List.mem_filterMap.mp hroot
    exact Uri.isAbsolute_of_toPath? huri

theorem isAbsolute_requestOperations (s : Server) (method : String) (params : Json) :
    ∀ op ∈ s.requestOperations method params, op.IsAbsolute := by
  unfold requestOperations
  split
  · exact nofun
  split
  · exact isAbsolute_addRoot_of_mem fun root hroot => isAbsolute_of_mem_roots hroot
  split
  · exact List.forall_mem_singleton.mpr trivial
  · exact nofun

theorem isAbsolute_notificationOperations (s : Server) (method : String) (params : Json) :
    ∀ op ∈ s.notificationOperations method params, op.IsAbsolute := by
  unfold notificationOperations
  split
  · split
    · exact List.forall_mem_singleton.mpr trivial
    · exact nofun
  split
  · intro op hop
    obtain ⟨language, -, rfl⟩ := Option.map_eq_some_iff.mp (Option.mem_toList.mp hop)
    trivial
  split
  · cases FolderChange.read? params with
    | none => exact nofun
    | some change => exact isAbsolute_changeFolders change
  · exact nofun

theorem isAbsolute_operationsOf (s : Server) (input : ServerInput) :
    ∀ op ∈ s.operationsOf input, op.IsAbsolute := by
  cases input with
  | completion c => exact List.forall_mem_singleton.mpr trivial
  | frame v =>
    unfold operationsOf
    dsimp only
    cases Incoming.ofFrame v with
    | request id method params => exact s.isAbsolute_requestOperations method params
    | notification method params => exact s.isAbsolute_notificationOperations method params
    | other => exact nofun

/-- **No root is added that is not an absolute path**, whatever the server takes in. -/
theorem isAbsolute_operations (s : Server) (inputs : List ServerInput) :
    ∀ op ∈ s.operations inputs, op.IsAbsolute := by
  induction inputs generalizing s with
  | nil => exact nofun
  | cons input inputs ih =>
    intro op hop
    rcases List.mem_append.mp hop with hfirst | hrest
    · exact s.isAbsolute_operationsOf input op hfirst
    · exact ih (s.take input).1 op hrest

/-- **Monitored roots and published files** of a server are at absolute paths, all along. -/
theorem isAbsolute_run (config : ScanConfig) (inputs : List ServerInput) :
    ((fresh config).run inputs).orchestrator.IsAbsolute := by
  rw [((fresh config).undergoes_run inputs).1]
  exact Orchestrator.isAbsolute_run (Orchestrator.isAbsolute_fresh config)
    ((fresh config).isAbsolute_operations inputs)

end Server
end NoticeServer
