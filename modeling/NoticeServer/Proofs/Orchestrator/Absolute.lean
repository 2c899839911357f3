import NoticeServer.Proofs.Orchestrator.Roots
import NoticeServer.Proofs.Path.Absolute

/-!
# `NoticeServer.Proofs.Orchestrator.Absolute` — everything is at an absolute path

Below an absolute root every file is at an absolute path, whatever path the analyzer reported
(`DiagnosticSet.isAbsolute_rebase`). So as long as no other roots are added, all that is published is at
absolute paths (`Orchestrator.isAbsolute_publications`).
-/

namespace NoticeServer

/-! ## Sets -/

namespace DiagnosticSet

/-- Every file of the set is at an absolute path. -/
def IsAbsolute (s : DiagnosticSet) : Prop := ∀ f ∈ s.files, f.1.isAbsolute = true

theorem isAbsolute_empty : empty.IsAbsolute := nofun

theorem isAbsolute_append {s : DiagnosticSet} {path : Path} (h : s.IsAbsolute)
    (hpath : path.isAbsolute = true) (items : List Diagnostic) : (s.append path items).IsAbsolute := by
  unfold append
  split
  · exact h
  · have hkeys : ∀ p ∈ (appendTo path items s.files).map (·.1), p.isAbsolute = true := by
      rw [keys_appendTo]
      have hold : ∀ p ∈ s.files.map (·.1), p.isAbsolute = true := List.forall_mem_map.mpr h
      split
      · exact hold
      · intro p hp
        rcases List.mem_append.mp hp with hp | hp
        · exact hold p hp
        · rw [List.mem_singleton.mp hp]
          exact hpath
    exact List.forall_mem_map.mp hkeys

/-- **A set under an absolute root** is at absolute paths. -/
theorem isAbsolute_rebase (s : DiagnosticSet) {root : Path} (h : root.isAbsolute = true) :
    (s.rebase root).IsAbsolute :=
  List.foldlRecOn (motive := IsAbsolute) s.files _ isAbsolute_empty
    fun _ hset f _ => isAbsolute_append hset (Path.isAbsolute_join h f.1) f.2

end DiagnosticSet

/-! ## The store -/

namespace PublishedStore

variable {s s' : PublishedStore} {root : Path} {set : DiagnosticSet} {publications : List Publication}

/-- Everything published is at an absolute path. -/
def IsAbsolute (s : PublishedStore) : Prop := ∀ e ∈ s.roots, e.2.IsAbsolute

theorem IsAbsolute.setOf (h : s.IsAbsolute) (root : Path) : (s.setOf root).IsAbsolute :=
  setOf_of_forall h DiagnosticSet.isAbsolute_empty root

theorem isAbsolute_put (h : s.IsAbsolute) (root : Path) (hset : set.IsAbsolute) :
    (s.put root set).IsAbsolute := by
  have herase : (s.erase root).IsAbsolute := fun e he => h e (List.mem_filter.mp he).1
  unfold put
  split
  · exact herase
  · exact List.forall_mem_cons.mpr ⟨hset, herase⟩

/-- A set that is put into the store is there, unless it is empty. -/
theorem IsAbsolute.of_put (h : (s.put root set).IsAbsolute) : set.IsAbsolute := by
  unfold put at h
  split at h
  · next hempty =>
    rw [DiagnosticSet.isEmpty_iff.mp hempty]
    exact DiagnosticSet.isAbsolute_empty
  · exact h _ List.mem_cons_self

/-- **What a change publishes** is at absolute paths if everything is before and after. -/
theorem Change.isAbsolute (hchange : Change s s' publications) (h : s.IsAbsolute) (h' : s'.IsAbsolute) :
    ∀ pub ∈ publications, pub.path.isAbsolute = true := by
  cases hchange with
  | stay => exact nofun
  | replace root hset =>
    intro pub hpub
    rcases mem_transition.mp hpub with ⟨f, hf, -, rfl⟩ | ⟨f, hf, rfl⟩
    · exact h.setOf root f hf
    · exact h'.of_put f hf
  | clearAll =>
    intro pub hpub
    obtain ⟨e, he, f, hf, rfl⟩ := exists_mem_of_mem_clearAll hpub
    exact h e he f hf

end PublishedStore

/-! ## Operations -/

/-- An operation that adds no root, or one that is an absolute path. -/
def Operation.IsAbsolute : Operation → Prop
  | .addRoot root => root.isAbsolute = true
  | _ => True

namespace Orchestrator

variable {o : Orchestrator}

/-- Every monitored root and every published file is at an absolute path. -/
structure IsAbsolute (o : Orchestrator) : Prop where
  roots : ∀ root ∈ o.roots, root.isAbsolute = true
  published : o.published.IsAbsolute

theorem isAbsolute_fresh (config : ScanConfig) : (fresh config).IsAbsolute := ⟨nofun, nofun⟩

/-- A root that is equivalent to a monitored one is an absolute path, too. -/
theorem IsAbsolute.of_monitors (h : o.IsAbsolute) {root : Path} (hmon : o.monitors root = true) :
    root.isAbsolute = true := by
  obtain ⟨r, hr, hequal⟩ := List.any_eq_true.mp hmon
  rw [← Path.isAbsolute_congr (of_decide_eq_true hequal)]
  exact h.roots r hr

theorem isAbsolute_addRoot (h : o.IsAbsolute) {root : Path} (hroot : root.isAbsolute = true) :
    (o.addRoot root).1.IsAbsolute := by
  obtain ⟨roots, inFlight, hstate, -⟩ := o.addRoot_frame root
  refine ⟨?_, ?_⟩
  · cases hmon : o.monitors root with
    | true =>
      rw [addRoot_of_monitored hmon]
      exact h.roots
    | false =>
      rw [addRoot_roots hmon]
      intro r hr
      rcases List.mem_append.mp hr with hr | hr
      · exact h.roots r hr
      · rw [List.mem_singleton.mp hr]
        exact hroot
  · rw [hstate]
    exact h.published

theorem isAbsolute_removeRoot (h : o.IsAbsolute) (root : Path) : (o.removeRoot root).1.IsAbsolute := by
  refine ⟨fun r hr => h.roots r (List.mem_filter.mp hr).1, ?_⟩
  rw [(o.removeRoot_published root).1]
  exact PublishedStore.isAbsolute_put h.published root DiagnosticSet.isAbsolute_empty

theorem isAbsolute_toggle (h : o.IsAbsolute) : o.toggle.1.IsAbsolute := by
  cases hactive : o.active with
  | false =>
    rw [toggle_on hactive]
    exact ⟨h.roots, h.published⟩
  | true =>
    rw [toggle_off hactive]
    exact ⟨h.roots, nofun⟩

/-- The end of a scan publishes below a monitored root. -/
theorem isAbsolute_apply (h : o.IsAbsolute) (c : Completion) : (o.apply c).1.IsAbsolute := by
  cases haccepted : o.accepted? c with
  | none =>
    rw [apply_of_not_accepted haccepted]
    exact ⟨h.roots, h.published⟩
  | some output =>
    have hroot := h.of_monitors (accepted?_eq_some_iff.mp haccepted).2.2
    rw [apply_of_accepted haccepted]
    exact ⟨h.roots, PublishedStore.isAbsolute_put h.published c.root (DiagnosticSet.isAbsolute_rebase _ hroot)⟩

/-- **An operation keeps everything at absolute paths.** -/
theorem isAbsolute_perform (h : o.IsAbsolute) {op : Operation} (hop : op.IsAbsolute) :
    (o.perform op).1.IsAbsolute := by
  cases op with
  | addRoot root => exact isAbsolute_addRoot h hop
  | removeRoot root => exact isAbsolute_removeRoot h root
  | toggle => exact isAbsolute_toggle h
  | documentSaved language =>
    obtain ⟨inFlight, hstate, -⟩ := o.documentSaved_frame language
    show (o.documentSaved language).1.IsAbsolute
    rw [hstate]
    exact ⟨h.roots, h.published⟩
  | scanAll => exact ⟨h.roots, h.published⟩
  | apply c => exact isAbsolute_apply h c

theorem isAbsolute_run (h : o.IsAbsolute) {ops : List Operation} (hops : ∀ op ∈ ops, op.IsAbsolute) :
    (o.run ops).IsAbsolute := by
  induction ops generalizing o with
  | nil => exact h
  | cons op ops ih =>
    obtain ⟨hop, hops⟩ := List.forall_mem_cons.mp hops
    exact ih (isAbsolute_perform h hop) hops

/-- **Whatever is published along operations** is at an absolute path. -/
theorem isAbsolute_publications (h : o.IsAbsolute) {ops : List Operation}
    (hops : ∀ op ∈ ops, op.IsAbsolute) :
    ∀ pub ∈ o.publications ops, pub.path.isAbsolute = true := by
  induction ops generalizing o with
  | nil => exact nofun
  | cons op ops ih =>
    obtain ⟨hop, hops⟩ := List.forall_mem_cons.mp hops
    have hnext := isAbsolute_perform h hop
    intro pub hpub
    rcases List.mem_append.mp hpub with hfirst | hrest
    · exact (o.perform_change op).isAbsolute h.published hnext.published pub hfirst
    · exact ih hnext hops pub hrest

end Orchestrator
end NoticeServer
