import NoticeServer.Proofs.Orchestrator.Replacement
import NoticeServer.Proofs.Publication.Snapshot

/-!
# `NoticeServer.Proofs.Orchestrator.Snapshot` — the snapshot of everything published

Operations keep the store well-formed: each root is there once, and neither a set nor a file in it is empty.
So the snapshot of the store shows just what is published for the roots, in whatever order the store gives
them out (`Orchestrator.snapshot_of_published`).
-/

namespace NoticeServer
namespace Orchestrator

/-- **A snapshot shows just what is published.** Let the published sets be given out in any order, after any
operations from the beginning. The files of the snapshot are those of all published sets, each as often as
it is published; they ascend by the components of their paths, and none of them is without diagnostics. The
snapshot is empty just if no root has a published set, as it is while scanning is inactive. It counts the
diagnostics of all published sets, and its text is empty just if nothing is published and tells that number
and the number of files otherwise. A file that no root published is not found, and one that just one root
published is found with what it has there. -/
theorem snapshot_of_published (config : ScanConfig) (ops : List Operation)
    (entries : List (Path × DiagnosticSet))
    (horder : entries.Perm ((fresh config).run ops).published.roots) :
    let o := (fresh config).run ops
    let snapshot := PublishedStore.snapshot ⟨entries⟩
    let total := o.published.roots.foldr (fun e n => e.2.total + n) 0
    let count := (o.published.roots.flatMap fun e => e.2.files).length
    (∀ root set, o.published.get? root = some set ↔ ∃ e ∈ o.published.roots, e.1 ≈ root ∧ e.2 = set) ∧
    o.published.roots.Pairwise (fun e f => ¬ e.1 ≈ f.1) ∧
    snapshot.files.Perm (o.published.roots.flatMap fun e => e.2.files) ∧
    snapshot.files.Pairwise (fun f g => f.1 < g.1 ∨ f.1 ≈ g.1) ∧
    (∀ f ∈ snapshot.files, f.2 ≠ []) ∧
    (snapshot.isEmpty = true ↔ ∀ root, o.published.get? root = none) ∧
    (o.active = false → snapshot.isEmpty = true) ∧
    snapshot.total = total ∧
    (snapshot.status = "" ↔ ∀ root, o.published.get? root = none) ∧
    (snapshot.status ≠ "" → snapshot.status = "nudge: " ++ toString total ++ " in " ++ toString count ++
      (if count = 1 then " file" else " files")) ∧
    (∀ p, snapshot.get? p = none ↔
      ∀ root set, o.published.get? root = some set → set.contains p = false) ∧
    (∀ p root set, o.published.get? root = some set → set.contains p = true →
      (∀ root' set', o.published.get? root' = some set' → set'.contains p = true → root' ≈ root) →
      snapshot.get? p = set.get? p) := by
  intro o snapshot total count
  have hpublished : o.published.WellFormed := wellFormed_run PublishedStore.wellFormed_empty ops
  have hentries : PublishedStore.WellFormed ⟨entries⟩ := PublishedStore.wellFormed_of_perm horder hpublished
  -- the order of the entries does not show in what is published for a root
  have hget (root : Path) : PublishedStore.get? ⟨entries⟩ root = o.published.get? root :=
    PublishedStore.get?_of_perm horder hpublished root
  have hfiles : snapshot.files.Perm (o.published.roots.flatMap fun e => e.2.files) :=
    PublishedStore.perm_snapshot horder
  have htotal : snapshot.total = total := PublishedStore.total_snapshot horder
  have hempty : snapshot.isEmpty = true ↔ ∀ root, o.published.get? root = none := by
    simp only [← hget]
    exact PublishedStore.isEmpty_snapshot_iff hentries
  refine ⟨fun _ _ => PublishedStore.get?_eq_some_iff hpublished, hpublished.distinct, hfiles,
    PublishedStore.ascending_snapshot _, ?_, hempty, ?_, htotal, ?_, ?_, ?_, ?_⟩
  · intro f hf
    obtain ⟨e, he, hfe⟩ := PublishedStore.mem_snapshot.mp hf
    exact (hentries.sets e he).filled f hfe
  · intro hactive
    have hnone : o.published = .empty := inactiveEmpty_run (inactiveEmpty_fresh config) ops hactive
    exact hempty.mpr fun root => by rw [hnone, PublishedStore.get?_empty]
  · exact Snapshot.status_eq_empty_iff.trans hempty
  · intro hstatus
    have hfilled := Bool.eq_false_iff.mpr (mt Snapshot.status_eq_empty_iff.mpr hstatus)
    rw [Snapshot.status_of_filled hfilled, htotal, hfiles.length_eq]
  · intro p
    simp only [← hget]
    exact PublishedStore.get?_snapshot_eq_none_iff hentries
  · intro p root set
    simp only [← hget]
    exact PublishedStore.get?_snapshot_of_only hentries

/-- A scan that finds something in one file, on the given number of lines. -/
def findingScan (root file : String) (lines : Nat) : Completion :=
  ⟨.ofString root, .ok s!"::notice file={file},line=1,col=1,endLine={lines},endColumn=1::m".toList⟩

/-- Two roots publish one file each. -/
def twoPublished : List Operation :=
  [.addRoot (.ofString "/a-b"), .addRoot (.ofString "/a"), .toggle, .apply (findingScan "/a-b" "c" 1),
    .apply (findingScan "/a" "b" 2)]

/-- What they publish, in the other order of the roots. -/
def twoSets : List (Path × DiagnosticSet) :=
  [(.ofString "/a-b", ⟨[(.ofString "/a-b/c", [⟨.ofString "c", ⟨⟨0, 0⟩, ⟨1, 0⟩⟩, "m"⟩])]⟩),
    (.ofString "/a", ⟨[(.ofString "/a/b",
      [⟨.ofString "b", ⟨⟨0, 0⟩, ⟨1, 0⟩⟩, "m"⟩, ⟨.ofString "b", ⟨⟨1, 0⟩, ⟨2, 0⟩⟩, "m"⟩])]⟩)]

theorem published_twoPublished : ((fresh {}).run twoPublished).published.roots = twoSets.reverse := by
  decide +kernel

/-- In either order of the roots, a file below `/a` comes before one below `/a-b`. -/
theorem snapshot_twoPublished :
    let snapshot := PublishedStore.snapshot ⟨twoSets⟩
    twoSets.Perm ((fresh {}).run twoPublished).published.roots ∧
    snapshot.files = twoSets.reverse.flatMap (fun e => e.2.files) ∧
    snapshot.files.map (·.1) = [.ofString "/a/b", .ofString "/a-b/c"] ∧
    snapshot.total = 3 ∧ snapshot.status = "nudge: 3 in 2 files" ∧
    (snapshot.get? (.ofString "/a/./b")).map (·.length) = some 2 := by
  intro snapshot
  have horder : twoSets.Perm ((fresh {}).run twoPublished).published.roots := by
    rw [published_twoPublished]
    exact (List.reverse_perm twoSets).symm
  obtain ⟨hentry, -, hfiles, hascending, -, -, -, htotal, htext, hstatus, -, hget⟩ :=
    snapshot_of_published {} twoPublished twoSets horder
  rw [published_twoPublished] at hentry hfiles htotal hstatus
  have hset := (hentry (.ofString "/a") _).mpr ⟨_, List.mem_cons_self, Setoid.refl _, rfl⟩
  have hsorted : snapshot.files = twoSets.reverse.flatMap fun e => e.2.files := by
    -- these files ascend, and no two of them are at equal paths
    have hown : (twoSets.reverse.flatMap fun e => e.2.files).Pairwise fun f g => f.1 < g.1 ∨ f.1 ≈ g.1 := by
      decide +kernel
    have hdiffer : ∀ f ∈ twoSets.reverse.flatMap (fun e => e.2.files),
        ∀ g ∈ twoSets.reverse.flatMap (fun e => e.2.files), f.1 ≈ g.1 → f = g := by decide +kernel
    refine hfiles.eq_of_pairwise ?_ hascending hown
    intro f g hf hg hfg hgf
    refine hdiffer f (hfiles.mem_iff.mp hf) g hg (hfg.resolve_left fun hlt => ?_)
    exact Path.lt_or_equiv_iff.mp hgf hlt
  refine ⟨horder, hsorted, by rw [hsorted]; decide +kernel, htotal, ?_, ?_⟩
  · have hfilled : snapshot.status ≠ "" := by
      intro hnothing
      have hnone := htext.mp hnothing (.ofString "/a")
      rw [hset] at hnone
      exact absurd hnone nofun
    exact (hstatus hfilled).trans (by decide +kernel)
  · have hother : ∀ e ∈ twoSets.reverse, e.2.contains (.ofString "/a/./b") = true →
        e.1 ≈ .ofString "/a" := by decide +kernel
    rw [hget _ (.ofString "/a") _ hset (by decide +kernel) ?_]
    · decide +kernel
    · intro root' set' hset' hcontains
      obtain ⟨e, he, hequal, rfl⟩ := (hentry root' set').mp hset'
      exact Setoid.trans (Setoid.symm hequal) (hother e he hcontains)

end Orchestrator
end NoticeServer
