import NoticeServer.Proofs.Orchestrator.Run
import NoticeServer.Proofs.Publication.Editor

/-!
# `NoticeServer.Proofs.Orchestrator.Replacement` — the publications of a successful scan

A scan that is taken over replaces the set of its root. Both sets name each of their files once, so a file of
either is published once: cleared at the beginning if it is gone, shown in full behind that if it is there
(`Orchestrator.publications_of_scan`).
-/

namespace NoticeServer
namespace Orchestrator

variable {o : Orchestrator}

/-- **Operations keep the store well-formed.** -/
theorem wellFormed_run (h : o.published.WellFormed) (ops : List Operation) :
    (o.run ops).published.WellFormed := by
  induction ops generalizing o with
  | nil => exact h
  | cons op ops ih => exact ih ((o.perform_change op).wellFormed h)

/-- **A successful scan publishes each of its files once, and clears first.** Let a scan succeed whose end is
applied while scanning is active and its root is monitored, after any operations from the beginning. First
come the files that the root published before and does not publish now, each cleared, in their order; then
the files of the new set, each with all its diagnostics, in their order. So each file of the old set and of
the new one is published once and no other file is: a file of the new set with what it has there, which is
not nothing, and a file that is gone with nothing. An editor then shows just that for these files. -/
theorem publications_of_scan (config : ScanConfig) (ops : List Operation) (c : Completion)
    (output : List Char) (hout : c.outcome = .ok output)
    (hactive : ((fresh config).run ops).active = true)
    (hmonitored : ((fresh config).run ops).monitors c.root = true) :
    let o := (fresh config).run ops
    let previous := (o.published.get? c.root).getD .empty
    let next := (collect output config.strictSpans).rebase c.root
    let publications := (o.apply c).2.publications
    publications =
      ((previous.paths.filter fun p => !next.contains p).map fun p => ⟨p, []⟩) ++
        next.files.map (fun f => ⟨f.1, f.2⟩) ∧
    (∀ p, publications.countP (fun (pub : Publication) => pub.path ≈ p) =
      if previous.contains p = true ∨ next.contains p = true then 1 else 0) ∧
    (∀ pub ∈ publications, next.contains pub.path = true →
      pub.items ≠ [] ∧ next.get? pub.path = some pub.items) ∧
    (∀ pub ∈ publications, next.contains pub.path = false →
      previous.contains pub.path = true ∧ pub.items = []) ∧
    (∀ (e : Editor) p, (e.receiveAll publications).shown p =
      if previous.contains p = true ∨ next.contains p = true then next.get? p else e.shown p) := by
  intro o previous next publications
  have hprevious : previous.WellFormed :=
    (wellFormed_run PublishedStore.wellFormed_empty ops).setOf c.root
  have hnext : next.WellFormed := DiagnosticSet.wellFormed_rebase _ c.root
  have hpublications : publications = PublishedStore.transition previous next := by
    have haccepted : o.accepted? c = some output := accepted?_eq_some_iff.mpr ⟨hout, hactive, hmonitored⟩
    have hconfig : o.config = config := run_config (fresh config) ops
    show (o.apply c).2.publications = _
    rw [apply_of_accepted haccepted, scanned, hconfig]
    rfl
  rw [hpublications]
  refine ⟨rfl, PublishedStore.countP_transition hprevious hnext, ?_, ?_, Editor.shown_transition hnext⟩
  · intro pub hpub hthere
    have hitems := PublishedStore.items_of_mem_transition hnext hpub
    obtain ⟨items, hget⟩ : ∃ items, next.get? pub.path = some items := by
      rwa [← Option.isSome_iff_exists, DiagnosticSet.isSome_get?]
    rw [hget, Option.getD_some] at hitems
    rw [hitems]
    exact ⟨hnext.get?_ne_nil hget, hget⟩
  · intro pub hpub hgone
    have hitems := PublishedStore.items_of_mem_transition hnext hpub
    have hnone : next.get? pub.path = none := Path.lookup_eq_none_iff.mpr hgone
    rw [hnone, Option.getD_none] at hitems
    have htouched := PublishedStore.touches_transition.mp ⟨pub, hpub, Setoid.refl pub.path⟩
    exact ⟨htouched.resolve_right (by simp [hgone]), hitems⟩

/-- A root that is scanned twice. -/
def twiceScanned : Path := .ofString "/r"

/-- The first scan reports two files. -/
def firstScan : Completion :=
  ⟨twiceScanned, .ok ("::notice file=a,line=1,col=1,endLine=1,endColumn=1::m\n" ++
    "::notice file=b,line=1,col=1,endLine=1,endColumn=1::m").toList⟩

/-- What the second scan reports: one of the files, under another spelling. -/
def secondOutput : List Char := "::notice file=./b,line=2,col=1,endLine=3,endColumn=1::m".toList

/-- Scanning is turned on for the root, and the first scan is taken over. -/
def firstScanned : List Operation := [.addRoot twiceScanned, .toggle, .apply firstScan]

theorem publications_secondScan :
    let o := (fresh {}).run firstScanned
    let publications := (o.apply ⟨twiceScanned, .ok secondOutput⟩).2.publications
    o.active = true ∧ o.monitors twiceScanned = true ∧
    publications.map (fun pub => (pub.path, pub.items.length)) =
      [(.ofString "/r/a", 0), (.ofString "/r/./b", 2)] ∧
    publications.countP (fun (pub : Publication) => pub.path ≈ .ofString "/r/b") = 1 ∧
    ∃ pub ∈ publications, pub.path ≈ .ofString "/r/b" ∧ pub.items ≠ [] := by
  intro o publications
  have hactive : o.active = true := by decide +kernel
  have hmonitored : o.monitors twiceScanned = true := by decide +kernel
  obtain ⟨hpublications, hcount, hshown, -, -⟩ :=
    publications_of_scan {} firstScanned ⟨twiceScanned, .ok secondOutput⟩ secondOutput rfl hactive hmonitored
  have hthere : ((collect secondOutput false).rebase twiceScanned).contains (.ofString "/r/b") = true := by
    decide +kernel
  have honce : publications.countP (fun (pub : Publication) => pub.path ≈ .ofString "/r/b") = 1 :=
    (hcount _).trans (if_pos (.inr hthere))
  refine ⟨hactive, hmonitored, ?_, honce, ?_⟩
  · have hlist : publications = _ := hpublications
    rw [hlist]
    decide +kernel
  · obtain ⟨pub, hpub, hpath⟩ := List.countP_pos_iff.mp (honce ▸ Nat.one_pos)
    have hequal : pub.path ≈ .ofString "/r/b" := of_decide_eq_true hpath
    have hnew : ((collect secondOutput false).rebase twiceScanned).contains pub.path = true :=
      (Path.keyed_congr hequal _).trans hthere
    exact ⟨pub, hpub, hequal, (hshown pub hpub hnew).1⟩

end Orchestrator
end NoticeServer
