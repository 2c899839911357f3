import NoticeServer.Proofs.Session.Roots
import NoticeServer.Proofs.Uri.RoundTrip

/-!
# `NoticeServer.Proofs.Session.FolderUris` — folders named by the URIs of their paths

A client may name a folder by the URI that the server itself writes for the path of the folder. As this URI
reads back as the path, the folder is the root that is monitored already: it is neither added a second time nor
scanned for that (`Server.root_of_uri_written`).
-/

namespace NoticeServer

/-- A URI in a list names a root that is equal to the path that the URI denotes. -/
theorem Uri.exists_root_of_mem {uri : String} {p : Path} (hread : ∃ q, toPath? uri = some q ∧ q ≈ p)
    {uris : List String} (h : uri ∈ uris) : ∃ r ∈ uris.filterMap toPath?, r ≈ p := by
  obtain ⟨q, hq, hqp⟩ := hread
  exact ⟨q, List.mem_filterMap.mpr ⟨uri, h, hq⟩, hqp⟩

namespace Server

variable {s : Server} {change : FolderChange} {frame : Json} {p : Path}

/-- A root that is monitored and not removed stays as it is: it keeps its spelling, and it is not scanned. -/
theorem root_kept_of_changesFolders (h : ChangesFolders change frame)
    (hmonitored : s.orchestrator.monitors p = true) (hkept : ∀ r ∈ change.removedRoots, ¬ r ≈ p) :
    (s.handle frame).1.orchestrator.roots.filter (· ≈ p) = s.orchestrator.roots.filter (· ≈ p) ∧
      ∀ r ∈ (s.handle frame).2.scans, ¬ r ≈ p := by
  have hnone : change.removedRoots.any (· ≈ p) = false :=
    List.any_eq_false.mpr fun r hr => by simpa using hkept r hr
  -- the root is among those that are left, so nothing that is added is equal to it
  have hadded : ∀ r ∈ Path.additions (Path.without s.orchestrator.roots change.removedRoots)
      change.addedRoots, ¬ r ≈ p := by
    intro r hr hrp
    have hleft : (Path.without s.orchestrator.roots change.removedRoots).any (· ≈ p) = true := by
      rw [Path.any_without, hnone, Bool.not_false, Bool.and_true]
      exact hmonitored
    have hunknown := Path.unknown_of_mem_additions hr
    simp only [Path.equiv_congr_right hrp] at hunknown
    rw [hleft] at hunknown
    exact absurd hunknown nofun
  constructor
  · have hrest : (Path.additions (Path.without s.orchestrator.roots change.removedRoots)
        change.addedRoots).filter (· ≈ p) = [] := by
      refine List.filter_eq_nil_iff.mpr fun r hr => ?_
      simpa using hadded r hr
    rw [roots_of_changesFolders h, List.filter_append, hrest, List.append_nil, Path.without,
      List.filter_filter]
    refine List.filter_congr fun r _ => ?_
    by_cases hrp : r ≈ p
    · have hstays : (!change.removedRoots.any (r ≈ ·)) = true := by
        rw [Bool.not_eq_true', List.any_eq_false]
        intro q hq hrq
        exact hkept q hq (Setoid.trans (Setoid.symm (of_decide_eq_true hrq)) hrp)
      rw [hstays, Bool.and_true]
    · rw [decide_eq_false hrp, Bool.false_and]
  · exact fun r hr => hadded r (mem_scans_of_changesFolders h hr)

/-- **File URIs read back, and name the same root.** Every absolute path without `..` has a URI, and this
URI denotes an equivalent path, whatever bytes stand in the names of the path; a name that is written like
a drive letter is no exception. So in a change of folders the URI names the root that the path names. If
the URI is removed, and no added folder is equal to the path, the path is not monitored any more and
nothing is published for it. If it is added, the path is monitored. If it is added and the path is monitored
already, and not removed, the root stays: it keeps its spelling, no equal root joins it, it keeps what is
published for it, and it is not scanned. -/
theorem root_of_uri_written {p : Path} (habs : p.isAbsolute = true) (hup : Component.up ∉ p.components) :
    ∃ uri, Uri.ofPath? p = some uri ∧ (∃ q, Uri.toPath? uri = some q ∧ q ≈ p) ∧
      ∀ (s : Server) (change : FolderChange) (frame : Json), ChangesFolders change frame →
        let before := s.orchestrator
        let after := (s.handle frame).1.orchestrator
        (uri ∈ change.removed → (∀ r ∈ change.addedRoots, ¬ r ≈ p) →
          after.monitors p = false ∧ after.published.get? p = none) ∧
        (uri ∈ change.added → after.monitors p = true) ∧
        (uri ∈ change.added → before.monitors p = true → (∀ r ∈ change.removedRoots, ¬ r ≈ p) →
          after.roots.filter (· ≈ p) = before.roots.filter (· ≈ p) ∧
          after.published.get? p = before.published.get? p ∧
          ∀ r ∈ (s.handle frame).2.scans, ¬ r ≈ p) := by
  have huri := Uri.ofPath?_of_absolute habs
  have hread := Uri.toPath?_of_ofPath? hup huri
  refine ⟨_, huri, hread, fun s change frame h => ?_⟩
  intro before after
  refine ⟨fun hremoved hothers => ?_, fun hadded => ?_, fun _ hmonitored hkept => ?_⟩
  · obtain ⟨r, hr, hrp⟩ : ∃ r ∈ change.removedRoots, r ≈ p := Uri.exists_root_of_mem hread hremoved
    have hany : change.removedRoots.any (· ≈ p) = true :=
      List.any_eq_true.mpr ⟨r, hr, decide_eq_true hrp⟩
    have hnone : change.addedRoots.any (· ≈ p) = false :=
      List.any_eq_false.mpr fun q hq => by simpa using hothers q hq
    refine ⟨?_, ?_⟩
    · rw [monitors_of_changesFolders h, hany, hnone, Bool.not_true, Bool.and_false, Bool.or_false]
    · rw [published_of_changesFolders h, if_pos ⟨r, hr, hrp⟩]
  · obtain ⟨r, hr, hrp⟩ : ∃ r ∈ change.addedRoots, r ≈ p := Uri.exists_root_of_mem hread hadded
    have hany : change.addedRoots.any (· ≈ p) = true := List.any_eq_true.mpr ⟨r, hr, decide_eq_true hrp⟩
    rw [monitors_of_changesFolders h, hany, Bool.or_true]
  · obtain ⟨hroots, hscans⟩ := root_kept_of_changesFolders h hmonitored hkept
    refine ⟨hroots, ?_, hscans⟩
    rw [published_of_changesFolders h, if_neg]
    rintro ⟨r, hr, hrp⟩
    exact hkept r hr hrp

/-- A path whose names have a blank, a percent sign in front of digits, the ends of a path, a backslash, a
line break and a byte that is not UTF-8 in them, below a name like a drive letter. -/
def oddPath : Path :=
  ⟨(Path.ofString "/c|/ %2e%2e/a?b#c/d\\e\n").bytes ++ [0xFF]⟩

/-- A folder at the odd path that is added, added again and removed, each time by the URI of the path. -/
theorem root_of_oddPath :
    oddPath.isAbsolute = true ∧ Component.up ∉ oddPath.components ∧
    ∃ uri, Uri.ofPath? oddPath = some uri ∧ (∃ q, Uri.toPath? uri = some q ∧ q ≈ oddPath) ∧
      let added := ((fresh {}).handle (Session.folderChange "none" uri)).1
      let again := added.handle (Session.folderChange "none" uri)
      let removed := (again.1.handle (Session.folderChange uri "none")).1
      added.orchestrator.monitors oddPath = true ∧
      again.1.orchestrator.roots.filter (· ≈ oddPath) = added.orchestrator.roots.filter (· ≈ oddPath) ∧
      removed.orchestrator.monitors oddPath = false := by
  have habs : oddPath.isAbsolute = true := by decide
  have hup : Component.up ∉ oddPath.components := by decide +kernel
  obtain ⟨uri, huri, hread, hchange⟩ := root_of_uri_written habs hup
  have hnone : Uri.toPath? "none" = none := by decide +kernel
  have hadd := Session.changesFolders_folderChange "none" uri
  have hremove := Session.changesFolders_folderChange uri "none"
  refine ⟨habs, hup, uri, huri, hread, ?_⟩
  intro added again removed
  have hadded : added.orchestrator.monitors oddPath = true :=
    (hchange (fresh {}) _ _ hadd).2.1 List.mem_cons_self
  refine ⟨hadded, ?_, ?_⟩
  · refine ((hchange added _ _ hadd).2.2 List.mem_cons_self hadded ?_).1
    rw [FolderChange.removedRoots, List.filterMap_cons_none hnone]
    exact nofun
  · refine ((hchange again.1 _ _ hremove).1 List.mem_cons_self ?_).1
    rw [FolderChange.addedRoots, List.filterMap_cons_none hnone]
    exact nofun

end Server
end NoticeServer
