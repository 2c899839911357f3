import NoticeServer.Proofs.Publication.Store

/-!
# `NoticeServer.Proofs.Publication.Editor` — the editor behind the publications

An editor keeps, for each file, the diagnostics of the last publication for it. It knows files and not
roots: of two roots that publish one file, the later one is seen. So there are two ties to a store: what the
editor shows for a file is published by some root (`Editor.NoGhosts`), and all that is published for it is shown
(`Editor.ShowsAll`). The first holds on across every change of the store, the second as long as roots share no
file.
-/

namespace NoticeServer

/-- What an editor shows for each file. -/
structure Editor where
  shown : Path → Option (List Diagnostic)

namespace Editor

/-- Nothing is shown. -/
def blank : Editor := ⟨fun _ => none⟩

/-- A publication replaces what is shown for its file; an empty one erases the file. -/
def receive (e : Editor) (pub : Publication) : Editor :=
  ⟨fun p => if pub.path ≈ p then (if pub.isClear then none else some pub.items) else e.shown p⟩

/-- Publications taken in one after the other. -/
def receiveAll (e : Editor) (publications : List Publication) : Editor := publications.foldl receive e

theorem receiveAll_append (e : Editor) (first second : List Publication) :
    e.receiveAll (first ++ second) = (e.receiveAll first).receiveAll second := List.foldl_append

variable {e : Editor} {s s' : PublishedStore} {publications : List Publication} {p : Path}

/-! ## One list of publications -/

/-- A file that no publication is for stays as it is. -/
theorem shown_of_untouched (h : ¬ Touches publications p) :
    (e.receiveAll publications).shown p = e.shown p := by
  induction publications generalizing e with
  | nil => rfl
  | cons pub publications ih =>
    have hpub : ¬ pub.path ≈ p := fun hp => h ⟨pub, List.mem_cons_self, hp⟩
    have hrest : ¬ Touches publications p := fun ⟨q, hq, hqp⟩ => h ⟨q, List.mem_cons_of_mem _ hq, hqp⟩
    show ((e.receive pub).receiveAll publications).shown p = e.shown p
    rw [ih hrest]
    exact if_neg hpub

/-- A file for which all publications say the same shows just that. -/
theorem shown_of_touched {items : List Diagnostic} (ht : Touches publications p)
    (h : ∀ pub ∈ publications, pub.path ≈ p → pub.items = items) :
    (e.receiveAll publications).shown p = if items.isEmpty then none else some items := by
  induction publications generalizing e with
  | nil => exact absurd ht (touches_nil p)
  | cons pub publications ih =>
    show ((e.receive pub).receiveAll publications).shown p = _
    by_cases hrest : Touches publications p
    · exact ih hrest fun q hq => h q (List.mem_cons_of_mem _ hq)
    · -- the last publication for the file is the first of the list
      rw [shown_of_untouched hrest]
      obtain ⟨q, hq, hqp⟩ := ht
      rcases List.mem_cons.mp hq with rfl | hq
      · show (if q.path ≈ p then _ else _) = _
        rw [if_pos hqp, Publication.isClear, h q List.mem_cons_self hqp]
      · exact absurd ⟨q, hq, hqp⟩ hrest

/-! ## Editor and store -/

/-- Whatever is shown, some root publishes just that. -/
def NoGhosts (e : Editor) (s : PublishedStore) : Prop :=
  ∀ p items, e.shown p = some items → ∃ root set, s.get? root = some set ∧ set.get? p = some items

/-- Whatever a root publishes is shown. -/
def ShowsAll (e : Editor) (s : PublishedStore) : Prop :=
  ∀ root set p items, s.get? root = some set → set.get? p = some items → e.shown p = some items

theorem noGhosts_blank (s : PublishedStore) : blank.NoGhosts s := fun _ _ h => absurd h (by simp [blank])

theorem showsAll_empty (e : Editor) : e.ShowsAll .empty := fun _ _ _ _ h => absurd h (by simp)

/-- What a replacement does to the editor: the files of the old and the new set show the new set. -/
theorem shown_transition {previous next : DiagnosticSet} (hn : next.WellFormed) (e : Editor) (p : Path) :
    (e.receiveAll (PublishedStore.transition previous next)).shown p =
      if previous.contains p = true ∨ next.contains p = true then next.get? p else e.shown p := by
  have hitems : ∀ pub ∈ PublishedStore.transition previous next, pub.path ≈ p →
      pub.items = (next.get? p).getD [] := by
    intro pub hpub hpp
    have hget : next.get? pub.path = next.get? p := Path.lookup_congr hpp next.files
    rw [PublishedStore.items_of_mem_transition hn hpub, hget]
  by_cases ht : Touches (PublishedStore.transition previous next) p
  · rw [if_pos (PublishedStore.touches_transition.mp ht), shown_of_touched ht hitems]
    cases hp : next.get? p with
    | none => rfl
    | some items => simp [hn.get?_ne_nil hp]
  · rw [if_neg (mt PublishedStore.touches_transition.mpr ht), shown_of_untouched ht]

/-- **No ghosts appear**, whichever change the store undergoes. -/
theorem noGhosts_of_change (hc : PublishedStore.Change s s' publications) (he : e.NoGhosts s) :
    (e.receiveAll publications).NoGhosts s' := by
  cases hc with
  | stay => exact he
  | replace root hset =>
    rename_i set
    intro p items hp
    rw [shown_transition hset] at hp
    by_cases ht : (s.setOf root).contains p = true ∨ set.contains p = true
    · -- the root itself shows the file, and its set is not empty
      rw [if_pos ht] at hp
      refine ⟨root, set, ?_, hp⟩
      have hne : ¬ set.isEmpty = true := by
        intro hempty
        rw [DiagnosticSet.isEmpty_iff] at hempty
        subst hempty
        simp at hp
      rw [PublishedStore.get?_put, if_pos (Setoid.refl root), if_neg hne]
    · -- the file belongs to another root, which keeps its set
      rw [if_neg ht] at hp
      obtain ⟨root', set', hroot', hitems⟩ := he p items hp
      refine ⟨root', set', ?_, hitems⟩
      have hne : ¬ root ≈ root' := by
        intro h
        rw [PublishedStore.setOf_congr h, PublishedStore.setOf_of_get? hroot'] at ht
        exact ht (Or.inl (DiagnosticSet.contains_of_get? hitems))
      rw [PublishedStore.get?_put, if_neg hne]
      exact hroot'
  | clearAll =>
    intro p items hp
    by_cases ht : Touches s.clearAll.2 p
    · rw [shown_of_touched ht fun pub hpub _ => PublishedStore.items_of_mem_clearAll hpub] at hp
      exact absurd hp (by simp)
    · rw [shown_of_untouched ht] at hp
      obtain ⟨root, set, hroot, hitems⟩ := he p items hp
      exact absurd (PublishedStore.touches_clearAll hroot (DiagnosticSet.contains_of_get? hitems)) ht

/-- **Everything published is shown**, as long as no two roots publish one file before or after. -/
theorem showsAll_of_change (hc : PublishedStore.Change s s' publications) (hs : s.Disjoint)
    (hs' : s'.Disjoint) (he : e.ShowsAll s) : (e.receiveAll publications).ShowsAll s' := by
  cases hc with
  | stay => exact he
  | replace root hset =>
    rename_i set
    intro root' set' p items hroot' hitems
    have hp : ((s.put root set).setOf root').contains p = true := by
      rw [PublishedStore.setOf_of_get? hroot']
      exact DiagnosticSet.contains_of_get? hitems
    have hget := PublishedStore.get?_put s root set root'
    rw [shown_transition hset]
    by_cases hr : root ≈ root'
    · -- the file of the root itself
      rw [if_pos hr, hroot'] at hget
      obtain rfl : set = set' := by grind
      rw [if_pos (Or.inr (DiagnosticSet.contains_of_get? hitems)), hitems]
    · -- the file of another root: the replacement does not touch it
      rw [if_neg hr, hroot'] at hget
      have hold : (s.setOf root).contains p = false := by
        refine hs root' root p (fun h => hr (Setoid.symm h)) ?_
        rw [PublishedStore.setOf_of_get? hget.symm]
        exact DiagnosticSet.contains_of_get? hitems
      have hnew : set.contains p = false := by
        have hthis := hs' root' root p (fun h => hr (Setoid.symm h)) hp
        rw [PublishedStore.setOf, PublishedStore.get?_put, if_pos (Setoid.refl root)] at hthis
        by_cases hempty : set.isEmpty = true
        · rw [DiagnosticSet.isEmpty_iff] at hempty
          rw [hempty, DiagnosticSet.contains_empty]
        · rwa [if_neg hempty, Option.getD_some] at hthis
      rw [if_neg (by simp [hold, hnew])]
      exact he root' set' p items hget.symm hitems
  | clearAll => exact showsAll_empty _

end Editor
end NoticeServer
