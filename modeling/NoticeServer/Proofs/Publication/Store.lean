import NoticeServer.Publication
import NoticeServer.Proofs.DiagnosticSet.Append

/-!
# `NoticeServer.Proofs.Publication.Store` — what the store holds and what it publishes

Every change of the store is one of three: it stays, the set of one root is replaced, or everything is
forgotten. To forget one root is to replace its set by the empty one. The publications of a replacement
are for the files of the old set and of the new one, and for no other.

## Contents

* `PublishedStore.get?_erase`, `PublishedStore.get?_put`: lookups in a changed store.
* `PublishedStore.clearRoot_eq_replace`: forgetting as replacing.
* `PublishedStore.touches_transition`, `PublishedStore.items_of_mem_transition`,
  `PublishedStore.countP_transition`: the publications of a replacement.
* `PublishedStore.mem_clearRoots`, `PublishedStore.touches_clearRoots`: roots forgotten one after the other.
* `PublishedStore.clearAll_store`, `PublishedStore.touches_clearAll`: everything forgotten.
* `PublishedStore.Change`: the three changes.
* `PublishedStore.WellFormed`, `PublishedStore.Change.wellFormed`: what every change keeps.
-/

namespace NoticeServer

/-- Some publication is for the file `p`. -/
def Touches (publications : List Publication) (p : Path) : Prop := ∃ pub ∈ publications, pub.path ≈ p

@[simp] theorem touches_nil (p : Path) : ¬ Touches [] p := by simp [Touches]

namespace PublishedStore

variable {s : PublishedStore} {root root' p : Path} {set : DiagnosticSet}

/-! ## Lookups -/

theorem get?_eq_lookup (s : PublishedStore) (root : Path) : s.get? root = Path.lookup s.roots root := rfl

@[simp] theorem get?_empty (root : Path) : empty.get? root = none := rfl

theorem get?_congr (h : root ≈ root') (s : PublishedStore) : s.get? root = s.get? root' :=
  Path.lookup_congr h s.roots

theorem get?_erase (s : PublishedStore) (root root' : Path) :
    (s.erase root).get? root' = if root ≈ root' then none else s.get? root' :=
  Path.lookup_filter_ne s.roots root root'

/-- A replaced set is found unless it is empty; the other roots keep theirs. -/
theorem get?_put (s : PublishedStore) (root : Path) (set : DiagnosticSet) (root' : Path) :
    (s.put root set).get? root' =
      if root ≈ root' then (if set.isEmpty then none else some set) else s.get? root' := by
  unfold put
  split
  · rw [get?_erase]
  · rw [get?_eq_lookup, Path.lookup_cons, ← get?_eq_lookup, get?_erase]
    split <;> rfl

/-- What is published for a root; nothing if the root is not there. -/
def setOf (s : PublishedStore) (root : Path) : DiagnosticSet := (s.get? root).getD .empty

theorem setOf_congr (h : root ≈ root') (s : PublishedStore) : s.setOf root = s.setOf root' := by
  rw [setOf, setOf, get?_congr h]

theorem setOf_of_get? (h : s.get? root = some set) : s.setOf root = set := by
  rw [setOf, h, Option.getD_some]

theorem exists_mem_roots (h : s.get? root = some set) : ∃ e ∈ s.roots, e.2 = set := by
  obtain ⟨e, he, _, hset⟩ := Path.mem_of_lookup h
  exact ⟨e, he, hset⟩

/-- What holds of every published set and of the empty one holds of what is published for a root. -/
theorem setOf_of_forall {P : DiagnosticSet → Prop} (h : ∀ e ∈ s.roots, P e.2) (hempty : P .empty)
    (root : Path) : P (s.setOf root) := by
  cases hget : s.get? root with
  | none =>
    rw [setOf, hget]
    exact hempty
  | some set =>
    obtain ⟨e, he, rfl⟩ := exists_mem_roots hget
    rw [setOf_of_get? hget]
    exact h e he

/-- No two roots publish the same file. -/
def Disjoint (s : PublishedStore) : Prop :=
  ∀ root root' p, ¬ root ≈ root' → (s.setOf root).contains p = true → (s.setOf root').contains p = false

/-! ## The publications of a replacement -/

theorem mem_transition {previous next : DiagnosticSet} {pub : Publication} :
    pub ∈ transition previous next ↔
      (∃ f ∈ previous.files, next.contains f.1 = false ∧ pub = .clear f.1) ∨
      (∃ f ∈ next.files, pub = ⟨f.1, f.2⟩) := by
  simp only [transition, DiagnosticSet.paths, DiagnosticSet.publications, List.mem_append, List.mem_map,
    List.mem_filter, Bool.not_eq_true']
  grind

/-- **The files that a replacement touches** are those of the old set and those of the new one. -/
theorem touches_transition {previous next : DiagnosticSet} :
    Touches (transition previous next) p ↔ previous.contains p = true ∨ next.contains p = true := by
  constructor
  · rintro ⟨pub, hpub, hp⟩
    rcases mem_transition.mp hpub with ⟨f, hf, _, rfl⟩ | ⟨f, hf, rfl⟩
    · exact Or.inl (DiagnosticSet.contains_iff.mpr ⟨f, hf, hp⟩)
    · exact Or.inr (DiagnosticSet.contains_iff.mpr ⟨f, hf, hp⟩)
  · -- a file of the old set is either shown anew or cleared
    have hnext : next.contains p = true → Touches (transition previous next) p := by
      intro h
      obtain ⟨f, hf, hp⟩ := DiagnosticSet.contains_iff.mp h
      exact ⟨⟨f.1, f.2⟩, mem_transition.mpr (Or.inr ⟨f, hf, rfl⟩), hp⟩
    rintro (h | h)
    · obtain ⟨f, hf, hp⟩ := DiagnosticSet.contains_iff.mp h
      cases hc : next.contains f.1 with
      | true => exact hnext (by rw [← hc]; exact (Path.keyed_congr hp next.files).symm)
      | false => exact ⟨.clear f.1, mem_transition.mpr (Or.inl ⟨f, hf, hc, rfl⟩), hp⟩
    · exact hnext h

/-- **The items that a replacement publishes** for a file are those of the new set, none if it is gone. -/
theorem items_of_mem_transition {previous next : DiagnosticSet} (hn : next.WellFormed)
    {pub : Publication} (h : pub ∈ transition previous next) :
    pub.items = (next.get? pub.path).getD [] := by
  rcases mem_transition.mp h with ⟨f, _, hc, rfl⟩ | ⟨f, hf, rfl⟩
  · have hnone : next.get? f.1 = none := Path.lookup_eq_none_iff.mpr hc
    show [] = (next.get? f.1).getD []
    rw [hnone, Option.getD_none]
  · have hsome : next.get? f.1 = some f.2 := hn.get?_eq_some_iff.mpr ⟨f, hf, Setoid.refl _, rfl⟩
    show f.2 = (next.get? f.1).getD []
    rw [hsome, Option.getD_some]

/-- The paths of a replacement: the files that are gone, and then the files of the new set. -/
theorem paths_transition (previous next : DiagnosticSet) :
    (transition previous next).map (·.path) =
      (previous.paths.filter fun path => !next.contains path) ++ next.paths := by
  rw [transition, DiagnosticSet.publications, List.map_append, List.map_map, List.map_map]
  congr 1
  exact List.map_id _

/-- **A replacement publishes each of its files once**, and no other. -/
theorem countP_transition {previous next : DiagnosticSet} (hp : previous.WellFormed)
    (hn : next.WellFormed) (p : Path) :
    (transition previous next).countP (fun pub => pub.path ≈ p) =
      if previous.contains p = true ∨ next.contains p = true then 1 else 0 := by
  have hdistinct : Path.NoTwoEqual ((transition previous next).map (·.path)) := by
    rw [paths_transition]
    refine List.pairwise_append.mpr ⟨?_, Path.distinct_iff_keys.mp hn.distinct, ?_⟩
    · exact (Path.distinct_iff_keys.mp hp.distinct).filter _
    · -- a file that is gone is none of the new set
      intro q hq r hr hqr
      have hgone : next.contains q = false := by simpa using (List.mem_filter.mp hq).2
      obtain ⟨f, hf, rfl⟩ := List.mem_map.mp hr
      have hthere : next.contains q = true := DiagnosticSet.contains_iff.mpr ⟨f, hf, Setoid.symm hqr⟩
      rw [hgone] at hthere
      exact Bool.noConfusion hthere
  have htouched : ((transition previous next).map (·.path)).any (· ≈ p) = true ↔
      previous.contains p = true ∨ next.contains p = true := by
    rw [← touches_transition, List.any_map, List.any_eq_true]
    simp [Touches]
  have hcount := Path.countP_of_noTwoEqual hdistinct p
  simp only [htouched, List.countP_map] at hcount
  exact hcount

/-- To forget a root is to replace its set by the empty one. -/
theorem clearRoot_eq_replace (s : PublishedStore) (root : Path) :
    s.clearRoot root = s.replace root .empty := by
  have hclears (previous : DiagnosticSet) : transition previous .empty = previous.clears := by
    have hkeep : (previous.paths.filter fun path => !DiagnosticSet.empty.contains path) = previous.paths :=
      List.filter_eq_self.mpr (by simp)
    rw [transition, hkeep, DiagnosticSet.clears]
    exact List.append_nil _
  have hempty : s.put root .empty = s.erase root := if_pos rfl
  rw [clearRoot, replace, hclears, hempty]

/-! ## Roots one after the other -/

theorem mem_clears {pub : Publication} : pub ∈ set.clears ↔ ∃ f ∈ set.files, pub = .clear f.1 := by
  simp [DiagnosticSet.clears, DiagnosticSet.paths, eq_comm]

theorem clearRoots_cons (s : PublishedStore) (root : Path) (roots : List Path) :
    s.clearRoots (root :: roots) =
      (((s.erase root).clearRoots roots).1,
        (s.setOf root).clears ++ ((s.erase root).clearRoots roots).2) := rfl

/-- Just the roots that are given are gone. -/
theorem mem_clearRoots {e : Path × DiagnosticSet} {roots : List Path} :
    e ∈ (s.clearRoots roots).1.roots ↔ e ∈ s.roots ∧ ∀ root ∈ roots, ¬ e.1 ≈ root := by
  induction roots generalizing s with
  | nil => simp [clearRoots]
  | cons root roots ih =>
    rw [clearRoots_cons, ih, List.forall_mem_cons, ← and_assoc]
    simp [erase]

/-- What is cleared was published. -/
theorem exists_mem_of_mem_clearRoots {roots : List Path} {pub : Publication}
    (h : pub ∈ (s.clearRoots roots).2) : ∃ e ∈ s.roots, ∃ f ∈ e.2.files, pub = .clear f.1 := by
  induction roots generalizing s with
  | nil => exact absurd h List.not_mem_nil
  | cons root roots ih =>
    rw [clearRoots_cons] at h
    rcases List.mem_append.mp h with h | h
    · obtain ⟨f, hf, hpub⟩ := mem_clears.mp h
      cases hset : s.get? root with
      | none =>
        rw [setOf, hset] at hf
        exact absurd hf List.not_mem_nil
      | some set =>
        rw [setOf_of_get? hset] at hf
        obtain ⟨e, he, rfl⟩ := exists_mem_roots hset
        exact ⟨e, he, f, hf, hpub⟩
    · obtain ⟨e, he, hfile⟩ := ih h
      exact ⟨e, (List.mem_filter.mp he).1, hfile⟩

/-- Every published file of the given roots is cleared. -/
theorem touches_clearRoots (h : s.get? root = some set) (hp : set.contains p = true) {roots : List Path}
    (hroot : ∃ r ∈ roots, r ≈ root) : Touches (s.clearRoots roots).2 p := by
  induction roots generalizing s with
  | nil =>
    obtain ⟨r, hr, -⟩ := hroot
    exact absurd hr List.not_mem_nil
  | cons r roots ih =>
    rw [clearRoots_cons]
    by_cases hfirst : r ≈ root
    · -- the set of the root is still there, and goes now
      obtain ⟨f, hf, hfp⟩ := DiagnosticSet.contains_iff.mp hp
      refine ⟨.clear f.1, List.mem_append_left _ (mem_clears.mpr ⟨f, ?_, rfl⟩), hfp⟩
      rwa [setOf_congr hfirst, setOf_of_get? h]
    · have hkept : (s.erase r).get? root = some set := by rw [get?_erase, if_neg hfirst, h]
      obtain ⟨q, hq, hequal⟩ := hroot
      have hrest : q ∈ roots := (List.mem_cons.mp hq).resolve_left fun h => hfirst (h ▸ hequal)
      obtain ⟨pub, hpub, hpath⟩ := ih hkept ⟨q, hrest, hequal⟩
      exact ⟨pub, List.mem_append_right _ hpub, hpath⟩

/-! ## The publications of clearing everything -/

theorem mem_sortedRoots {root : Path} : root ∈ s.sortedRoots ↔ ∃ e ∈ s.roots, e.1 = root := by
  rw [sortedRoots, List.mem_mergeSort, List.mem_map]

/-- Nothing is left. -/
theorem clearAll_store (s : PublishedStore) : s.clearAll.1 = .empty := by
  have hnone : s.clearAll.1.roots = [] := by
    refine List.eq_nil_iff_forall_not_mem.mpr fun e he => ?_
    obtain ⟨hmem, hother⟩ := mem_clearRoots.mp he
    exact hother e.1 (mem_sortedRoots.mpr ⟨e, hmem, rfl⟩) (Setoid.refl e.1)
  exact congrArg PublishedStore.mk hnone

theorem exists_mem_of_mem_clearAll {pub : Publication} (h : pub ∈ s.clearAll.2) :
    ∃ e ∈ s.roots, ∃ f ∈ e.2.files, pub = .clear f.1 := exists_mem_of_mem_clearRoots h

/-- Clearing everything touches every published file. -/
theorem touches_clearAll (h : s.get? root = some set) (hp : set.contains p = true) :
    Touches s.clearAll.2 p := by
  obtain ⟨e, he, hequal, -⟩ := Path.mem_of_lookup h
  exact touches_clearRoots h hp ⟨e.1, mem_sortedRoots.mpr ⟨e, he, rfl⟩, hequal⟩

theorem items_of_mem_clearAll {pub : Publication} (h : pub ∈ s.clearAll.2) : pub.items = [] := by
  obtain ⟨e, _, f, _, rfl⟩ := exists_mem_of_mem_clearAll h
  rfl

/-! ## Changes -/

/-- A change of the store with its publications. -/
inductive Change : PublishedStore → PublishedStore → List Publication → Prop where
  /-- Nothing is published. -/
  | stay (s : PublishedStore) : Change s s []
  /-- One root publishes another set. -/
  | replace (s : PublishedStore) (root : Path) {set : DiagnosticSet} (h : set.WellFormed) :
      Change s (s.put root set) (transition (s.setOf root) set)
  /-- Every root is forgotten. -/
  | clearAll (s : PublishedStore) : Change s .empty s.clearAll.2

/-! ## The invariant -/

/-- No root is there twice, and each publishes a well-formed set that is not empty. -/
structure WellFormed (s : PublishedStore) : Prop where
  distinct : Path.Distinct s.roots
  sets : ∀ e ∈ s.roots, e.2.WellFormed
  filled : ∀ e ∈ s.roots, e.2.isEmpty = false

theorem wellFormed_empty : empty.WellFormed := ⟨List.Pairwise.nil, nofun, nofun⟩

/-- What is published for a root of a well-formed store is a well-formed set. -/
theorem WellFormed.setOf (h : s.WellFormed) (root : Path) : (s.setOf root).WellFormed :=
  setOf_of_forall h.sets DiagnosticSet.wellFormed_empty root

theorem wellFormed_erase (h : s.WellFormed) (root : Path) : (s.erase root).WellFormed where
  distinct := h.distinct.filter _
  sets e he := h.sets e (List.mem_filter.mp he).1
  filled e he := h.filled e (List.mem_filter.mp he).1

theorem wellFormed_put (h : s.WellFormed) (root : Path) (hset : set.WellFormed) :
    (s.put root set).WellFormed := by
  have herase := wellFormed_erase h root
  unfold put
  split
  · exact herase
  · next hfilled =>
    refine ⟨List.pairwise_cons.mpr ⟨fun e he hroot => ?_, herase.distinct⟩,
      List.forall_mem_cons.mpr ⟨hset, herase.sets⟩,
      List.forall_mem_cons.mpr ⟨Bool.eq_false_iff.mpr hfilled, herase.filled⟩⟩
    -- the entry of this root is gone before the new one comes
    exact of_decide_eq_true (List.mem_filter.mp he).2 (Setoid.symm hroot)

/-- **Every change keeps the store well-formed.** -/
theorem Change.wellFormed {s' : PublishedStore} {publications : List Publication}
    (hchange : Change s s' publications) (h : s.WellFormed) : s'.WellFormed := by
  cases hchange with
  | stay => exact h
  | replace root hset => exact wellFormed_put h root hset
  | clearAll => exact wellFormed_empty

end PublishedStore
end NoticeServer
