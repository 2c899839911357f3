import NoticeServer.Proofs.Publication.Snapshot

/-!
# `NoticeServer.Proofs.Publication.Clearing` — clearing everything, in the order of the roots

A store is cleared root by root, each root being taken out of what is left of the store. As no root is there
twice, what is left still has the sets of all roots to come. So each set is cleared once, in the order of the
roots (`PublishedStore.clearAll_of_ascending`), and the order in which the store gives out its entries does not
show (`PublishedStore.clearAll_of_perm`).
-/

namespace NoticeServer
namespace PublishedStore

variable {s t : PublishedStore} {entries : List (Path × DiagnosticSet)}

/-- The entries in ascending order of their roots. -/
def ascending (s : PublishedStore) : List (Path × DiagnosticSet) :=
  s.roots.mergeSort fun e f => e.1.precedes f.1

theorem perm_ascending (s : PublishedStore) : s.ascending.Perm s.roots := List.mergeSort_perm _ _

theorem ascending_ascends (h : s.WellFormed) : s.ascending.Pairwise fun e f => e.1 < f.1 :=
  Path.strictly_ascending_mergeSort Prod.fst h.distinct

/-- **Different roots one after the other** are cleared with the sets that they have at the beginning. -/
theorem clearRoots_of_distinct (h : s.WellFormed) (hentries : Path.Distinct entries)
    (hmem : ∀ e ∈ entries, e ∈ s.roots) :
    (s.clearRoots (entries.map (·.1))).2 = entries.flatMap fun e => e.2.clears := by
  induction entries generalizing s with
  | nil => rfl
  | cons e entries ih =>
    obtain ⟨he, hmem⟩ := List.forall_mem_cons.mp hmem
    obtain ⟨hother, hentries⟩ := List.pairwise_cons.mp hentries
    -- the entries to come are still there when this root is gone
    have hkept : ∀ f ∈ entries, f ∈ (s.erase e.1).roots := by
      intro f hf
      refine List.mem_filter.mpr ⟨hmem f hf, decide_eq_true ?_⟩
      exact fun hequal => hother f hf (Setoid.symm hequal)
    rw [List.map_cons, clearRoots_cons, ih (wellFormed_erase h e.1) hentries hkept,
      setOf_of_get? (get?_of_mem h he), List.flatMap_cons]

/-- **Clearing everything** clears the sets in ascending order of their roots. -/
theorem clearAll_of_ascending (h : s.WellFormed) (hperm : entries.Perm s.roots)
    (hascending : entries.Pairwise fun e f => e.1 < f.1) :
    s.clearAll.2 = entries.flatMap fun e => e.2.clears := by
  have hdistinct : Path.Distinct entries := h.distinct.perm hperm.symm fun hef hfe => hef (Setoid.symm hfe)
  have hroots : s.sortedRoots = entries.map (·.1) := by
    have hsorted := Path.strictly_ascending_mergeSort id (Path.distinct_iff_keys.mp h.distinct)
    refine Path.eq_of_ascending id hsorted (List.pairwise_map.mpr hascending) ?_
    exact (List.mergeSort_perm _ _).trans (hperm.symm.map _)
  rw [clearAll, hroots]
  exact clearRoots_of_distinct h hdistinct fun e he => hperm.mem_iff.mp he

/-- The order in which the entries are given out does not show. -/
theorem clearAll_of_perm (h : s.WellFormed) (hperm : t.roots.Perm s.roots) : t.clearAll = s.clearAll := by
  have hpublications : t.clearAll.2 = s.clearAll.2 := by
    rw [clearAll_of_ascending h s.perm_ascending (ascending_ascends h)]
    exact clearAll_of_ascending (wellFormed_of_perm hperm h) (s.perm_ascending.trans hperm.symm)
      (ascending_ascends h)
  exact Prod.ext (t.clearAll_store.trans s.clearAll_store.symm) hpublications

/-- An entry, as far as it does not depend on how its root is written. -/
def content (e : Path × DiagnosticSet) : List Component × DiagnosticSet := (e.1.components, e.2)

/-- What is published for the roots tells which contents there are. -/
theorem mem_map_content (hs : s.WellFormed) (ht : t.WellFormed) (h : ∀ root, t.get? root = s.get? root)
    {c : List Component × DiagnosticSet} (hc : c ∈ t.roots.map content) : c ∈ s.roots.map content := by
  obtain ⟨e, he, rfl⟩ := List.mem_map.mp hc
  have hset : s.get? e.1 = some e.2 := (h e.1).symm.trans (get?_of_mem ht he)
  obtain ⟨f, hf, hequal, hsets⟩ := (get?_eq_some_iff hs).mp hset
  exact List.mem_map.mpr ⟨f, hf, Prod.ext (Path.equiv_iff.mp hequal) hsets⟩

/-- **Stores that publish the same are cleared alike**, however their roots are written. -/
theorem clearAll_congr (hs : s.WellFormed) (ht : t.WellFormed) (h : ∀ root, t.get? root = s.get? root) :
    t.clearAll.2 = s.clearAll.2 := by
  have hascends {u : PublishedStore} (hu : u.WellFormed) : (u.ascending.map content).Pairwise
      fun a b => List.Lex Component.Before a.1 b.1 := List.pairwise_map.mpr (ascending_ascends hu)
  have hnodup {u : PublishedStore} (hu : u.WellFormed) : (u.ascending.map content).Nodup := by
    refine (hascends hu).imp fun hlt heq => ?_
    rw [heq] at hlt
    exact List.lt_asymm (α := Component) hlt hlt
  have hperm {u : PublishedStore} : (u.ascending.map content).Perm (u.roots.map content) :=
    u.perm_ascending.map content
  have hcontent : t.ascending.map content = s.ascending.map content := by
    refine List.Perm.eq_of_pairwise ?_ (hascends ht) (hascends hs) ?_
    · exact fun _ _ _ _ hab hba => absurd hba (List.lt_asymm (α := Component) hab)
    · refine (List.perm_ext_iff_of_nodup (hnodup ht) (hnodup hs)).mpr fun c => ?_
      rw [hperm.mem_iff, hperm.mem_iff]
      exact ⟨mem_map_content hs ht h, mem_map_content ht hs fun root => (h root).symm⟩
  -- what is cleared for an entry does not depend on how its root is written, either
  have hclears (u : PublishedStore) : (u.ascending.flatMap fun e => e.2.clears) =
      (u.ascending.map content).flatMap fun c => c.2.clears := by rw [List.flatMap_map]; rfl
  rw [clearAll_of_ascending hs s.perm_ascending (ascending_ascends hs),
    clearAll_of_ascending ht t.perm_ascending (ascending_ascends ht), hclears, hclears, hcontent]

end PublishedStore
end NoticeServer
