import NoticeServer.Proofs.Orchestrator.Roots
import NoticeServer.Proofs.Orchestrator.Snapshot
import NoticeServer.Proofs.Publication.Clearing

/-!
# `NoticeServer.Proofs.Orchestrator.Deactivation` — scanning is turned off

When scanning is turned off, every published file is cleared, root by root in the order of the roots. The
list depends on nothing but what is published for each root: neither on the order in which the store gives
out its roots, nor on the order in which roots were added and scans of different roots ended.

States that cannot be told apart by what they publish (`Orchestrator.Agrees`) go on so under every operation,
and two operations whose order does not count (`Operation.Unordered`) lead to such states; hence
`Orchestrator.clears_everything` holds for all orders of a history.
-/

namespace NoticeServer

namespace Orchestrator

/-- Two states with the same configuration, in which scanning is active, roots are monitored and sets are
published alike; the order of the roots and the number of scans may differ. -/
structure Agrees (o o' : Orchestrator) : Prop where
  config : o'.config = o.config
  active : o'.active = o.active
  monitors : ∀ root, o'.monitors root = o.monitors root
  published : ∀ root, o'.published.get? root = o.published.get? root

variable {o o' o'' : Orchestrator}

theorem Agrees.refl (o : Orchestrator) : o.Agrees o := ⟨rfl, rfl, fun _ => rfl, fun _ => rfl⟩

theorem Agrees.trans (h : o.Agrees o') (h' : o'.Agrees o'') : o.Agrees o'' where
  config := h'.config.trans h.config
  active := h'.active.trans h.active
  monitors root := (h'.monitors root).trans (h.monitors root)
  published root := (h'.published root).trans (h.published root)

/-- A completion is taken over in both states, or in neither. -/
theorem Agrees.accepted? (h : o.Agrees o') (c : Completion) : o'.accepted? c = o.accepted? c := by
  unfold Orchestrator.accepted?
  rw [h.active, h.monitors]

/-- **An operation keeps states from being told apart.** -/
theorem Agrees.perform (h : o.Agrees o') (op : Operation) :
    (o.perform op).1.Agrees (o'.perform op).1 where
  config := by rw [perform_config, perform_config, h.config]
  active := by
    rw [perform_active, perform_active]
    cases op <;> simp only [h.active]
  monitors root := by
    rw [monitors_perform_eq, monitors_perform_eq]
    cases op <;> simp only [h.monitors]
  published root := by
    rw [get?_perform, get?_perform]
    cases op with
    | apply c =>
      have hscanned (output : List Char) : o'.scanned c.root output = o.scanned c.root output := by
        rw [scanned, scanned, h.config]
      simp only [h.accepted? c, h.published, hscanned]
    | _ => simp only [h.active, h.published]

theorem Agrees.run (h : o.Agrees o') (ops : List Operation) : (o.run ops).Agrees (o'.run ops) := by
  induction ops generalizing o o' with
  | nil => exact h
  | cons op ops ih => exact ih (h.perform op)

end Orchestrator

/-! ## Operations in any order -/

/-- Two operations whose order does not count: roots that are added, and scans of different roots that
end. -/
inductive Operation.Unordered : Operation → Operation → Prop where
  | added (root root' : Path) : Unordered (.addRoot root) (.addRoot root')
  | ended {c c' : Completion} (h : ¬ c.root ≈ c'.root) : Unordered (.apply c) (.apply c')

namespace Orchestrator

variable {o o' : Orchestrator}

theorem agrees_of_unordered {op op' : Operation} (h : op.Unordered op') (o : Orchestrator) :
    ((o.perform op).1.perform op').1.Agrees ((o.perform op').1.perform op).1 where
  config := by simp only [perform_config]
  active := by
    cases h <;> simp only [perform_active]
  monitors root := by
    cases h <;> simp only [monitors_perform_eq]
    exact Bool.or_right_comm _ _ _
  published root := by
    cases h with
    | added => simp only [get?_perform]
    | @ended c c' h =>
      have haccepted (c c' : Completion) : (o.perform (.apply c)).1.accepted? c' = o.accepted? c' := by
        unfold Orchestrator.accepted?
        rw [perform_active, monitors_perform_eq]
      have hscanned (c c' : Completion) (output : List Char) :
          (o.perform (.apply c)).1.scanned c'.root output = o.scanned c'.root output := by
        rw [scanned, scanned, perform_config]
      rw [get?_perform, get?_perform, get?_perform, get?_perform]
      simp only [haccepted, hscanned]
      -- at most one of the two scans is of this root
      by_cases hroot : c.root ≈ root
      · have hother : ¬ c'.root ≈ root := fun hroot' => h (Setoid.trans hroot (Setoid.symm hroot'))
        cases o.accepted? c <;> cases o.accepted? c' <;> simp only [if_neg hother]
      · cases o.accepted? c <;> cases o.accepted? c' <;> simp only [if_neg hroot]

theorem Operation.Unordered.symm {op op' : Operation} (h : op.Unordered op') : op'.Unordered op := by
  cases h with
  | added root root' => exact .added root' root
  | ended h => exact .ended fun hequal => h (Setoid.symm hequal)

/-- **Operations whose order does not count** lead to states that cannot be told apart. -/
theorem Agrees.run_of_perm (h : o.Agrees o') {ops ops' : List Operation} (hperm : ops.Perm ops')
    (hunordered : ops.Pairwise Operation.Unordered) : (o.run ops).Agrees (o'.run ops') := by
  -- the induction is on how the one list is made into the other
  induction hperm generalizing o o' with
  | nil => exact h
  | cons op _ ih => exact ih (h.perform op) (List.pairwise_cons.mp hunordered).2
  | swap op op' ops =>
    obtain ⟨hfirst, -⟩ := List.pairwise_cons.mp hunordered
    have hswapped := agrees_of_unordered (hfirst op List.mem_cons_self) o
    exact (hswapped.trans ((h.perform op).perform op')).run ops
  | trans hperm _ ih ih' =>
    have hnext := hperm.pairwise hunordered Operation.Unordered.symm
    exact (ih (Agrees.refl o) hunordered).trans (ih' h hnext)

/-! ## Turning scanning off -/

/-- **Where the same is published, the same is cleared.** -/
theorem toggle_publications_congr (h : o.published.WellFormed) (h' : o'.published.WellFormed)
    (hactive : o'.active = o.active) (hpublished : ∀ root, o'.published.get? root = o.published.get? root) :
    o'.toggle.2.publications = o.toggle.2.publications := by
  cases hoff : o.active with
  | false => rw [toggle_on hoff, toggle_on (hactive.trans hoff)]; rfl
  | true =>
    rw [toggle_off hoff, toggle_off (hactive.trans hoff)]
    exact PublishedStore.clearAll_congr h h' hpublished

/-- **Turning scanning off clears everything, in a fixed order.** Let scanning be active after any operations
from the beginning. Turning it off publishes, for each root with a published set in ascending order, one
clearing for each file of that set in its own order, and nothing else. This list is the same in whatever
order the store gives out its entries, whatever operations led to these published sets, and in whatever order
roots are added and scans of different roots end before. Afterwards scanning is not active, nothing is
published for any root, the roots and the number of outstanding scans are as before, and no scan starts. -/
theorem clears_everything (config : ScanConfig) (ops : List Operation)
    (hactive : ((fresh config).run ops).active = true) :
    let o := (fresh config).run ops
    let publications := o.toggle.2.publications
    (∃ entries : List (Path × DiagnosticSet),
      (∀ root set, o.published.get? root = some set ↔ ∃ e ∈ entries, e.1 ≈ root ∧ e.2 = set) ∧
      entries.Pairwise (fun e f => e.1 < f.1) ∧
      publications = entries.flatMap fun e => e.2.paths.map fun p => ⟨p, []⟩) ∧
    (∀ entries : List (Path × DiagnosticSet), entries.Perm o.published.roots →
      PublishedStore.clearAll ⟨entries⟩ = (.empty, publications)) ∧
    (∀ config' ops', ((fresh config').run ops').active = true →
      (∀ root, ((fresh config').run ops').published.get? root = o.published.get? root) →
      ((fresh config').run ops').toggle.2.publications = publications) ∧
    (∀ added added' : List Path, ∀ ended ended' : List Completion,
      added.Perm added' → ended.Perm ended' → ended.Pairwise (fun c c' => ¬ c.root ≈ c'.root) →
      (o.run (added'.map .addRoot ++ ended'.map .apply)).toggle.2.publications =
        (o.run (added.map .addRoot ++ ended.map .apply)).toggle.2.publications) ∧
    o.toggle.1.active = false ∧ (∀ root, o.toggle.1.published.get? root = none) ∧
    o.toggle.1.roots = o.roots ∧ o.toggle.1.inFlight = o.inFlight ∧ o.toggle.2.scans = [] := by
  intro o publications
  have hwf (config : ScanConfig) (ops : List Operation) : ((fresh config).run ops).published.WellFormed :=
    wellFormed_run PublishedStore.wellFormed_empty ops
  have hpublications : publications = o.published.clearAll.2 := by
    show o.toggle.2.publications = _
    rw [toggle_off hactive]
  have hascending := o.published.perm_ascending
  refine ⟨⟨o.published.ascending, ?_, PublishedStore.ascending_ascends (hwf config ops), ?_⟩, ?_, ?_, ?_, ?_⟩
  · intro root set
    have hentry : o.published.get? root = some set ↔ ∃ e ∈ o.published.roots, e.1 ≈ root ∧ e.2 = set :=
      PublishedStore.get?_eq_some_iff (hwf config ops)
    simpa only [hascending.mem_iff] using hentry
  · rw [hpublications, PublishedStore.clearAll_of_ascending (hwf config ops) hascending
      (PublishedStore.ascending_ascends (hwf config ops))]
    rfl
  · intro entries horder
    have hsame : PublishedStore.clearAll ⟨entries⟩ = o.published.clearAll :=
      PublishedStore.clearAll_of_perm (hwf config ops) horder
    rw [hsame, hpublications]
    exact Prod.ext o.published.clearAll_store rfl
  · intro config' ops' hactive' hsets
    exact toggle_publications_congr (hwf config ops) (hwf config' ops') (hactive'.trans hactive.symm) hsets
  · intro added added' ended ended' hadded hended hdifferent
    have hroots : (added.map Operation.addRoot).Pairwise Operation.Unordered := by
      rw [List.pairwise_map]
      exact List.pairwise_of_forall fun root root' => .added root root'
    have hscans : (ended.map Operation.apply).Pairwise Operation.Unordered := by
      rw [List.pairwise_map]
      exact hdifferent.imp .ended
    have hagrees := ((Agrees.refl o).run_of_perm (hadded.map _) hroots).run_of_perm (hended.map _) hscans
    have hkept (first second : List Operation) : ((o.run first).run second).published.WellFormed :=
      wellFormed_run (wellFormed_run (hwf config ops) first) second
    rw [o.run_append, o.run_append]
    exact toggle_publications_congr (hkept _ _) (hkept _ _) hagrees.active hagrees.published
  · rw [toggle_off hactive]
    exact ⟨rfl, fun root => PublishedStore.get?_empty root, rfl, rfl, rfl⟩

/-- Two roots publish one file each. The root that was added first is cleared last. -/
theorem clears_twoPublished :
    let o := (fresh {}).run twoPublished
    let cleared : List Publication := [⟨.ofString "/a/b", []⟩, ⟨.ofString "/a-b/c", []⟩]
    o.active = true ∧ o.toggle.2.publications = cleared ∧
    twoSets.Perm o.published.roots ∧ PublishedStore.clearAll ⟨twoSets⟩ = (.empty, cleared) ∧
    o.toggle.1.active = false ∧ o.toggle.1.roots = [.ofString "/a-b", .ofString "/a"] ∧
    o.toggle.2.scans = [] := by
  intro o cleared
  have hactive : o.active = true := by decide +kernel
  have horder : twoSets.Perm o.published.roots := by
    show twoSets.Perm ((fresh {}).run twoPublished).published.roots
    rw [published_twoPublished]
    exact (List.reverse_perm twoSets).symm
  have hcleared : o.toggle.2.publications = cleared := by
    have hwf : o.published.WellFormed := wellFormed_run PublishedStore.wellFormed_empty twoPublished
    rw [toggle_off hactive]
    have hlist := PublishedStore.clearAll_of_ascending hwf ((List.reverse_perm twoSets).trans horder)
      (by decide +kernel)
    exact hlist.trans (by decide +kernel)
  obtain ⟨-, hany, -, -, hoff, -, hroots, -, hscans⟩ := clears_everything {} twoPublished hactive
  refine ⟨hactive, hcleared, horder, ?_, hoff, hroots.trans (by decide +kernel), hscans⟩
  rw [hany twoSets horder]
  exact Prod.ext rfl hcleared

end Orchestrator
end NoticeServer
