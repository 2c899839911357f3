import NoticeServer.Orchestrator.Invocations

/-!
# `NoticeServer.Proofs.Orchestrator.Calls` — how analyzer calls start and end

A call that starts gets the next number and is running; a running call can end once
(`Invocations.finish?_eq_some_iff`). Neither changes the root of any call.
-/

namespace NoticeServer

namespace Invocations

/-- The end of a call: it was running, and is not any more. -/
theorem finish?_eq_some_iff {i next : Invocations} {number : Nat} {root : Path} :
    i.finish? number = some (root, next) ↔
      i.calls[number]? = some ⟨root, true⟩ ∧ next = ⟨i.calls.set number ⟨root, false⟩⟩ := by
  unfold finish?
  cases hcall : i.calls[number]? with
  | none => simp
  | some call =>
    obtain ⟨r, running⟩ := call
    cases running with
    | false => simp
    | true => simp; grind

theorem running_start (i : Invocations) (roots : List Path) :
    (i.start roots).running = i.running + roots.length := by
  have hnew : (roots.map fun root => (⟨root, true⟩ : Invocation)).filter (·.running) =
      roots.map fun root => ⟨root, true⟩ := by
    refine List.filter_eq_self.mpr fun call hcall => ?_
    obtain ⟨root, _, rfl⟩ := List.mem_map.mp hcall
    rfl
  simp [running, start, List.filter_append, hnew]

/-- One call less is running after the end of a call. -/
theorem running_finish {i next : Invocations} {number : Nat} {root : Path}
    (h : i.finish? number = some (root, next)) : next.running + 1 = i.running := by
  obtain ⟨hcall, rfl⟩ := finish?_eq_some_iff.mp h
  obtain ⟨hlt, hget⟩ := List.getElem?_eq_some_iff.mp hcall
  have hpos : 0 < i.calls.countP (·.running) := by
    refine List.countP_pos_iff.mpr ⟨_, List.getElem_mem hlt, ?_⟩
    rw [hget]
  have hset := List.countP_set (p := (·.running)) (a := ⟨root, false⟩) hlt
  rw [hget] at hset
  simp only [running, ← List.countP_eq_length_filter, hset]
  simp
  omega

/-- The calls keep their roots. -/
theorem roots_finish {i next : Invocations} {number : Nat} {root : Path}
    (h : i.finish? number = some (root, next)) : next.calls.map (·.root) = i.calls.map (·.root) := by
  obtain ⟨hcall, rfl⟩ := finish?_eq_some_iff.mp h
  refine List.ext_getElem? fun n => ?_
  simp only [List.getElem?_map, List.getElem?_set]
  by_cases hn : number = n
  · subst hn
    obtain ⟨hlt, hget⟩ := List.getElem?_eq_some_iff.mp hcall
    simp [hlt, hget]
  · simp [hn]

theorem roots_start (i : Invocations) (roots : List Path) :
    (i.start roots).calls.map (·.root) = i.calls.map (·.root) ++ roots := by
  simp [start, Function.comp_def]

end Invocations

end NoticeServer
