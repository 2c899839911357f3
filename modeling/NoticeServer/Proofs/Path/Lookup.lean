import NoticeServer.Path

/-!
# `NoticeServer.Proofs.Path.Lookup` — lists keyed by paths

Sets of diagnostics and the published store both are lists of pairs in which a path finds the first entry
with an equivalent key. What such a lookup gives after a change of the list is said here once. Where the keys
are distinct, what a path finds is just an entry with an equivalent key (`Path.lookup_eq_some_iff`).
-/

namespace NoticeServer
namespace Path

variable {β : Type} {l : List (Path × β)} {k k' : Path} {v : β}

/-- Equivalent paths are equivalent to the same paths. -/
theorem equiv_congr_right {p q q' : Path} (h : q ≈ q') : p ≈ q ↔ p ≈ q' :=
  ⟨fun hp => Setoid.trans hp h, fun hp => Setoid.trans hp (Setoid.symm h)⟩

theorem equiv_congr_left {p p' q : Path} (h : p ≈ p') : p ≈ q ↔ p' ≈ q :=
  ⟨fun hp => Setoid.trans (Setoid.symm h) hp, fun hp => Setoid.trans h hp⟩

/-! ## Lookups -/

/-- The value of the first entry whose key is equivalent to a path. -/
def lookup (l : List (Path × β)) (k : Path) : Option β := (l.find? fun e => e.1 ≈ k).map (·.2)

/-- Whether some key is equivalent to a path. -/
def keyed (l : List (Path × β)) (k : Path) : Bool := l.any fun e => e.1 ≈ k

/-- No two entries have equivalent keys. -/
def Distinct (l : List (Path × β)) : Prop := l.Pairwise fun e f => ¬ e.1 ≈ f.1

theorem distinct_iff_keys : Distinct l ↔ (l.map (·.1)).Pairwise fun p q => ¬ p ≈ q := by
  rw [List.pairwise_map, Distinct]

@[simp] theorem lookup_nil : lookup ([] : List (Path × β)) k = none := rfl

theorem lookup_cons (e : Path × β) (l : List (Path × β)) (k : Path) :
    lookup (e :: l) k = if e.1 ≈ k then some e.2 else lookup l k := by
  unfold lookup
  by_cases h : e.1 ≈ k
  · have hfind : (e :: l).find? (fun e => e.1 ≈ k) = some e := List.find?_cons_of_pos (decide_eq_true h)
    rw [hfind, if_pos h, Option.map_some]
  · have hfind : (e :: l).find? (fun e => e.1 ≈ k) = l.find? fun e => e.1 ≈ k :=
      List.find?_cons_of_neg (fun he => h (of_decide_eq_true he))
    rw [hfind, if_neg h]

theorem keyed_cons (e : Path × β) (l : List (Path × β)) (k : Path) :
    keyed (e :: l) k = (decide (e.1 ≈ k) || keyed l k) := rfl

theorem keyed_iff : keyed l k = true ↔ ∃ e ∈ l, e.1 ≈ k := by
  simp [keyed]

/-- A list in which a path finds an entry, taken apart at the first one that it finds. -/
theorem exists_split_of_keyed (h : keyed l k = true) :
    ∃ before e after, l = before ++ e :: after ∧ e.1 ≈ k ∧ ∀ f ∈ before, ¬ f.1 ≈ k := by
  obtain ⟨e, he⟩ : ∃ e, l.find? (fun e => e.1 ≈ k) = some e := by
    rw [← Option.isSome_iff_exists, List.find?_isSome]
    simpa using keyed_iff.mp h
  obtain ⟨hek, before, after, hl, hbefore⟩ := List.find?_eq_some_iff_append.mp he
  exact ⟨before, e, after, hl, by simpa using hek, by simpa using hbefore⟩

theorem lookup_split {before : List (Path × β)} (hbefore : ∀ f ∈ before, ¬ f.1 ≈ k) {e : Path × β}
    (he : e.1 ≈ k) (after : List (Path × β)) : lookup (before ++ e :: after) k = some e.2 := by
  induction before with
  | nil => rw [List.nil_append, lookup_cons, if_pos he]
  | cons f before ih =>
    obtain ⟨hf, hbefore⟩ := List.forall_mem_cons.mp hbefore
    rw [List.cons_append, lookup_cons, if_neg hf, ih hbefore]

/-- A path has a value exactly if it is equivalent to a key. -/
theorem isSome_lookup (l : List (Path × β)) (k : Path) : (lookup l k).isSome = keyed l k := by
  induction l with
  | nil => rfl
  | cons e l ih =>
    rw [lookup_cons, keyed_cons]
    by_cases h : e.1 ≈ k
    · rw [if_pos h, decide_eq_true h, Bool.true_or, Option.isSome_some]
    · rw [if_neg h, decide_eq_false h, Bool.false_or, ih]

theorem lookup_eq_none_iff : lookup l k = none ↔ keyed l k = false := by
  rw [← isSome_lookup, Option.isSome_eq_false_iff, Option.isNone_iff_eq_none]

/-- A lookup does not see how a path is written. -/
theorem lookup_congr (h : k ≈ k') (l : List (Path × β)) : lookup l k = lookup l k' := by
  induction l with
  | nil => rfl
  | cons e l ih => simp only [lookup_cons, ih, equiv_congr_right h]

theorem keyed_congr (h : k ≈ k') (l : List (Path × β)) : keyed l k = keyed l k' := by
  rw [← isSome_lookup, ← isSome_lookup, lookup_congr h]

/-- What a lookup finds is in the list. -/
theorem mem_of_lookup (h : lookup l k = some v) : ∃ e ∈ l, e.1 ≈ k ∧ e.2 = v := by
  obtain ⟨e, he, rfl⟩ := Option.map_eq_some_iff.mp h
  exact ⟨e, List.mem_of_find?_eq_some he, by simpa using List.find?_some he, rfl⟩

/-- With distinct keys, every entry is found. -/
theorem lookup_eq_some_iff (hl : Distinct l) : lookup l k = some v ↔ ∃ e ∈ l, e.1 ≈ k ∧ e.2 = v := by
  constructor
  · exact mem_of_lookup
  · rintro ⟨e, he, hek, rfl⟩
    induction l with
    | nil => simp at he
    | cons f l ih =>
      obtain ⟨hf, hl⟩ := List.pairwise_cons.mp hl
      rw [lookup_cons]
      rcases List.mem_cons.mp he with rfl | he
      · rw [if_pos hek]
      · have hne : ¬ f.1 ≈ k := fun hfk => hf e he (Setoid.trans hfk (Setoid.symm hek))
        rw [if_neg hne]
        exact ih hl he

/-! ## Changed lists -/

/-- Without the entries of one path, that path has no value and every other keeps its own. -/
theorem lookup_filter_ne (l : List (Path × β)) (k k' : Path) :
    lookup (l.filter fun e => ¬ e.1 ≈ k) k' = if k ≈ k' then none else lookup l k' := by
  induction l with
  | nil => simp
  | cons e l ih =>
    rw [List.filter_cons]
    -- the entry goes or stays; the path asked for is equivalent to the one taken out or not
    by_cases he : e.1 ≈ k
    · rw [if_neg (by simpa using he), ih, lookup_cons]
      by_cases hk : k ≈ k'
      · rw [if_pos hk, if_pos hk]
      · have hek : ¬ e.1 ≈ k' := fun h => hk (Setoid.trans (Setoid.symm he) h)
        rw [if_neg hk, if_neg hk, if_neg hek]
    · rw [if_pos (by simpa using he), lookup_cons, lookup_cons, ih]
      by_cases hk : k ≈ k'
      · have hek : ¬ e.1 ≈ k' := fun h => he ((equiv_congr_right hk).mpr h)
        rw [if_pos hk, if_pos hk, if_neg hek]
      · rw [if_neg hk, if_neg hk]

end Path
end NoticeServer
