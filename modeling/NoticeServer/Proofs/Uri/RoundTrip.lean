import Mathlib.Data.List.TakeWhile
import NoticeServer.Proofs.Uri.Paths

/-!
# `NoticeServer.Proofs.Uri.RoundTrip` — the URI of a path reads back

Reading knows much more than is ever written: blanks, backslashes, queries and fragments, hosts, drive
letters, and segments that are resolved. What is written for a path has no blank and no separator in a
name, its host is empty, and its first segment is empty, which keeps drive letters as they are. A segment
stands for this folder or the one above only if it decodes to `.` or `..` (`Uri.bytes_of_isHere`,
`Uri.bytes_of_isUp`), which no name of a path without `..` does. So such a URI denotes an equivalent path
(`Uri.toPath?_of_ofPath?`).
-/

namespace NoticeServer
namespace Uri

open Text

/-! ## In front of the segments -/

/-- The text of pieces consists of separators and ordinary characters. -/
theorem mem_pathText {pieces : List (List UInt8)} {c : Char} (hc : c ∈ pathText pieces) :
    c = '/' ∨ IsOrdinary c := by
  obtain ⟨word, hword, hc⟩ := List.mem_flatMap.mp hc
  obtain ⟨bytes, -, rfl⟩ := List.mem_map.mp hword
  rcases List.mem_cons.mp hc with hslash | hc
  · exact .inl hslash
  · exact .inr (isOrdinary_of_mem_encode hc)

/-- A text without blanks is clean. -/
theorem clean_of_visible {uri : List Char} (h : ∀ c ∈ uri, 0x20 < c.toNat) : clean uri = uri := by
  have hdrop (text : List Char) (htext : ∀ c ∈ text, 0x20 < c.toNat) :
      text.dropWhile (fun c => decide (c.toNat ≤ 0x20)) = text := by
    cases text with
    | nil => rfl
    | cons c text =>
      have hc : 0x20 < c.toNat := htext c List.mem_cons_self
      exact List.dropWhile_cons_of_neg (by simpa using hc)
  have hreverse : ∀ c ∈ uri.reverse, 0x20 < c.toNat := fun c hc => h c (List.mem_reverse.mp hc)
  unfold clean
  dsimp only
  rw [hdrop uri h, hdrop _ hreverse, List.reverse_reverse]
  refine List.filter_eq_self.mpr fun c hc => decide_eq_true ?_
  -- tabs and line breaks are blanks, too
  have hne {b : Char} (hb : b.toNat ≤ 0x20) : c ≠ b := by
    rintro rfl
    exact Nat.not_lt.mpr hb (h c hc)
  exact ⟨hne (by decide), hne (by decide), hne (by decide)⟩

theorem scheme?_file (text : List Char) : scheme? ("file:".toList ++ text) = some (.file, text) := by
  rfl

/-- Behind `//` the text of pieces is all path, as its host is empty. -/
theorem filePath?_pathText {pieces : List (List UInt8)} (h : pieces ≠ []) :
    filePath? ("//".toList ++ pathText pieces) = some (pathText pieces) := by
  obtain ⟨bytes, pieces, rfl⟩ := List.exists_cons_of_ne_nil h
  rfl

/-! ## Segments that are resolved -/

/-- A dot in lower case, as it is or percent-encoded. -/
def dots : List (List Char) := [['.'], ['%', '2', 'e']]

theorem isHere_iff {segment : List Char} : isHere segment = true ↔ segment.map Char.toLower ∈ dots := by
  have htexts : [".", "%2e"] = dots.map String.ofList := by decide
  rw [isHere, htexts, List.contains_iff_mem, List.mem_map_of_injective fun _ _ => String.ofList_injective]

theorem isUp_iff {segment : List Char} :
    isUp segment = true ↔ ∃ x ∈ dots, ∃ y ∈ dots, segment.map Char.toLower = x ++ y := by
  have htexts : ["..", ".%2e", "%2e.", "%2e%2e"] =
      (dots.flatMap fun x => dots.map (x ++ ·)).map String.ofList := by decide
  rw [isUp, htexts, List.contains_iff_mem, List.mem_map_of_injective fun _ _ => String.ofList_injective]
  simp only [List.mem_flatMap, List.mem_map, eq_comm]

/-- The characters that have a given lower case are looked for among the ASCII ones. -/
theorem mem_of_toLower_eq {c d : Char} {found : List Char} (hself : d ∈ found)
    (hall : ∀ n : Fin 128, (Char.ofNat n).toLower = d → Char.ofNat n ∈ found) (h : c.toLower = d) :
    c ∈ found := by
  by_cases hascii : c.toNat < 128
  · have hfound := hall ⟨c.toNat, hascii⟩
    rw [Char.ofNat_toNat] at hfound
    exact hfound h
  · have hlower : c.toLower = c := by
      unfold Char.toLower
      split
      · next hupper =>
        exact absurd (Nat.lt_of_le_of_lt (UInt32.le_iff_toNat_le.mp hupper.2) (by decide)) hascii
      · rfl
    rw [← hlower, h]
    exact hself

/-- **A dot decodes to a dot**, however it is spelled and whatever follows it. -/
theorem decode_dot {word : List Char} (h : word.map Char.toLower ∈ dots) (rest : List UInt8) :
    Percent.decode (Utf8.encode word ++ rest) = 0x2E :: Percent.decode rest := by
  simp only [dots, List.mem_cons, List.not_mem_nil, or_false, List.map_eq_cons_iff,
    List.map_eq_nil_iff] at h
  obtain ⟨c, _, rfl, hc, rfl⟩ | ⟨a, _, rfl, ha, b, _, rfl, hb, c, _, rfl, hc, rfl⟩ := h
  · obtain rfl := List.mem_singleton.mp (mem_of_toLower_eq (List.mem_singleton_self '.') (by decide) hc)
    exact Percent.decode_of_ne_sign (by decide) rest
  · obtain rfl := List.mem_singleton.mp (mem_of_toLower_eq (List.mem_singleton_self '%') (by decide) ha)
    obtain rfl := List.mem_singleton.mp (mem_of_toLower_eq (List.mem_singleton_self '2') (by decide) hb)
    have hletter : c ∈ ['e', 'E'] := mem_of_toLower_eq List.mem_cons_self (by decide) hc
    simp only [List.mem_cons, List.not_mem_nil, or_false] at hletter
    have htwo : Percent.hexValue? 0x32 = some 0x2 := rfl
    rcases hletter with rfl | rfl
    · exact Percent.decode_of_digits htwo (show Percent.hexValue? 0x65 = some 0xE from rfl) rest
    · exact Percent.decode_of_digits htwo (show Percent.hexValue? 0x45 = some 0xE from rfl) rest

variable {bytes : List UInt8}

/-- **Only a name `.` is written as a segment for this folder.** -/
theorem bytes_of_isHere (h : isHere (Percent.encode isPlain bytes) = true) : bytes = [0x2E] := by
  have hdecode := decode_dot (isHere_iff.mp h) []
  rwa [List.append_nil, Percent.decode_encode isTransparent_isPlain, Percent.decode] at hdecode

/-- **Only a name `..` is written as a segment for the folder above.** -/
theorem bytes_of_isUp (h : isUp (Percent.encode isPlain bytes) = true) : bytes = [0x2E, 0x2E] := by
  obtain ⟨x, hx, y, hy, hlower⟩ := isUp_iff.mp h
  obtain ⟨first, second, hword, rfl, rfl⟩ := List.map_eq_append_iff.mp hlower
  have hdecode := decode_dot hx (Utf8.encode second)
  have hrest := decode_dot hy []
  rw [List.append_nil, Percent.decode] at hrest
  rwa [← Utf8.encode_append, ← hword, Percent.decode_encode isTransparent_isPlain, hrest] at hdecode

/-- Segments below others are kept unless they stand for a folder. -/
theorem resolve_of_named {kind : SchemeKind} {above segments : List (List Char)} (habove : above ≠ [])
    (h : ∀ segment ∈ segments, isUp segment = false ∧ isHere segment = false) :
    resolve kind above segments = above.reverse ++ segments := by
  induction segments generalizing above with
  | nil => rw [resolve, List.append_nil]
  | cons segment segments ih =>
    obtain ⟨⟨hup, hhere⟩, hsegments⟩ := List.forall_mem_cons.mp h
    have hkept : kept kind above segment = segment := by
      rw [kept, List.isEmpty_eq_false_iff.mpr habove, Bool.and_false, Bool.false_and]
      rfl
    cases segments with
    | nil =>
      rw [resolve, if_neg (by simp [hup]), if_neg (by simp [hhere]), hkept, List.reverse_cons]
    | cons next segments =>
      rw [resolve, if_neg (by simp [hup]), if_neg (by simp [hhere]), hkept,
        ih (List.cons_ne_nil segment above) hsegments, List.reverse_cons, List.append_assoc,
        List.singleton_append]

/-! ## The path of a URI that was written -/

variable {p : Path}

/-- A piece that is written is no `.`, and `..` only if it is one of the path. -/
theorem not_resolved_of_mem_written (hup : Component.up ∉ p.components) {piece : List UInt8}
    (h : piece ∈ written p) :
    isUp (Percent.encode isPlain piece) = false ∧ isHere (Percent.encode isPlain piece) = false := by
  have hpiece : piece ≠ [0x2E, 0x2E] ∧ piece ≠ [0x2E] := by
    unfold written at h
    split at h
    · rw [List.mem_singleton.mp h]
      exact ⟨nofun, nofun⟩
    · obtain ⟨c, hc, rfl⟩ := List.mem_map.mp h
      have hback := (Path.component?_of_mem_names hc).1
      constructor
      · intro hdots
        rw [hdots] at hback
        obtain rfl := Option.some.inj hback
        exact hup (List.mem_append_right _ hc)
      · intro hdot
        rw [hdot] at hback
        exact absurd hback nofun
  rw [← Bool.not_eq_true, ← Bool.not_eq_true]
  exact ⟨fun h => hpiece.1 (bytes_of_isUp h), fun h => hpiece.2 (bytes_of_isHere h)⟩

theorem written_ne_nil (p : Path) : written p ≠ [] := by
  unfold written
  split
  · exact nofun
  · next hnames => exact fun hnil => hnames (List.map_eq_nil_iff.mp hnil)

/-- The empty segment in front is dropped, and nothing else is. -/
theorem dropLeadingEmpty_written (p : Path) :
    dropLeadingEmpty ([] :: (written p).map (Percent.encode isPlain)) =
      (written p).map (Percent.encode isPlain) := by
  unfold written
  split
  · rfl
  · next hnames =>
    obtain ⟨c, names, hlist⟩ := List.exists_cons_of_ne_nil hnames
    have hbytes : c.bytes ≠ [] := (Path.component?_of_mem_names (hlist ▸ List.mem_cons_self)).2.2
    have hencode : Percent.encode isPlain c.bytes ≠ [] := fun hnil =>
      hbytes (Percent.encode_injective isTransparent_isPlain hnil)
    rw [hlist, List.map_cons, List.map_cons, dropLeadingEmpty, List.dropWhile_cons_of_pos rfl,
      List.dropWhile_cons_of_neg (by simpa using hencode)]

/-- **The segments of a URI that was written** are the pieces that it lists. -/
theorem segments_written (hup : Component.up ∉ p.components) :
    segments .file (pathText (written p)) = (written p).map (Percent.encode isPlain) := by
  have hgoesOn : (pathText (written p)).takeWhile (fun c => !endsPath c) = pathText (written p) := by
    refine List.takeWhile_eq_self_iff.mpr fun c hc => ?_
    rcases mem_pathText hc with rfl | hordinary
    · rfl
    · rw [hordinary.goesOn]
      rfl
  have hinside : ∀ word ∈ (written p).map (Percent.encode isPlain), ∀ c ∈ word,
      isSeparator .file c = false := by
    intro word hword c hc
    obtain ⟨piece, -, rfl⟩ := List.mem_map.mp hword
    exact (isOrdinary_of_mem_encode hc).inside
  have hnamed : ∀ segment ∈ (written p).map (Percent.encode isPlain),
      isUp segment = false ∧ isHere segment = false := by
    intro segment hsegment
    obtain ⟨piece, hpiece, rfl⟩ := List.mem_map.mp hsegment
    exact not_resolved_of_mem_written hup hpiece
  have hresolved : resolve .file [] ([] :: (written p).map (Percent.encode isPlain)) =
      [] :: (written p).map (Percent.encode isPlain) := by
    obtain ⟨piece, pieces, hlist⟩ := List.exists_cons_of_ne_nil (written_ne_nil p)
    rw [hlist, List.map_cons] at hnamed ⊢
    -- the empty segment in front is kept, so the others are below it
    show resolve .file [[]] _ = _
    exact resolve_of_named nofun hnamed
  unfold segments resolvedSegments
  dsimp only
  rw [hgoesOn, pathText, splitFrom_flatMap rfl hinside, List.reverse_nil, hresolved, if_pos rfl,
    dropLeadingEmpty_written]

/-- **The path that the pieces of an absolute path make** is equivalent to it. -/
theorem pathOfSegments_written (habs : p.isAbsolute = true) :
    pathOfSegments ((written p).map (Percent.encode isPlain)) ≈ p := by
  have hdecoded : ((written p).map (Percent.encode isPlain)).flatMap
      (fun s => Path.separator :: Percent.decode (Utf8.encode s)) =
        (written p).flatMap (Path.separator :: ·) := by
    rw [List.flatMap_map]
    simp only [Percent.decode_encode isTransparent_isPlain]
  have hpieces : ∀ piece ∈ written p, Path.separator ∉ piece := by
    unfold written
    split
    · exact List.forall_mem_singleton.mpr List.not_mem_nil
    · intro piece hpiece
      obtain ⟨c, hc, rfl⟩ := List.mem_map.mp hpiece
      exact Path.separator_notMem_of_mem_names hc
  obtain ⟨piece, pieces, hlist⟩ := List.exists_cons_of_ne_nil (written_ne_nil p)
  have hbytes : (written p).flatMap (Path.separator :: ·) ≠ [] := by
    rw [hlist]
    exact nofun
  have hequiv : (⟨(written p).flatMap (Path.separator :: ·)⟩ : Path) ≈ p := by
    have habsolute : Path.isAbsolute ⟨(written p).flatMap (Path.separator :: ·)⟩ = true := by
      rw [hlist]
      rfl
    rw [Path.equiv_iff_names habsolute habs, Path.names, Path.segments_flatMap hpieces]
    exact filterMap_written p
  unfold pathOfSegments
  dsimp only
  rw [hdecoded]
  -- the separator behind a drive letter adds nothing
  split
  · rw [Path.equiv_iff, Path.components_separator_end hbytes]
    exact hequiv
  · exact hequiv

/-- **The URI of a path reads back** as an equivalent path, if no `..` is in the path. -/
theorem toPath?_of_ofPath? {uri : String} (hup : Component.up ∉ p.components) (h : ofPath? p = some uri) :
    ∃ q, toPath? uri = some q ∧ q ≈ p := by
  have habs : p.isAbsolute = true := by rw [← isSome_ofPath?, h, Option.isSome_some]
  rw [ofPath?_of_absolute habs, Option.some.injEq] at h
  have htext : uri.toList = "file:".toList ++ ("//".toList ++ pathText (written p)) := by
    rw [← h, String.toList_ofList]
    rfl
  have hvisible : ∀ c ∈ uri.toList, 0x20 < c.toNat := by
    have hscheme : "file://".toList.all (fun c => 0x20 < c.toNat) = true := rfl
    intro c hc
    rw [← h, String.toList_ofList] at hc
    rcases List.mem_append.mp hc with hc | hc
    · exact of_decide_eq_true (List.all_eq_true.mp hscheme c hc)
    · rcases mem_pathText hc with rfl | hordinary
      · decide
      · exact hordinary.visible
  refine ⟨_, ?_, pathOfSegments_written habs⟩
  have hpath : hierarchicalPath? .file ("//".toList ++ pathText (written p)) = some (pathText (written p)) :=
    filePath?_pathText (written_ne_nil p)
  rw [toPath?, clean_of_visible hvisible, htext, scheme?_file, Option.bind_some]
  dsimp only
  rw [hpath, Option.map_some, segments_written hup]

end Uri
end NoticeServer
