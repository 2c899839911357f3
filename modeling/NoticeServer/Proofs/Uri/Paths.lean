import Mathlib.Data.List.Basic
import NoticeServer.Proofs.Path.Absolute
import NoticeServer.Proofs.Text.Blank
import NoticeServer.Proofs.Text.Percent
import NoticeServer.Uri

/-!
# `NoticeServer.Proofs.Uri.Paths` — URIs and absolute paths

The URI of a path lists the names of the path, each behind a separator of its own and percent-encoded. As
no encoded name has a separator in it (`Uri.isOrdinary_of_mem_encode`), the names can be read off the URI: just
absolute paths have a URI, and two of them have the same one only if they are equivalent (`Uri.ofPath?_eq_iff`).

In the other direction, whatever a URI denotes is an absolute path (`Uri.isAbsolute_of_toPath?`). Resolving
leaves no drive letter without its colon as the first segment of a `file` URI; so a path behind another host,
which has to start with a drive letter, starts with the letter and a colon (`Uri.drive_of_otherHost`).
-/

namespace NoticeServer
namespace Uri

/-! ## Pieces -/

theorem splitFrom_append {separator : Char → Bool} {word : List Char}
    (hword : ∀ c ∈ word, separator c = false) (piece text : List Char) :
    splitFrom separator piece (word ++ text) = splitFrom separator (word.reverse ++ piece) text := by
  induction word generalizing piece with
  | nil => rfl
  | cons c word ih =>
    obtain ⟨hc, hword⟩ := List.forall_mem_cons.mp hword
    rw [List.cons_append, splitFrom, if_neg (by simp [hc]), ih hword, List.reverse_cons,
      List.append_assoc, List.singleton_append]

/-- **Pieces that stand behind separators of their own** are found again. -/
theorem splitFrom_flatMap {separator : Char → Bool} {mark : Char} (hmark : separator mark = true)
    {words : List (List Char)} (hwords : ∀ word ∈ words, ∀ c ∈ word, separator c = false)
    (piece : List Char) :
    splitFrom separator piece (words.flatMap (mark :: ·)) = piece.reverse :: words := by
  induction words generalizing piece with
  | nil => rfl
  | cons word words ih =>
    obtain ⟨hword, hwords⟩ := List.forall_mem_cons.mp hwords
    rw [List.flatMap_cons, List.cons_append, splitFrom, if_pos hmark, splitFrom_append hword, ih hwords]
    simp

/-! ## Writing -/

theorem isTransparent_isPlain : Percent.IsTransparent isPlain where
  ascii := by
    intro b h
    unfold isPlain at h
    simp only [Bool.and_eq_true, decide_eq_true_eq] at h
    have hlt := UInt8.lt_iff_toNat_lt.mp h.1.2
    exact Nat.lt_trans hlt (by decide)
  sign := by decide

/-- A character that reading leaves where it is: no blank, no separator and no end of the path. -/
structure IsOrdinary (c : Char) : Prop where
  visible : 0x20 < c.toNat
  inside : isSeparator .file c = false
  goesOn : endsPath c = false

/-- **The characters of an encoded name** are ordinary, whatever its bytes are. -/
theorem isOrdinary_of_mem_encode {bytes : List UInt8} {c : Char} (hc : c ∈ Percent.encode isPlain bytes) :
    IsOrdinary c := by
  obtain ⟨b, -, hb⟩ := List.mem_flatMap.mp hc
  rcases Percent.mem_encodeByte hb with ⟨hplain, rfl⟩ | rfl | ⟨n, hn, rfl⟩
  · have hall : ∀ n : Fin 128, isPlain (UInt8.ofNat n) = true →
        0x20 < (Char.ofNat n).toNat ∧ isSeparator .file (Char.ofNat n) = false ∧
          endsPath (Char.ofNat n) = false := by decide
    have hascii : b.toNat < 128 := isTransparent_isPlain.ascii b hplain
    obtain ⟨hvisible, hinside, hgoesOn⟩ := hall ⟨b.toNat, hascii⟩ (by rwa [UInt8.ofNat_toNat])
    exact ⟨hvisible, hinside, hgoesOn⟩
  · exact ⟨by decide, by decide, by decide⟩
  · have hall : ∀ n : Fin 16, 0x20 < (Percent.hexDigit n).toNat ∧
        isSeparator .file (Percent.hexDigit n) = false ∧ endsPath (Percent.hexDigit n) = false := by decide
    obtain ⟨hvisible, hinside, hgoesOn⟩ := hall ⟨n, hn⟩
    exact ⟨hvisible, hinside, hgoesOn⟩

/-- An encoded name has no separator in it. -/
theorem ne_slash_of_mem_encode {bytes : List UInt8} {c : Char}
    (hc : c ∈ Percent.encode isPlain bytes) : c ≠ '/' := by
  rintro rfl
  exact absurd (isOrdinary_of_mem_encode hc).inside nofun

/-- The pieces that the URI of a path lists: the bytes of its names, and an empty one for the root. -/
def written (p : Path) : List (List UInt8) :=
  if p.names = [] then [[]] else p.names.map Component.bytes

/-- The names of a path read back from the pieces that its URI lists. -/
theorem filterMap_written (p : Path) : (written p).filterMap Path.component? = p.names := by
  unfold written
  split
  · next hnames => rw [hnames]; rfl
  · exact p.filterMap_bytes_names

/-- The text of a list of pieces, each behind a separator. -/
def pathText (pieces : List (List UInt8)) : List Char :=
  (pieces.map (Percent.encode isPlain)).flatMap ('/' :: ·)

/-- The pieces are known by their text. -/
theorem pathText_injective : Function.Injective pathText := by
  intro pieces pieces' heq
  have hfound (pieces : List (List UInt8)) :
      splitFrom (· = '/') [] (pathText pieces) = [] :: pieces.map (Percent.encode isPlain) := by
    apply splitFrom_flatMap (by decide)
    intro word hword c hc
    obtain ⟨bytes, -, rfl⟩ := List.mem_map.mp hword
    exact decide_eq_false (ne_slash_of_mem_encode hc)
  have hencoded := hfound pieces
  rw [heq, hfound pieces'] at hencoded
  have hencode := Percent.encode_injective isTransparent_isPlain
  exact (List.map_injective_iff.mpr hencode (List.cons.inj hencoded).2).symm

/-- **The URI of an absolute path** lists its pieces. -/
theorem ofPath?_of_absolute {p : Path} (h : p.isAbsolute = true) :
    ofPath? p = some (String.ofList ("file://".toList ++ pathText (written p))) := by
  have hcomponent : ∀ c ∈ p.names, componentText c = '/' :: Percent.encode isPlain c.bytes := by
    intro c hc
    have hroot := (Path.component?_of_mem_names hc).2.1
    cases c with
    | root => exact absurd rfl hroot
    | _ => rfl
  have hnames : p.components.flatMap componentText = pathText (p.names.map Component.bytes) := by
    rw [Path.components_of_absolute h, List.flatMap_cons, componentText, List.nil_append, pathText,
      List.map_map, List.flatMap_map]
    exact List.flatMap_congr hcomponent
  unfold ofPath? written
  rw [if_pos h, hnames]
  -- the root alone has no names, and its URI ends in the separator
  cases hlist : p.names with
  | nil => rfl
  | cons c names => rfl

/-- **Just the absolute paths have a URI.** -/
theorem isSome_ofPath? (p : Path) : (ofPath? p).isSome = p.isAbsolute := by
  unfold ofPath?
  split
  · next h => exact h.symm
  · next h => exact (Bool.not_eq_true _ ▸ h).symm

/-- **Absolute paths have the same URI just if they are equivalent.** -/
theorem ofPath?_eq_iff {p q : Path} (hp : p.isAbsolute = true) (hq : q.isAbsolute = true) :
    ofPath? p = ofPath? q ↔ p ≈ q := by
  rw [ofPath?_of_absolute hp, ofPath?_of_absolute hq, Path.equiv_iff_names hp hq]
  constructor
  · intro h
    have htext := String.ofList_injective (Option.some.inj h)
    have hpieces := pathText_injective (List.append_cancel_left htext)
    rw [← filterMap_written p, hpieces, filterMap_written]
  · intro h
    rw [written, written, h]

/-! ## Reading -/

theorem splitFrom_ne_nil (separator : Char → Bool) (piece text : List Char) :
    splitFrom separator piece text ≠ [] := by
  induction text generalizing piece with
  | nil => exact nofun
  | cons c text ih =>
    unfold splitFrom
    split
    · exact nofun
    · exact ih _

/-- Some segment is left, or an empty one is put. -/
theorem resolve_ne_nil (kind : SchemeKind) (above : List (List Char)) {segments : List (List Char)}
    (h : segments ≠ []) : resolve kind above segments ≠ [] := by
  induction segments generalizing above with
  | nil => exact absurd rfl h
  | cons segment segments ih =>
    cases segments with
    | nil =>
      unfold resolve
      split
      · simp
      split
      · simp
      · simp
    | cons next segments =>
      unfold resolve
      split
      · exact ih _ nofun
      split
      · exact ih _ nofun
      · exact ih _ nofun

theorem segments_ne_nil (kind : SchemeKind) (text : List Char) : segments kind text ≠ [] := by
  have hresolved := resolve_ne_nil kind []
    (splitFrom_ne_nil (isSeparator kind) [] (text.takeWhile fun c => !endsPath c))
  unfold segments
  dsimp only
  split
  · unfold dropLeadingEmpty
    split
    · exact nofun
    · next hrest => exact hrest
  · exact hresolved

/-- Segments stand behind separators, so a path made of them is absolute. -/
theorem isAbsolute_pathOfSegments {segments : List (List Char)} (h : segments ≠ []) :
    (pathOfSegments segments).isAbsolute = true := by
  obtain ⟨segment, segments, rfl⟩ := List.exists_cons_of_ne_nil h
  unfold pathOfSegments Path.isAbsolute
  dsimp only
  split
  · simp
  · simp

/-- **Whatever a URI denotes is an absolute path.** -/
theorem isAbsolute_of_toPath? {uri : String} {p : Path} (h : toPath? uri = some p) :
    p.isAbsolute = true := by
  obtain ⟨⟨kind, text⟩, -, hpath⟩ := Option.bind_eq_some_iff.mp h
  obtain ⟨path, -, rfl⟩ := Option.map_eq_some_iff.mp hpath
  exact isAbsolute_pathOfSegments (segments_ne_nil kind path)

/-! ## Drive letters -/

/-- A segment that has a colon if it is a drive letter. -/
def WithColon (segment : List Char) : Prop := isDrive segment = true → ∃ letter, segment = [letter, ':']

/-- Right below the root stands no drive letter without its colon, where `above` is what was read so far. -/
def ColonBelowRoot (above : List (List Char)) : Prop := ∀ segment ∈ above.getLast?, WithColon segment

theorem withColon_kept (segment : List Char) : WithColon (kept .file [] segment) := by
  intro hdrive
  unfold kept at hdrive ⊢
  split at hdrive
  · next hmark =>
    rw [if_pos hmark]
    match segment, hmark with
    | [letter, mark], _ => exact ⟨letter, rfl⟩
  · next hplain => exact absurd hdrive (by simpa using hplain)

theorem ColonBelowRoot.cons {above : List (List Char)} (h : ColonBelowRoot above) {segment : List Char}
    (hsegment : above = [] → WithColon segment) : ColonBelowRoot (segment :: above) := by
  cases above with
  | nil =>
    rintro _ ⟨⟩
    exact hsegment rfl
  | cons other above =>
    unfold ColonBelowRoot
    rw [List.getLast?_cons_cons]
    exact h

theorem ColonBelowRoot.leave {above : List (List Char)} (h : ColonBelowRoot above) :
    ColonBelowRoot (leave above) := by
  unfold Uri.leave
  split
  · exact h
  · next segment above =>
    split
    · exact h
    · cases above with
      | nil => exact nofun
      | cons other above =>
        unfold ColonBelowRoot at h
        rw [List.getLast?_cons_cons] at h
        exact h

theorem ColonBelowRoot.kept {above : List (List Char)} (h : ColonBelowRoot above) (segment : List Char) :
    ColonBelowRoot (kept .file above segment :: above) :=
  h.cons fun habove => habove ▸ withColon_kept segment

/-- Resolving puts no drive letter without its colon right below the root. -/
theorem ColonBelowRoot.resolve {above : List (List Char)} (h : ColonBelowRoot above)
    (segments : List (List Char)) : ∀ first ∈ (resolve .file above segments).head?, WithColon first := by
  have hend {above : List (List Char)} (h : ColonBelowRoot above) :
      ∀ first ∈ above.reverse.head?, WithColon first := by
    rw [List.head?_reverse]
    exact h
  induction segments generalizing above with
  | nil => exact hend h
  | cons segment segments ih =>
    cases segments with
    | nil =>
      unfold Uri.resolve
      split
      · exact hend (h.leave.cons fun _ => nofun)
      split
      · exact hend (h.cons fun _ => nofun)
      · exact hend (h.kept segment)
    | cons next segments =>
      unfold Uri.resolve
      split
      · exact ih h.leave
      split
      · exact ih h
      · exact ih (h.kept segment)

/-- A path with a drive letter right below its root starts with the letter and a colon. -/
theorem segments_of_startsWithDrive {text : List Char} (h : startsWithDrive text = true) :
    ∃ letter rest, segments .file text = [letter, ':'] :: rest := by
  have hroot : ColonBelowRoot [] := nofun
  have hcolon : ∀ first ∈ (resolvedSegments .file text).head?, WithColon first := hroot.resolve _
  unfold startsWithDrive at h
  unfold segments
  dsimp only
  cases hresolved : resolvedSegments .file text with
  | nil =>
    rw [hresolved] at h
    exact absurd h nofun
  | cons first rest =>
    rw [hresolved] at h hcolon
    obtain ⟨letter, rfl⟩ := hcolon first rfl h
    exact ⟨letter, rest, rfl⟩

/-- **Of a host that is not the local one nothing is left**: a path behind it starts with a drive letter. -/
theorem drive_of_otherHost {host rest text : List Char} (hhost : ∀ c ∈ host, endsAuthority .file c = false)
    (hrest : ∀ c ∈ rest.head?, endsAuthority .file c = true) (hne : host ≠ []) (hdrive : isDrive host = false)
    (hother : isLocalHost host = false) (h : filePath? ('/' :: '/' :: (host ++ rest)) = some text) :
    ∃ letter segments', segments .file text = [letter, ':'] :: segments' := by
  have hinside : ∀ c ∈ host, (!endsAuthority .file c) = true := fun c hc => by rw [hhost c hc]; rfl
  have hends : ∀ c ∈ rest.head?, (!endsAuthority .file c) = false := fun c hc => by rw [hrest c hc]; rfl
  have hempty : host.isEmpty = false := List.isEmpty_eq_false_iff.mpr hne
  have hpath : filePath? ('/' :: '/' :: (host ++ rest)) =
      if isHost host && startsWithDrive (skipSeparator .file rest) then some (skipSeparator .file rest)
      else none := by
    simp only [filePath?, Text.takeWhile_append_stop hinside hends, Text.dropWhile_append_stop hinside hends,
      hdrive, hempty, hother]
    rfl
  rw [hpath] at h
  split at h
  · next hhosted =>
    cases h
    exact segments_of_startsWithDrive (Bool.and_eq_true_iff.mp hhosted).2
  · cases h

/-- The path that a URI denotes if its scheme is `file`. Others, as `git:/work/a.go`, denote paths, too. -/
def toFilePath? (uri : String) : Option Path :=
  match scheme? (clean uri.toList) with
  | some (.file, _) => toPath? uri
  | _ => none

end Uri
end NoticeServer
