import NoticeServer.Proofs.Frame.Grammar
import NoticeServer.Proofs.Frame.Line
import NoticeServer.Proofs.Frame.Streaming
import NoticeServer.Proofs.Json.RoundTrip

/-!
# `NoticeServer.Proofs.Frame.Accepting` — the frames that are read

The reader accepts exactly the frames. It goes from line to line, and between two lines it knows of those
behind it only the last length that they told (`Tells`); so the header follows by induction along its lines,
in both directions. An input that begins with no frame gives an error, and only the empty input is at its
end. `FrameReader.accepts_framed` puts all results together; `deepBody_refused` shows a body that is refused
for its depth alone.
-/

namespace NoticeServer

open Text

/-! ## The length that a header tells -/

/-- A line that tells no length. -/
def Silent (text : List Char) : Prop := ∀ value, ¬ TellsLength text value

/-- Header lines, behind lines that told the first length, tell the second. -/
inductive Tells : Option Nat → List (List Char) → Option Nat → Prop where
  | nil (length? : Option Nat) : Tells length? [] length?
  | length {length? told? : Option Nat} {text value : List Char} {n : Nat} {headers : List (List Char)}
      (tells : TellsLength text value) (isLength : IsLength value n) (more : Tells (some n) headers told?) :
      Tells length? (text :: headers) told?
  | other {length? told? : Option Nat} {text : List Char} {headers : List (List Char)}
      (silent : Silent text) (more : Tells length? headers told?) : Tells length? (text :: headers) told?

theorem not_lastLength_nil (n : Nat) : ¬ LastLength [] n := by
  rintro ⟨before, text, after, value, heq, _⟩
  cases before <;> exact absurd heq nofun

theorem lastLength_cons_iff {text : List Char} {headers : List (List Char)} {n : Nat} :
    LastLength (text :: headers) n ↔ LastLength headers n ∨
      ∃ value, TellsLength text value ∧ IsLength value n ∧ ∀ text' ∈ headers, Silent text' := by
  constructor
  · rintro ⟨before, last, after, value, heq, htells, hlength, hafter⟩
    cases before with
    | nil =>
      obtain ⟨rfl, rfl⟩ := List.cons.inj heq
      exact .inr ⟨value, htells, hlength, hafter⟩
    | cons first before =>
      obtain ⟨rfl, rfl⟩ := List.cons.inj heq
      exact .inl ⟨before, last, after, value, rfl, htells, hlength, hafter⟩
  · rintro (⟨before, last, after, value, rfl, htells, hlength, hafter⟩ | ⟨value, htells, hlength, hsilent⟩)
    · exact ⟨text :: before, last, after, value, rfl, htells, hlength, hafter⟩
    · exact ⟨[], text, headers, value, rfl, htells, hlength, hsilent⟩

/-- **The length that header lines tell** is that of the last of them that tells any. -/
theorem tells_iff {length? : Option Nat} {headers : List (List Char)} {n : Nat} :
    Tells length? headers (some n) ↔
      (∀ text ∈ headers, ∀ value, TellsLength text value → ∃ n, IsLength value n) ∧
      (LastLength headers n ∨ (length? = some n ∧ ∀ text ∈ headers, Silent text)) := by
  induction headers generalizing length? with
  | nil =>
    constructor
    · intro h
      cases h
      exact ⟨nofun, .inr ⟨rfl, nofun⟩⟩
    · rintro ⟨_, hlast | ⟨rfl, _⟩⟩
      · exact absurd hlast (not_lastLength_nil n)
      · exact .nil _
  | cons text headers ih =>
    rw [List.forall_mem_cons, List.forall_mem_cons, lastLength_cons_iff]
    by_cases htells : ∃ value, TellsLength text value
    · obtain ⟨value, htells⟩ := htells
      constructor
      · intro h
        cases h with
        | other silent _ => exact absurd htells (silent value)
        | length tells isLength more =>
          obtain ⟨hall, hlast⟩ := ih.mp more
          refine ⟨⟨fun value' h' => ⟨_, tells.unique h' ▸ isLength⟩, hall⟩, .inl ?_⟩
          rcases hlast with hlast | ⟨heq, hsilent⟩
          · exact .inl hlast
          · exact .inr ⟨_, tells, Option.some.inj heq ▸ isLength, hsilent⟩
      · rintro ⟨⟨hfirst, hall⟩, hlast⟩
        obtain ⟨k, hk⟩ := hfirst value htells
        refine .length htells hk (ih.mpr ⟨hall, ?_⟩)
        rcases hlast with (hlast | ⟨value', htells', hn, hsilent⟩) | ⟨_, hsilent, _⟩
        · exact .inl hlast
        · rw [htells.unique htells'] at hk
          exact .inr ⟨congrArg some (hk.unique hn), hsilent⟩
        · exact absurd htells (hsilent value)
    · have hsilent : Silent text := not_exists.mp htells
      constructor
      · intro h
        cases h with
        | length tells _ _ => exact absurd tells (hsilent _)
        | other _ more =>
          obtain ⟨hall, hlast⟩ := ih.mp more
          exact ⟨⟨fun value h => absurd h (hsilent value), hall⟩,
            hlast.imp .inl fun h => ⟨h.1, hsilent, h.2⟩⟩
      · rintro ⟨⟨_, hall⟩, hlast⟩
        refine .other hsilent (ih.mpr ⟨hall, ?_⟩)
        rcases hlast with (hlast | ⟨value, htells', _⟩) | ⟨heq, _, hrest⟩
        · exact .inl hlast
        · exact absurd htells' (hsilent value)
        · exact .inr ⟨heq, hrest⟩

/-- The rules of a frame behind header lines that told a length. -/
structure FrameText.Fits (length? : Option Nat) (f : FrameText) : Prop where
  headers : ∀ text ∈ f.headers, IsHeader text
  blank : IsBlankLine f.blank
  tells : Tells length? f.headers (some f.body.length)
  length_le : f.body.length ≤ maxFrameBytes

theorem FrameText.valid_iff (f : FrameText) : f.Valid ↔ f.Fits none := by
  constructor
  · exact fun h => ⟨h.headers, h.blank, tells_iff.mpr ⟨h.lengths, .inl h.last⟩, h.length_le⟩
  · intro h
    obtain ⟨hall, hlast⟩ := tells_iff.mp h.tells
    exact ⟨h.headers, h.blank, hall, hlast.resolve_right fun h => absurd h.1 nofun, h.length_le⟩

namespace FrameReader

/-! ## One line -/

theorem lineFeed_not_mem_encode {text : List Char} (h : '\n' ∉ text) : lineFeed ∉ Utf8.encode text :=
  fun hmem => h ((Utf8.mem_encode_iff (d := '\n') (by decide) text).mp hmem)

/-- What the reader makes of a line that is UTF-8. -/
theorem endLine_encode (length? : Option Nat) (text : List Char) :
    endLine length? (Utf8.encode text).reverse =
      if trim text = [] then beginBody length?
      else
        match lengthValue? (trim text) with
        | none => (.header length? true [], none)
        | some value =>
          match readLength? value with
          | none => (start, some (.error .invalidLength))
          | some n => (.header (some n) true [], none) := by
  unfold endLine HeaderLine.ofBytes
  rw [List.reverse_reverse, Utf8.decode?_encode]
  dsimp only
  by_cases hblank : trim text = []
  · simp [hblank]
  · simp only [List.isEmpty_iff, hblank, if_false]
    cases lengthValue? (trim text) with
    | none => rfl
    | some value => cases hlength : readLength? value <;> simp [hlength]

/-- The bytes of a line, and those behind it. -/
theorem readFrom_lineBytes (length? : Option Nat) (begun : Bool) {text : List Char} (h : '\n' ∉ text)
    (rest : List UInt8) :
    readFrom (.header length? begun []) (lineBytes text ++ rest) =
      match endLine length? (Utf8.encode text).reverse with
      | (_, some result) => (result, rest)
      | (next, none) => readFrom next rest := by
  have hread := readFrom_line length? begun (lineFeed_not_mem_encode h) [] rest
  rw [List.append_nil] at hread
  rw [lineBytes, List.append_assoc]
  exact hread

/-! ## From the grammar to the reader -/

/-- The lines of a header lead the reader to the length that they tell. -/
theorem readFrom_linesBytes {length? told? : Option Nat} {headers : List (List Char)}
    (h : Tells length? headers told?) (hheaders : ∀ text ∈ headers, IsHeader text) (begun : Bool)
    (rest : List UInt8) :
    ∃ begun', readFrom (.header length? begun []) (linesBytes headers ++ rest) =
      readFrom (.header told? begun' []) rest := by
  induction h generalizing begun with
  | nil length? => exact ⟨begun, rfl⟩
  | @length length? told? text value n headers tells isLength _ ih =>
    obtain ⟨hline, hmore⟩ := List.forall_mem_cons.mp hheaders
    obtain ⟨begun', hread⟩ := ih hmore true
    refine ⟨begun', ?_⟩
    rw [linesBytes, List.flatMap_cons, List.append_assoc, readFrom_lineBytes _ _ hline.lineFeed,
      endLine_encode, if_neg hline.content, lengthValue?_eq_some_iff.mpr tells]
    dsimp only
    rw [readLength?_eq_some_iff.mpr isLength]
    exact hread
  | @other length? told? text headers silent _ ih =>
    obtain ⟨hline, hmore⟩ := List.forall_mem_cons.mp hheaders
    obtain ⟨begun', hread⟩ := ih hmore true
    refine ⟨begun', ?_⟩
    have hnone : lengthValue? (trim text) = none :=
      Option.eq_none_iff_forall_ne_some.mpr fun value h => silent value (lengthValue?_eq_some_iff.mp h)
    rw [linesBytes, List.flatMap_cons, List.append_assoc, readFrom_lineBytes _ _ hline.lineFeed,
      endLine_encode, if_neg hline.content, hnone]
    exact hread

/-- A frame is read to the end of its body and no further. An empty body is no text. -/
theorem readFrom_of_fits {f : FrameText} {length? : Option Nat} (h : f.Fits length?) (hne : f.body ≠ [])
    (begun : Bool) (rest : List UInt8) :
    readFrom (.header length? begun []) (f.bytes ++ rest) = (parseBody f.body, rest) := by
  have hbegin : beginBody (some f.body.length) = (.body f.body.length [], none) := by
    have := h.length_le
    unfold beginBody
    dsimp only
    rw [if_neg (by omega), if_neg (by simpa using hne)]
  obtain ⟨begun', hheaders⟩ :=
    readFrom_linesBytes h.tells h.headers begun (lineBytes f.blank ++ f.body ++ rest)
  rw [FrameText.bytes, List.append_assoc, hheaders, List.append_assoc,
    readFrom_lineBytes _ _ h.blank.lineFeed, endLine_encode, if_pos h.blank.blank, hbegin]
  exact readFrom_body hne [] rest

theorem read_of_valid {f : FrameText} (h : f.Valid) (hne : f.body ≠ []) (rest : List UInt8) :
    read (f.bytes ++ rest) = (parseBody f.body, rest) :=
  readFrom_of_fits (f.valid_iff.mp h) hne false rest

/-! ## From the reader to the grammar -/

/-- A line that does not end. -/
theorem readFrom_unended (length? : Option Nat) (begun : Bool) {input : List UInt8}
    (h : lineFeed ∉ input) (line : List UInt8) :
    readFrom (.header length? begun line) input =
      (finish (.header length? begun (input.reverse ++ line)), []) := by
  induction input generalizing line with
  | nil => rfl
  | cons b input ih =>
    have hb : b ≠ lineFeed := fun heq => h (heq ▸ List.mem_cons_self)
    rw [readFrom, step, if_neg hb]
    refine (ih (fun hmem => h (List.mem_cons_of_mem _ hmem)) (b :: line)).trans ?_
    simp

/-- A body that is read to its end. -/
theorem body_of_readFrom {missing : Nat} {collected input rest : List UInt8} {v : Json}
    (hmissing : missing ≠ 0)
    (h : readFrom (.body missing collected) input = (.frame v, rest)) :
    ∃ body, input = body ++ rest ∧ body.length = missing ∧
      parseBody (collected.reverse ++ body) = .frame v := by
  induction input generalizing missing collected with
  | nil => exact absurd (Prod.mk.inj h).1 nofun
  | cons b input ih =>
    rw [readFrom, step] at h
    by_cases hlast : missing ≤ 1
    · rw [if_pos hlast] at h
      obtain ⟨hvalue, rfl⟩ := Prod.mk.inj h
      exact ⟨[b], rfl, by simp; omega, by simpa using hvalue⟩
    · rw [if_neg hlast] at h
      obtain ⟨body, rfl, hlength, hvalue⟩ := ih (by omega) h
      exact ⟨b :: body, rfl, by simp; omega, by simpa using hvalue⟩

theorem readBytes?_of_parseBody {body : List UInt8} {v : Json} (h : parseBody body = .frame v) :
    Json.readBytes? body = some v := by
  unfold parseBody at h
  split at h
  · next w hw =>
    cases h
    exact hw
  · exact absurd h nofun

/-- A body behind its blank line. -/
theorem body_of_beginBody {length? : Option Nat} {rest more : List UInt8} {v : Json}
    (h : (match beginBody length? with
      | (_, some result) => (result, more)
      | (next, none) => readFrom next more) = (.frame v, rest)) :
    ∃ body : List UInt8, length? = some body.length ∧ body.length ≤ maxFrameBytes ∧ more = body ++ rest ∧
      Json.readBytes? body = some v := by
  unfold beginBody at h
  cases length? with
  | none => exact absurd (Prod.mk.inj h).1 nofun
  | some n =>
    dsimp only at h
    by_cases hover : maxFrameBytes < n
    · rw [if_pos hover] at h
      exact absurd (Prod.mk.inj h).1 nofun
    by_cases hempty : n = 0
    · rw [if_neg hover, if_pos hempty, parseBody_nil] at h
      exact absurd (Prod.mk.inj h).1 nofun
    · rw [if_neg hover, if_neg hempty] at h
      obtain ⟨body, rfl, rfl, hvalue⟩ := body_of_readFrom hempty h
      exact ⟨body, rfl, by omega, rfl, readBytes?_of_parseBody hvalue⟩

/-- What is read as a frame begins with a line that is UTF-8. -/
theorem exists_line_of_readFrom {length? : Option Nat} {begun : Bool} {input rest : List UInt8} {v : Json}
    (h : readFrom (.header length? begun []) input = (.frame v, rest)) :
    ∃ text more, input = lineBytes text ++ more ∧ '\n' ∉ text := by
  by_cases hmem : lineFeed ∈ input
  · obtain ⟨bytes, more, rfl, hbytes⟩ := List.eq_append_cons_of_mem hmem
    cases hdecode : Utf8.decode? bytes with
    | some text =>
      obtain rfl := Utf8.decode?_eq_some_iff.mp hdecode
      refine ⟨text, more, by simp [lineBytes], fun hmem' => hbytes ?_⟩
      exact (Utf8.mem_encode_iff (d := '\n') (by decide) text).mpr hmem'
    | none =>
      have herror : endLine length? bytes.reverse = (start, some (.error .headerText)) := by
        unfold endLine HeaderLine.ofBytes
        rw [List.reverse_reverse, hdecode]
      rw [readFrom_line length? begun hbytes, List.append_nil, herror] at h
      cases (Prod.mk.inj h).1
  · rw [readFrom_unended length? begun hmem] at h
    exact absurd (Prod.mk.inj h).1 (finish_ne_frame _ v)

/-- A line in front of what is read as a frame: the blank line of the frame, with the body behind it, or a
line of its header, with the rest of the frame behind it. -/
theorem line_of_readFrom {length? : Option Nat} {begun : Bool} {text : List Char} {more rest : List UInt8}
    {v : Json} (hline : '\n' ∉ text)
    (h : readFrom (.header length? begun []) (lineBytes text ++ more) = (.frame v, rest)) :
    (trim text = [] ∧ ∃ body : List UInt8, length? = some body.length ∧ body.length ≤ maxFrameBytes ∧
      more = body ++ rest ∧ Json.readBytes? body = some v) ∨
    (trim text ≠ [] ∧ ∃ length?',
      (∀ headers told?, Tells length?' headers told? → Tells length? (text :: headers) told?) ∧
      readFrom (.header length?' true []) more = (.frame v, rest)) := by
  rw [readFrom_lineBytes _ _ hline, endLine_encode] at h
  by_cases hblank : trim text = []
  · rw [if_pos hblank] at h
    exact .inl ⟨hblank, body_of_beginBody h⟩
  refine .inr ⟨hblank, ?_⟩
  rw [if_neg hblank] at h
  cases hvalue : lengthValue? (trim text) with
  | none =>
    rw [hvalue] at h
    have hsilent : Silent text := fun value htells => by
      rw [lengthValue?_eq_some_iff.mpr htells] at hvalue
      exact absurd hvalue nofun
    exact ⟨length?, fun _ _ => .other hsilent, h⟩
  | some value =>
    rw [hvalue] at h
    dsimp only at h
    cases hn : readLength? value with
    | none =>
      rw [hn] at h
      exact absurd (Prod.mk.inj h).1 nofun
    | some n =>
      rw [hn] at h
      have htells := lengthValue?_eq_some_iff.mp hvalue
      exact ⟨some n, fun _ _ => .length htells (readLength?_eq_some_iff.mp hn), h⟩

/-- What is read as a frame behind header lines is a frame. -/
theorem fits_of_readFrom {length? : Option Nat} {begun : Bool} {input rest : List UInt8} {v : Json}
    (h : readFrom (.header length? begun []) input = (.frame v, rest)) :
    ∃ f : FrameText, f.Fits length? ∧ input = f.bytes ++ rest ∧ Json.readBytes? f.body = some v := by
  -- line by line: the induction is on the number of bytes
  induction hlength : input.length using Nat.strongRecOn generalizing length? begun input with
  | ind length ih =>
    obtain ⟨text, more, rfl, hline⟩ := exists_line_of_readFrom h
    rcases line_of_readFrom hline h with
      ⟨hblank, body, htold, hle, rfl, hv⟩ | ⟨hcontent, length?', htells, hread⟩
    · refine ⟨⟨[], text, body⟩, ⟨nofun, ⟨hline, hblank⟩, htold ▸ .nil _, hle⟩, ?_, hv⟩
      simp [FrameText.bytes, linesBytes]
    · obtain ⟨f, hfits, rfl, hv⟩ := ih more.length (by simp [← hlength, lineBytes]; omega) hread rfl
      refine ⟨⟨text :: f.headers, f.blank, f.body⟩, ⟨?_, hfits.blank, htells _ _ hfits.tells,
        hfits.length_le⟩, ?_, hv⟩
      · exact List.forall_mem_cons.mpr ⟨⟨hline, hcontent⟩, hfits.headers⟩
      · simp [FrameText.bytes, linesBytes]

/-- **The reader reads the frames, and only these**, and leaves what stands behind them. -/
theorem read_eq_frame_iff {input rest : List UInt8} {v : Json} :
    read input = (.frame v, rest) ↔ Framed (Json.IsText Json.maxDepth) input v rest := by
  constructor
  · intro h
    obtain ⟨f, hfits, hinput, hv⟩ := fits_of_readFrom h
    exact ⟨f, f.valid_iff.mpr hfits, hinput, Json.readBytes?_eq_some_iff.mp hv⟩
  · rintro ⟨f, hvalid, rfl, hv⟩
    have hread := Json.readBytes?_eq_some_iff.mpr hv
    have hne : f.body ≠ [] := by
      intro hnil
      rw [hnil] at hread
      exact absurd hread nofun
    rw [read_of_valid hvalid hne, parseBody, hread]

/-! ## All results -/

theorem read_eq_finished_iff {input : List UInt8} : (read input).1 = .finished ↔ input = [] := by
  constructor
  · exact fun h => (finished_of_readFrom h).2
  · rintro rfl
    rfl

/-- **The reader accepts exactly the frames.** It returns a value, and leaves what stands behind, just if
the input begins with a frame whose body denotes this value; only the empty input is at its end; every other
input gives an error. -/
theorem accepts_framed :
    (∀ input v rest,
      read input = (.frame v, rest) ↔ Framed (Json.IsText Json.maxDepth) input v rest) ∧
    (∀ input, (read input).1 = .finished ↔ input = []) ∧
    (∀ input, (∃ e, (read input).1 = .error e) ↔
      input ≠ [] ∧ ∀ v rest, ¬ Framed (Json.IsText Json.maxDepth) input v rest) := by
  refine ⟨fun _ _ _ => read_eq_frame_iff, fun _ => read_eq_finished_iff, fun input => ?_⟩
  constructor
  · rintro ⟨e, he⟩
    refine ⟨fun hempty => ?_, fun v rest hframed => ?_⟩
    · exact absurd ((read_eq_finished_iff.mpr hempty).symm.trans he) nofun
    · rw [read_eq_frame_iff.mpr hframed] at he
      exact absurd he nofun
  · rintro ⟨hne, hnot⟩
    cases hread : read input with
    | mk result rest =>
      cases result with
      | frame v => exact absurd (read_eq_frame_iff.mp hread) (hnot v rest)
      | finished => exact absurd (read_eq_finished_iff.mp (by rw [hread])) hne
      | error e => exact ⟨e, rfl⟩

/-- So many arrays within one another and an empty one inside. -/
def nested : Nat → Json
  | 0 => .array []
  | depth + 1 => .array [nested depth]

theorem exact_nested (depth : Nat) : (nested depth).Exact := by
  induction depth with
  | zero => exact .array [] nofun
  | succ depth ih => exact .array [nested depth] (List.forall_mem_singleton.mpr ih)

theorem depth_nested (depth : Nat) : (nested depth).depth = depth + 1 := by
  induction depth with
  | zero => rfl
  | succ depth ih =>
    rw [nested, Json.depth, Json.itemsDepth, Json.itemsDepth, ih]
    simp

/-- A body with one array more within another than can be read. -/
def deepBody : List UInt8 := Utf8.encode (nested 127).text

/-- **Without the bound on the depth the reader does not accept all frames**: this body is a JSON text, but
it is nested too deeply. -/
theorem deepBody_refused :
    Framed (fun body v => ∃ limit, Json.IsText limit body v) (Frame.withHeader deepBody) (nested 127) [] ∧
      read (Frame.withHeader deepBody) = (.error .invalidJson, []) := by
  have htext : Json.IsText 128 deepBody (nested 127) :=
    Json.isText_text (exact_nested 127) (Nat.le_of_eq (depth_nested 127))
  have hrefused : Json.readBytes? deepBody = none := Option.isNone_iff_eq_none.mp (by decide +kernel)
  have hne : deepBody ≠ [] := List.ne_nil_of_length_pos (by decide +kernel)
  have hvalid : (Frame.parts deepBody).Valid := Frame.valid_parts (by decide +kernel)
  have hread := read_of_valid hvalid hne []
  rw [List.append_nil, Frame.bytes_parts, parseBody, show (Frame.parts deepBody).body = deepBody from rfl,
    hrefused] at hread
  exact ⟨⟨Frame.parts deepBody, hvalid, by rw [List.append_nil, Frame.bytes_parts], 128, htext⟩, hread⟩

end FrameReader
end NoticeServer
