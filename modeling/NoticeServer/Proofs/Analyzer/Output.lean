import NoticeServer.Analyzer
import NoticeServer.Notice.Line
import NoticeServer.Proofs.Text.Line
import NoticeServer.Proofs.Text.Lossy

/-!
# `NoticeServer.Proofs.Analyzer.Output` — an analyzer's output, piece by piece

An output is decoded as a whole and then cut into lines. A line feed ends whatever is malformed in front of it,
so the same notices are found if the bytes are cut at their line feeds (`linePieces`) and each piece is decoded
for itself. By `decodeLossy_append_lineFeed` and `decodeLossy_withoutReturnByte` the bytes that end a piece are
read as themselves, and `parseOutput_decodeLossy` follows from separator to separator.
-/

namespace NoticeServer

open Text Utf8

/-! ## Pieces -/

/-- The byte of a line feed. -/
def lineFeedByte : UInt8 := 0x0A

/-- The byte of a carriage return. -/
def returnByte : UInt8 := 0x0D

/-- A piece without the carriage return at its end. -/
def withoutReturnByte (piece : List UInt8) : List UInt8 :=
  if piece.getLast? = some returnByte then piece.dropLast else piece

/-- The pieces between the line feeds. A carriage return goes with the line feed that it stands before; behind
the last line feed there is none to go with. -/
def linePieces (bytes : List UInt8) : List (List UInt8) :=
  let pieces := bytes.splitOn lineFeedByte
  pieces.dropLast.map withoutReturnByte ++ pieces.getLast?.toList

/-- The notices of the pieces, each piece decoded for itself. -/
def pieceNotices (bytes : List UInt8) : List Notice :=
  (linePieces bytes).filterMap fun piece => Notice.parse? (decodeLossy piece)

theorem not_lineFeedByte_of_mem {piece : List UInt8} (h : lineFeedByte ∉ piece) :
    ∀ b ∈ piece, (b == lineFeedByte) = false := by
  intro b hb
  exact beq_false_of_ne fun heq => h (heq ▸ hb)

/-- **The last piece.** -/
theorem linePieces_of_lineFeed_not_mem {piece : List UInt8} (h : lineFeedByte ∉ piece) :
    linePieces piece = [piece] := by
  have hsplit : piece.splitOn lineFeedByte = [piece] := by
    rw [List.splitOn_eq_splitOnP]
    exact List.splitOnP_eq_singleton (not_lineFeedByte_of_mem h)
  rw [linePieces, hsplit]
  rfl

/-- **The first piece** ends at the first line feed. -/
theorem linePieces_append_lineFeed {piece : List UInt8} (h : lineFeedByte ∉ piece) (rest : List UInt8) :
    linePieces (piece ++ lineFeedByte :: rest) = withoutReturnByte piece :: linePieces rest := by
  have hsplit : (piece ++ lineFeedByte :: rest).splitOn lineFeedByte =
      piece :: rest.splitOn lineFeedByte := by
    simp only [List.splitOn_eq_splitOnP]
    exact List.splitOnP_append_cons_of_forall_mem (not_lineFeedByte_of_mem h) _ (beq_self_eq_true _) rest
  obtain ⟨next, pieces, hrest⟩ := List.exists_cons_of_ne_nil (List.splitOn_ne_nil lineFeedByte rest)
  rw [linePieces, linePieces, hsplit, hrest, List.dropLast_cons_cons, List.getLast?_cons_cons]
  rfl

/-! ## The bytes that end a piece -/

/-- **A line feed** ends what is malformed in front of it. -/
theorem decodeLossy_append_lineFeed (bytes more : List UInt8) :
    decodeLossy (bytes ++ lineFeedByte :: more) = decodeLossy bytes ++ '\n' :: decodeLossy more := by
  have hfeed : '\n'.toNat < 0x80 := by decide
  exact decodeLossy_eq_iff.mpr
    ((readsLossy_decodeLossy bytes).append_ascii hfeed (readsLossy_decodeLossy more))

example : decodeLossy [0xE2, 0x82, lineFeedByte, 0x41] = ['\uFFFD', '\n', 'A'] := by decide

theorem lineFeed_mem_decodeLossy_iff {bytes : List UInt8} :
    '\n' ∈ decodeLossy bytes ↔ lineFeedByte ∈ bytes := by
  have hfeed : '\n'.toNat < 0x80 := by decide
  exact (readsLossy_decodeLossy bytes).mem_iff hfeed

/-- **A carriage return** at the end of a piece is read as the one at the end of the line. -/
theorem decodeLossy_withoutReturnByte (piece : List UInt8) :
    decodeLossy (withoutReturnByte piece) = withoutReturn (decodeLossy piece) := by
  have hreturn : '\r'.toNat < 0x80 := by decide
  unfold withoutReturnByte
  by_cases hlast : piece.getLast? = some returnByte
  · obtain ⟨start, rfl⟩ := List.getLast?_eq_some_iff.mp hlast
    have htext : decodeLossy (start ++ [returnByte]) = decodeLossy start ++ ['\r'] :=
      decodeLossy_eq_iff.mpr ((readsLossy_decodeLossy start).append_ascii hreturn .nil)
    rw [if_pos hlast, List.dropLast_concat, htext, withoutReturn_concat]
  · rw [if_neg hlast, withoutReturn_of_getLast?]
    intro htext
    exact hlast ((readsLossy_decodeLossy piece).getLast? hreturn htext)

/-! ## Whole outputs -/

/-- The notices of a first line and of the lines behind it. -/
theorem pieceNotices_append_lineFeed {piece : List UInt8} (h : lineFeedByte ∉ piece) (rest : List UInt8) :
    pieceNotices (piece ++ lineFeedByte :: rest) =
      (Notice.parse? (decodeLossy (withoutReturnByte piece))).toList ++ pieceNotices rest := by
  rw [pieceNotices, linePieces_append_lineFeed h, List.filterMap_cons]
  cases Notice.parse? (decodeLossy (withoutReturnByte piece)) <;> rfl

/-- **Both ways give the same notices**: decoded as a whole, or each piece for itself. -/
theorem parseOutput_decodeLossy (bytes : List UInt8) :
    Notice.parseOutput (decodeLossy bytes) = pieceNotices bytes := by
  induction bytes using separated_induction lineFeedByte with
  | last piece h =>
    have hfeed : '\n' ∉ decodeLossy piece := lineFeed_mem_decodeLossy_iff.not.mpr h
    rw [Notice.parseOutput, lines_of_lineFeed_not_mem hfeed, pieceNotices, linePieces_of_lineFeed_not_mem h]
    split
    · next hempty =>
      rw [List.filterMap_cons, hempty]
      rfl
    · rfl
  | more piece rest h ih =>
    have hfeed : '\n' ∉ decodeLossy piece := lineFeed_mem_decodeLossy_iff.not.mpr h
    rw [pieceNotices_append_lineFeed h, ← ih, decodeLossy_append_lineFeed, Notice.parseOutput,
      lines_append_lineFeed hfeed, List.filterMap_cons, decodeLossy_withoutReturnByte]
    cases Notice.parse? (withoutReturn (decodeLossy piece)) <;> rfl

/-- What stands behind a line feed does not depend on what stands before it. -/
theorem pieceNotices_append (before behind : List UInt8) :
    pieceNotices (before ++ lineFeedByte :: behind) =
      pieceNotices (before ++ [lineFeedByte]) ++ pieceNotices behind := by
  induction before using separated_induction lineFeedByte with
  | last piece h =>
    have hempty : pieceNotices [] = [] := rfl
    rw [pieceNotices_append_lineFeed h, pieceNotices_append_lineFeed h, hempty, List.append_nil]
  | more piece rest h ih =>
    rw [List.append_assoc, List.append_assoc, List.cons_append, List.cons_append,
      pieceNotices_append_lineFeed h, pieceNotices_append_lineFeed h, ih, List.append_assoc]

/-- **The output of a call that ends well**, whatever bytes it is: its text has one U+FFFD for each maximal
malformed run, its notices are those of the pieces between the line feeds in order, each piece decoded for
itself, and no line changes what is read of the lines before and behind it. -/
theorem AnalyzerCall.notices_piece_by_piece (call : AnalyzerCall) (stdout stderr : List UInt8) :
    ∃ output, call.outcome (.ended (.exited 0) stdout stderr) = .ok output ∧
      (∀ text, ReadsLossy stdout text ↔ output = text) ∧
      Notice.parseOutput output = pieceNotices stdout ∧
      ∀ before line behind, pieceNotices (before ++ lineFeedByte :: (line ++ lineFeedByte :: behind)) =
        pieceNotices (before ++ [lineFeedByte]) ++ pieceNotices (line ++ [lineFeedByte]) ++
          pieceNotices behind := by
  refine ⟨decodeLossy stdout, rfl, ?_, parseOutput_decodeLossy stdout, ?_⟩
  · intro text
    exact decodeLossy_eq_iff.symm
  · intro before line behind
    rw [pieceNotices_append before, pieceNotices_append line, List.append_assoc]

end NoticeServer
