import NoticeServer.Analyzer
import NoticeServer.Proofs.Text.Excerpt

/-!
# `NoticeServer.Proofs.Analyzer.ErrorOutput` — what a failed call tells of its error output

A process that ends badly may have written anything. Its error output is decoded, trimmed and cut behind the
longest start that fits, so what a failed call tells has a bound and ends in no broken character.

Which calls tell an error output is said once for each direction (`AnalyzerCall.outcome_of_ended`,
`AnalyzerCall.ended_of_outcome`); the rest is the general excerpt of `Text.Excerpt`, at the limit of the
program. `AnalyzerCall.excerpt_longest_start` is about both.
-/

namespace NoticeServer

open Text Utf8

/-- The exit code of a process; one that was killed has none. -/
def ProcessEnd.code? : ProcessEnd → Option Int
  | .exited code => some code
  | .killed => none

namespace AnalyzerCall

variable (call : AnalyzerCall)

/-- **A process that ended badly** fails the call, whatever it wrote. -/
theorem outcome_of_ended {how : ProcessEnd} (h : how ≠ .exited 0) (stdout stderr : List UInt8) :
    call.outcome (.ended how stdout stderr) = .error (.failed how.code? (stderrText stderr)) := by
  cases how with
  | exited code =>
    have hcode : code ≠ 0 := fun hzero => h (congrArg ProcessEnd.exited hzero)
    rw [outcome, if_neg hcode]
    rfl
  | killed => rfl

/-- Nothing else fails a call with an error output. -/
theorem ended_of_outcome {execution : Execution} {code? : Option Int} {told : String}
    (h : call.outcome execution = .error (.failed code? told)) :
    ∃ how stdout stderr, how ≠ .exited 0 ∧ execution = .ended how stdout stderr := by
  cases execution with
  | notFound => exact absurd h nofun
  | notStarted => exact absurd h nofun
  | timedOut => exact absurd h nofun
  | ended how stdout stderr =>
    refine ⟨how, stdout, stderr, ?_, rfl⟩
    rintro rfl
    exact absurd h nofun

/-- What a failed call tells is a start of its error output within the limit, with or without an ellipsis. -/
theorem exists_kept {how : ProcessEnd} (h : how ≠ .exited 0) (stdout stderr : List UInt8) :
    ∃ told kept, call.outcome (.ended how stdout stderr) = .error (.failed how.code? told) ∧
      excerpt? (trim (decodeLossy stderr)) 512 = some told.toList ∧
      kept <+: trim (decodeLossy stderr) ∧ (encode kept).length ≤ 512 ∧
      (told.toList = kept ∨ told.toList = kept ++ ['…']) := by
  have htold : excerpt? (trim (decodeLossy stderr)) 512 = some (stderrText stderr).toList := by
    rw [stderrText, String.toList_ofList]
    exact excerpt?_eq _ stderrLimit
  obtain ⟨kept, hstart, hfits, hkept⟩ := exists_kept_of_excerpt? htold
  exact ⟨stderrText stderr, kept, call.outcome_of_ended h stdout stderr, htold, hstart, hfits, hkept⟩

/-- **Excerpts.** Boundaries are where the starts of a text end. A text that fits is its own excerpt; of any
other the longest start that fits is kept, with an ellipsis behind it, and the search for its end stops within
three steps without passing the start of the text. So a call fails with at most 512 bytes of its error output,
whatever bytes these are. -/
theorem excerpt_longest_start :
    (∀ text offset, isBoundary (encode text) offset = true ↔
      ∃ start, start <+: text ∧ (encode start).length = offset) ∧
    (∀ text limit, (encode text).length ≤ limit → excerpt? text limit = some text) ∧
    (∀ text limit, limit < (encode text).length →
      ∃ kept steps, LongestStart limit text kept ∧
        boundaryUpTo? (encode text) limit = some (encode kept).length ∧
        StepsBack (encode text) limit steps (encode kept).length ∧ steps ≤ 3 ∧
        excerpt? text limit = some (kept ++ ['…'])) ∧
    (∀ (call : AnalyzerCall) how stdout stderr, how ≠ .exited 0 →
      ∃ told kept, call.outcome (.ended how stdout stderr) = .error (.failed how.code? told) ∧
        excerpt? (trim (decodeLossy stderr)) 512 = some told.toList ∧
        kept <+: trim (decodeLossy stderr) ∧ (encode kept).length ≤ 512 ∧
        (told.toList = kept ∨ told.toList = kept ++ ['…'])) ∧
    ∀ (call : AnalyzerCall) execution code? told, call.outcome execution = .error (.failed code? told) →
      ∃ how stdout stderr, how ≠ .exited 0 ∧ execution = .ended how stdout stderr := by
  refine ⟨?_, ?_, ?_, ?_, ?_⟩
  · intro text offset
    exact isBoundary_iff
  · intro text limit h
    exact excerpt?_of_le h
  · intro text limit h
    exact excerpt?_of_lt h
  · intro call how stdout stderr h
    exact call.exists_kept h stdout stderr
  · intro call execution code? told h
    exact call.ended_of_outcome h

/-- An error output with the limit in the middle of its last character. -/
def splitErrorOutput : List UInt8 := List.replicate 511 0x78 ++ [0xC3, 0xA9, 0x0A]

theorem excerpt_splitErrorOutput :
    ((encode "é".toList).length ≤ 2 ∧ excerpt? "é".toList 2 = some "é".toList) ∧
    (1 < (encode "é".toList).length ∧ ∃ kept steps, LongestStart 1 "é".toList kept ∧
      boundaryUpTo? (encode "é".toList) 1 = some (encode kept).length ∧
      StepsBack (encode "é".toList) 1 steps (encode kept).length ∧ steps ≤ 3 ∧
      excerpt? "é".toList 1 = some (kept ++ ['…'])) ∧
    (ProcessEnd.killed ≠ .exited 0 ∧
      (AnalyzerCall.mk "nudge" [] 5).outcome (.ended .killed [] splitErrorOutput) =
        .error (.failed none (String.ofList (List.replicate 511 'x' ++ ['…'])))) ∧
    ∃ how stdout stderr, how ≠ .exited 0 ∧
      Execution.ended .killed [] splitErrorOutput = .ended how stdout stderr := by
  obtain ⟨-, hwhole, hcut, hfailed, hended⟩ := excerpt_longest_start
  have hkilled : ProcessEnd.killed ≠ .exited 0 := nofun
  have hexcerpt : excerpt? (trim (decodeLossy splitErrorOutput)) 512 =
      some (List.replicate 511 'x' ++ ['…']) := by decide +kernel
  obtain ⟨told, _, houtcome, htold, -⟩ :=
    hfailed ⟨"nudge", [], 5⟩ .killed [] splitErrorOutput hkilled
  have htext : told = String.ofList (List.replicate 511 'x' ++ ['…']) := by
    rw [← Option.some.inj (htold.symm.trans hexcerpt), String.ofList_toList]
  rw [htext] at houtcome
  exact ⟨⟨by decide, hwhole _ 2 (by decide)⟩, ⟨by decide, hcut _ 1 (by decide)⟩, ⟨hkilled, houtcome⟩,
    hended _ _ _ _ houtcome⟩

end AnalyzerCall
end NoticeServer
