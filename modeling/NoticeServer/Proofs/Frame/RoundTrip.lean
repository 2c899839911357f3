import NoticeServer.Proofs.Frame.Accepting

/-!
# `NoticeServer.Proofs.Frame.RoundTrip` — written frames read back

What is written is a frame. So the reader stops exactly where its body ends, whatever follows
(`FrameReader.read_write`), and the frames of a list are read one after the other
(`FrameReader.readTimes_writeAll`). A value has to be `Framable` for this: exact, not nested too deeply, and
with a text that is not too long.
-/

namespace NoticeServer

/-! ## One frame -/

/-- A value that a frame can carry: exact, not nested too deeply, and with a text that is not too long. -/
structure Framable (v : Json) : Prop where
  exact : v.Exact
  depth_le : v.depth ≤ Json.maxDepth
  length_le : (Utf8.encode v.text).length ≤ maxFrameBytes

namespace FrameReader

open NoticeServer.Frame

/-- A written frame is read as its value, and what stands behind it is left. -/
theorem read_write {v : Json} (h : Framable v) (rest : List UInt8) :
    read (write v ++ rest) = (.frame v, rest) := by
  refine read_eq_frame_iff.mpr ⟨parts (Utf8.encode v.text), valid_parts h.length_le, ?_,
    Json.isText_text h.exact h.depth_le⟩
  rw [bytes_parts]
  rfl

/-! ## Frames one after the other -/

/-- **Frames that are written one after the other are read back in order, and behind them is the end of the
input.** -/
theorem readTimes_writeAll {vs : List Json} (h : ∀ v ∈ vs, Framable v) :
    readTimes (writeAll vs) (vs.length + 1) = vs.map .frame ++ [.finished] := by
  induction vs with
  | nil => rfl
  | cons v vs ih =>
    have hv : Framable v := h v List.mem_cons_self
    have hrest := ih fun w hw => h w (List.mem_cons_of_mem _ hw)
    rw [writeAll, List.flatMap_cons, List.length_cons, readTimes, read_write hv]
    exact congrArg _ hrest

/-- A message with escapes, characters of several bytes, nesting, and members out of order. -/
def sampleMessage : Json :=
  Json.ofMembers
    [("text", .string "\"tab\t\u0001\\ é😀"), ("id", .int (-9223372036854775808)),
      ("parts", .array [.null, .bool true, .int 18446744073709551615, .array [], .object []])]

theorem framable_sampleMessage : Framable sampleMessage where
  exact := by
    have hparts : ∀ v ∈ [Json.null, .bool true, .int 18446744073709551615, .array [], .object []],
        v.Exact := by
      simp only [List.forall_mem_cons]
      exact ⟨.null, .bool true, .int _ (by decide), .array [] nofun, .object [] (by decide) nofun, nofun⟩
    refine Json.exact_ofMembers ?_
    simp only [List.forall_mem_cons]
    exact ⟨.string _, .int _ (by decide), .array _ hparts, nofun⟩
  depth_le := by decide +kernel
  length_le := by decide +kernel

/-- The message twice, with an empty string between. -/
theorem readTimes_sampleMessages :
    (∀ v ∈ [sampleMessage, .string "", sampleMessage], Framable v) ∧
      readTimes (writeAll [sampleMessage, .string "", sampleMessage]) 4 =
        [.frame sampleMessage, .frame (.string ""), .frame sampleMessage, .finished] := by
  have hempty : Framable (.string "") := ⟨.string "", by decide, by decide +kernel⟩
  have hall : ∀ v ∈ [sampleMessage, .string "", sampleMessage], Framable v := by
    simp only [List.forall_mem_cons]
    exact ⟨framable_sampleMessage, hempty, framable_sampleMessage, nofun⟩
  exact ⟨hall, readTimes_writeAll hall⟩

end FrameReader
end NoticeServer
