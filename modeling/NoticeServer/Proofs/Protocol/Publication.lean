import Mathlib.Data.List.Forall2
import NoticeServer.Proofs.Protocol.Message
import NoticeServer.Proofs.Uri.Paths

/-!
# `NoticeServer.Proofs.Protocol.Publication` — what the frame of a publication says

The frame of a publication names its file by a URI and carries its diagnostics in order (`Shows`). A publication
without an absolute path would have no frame; of the others none is left out
(`forall₂_shows_publicationFrames`), and the URIs in their frames tell their files apart just as paths do
(`Shows.uri_eq_iff`).
-/

namespace NoticeServer

/-- What stands below keys of objects, one in the other. -/
def Json.at? (v : Json) : List String → Option Json
  | [] => some v
  | key :: keys => (v.member? key).bind (·.at? keys)

/-! ## Diagnostics and publications -/

/-- A value that says all about a diagnostic but its path. -/
structure Carries (v : Json) (d : Diagnostic) : Prop where
  startLine : v.at? ["range", "start", "line"] = some (.int d.range.start.line.toNat)
  startCharacter : v.at? ["range", "start", "character"] = some (.int d.range.start.character.toNat)
  stopLine : v.at? ["range", "end", "line"] = some (.int d.range.stop.line.toNat)
  stopCharacter : v.at? ["range", "end", "character"] = some (.int d.range.stop.character.toNat)
  message : v.at? ["message"] = some (.string d.message)
  severity : v.at? ["severity"] = some (.int Diagnostic.severityLevel)
  source : v.at? ["source"] = some (.string Diagnostic.source)

/-- A frame that publishes the diagnostics of a publication, in order, for the file at its path. -/
structure Shows (frame : Json) (pub : Publication) : Prop where
  publishes : Publishes frame
  uri : ∃ uri, Uri.ofPath? pub.path = some uri ∧ frame.at? ["params", "uri"] = some (.string uri)
  diagnostics : ∃ items, frame.at? ["params", "diagnostics"] = some (.array items) ∧
    List.Forall₂ Carries items pub.items

theorem carries_toJson (d : Diagnostic) : Carries d.toJson d := by
  constructor <;>
    simp [Json.at?, Diagnostic.toJson, Range.toJson, Position.toJson, Json.ofMembers, Json.member?,
      Json.lookup_insertMember, Json.nat]

theorem shows_of_publicationFrame {pub : Publication} {frame : Json}
    (h : publicationFrame? pub = some frame) : Shows frame pub := by
  have hpublishes := publishes_of_publicationFrame h
  obtain ⟨uri, huri, rfl⟩ := Option.map_eq_some_iff.mp h
  refine ⟨hpublishes, ⟨uri, huri, ?_⟩, pub.items.map Diagnostic.toJson, ?_, ?_⟩
  · simp [Json.at?, Json.ofMembers, Json.member?, Json.lookup_insertMember]
  · simp [Json.at?, Json.ofMembers, Json.member?, Json.lookup_insertMember]
  · exact List.forall₂_map_left_iff.mpr (List.forall₂_same.mpr fun d _ => carries_toJson d)

/-- **No publication at an absolute path is left out**: each has one frame, in its place. -/
theorem forall₂_shows_publicationFrames {pubs : List Publication}
    (h : ∀ pub ∈ pubs, pub.path.isAbsolute = true) : List.Forall₂ Shows (publicationFrames pubs) pubs := by
  induction pubs with
  | nil => exact .nil
  | cons pub pubs ih =>
    obtain ⟨hpub, hpubs⟩ := List.forall_mem_cons.mp h
    have hframe : publicationFrame? pub = some _ :=
      Option.map_eq_some_iff.mpr ⟨_, Uri.ofPath?_of_absolute hpub, rfl⟩
    rw [publicationFrames, List.filterMap_cons, hframe]
    exact .cons (shows_of_publicationFrame hframe) (ih hpubs)

/-- **Frames name the same file** just if they are for equivalent paths. -/
theorem Shows.uri_eq_iff {frame frame' : Json} {pub pub' : Publication} (h : Shows frame pub)
    (h' : Shows frame' pub') :
    frame.at? ["params", "uri"] = frame'.at? ["params", "uri"] ↔ pub.path ≈ pub'.path := by
  obtain ⟨uri, huri, hframe⟩ := h.uri
  obtain ⟨uri', huri', hframe'⟩ := h'.uri
  have habs : pub.path.isAbsolute = true := by
    rw [← Uri.isSome_ofPath?, huri, Option.isSome_some]
  have habs' : pub'.path.isAbsolute = true := by
    rw [← Uri.isSome_ofPath?, huri', Option.isSome_some]
  rw [hframe, hframe', ← Uri.ofPath?_eq_iff habs habs', huri, huri']
  simp

/-! ## Publications among other frames -/

/-- The frames of the server that are no answers. -/
def notices (frames : List Json) : List Json := frames.filter fun frame => (frame.member? "id").isNone

theorem notices_append (frames more : List Json) :
    notices (frames ++ more) = notices frames ++ notices more := List.filter_append frames more

theorem notices_answer {answer id : Json} (h : Answers answer id) (frames : List Json) :
    notices (answer :: frames) = notices frames := by
  have hid : ¬ (answer.member? "id").isNone = true := by simp [h.id]
  exact List.filter_cons_of_neg hid

@[simp] theorem notices_publicationFrames (pubs : List Publication) :
    notices (publicationFrames pubs) = publicationFrames pubs := by
  apply List.filter_eq_self.mpr
  intro frame hframe
  rw [(publishes_of_mem hframe).id, Option.isNone_none]

end NoticeServer
