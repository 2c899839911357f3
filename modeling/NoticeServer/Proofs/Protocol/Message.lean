import NoticeServer.Protocol.Message

/-!
# `NoticeServer.Proofs.Protocol.Message` — what the members of a frame tell

Whether a frame of the client asks for an answer can be read off its members `method` and `id`, and
whether a frame of the server is an answer or a publication off `id`, `result`, `error` and `method`. These
views (`requestId?`, `IsExit`, `Answers`, `Publishes`) mention no reader and no writer of messages; that the
messages of the program agree with them is shown here once.
-/

namespace NoticeServer

/-! ## Members of objects -/

namespace Json

theorem lookup_cons (m : String × Json) (members : List (String × Json)) (key : String) :
    (m :: members).lookup key = if key = m.1 then some m.2 else members.lookup key := by
  obtain ⟨k, v⟩ := m
  rw [List.lookup_cons]
  by_cases h : key = k
  · simp [h]
  · have hne : (key == k) = false := beq_false_of_ne h
    simp [hne, h]

/-- A member that is put into its place changes the value of its key only. -/
theorem lookup_insertMember (key other : String) (value : Json) (members : List (String × Json)) :
    (insertMember key value members).lookup other =
      if other = key then some value else members.lookup other := by
  induction members with
  | nil => exact lookup_cons (key, value) [] other
  | cons m members ih =>
    unfold insertMember
    split
    · next hkey =>
      rw [lookup_cons, lookup_cons, ← hkey]
      by_cases h : other = key <;> simp [h]
    split
    · exact lookup_cons (key, value) (m :: members) other
    · next hkey _ =>
      -- the new member goes behind this one, whose key it does not have
      rw [lookup_cons, lookup_cons, ih]
      by_cases h : other = key <;> simp [h, hkey]

end Json

/-! ## Frames of the client -/

/-- The id of a frame that asks for an answer: it has an `id`, of whatever kind, and a method. -/
def requestId? (frame : Json) : Option Json :=
  match frame.member? "method" with
  | some (.string _) => frame.member? "id"
  | _ => none

/-- A frame that tells the server to exit, and asks for no answer. -/
structure IsExit (frame : Json) : Prop where
  method : frame.member? "method" = some (.string "exit")
  id : frame.member? "id" = none

/-- A frame that just tells the server to exit asks for no answer. -/
theorem requestId?_of_isExit {frame : Json} (h : IsExit frame) : requestId? frame = none := by
  unfold requestId?
  rw [h.method, h.id]

namespace Incoming

/-- The message of a frame by its method and its id. -/
theorem ofFrame_eq (frame : Json) :
    ofFrame frame =
      match frame.member? "method", frame.member? "id" with
      | some (.string method), some id => .request id method ((frame.member? "params").getD .null)
      | some (.string method), none => .notification method ((frame.member? "params").getD .null)
      | _, _ => .other := by
  unfold ofFrame
  cases frame.member? "method" with
  | none => rfl
  | some v =>
    cases v with
    | string method => cases frame.member? "id" <;> rfl
    | _ => rfl

/-- A frame asks for an answer if it is a request. -/
theorem requestId?_eq (frame : Json) :
    requestId? frame =
      match ofFrame frame with
      | .request id _ _ => some id
      | _ => none := by
  rw [ofFrame_eq]
  unfold requestId?
  split
  · next hmethod =>
    rw [hmethod]
    cases frame.member? "id" <;> rfl
  · next hmethod =>
    split
    · next hrequest =>
      split at hrequest
      · next hstring _ => exact absurd hstring (hmethod _)
      · exact absurd hrequest nofun
      · exact absurd hrequest nofun
    · rfl

theorem isExit_iff {frame : Json} :
    IsExit frame ↔ ∃ params, ofFrame frame = .notification "exit" params := by
  rw [ofFrame_eq]
  constructor
  · rintro ⟨hmethod, hid⟩
    exact ⟨_, by rw [hmethod, hid]⟩
  · rintro ⟨params, h⟩
    split at h
    · exact absurd h nofun
    · next hmethod hid =>
      obtain ⟨rfl, -⟩ := Incoming.notification.inj h
      exact ⟨hmethod, hid⟩
    · exact absurd h nofun

/-- A frame is no message if it has no method. -/
theorem ofFrame_eq_other_iff {frame : Json} :
    ofFrame frame = .other ↔ ∀ method, frame.member? "method" ≠ some (.string method) := by
  rw [ofFrame_eq]
  constructor
  · intro h method hmethod
    rw [hmethod] at h
    cases hid : frame.member? "id" with
    | none => rw [hid] at h; exact absurd h nofun
    | some id => rw [hid] at h; exact absurd h nofun
  · intro h
    split
    · next hmethod _ => exact absurd hmethod (h _)
    · next hmethod _ => exact absurd hmethod (h _)
    · rfl

end Incoming

/-! ## Frames of the server -/

/-- The answer to the request of an id: it carries just this id, and either a result or an error. -/
structure Answers (frame id : Json) : Prop where
  id : frame.member? "id" = some id
  resultOrError : frame.member? "result" = none ↔ ¬ frame.member? "error" = none
  method : frame.member? "method" = none

/-- A notification that publishes diagnostics. -/
structure Publishes (frame : Json) : Prop where
  method : frame.member? "method" = some (.string publishMethod)
  id : frame.member? "id" = none
  result : frame.member? "result" = none
  error : frame.member? "error" = none

theorem answers_response (id result : Json) : Answers (response id result) id := by
  constructor <;> simp [response, Json.ofMembers, Json.member?, Json.lookup_insertMember, versionMember]

theorem error_response (id result : Json) : (response id result).member? "error" = none := by
  simp [response, Json.ofMembers, Json.member?, Json.lookup_insertMember, versionMember]

theorem answers_errorResponse (id : Json) (e : RequestError) : Answers (errorResponse id e) id := by
  constructor <;>
    simp [errorResponse, Json.ofMembers, Json.member?, Json.lookup_insertMember, versionMember]

theorem publishes_of_publicationFrame {p : Publication} {frame : Json}
    (h : publicationFrame? p = some frame) : Publishes frame := by
  obtain ⟨uri, -, rfl⟩ := Option.map_eq_some_iff.mp h
  constructor <;> simp [Json.ofMembers, Json.member?, Json.lookup_insertMember, versionMember]

/-- The frames of publications publish, each of them. -/
theorem publishes_of_mem {publications : List Publication} {frame : Json}
    (h : frame ∈ publicationFrames publications) : Publishes frame := by
  obtain ⟨p, -, hframe⟩ := List.mem_filterMap.mp h
  exact publishes_of_publicationFrame hframe

end NoticeServer
