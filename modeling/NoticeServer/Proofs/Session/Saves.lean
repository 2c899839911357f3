import NoticeServer.Proofs.Server.Documents
import NoticeServer.Proofs.Session.Run

/-!
# `NoticeServer.Proofs.Session.Saves` — which saved documents are scanned for

A saved document starts scans if the language that its history determines is watched
(`Server.scans_of_saves_run`). A document that is not open has the language that its path implies, whatever the
scheme of its URI is. `Session.saves_decided` is about all sessions.
-/

namespace NoticeServer

variable {uri language : String} {history : List ServerInput}

/-- The language of a document depends on the path of this document only. -/
theorem Determined.congr {denote denote' : String → Option Path} (h : denote uri = denote' uri) :
    Determined denote history uri language ↔ Determined denote' history uri language := by
  constructor
  · rintro (hopen | ⟨hclosed, hpath, hextension, himplies⟩)
    · exact .opened hopen
    · exact .implied hclosed (h ▸ hpath) hextension himplies
  · rintro (hopen | ⟨hclosed, hpath, hextension, himplies⟩)
    · exact .opened hopen
    · exact .implied hclosed (h ▸ hpath) hextension himplies

namespace Server

variable {s : Server} {frame : Json}

/-- **The scans of a saved document**: of every root if its language is known and watched while scanning is
active, and none otherwise. -/
theorem scans_of_saves (h : Saves uri frame) :
    (s.handle frame).2.scans =
      match s.language? uri with
      | some language =>
        if s.orchestrator.active = true ∧ s.orchestrator.config.watches language = true then
          s.orchestrator.roots
        else []
      | none => [] := by
  obtain ⟨hmessage, huri⟩ := h
  cases hlanguage : s.language? uri with
  | some language =>
    rw [(handle_of_asks (.saved hmessage huri hlanguage)).2, Orchestrator.scans_answer]
  | none =>
    have hsaved : s.handle frame = s.saved uri := by
      rw [handle_of_notification hmessage]
      simp [notification, huri]
    rw [hsaved, saved, hlanguage]

/-- A saved document behind a history: its scans by the language that the history determines. -/
theorem scans_of_saves_run (config : ScanConfig) (history : List ServerInput) (h : Saves uri frame)
    (hactive : ((fresh config).run history).orchestrator.active = true) :
    let s := (fresh config).run history
    (∀ l, Determined Uri.toPath? history uri l → l ∈ config.languages →
      (s.handle frame).2.scans = s.orchestrator.roots) ∧
    ((∀ l, Determined Uri.toPath? history uri l → l ∉ config.languages) →
      (s.handle frame).2.scans = []) := by
  intro s
  have hconfig : s.orchestrator.config = config := config_run (fresh config) history
  have hwatches (l : String) : s.orchestrator.config.watches l = true ↔ l ∈ config.languages := by
    rw [hconfig]
    exact List.contains_iff_mem
  have hscans := scans_of_saves (s := s) h
  constructor
  · intro l hl hwatched
    rw [hscans, (language?_run_iff config history).mpr hl]
    exact if_pos ⟨hactive, (hwatches l).mpr hwatched⟩
  · intro hunwatched
    rw [hscans]
    cases hlanguage : s.language? uri with
    | none => rfl
    | some l =>
      have hl := (language?_run_iff config history).mp hlanguage
      apply if_neg
      intro hguard
      exact hunwatched l hl ((hwatches l).mp hguard.2)

end Server

namespace Session

/-- **Saved documents are decided by their history.** Behind every history a document has at most one
language: that of its last opening, under just this text for its URI, if it was not closed since, and else
the one that the extension of the path of its URI implies. While scanning is active, a saved document
starts one scan of each root if it has a language and this is watched, and no scan otherwise. What neither
opens nor closes the document can be left out of the history. For a URI that denotes a path only if its
scheme is `file`, it does not matter whether other schemes count. In every session the server takes in
frames and finished scans, and its scans are the analyzer calls. -/
theorem saves_decided (config : ScanConfig) :
    (∀ (history : List ServerInput) (uri : String),
      let s := (Server.fresh config).run history
      (∀ l l', Determined Uri.toPath? history uri l → Determined Uri.toPath? history uri l' → l = l') ∧
      Path.NoTwoEqual s.orchestrator.roots ∧
      (∀ frame, Saves uri frame → s.orchestrator.active = true →
        (∀ l, Determined Uri.toPath? history uri l → l ∈ config.languages →
          (s.handle frame).2.scans = s.orchestrator.roots) ∧
        ((∀ l, Determined Uri.toPath? history uri l → l ∉ config.languages) →
          (s.handle frame).2.scans = [])) ∧
      (Uri.toFilePath? uri = Uri.toPath? uri →
        ∀ l, Determined Uri.toFilePath? history uri l ↔ Determined Uri.toPath? history uri l)) ∧
    (∀ (uri : String) (input : ServerInput), input.IgnoresDocument uri → ∀ before after l,
      Determined Uri.toPath? (before ++ input :: after) uri l ↔
        Determined Uri.toPath? (before ++ after) uri l) ∧
    ∀ events : List SessionEvent,
      let r := (fresh config).run events
      let inputs := (fresh config).inputs events
      r.1.server = (Server.fresh config).run inputs ∧
      r.2.scans = (Server.fresh config).scans inputs ∧
      r.1.invocations.calls.map (·.root) = r.2.scans := by
  refine ⟨?_, ?_, ?_⟩
  · intro history uri s
    refine ⟨?_, ?_, ?_, ?_⟩
    · intro l l' hl hl'
      exact hl.unique hl'
    · exact Server.noTwoEqual_run (Server.noTwoEqual_fresh config) history
    · intro frame hsaves hactive
      exact Server.scans_of_saves_run config history hsaves hactive
    · intro hpath l
      exact Determined.congr hpath
  · intro uri input h before after l
    exact determined_ignored_iff h before after
  · intro events r inputs
    have hfollows := (fresh config).follows_inputs events
    exact ⟨hfollows.server, hfollows.scans, hfollows.calls⟩

/-- A client that opens a folder, turns scanning on, and opens a document in a language of its own. -/
def ownLanguage : List ServerInput :=
  [.frame (.object [("id", .int 1), ("method", .string "initialize"),
      ("params", .object [("rootUri", .string "file:///work")])]),
    .frame (.object [("id", .int 2), ("method", .string "workspace/executeCommand"),
      ("params", .object [("command", .string checkCommand)])]),
    .frame (.object [("method", .string "textDocument/didOpen"),
      ("params", .object [("textDocument",
        .object [("languageId", .string "gomod"), ("uri", .string "file:///work/a.go")])])])]

/-- The message that the document of a URI was saved. -/
def saveOf (uri : String) : Json :=
  .object [("method", .string "textDocument/didSave"),
    ("params", .object [("textDocument", .object [("uri", .string uri)])])]

theorem saves_saveOf (uri : String) : Saves uri (saveOf uri) := ⟨rfl, rfl⟩

/-- The document that is open in a language of its own starts no scan, another document of the same path
does. -/
theorem saves_ownLanguage :
    let s := (Server.fresh {}).run ownLanguage
    s.orchestrator.active = true ∧
      Determined Uri.toPath? ownLanguage "file:///work/a.go" "gomod" ∧
      (s.handle (saveOf "file:///work/a.go")).2.scans = [] ∧
      Determined Uri.toPath? ownLanguage "file:///work//a.go" "go" ∧
      (s.handle (saveOf "file:///work//a.go")).2.scans = [Path.ofString "/work"] := by
  intro s
  obtain ⟨hdecided, -, -⟩ := saves_decided {}
  have hactive : s.orchestrator.active = true := by decide +kernel
  have hgomod : Determined Uri.toPath? ownLanguage "file:///work/a.go" "gomod" :=
    (Server.language?_run_iff {} ownLanguage).mp (by decide +kernel)
  have hgo : Determined Uri.toPath? ownLanguage "file:///work//a.go" "go" :=
    (Server.language?_run_iff {} ownLanguage).mp (by decide +kernel)
  have hroots : s.orchestrator.roots = [Path.ofString "/work"] := by decide +kernel
  refine ⟨hactive, hgomod, ?_, hgo, ?_⟩
  · have hsaved := (hdecided ownLanguage "file:///work/a.go").2.2.1 _ (saves_saveOf _) hactive
    apply hsaved.2
    intro l hl
    rw [hl.unique hgomod]
    decide
  · have hsaved := (hdecided ownLanguage "file:///work//a.go").2.2.1 _ (saves_saveOf _) hactive
    rw [← hroots]
    exact hsaved.1 "go" hgo (by decide)

/-- A document whose URI has another scheme than `file` starts scans, too: by its path it is one of Go, and it
was never opened. -/
theorem saves_otherScheme :
    let s := (Server.fresh {}).run ownLanguage
    s.orchestrator.active = true ∧
      Saves "git:/work/main.go" (saveOf "git:/work/main.go") ∧
      (∀ l, ¬ Determined Uri.toFilePath? ownLanguage "git:/work/main.go" l) ∧
      (s.handle (saveOf "git:/work/main.go")).2.scans = [Path.ofString "/work"] := by
  intro s
  have hclosed : s.openDocuments.lookup "git:/work/main.go" = none := by decide +kernel
  have hscheme : Uri.toFilePath? "git:/work/main.go" = none := by decide +kernel
  refine ⟨by decide +kernel, saves_saveOf _, ?_, by decide +kernel⟩
  intro l hl
  cases hl with
  | opened hopen => exact absurd (hclosed.symm.trans ((Server.lookup_run_iff {} _).mpr hopen)) nofun
  | implied _ hpath _ _ => exact absurd (hscheme.symm.trans hpath) nofun

end Session
end NoticeServer
