import NoticeServer.Proofs.Server.Effect
import NoticeServer.Proofs.Uri.Paths

/-!
# `NoticeServer.Proofs.Server.Documents` — the languages of documents, as a function of the history

A document has the language that it was opened with last, unless it was closed since; all that its URI says
then does not count. Only the openings and closings of a document, by just the same text for its URI, have
a say in this (`determined_ignored_iff`). `Determined` tells the language from the history alone, and
`Server.language?_run_iff` says that it is the one that the server finds.
-/

namespace NoticeServer

/-! ## Histories -/

namespace ServerInput

/-- A message that opens the document of a URI in some language. -/
inductive Opens (uri language : String) : ServerInput → Prop where
  | message {frame params : Json} (h : Incoming.ofFrame frame = .notification "textDocument/didOpen" params)
      (hdoc : OpenedDocument.read? params = some ⟨uri, language⟩) : Opens uri language (.frame frame)

/-- A message that closes the document of a URI. -/
inductive Closes (uri : String) : ServerInput → Prop where
  | message {frame params : Json} (h : Incoming.ofFrame frame = .notification "textDocument/didClose" params)
      (huri : readDocumentUri? params = some uri) : Closes uri (.frame frame)

/-- Anything that neither opens nor closes the document of a URI. -/
structure IgnoresDocument (uri : String) (input : ServerInput) : Prop where
  opens : ∀ language, ¬ input.Opens uri language
  closes : ¬ input.Closes uri

end ServerInput

/-- A message that tells that the document of a URI was saved. -/
inductive Saves (uri : String) (frame : Json) : Prop where
  | message {params : Json} (h : Incoming.ofFrame frame = .notification "textDocument/didSave" params)
      (huri : readDocumentUri? params = some uri)

/-- Behind a history a document is open in some language: it was opened in it, and since then neither
opened nor closed. -/
def IsOpenAs (history : List ServerInput) (uri language : String) : Prop :=
  ∃ earlier input later, history = earlier ++ input :: later ∧ input.Opens uri language ∧
    ∀ i ∈ later, i.IgnoresDocument uri

/-- The languages that extensions imply. -/
inductive Implies : List UInt8 → String → Prop where
  | go : Implies (Utf8.encode "go".toList) "go"
  | rust : Implies (Utf8.encode "rs".toList) "rust"
  | source : Implies (Utf8.encode "c".toList) "c"
  | header : Implies (Utf8.encode "h".toList) "c"

/-- The language of a document behind a history, where `denote` tells which path a URI denotes: that in
which it is open, else the one that the extension of its path implies. -/
inductive Determined (denote : String → Option Path) (history : List ServerInput) (uri : String) :
    String → Prop where
  | opened {language : String} (h : IsOpenAs history uri language) : Determined denote history uri language
  | implied {path : Path} {extension : List UInt8} {language : String}
      (hclosed : ∀ l, ¬ IsOpenAs history uri l) (hpath : denote uri = some path)
      (hextension : path.extension? = some extension) (h : Implies extension language) :
      Determined denote history uri language

theorem languageOfExtension?_eq_some_iff {extension : List UInt8} {language : String} :
    languageOfExtension? extension = some language ↔ Implies extension language := by
  constructor
  · intro h
    unfold languageOfExtension? at h
    split at h
    · next hgo => obtain rfl := Option.some.inj h; subst hgo; exact .go
    split at h
    · next hrs => obtain rfl := Option.some.inj h; subst hrs; exact .rust
    split at h
    · next hc =>
      obtain rfl := Option.some.inj h
      rcases hc with rfl | rfl
      · exact .source
      · exact .header
    · exact absurd h nofun
  · rintro (_ | _ | _ | _) <;> decide

/-- The language that a URI implies is that of its path's extension. -/
theorem languageOfUri?_eq_some_iff {uri language : String} :
    languageOfUri? uri = some language ↔
      ∃ path extension, Uri.toPath? uri = some path ∧ path.extension? = some extension ∧
        Implies extension language := by
  unfold languageOfUri?
  constructor
  · intro h
    obtain ⟨extension, hextension, hlanguage⟩ := Option.bind_eq_some_iff.mp h
    obtain ⟨path, hpath, hextension⟩ := Option.bind_eq_some_iff.mp hextension
    exact ⟨path, extension, hpath, hextension, languageOfExtension?_eq_some_iff.mp hlanguage⟩
  · rintro ⟨path, extension, hpath, hextension, hlanguage⟩
    rw [hpath, Option.bind_some, hextension, Option.bind_some]
    exact languageOfExtension?_eq_some_iff.mpr hlanguage

namespace Server

variable {s : Server} {uri language : String} {input : ServerInput}

/-! ## One input -/

/-- Without the entries of one key, that key has no value and every other keeps its own. -/
theorem lookup_filter_ne (documents : List (String × String)) (removed uri : String) :
    (documents.filter (·.1 ≠ removed)).lookup uri =
      if uri = removed then none else documents.lookup uri := by
  induction documents with
  | nil => simp
  | cons doc documents ih =>
    by_cases hdoc : doc.1 = removed
    · rw [List.filter_cons_of_neg (by simp [hdoc]), ih, List.lookup_cons]
      by_cases huri : uri = removed
      · rw [if_pos huri, if_pos huri]
      · rw [if_neg huri, if_neg huri, beq_false_of_ne (hdoc ▸ huri)]
    · rw [List.filter_cons_of_pos (by simp [hdoc]), List.lookup_cons, List.lookup_cons, ih]
      by_cases huri : uri = doc.1
      · have hne : uri ≠ removed := huri ▸ hdoc
        rw [if_neg hne, if_neg hne, beq_iff_eq.mpr huri]
      · rw [beq_false_of_ne huri]

theorem lookup_openDocument (s : Server) (doc : OpenedDocument) (uri : String) :
    (s.openDocument doc).openDocuments.lookup uri =
      if uri = doc.uri then some doc.language else s.openDocuments.lookup uri := by
  show ((doc.uri, doc.language) :: s.openDocuments.filter (·.1 ≠ doc.uri)).lookup uri = _
  rw [List.lookup_cons, lookup_filter_ne]
  by_cases huri : uri = doc.uri
  · simp [huri]
  · rw [beq_false_of_ne huri, if_neg huri, if_neg huri]

theorem lookup_closeDocument (s : Server) (closed uri : String) :
    (s.closeDocument closed).openDocuments.lookup uri =
      if uri = closed then none else s.openDocuments.lookup uri :=
  lookup_filter_ne s.openDocuments closed uri

theorem handle_of_notification {frame params : Json} {method : String}
    (h : Incoming.ofFrame frame = .notification method params) :
    s.handle frame = s.notification method params := by
  unfold handle
  rw [h]

theorem lookup_take_of_opens (h : input.Opens uri language) :
    (s.take input).1.openDocuments.lookup uri = some language := by
  cases h with
  | message h hdoc =>
    show (s.handle _).1.openDocuments.lookup uri = some language
    rw [handle_of_notification h]
    simp [notification, hdoc, lookup_openDocument]

theorem lookup_take_of_closes (h : input.Closes uri) :
    (s.take input).1.openDocuments.lookup uri = none := by
  cases h with
  | message h huri =>
    show (s.handle _).1.openDocuments.lookup uri = none
    rw [handle_of_notification h]
    simp [notification, huri, lookup_closeDocument]

theorem openDocuments_command (s : Server) (id params : Json) :
    (s.command id params).1.openDocuments = s.openDocuments := by
  unfold command
  split
  · rfl
  split
  · rfl
  · rfl

theorem openDocuments_ready (s : Server) : s.ready.1.openDocuments = s.openDocuments := by
  unfold ready
  split <;> rfl

theorem openDocuments_saved (s : Server) (uri : String) :
    (s.saved uri).1.openDocuments = s.openDocuments := by
  unfold saved
  split <;> rfl

/-- **What neither opens nor closes a document** leaves its language. -/
theorem lookup_take_of_ignores (h : input.IgnoresDocument uri) :
    (s.take input).1.openDocuments.lookup uri = s.openDocuments.lookup uri := by
  have heffect := s.effect_take input
  generalize s.take input = result at heffect ⊢
  cases heffect with
  | finished c => rfl
  | noMessage hmessage => rfl
  | refused e hmessage hrefused => rfl
  | started hmessage hopen => rfl
  | shutdown hmessage hopen => rfl
  | command hmessage hopen => rw [openDocuments_command]
  | exit hmessage => rfl
  | ready hmessage => rw [openDocuments_ready]
  | @opened v params doc hmessage hdoc =>
    have hne : uri ≠ doc.uri := by
      rintro rfl
      exact h.opens doc.language (.message hmessage hdoc)
    exact (s.lookup_openDocument doc uri).trans (if_neg hne)
  | @closed v params closed hmessage hclosed =>
    have hne : uri ≠ closed := by
      rintro rfl
      exact h.closes (.message hmessage hclosed)
    exact (s.lookup_closeDocument closed uri).trans (if_neg hne)
  | saved hmessage huri => rw [openDocuments_saved]
  | folders hmessage hchange => rfl
  | ignored hmessage hignored => rfl

/-! ## Whole histories -/

theorem IsOpenAs.cons {history : List ServerInput} (h : IsOpenAs history uri language)
    (input : ServerInput) : IsOpenAs (input :: history) uri language := by
  obtain ⟨earlier, opening, later, rfl, hopens, hlater⟩ := h
  exact ⟨input :: earlier, opening, later, rfl, hopens, hlater⟩

/-- What ignores a document leaves its language, all along. -/
theorem lookup_run_of_ignores {history : List ServerInput} (h : ∀ i ∈ history, i.IgnoresDocument uri)
    (s : Server) : (s.run history).openDocuments.lookup uri = s.openDocuments.lookup uri := by
  induction history generalizing s with
  | nil => rfl
  | cons input history ih =>
    obtain ⟨hinput, hrest⟩ := List.forall_mem_cons.mp h
    rw [run_cons, ih hrest, lookup_take_of_ignores hinput]

/-- A document that has a language behind a history was opened in it, or had it from the start. -/
theorem isOpenAs_of_lookup_run {history : List ServerInput} {s : Server}
    (h : (s.run history).openDocuments.lookup uri = some language) :
    IsOpenAs history uri language ∨
      (s.openDocuments.lookup uri = some language ∧ ∀ i ∈ history, i.IgnoresDocument uri) := by
  induction history generalizing s with
  | nil => exact .inr ⟨h, nofun⟩
  | cons input history ih =>
    rcases ih h with hopen | ⟨hlookup, hrest⟩
    · exact .inl (IsOpenAs.cons hopen input)
    · -- nothing happens to the document after the first input, so that decides
      by_cases hopens : ∃ l, input.Opens uri l
      · obtain ⟨l, hl⟩ := hopens
        obtain rfl : l = language := Option.some.inj ((lookup_take_of_opens hl).symm.trans hlookup)
        exact .inl ⟨[], input, history, rfl, hl, hrest⟩
      by_cases hcloses : input.Closes uri
      · exact absurd ((lookup_take_of_closes hcloses).symm.trans hlookup) nofun
      · have hignores : input.IgnoresDocument uri := ⟨not_exists.mp hopens, hcloses⟩
        rw [lookup_take_of_ignores hignores] at hlookup
        exact .inr ⟨hlookup, List.forall_mem_cons.mpr ⟨hignores, hrest⟩⟩

/-- **The open documents behind a history** are those that it opened last and did not close since. -/
theorem lookup_run_iff (config : ScanConfig) (history : List ServerInput) :
    ((fresh config).run history).openDocuments.lookup uri = some language ↔
      IsOpenAs history uri language := by
  constructor
  · intro h
    rcases isOpenAs_of_lookup_run h with hopen | ⟨hfresh, -⟩
    · exact hopen
    · exact absurd hfresh nofun
  · rintro ⟨earlier, input, later, rfl, hopens, hlater⟩
    rw [run_append, run_cons, lookup_run_of_ignores hlater, lookup_take_of_opens hopens]

/-- **The language that the server finds** is the one that the history determines. -/
theorem language?_run_iff (config : ScanConfig) (history : List ServerInput) :
    ((fresh config).run history).language? uri = some language ↔
      Determined Uri.toPath? history uri language := by
  unfold language?
  constructor
  · intro h
    rcases Option.or_eq_some_iff.mp h with hopen | ⟨hclosed, himplied⟩
    · exact .opened ((lookup_run_iff config history).mp hopen)
    · obtain ⟨path, extension, hpath, hextension, hlanguage⟩ := languageOfUri?_eq_some_iff.mp himplied
      refine .implied ?_ hpath hextension hlanguage
      intro l hl
      exact absurd (hclosed.symm.trans ((lookup_run_iff config history).mpr hl)) nofun
  · intro h
    cases h with
    | opened h => rw [(lookup_run_iff config history).mpr h, Option.some_or]
    | implied hclosed hpath hextension h =>
      have hnone : ((fresh config).run history).openDocuments.lookup uri = none := by
        apply Option.eq_none_iff_forall_ne_some.mpr
        intro l hl
        exact hclosed l ((lookup_run_iff config history).mp hl)
      rw [hnone, Option.none_or]
      exact languageOfUri?_eq_some_iff.mpr ⟨_, _, hpath, hextension, h⟩

end Server

/-! ## What has no say -/

namespace Server

/-- What becomes of a document depends on nothing but its language before. -/
theorem lookup_take_congr {s t : Server} {uri : String}
    (h : s.openDocuments.lookup uri = t.openDocuments.lookup uri) (input : ServerInput) :
    (s.take input).1.openDocuments.lookup uri = (t.take input).1.openDocuments.lookup uri := by
  by_cases hopens : ∃ l, input.Opens uri l
  · obtain ⟨l, hl⟩ := hopens
    rw [lookup_take_of_opens hl, lookup_take_of_opens hl]
  by_cases hcloses : input.Closes uri
  · rw [lookup_take_of_closes hcloses, lookup_take_of_closes hcloses]
  · have hignores : input.IgnoresDocument uri := ⟨not_exists.mp hopens, hcloses⟩
    rw [lookup_take_of_ignores hignores, lookup_take_of_ignores hignores, h]

theorem lookup_run_congr {s t : Server} {uri : String}
    (h : s.openDocuments.lookup uri = t.openDocuments.lookup uri) (history : List ServerInput) :
    (s.run history).openDocuments.lookup uri = (t.run history).openDocuments.lookup uri := by
  induction history generalizing s t with
  | nil => exact h
  | cons input history ih => exact ih (lookup_take_congr h input)

end Server

variable {denote : String → Option Path} {uri language : String} {input : ServerInput}

/-- What ignores a document can be left out of a history, or put into it. -/
theorem isOpenAs_ignored_iff (h : input.IgnoresDocument uri) (before after : List ServerInput) :
    IsOpenAs (before ++ input :: after) uri language ↔ IsOpenAs (before ++ after) uri language := by
  have hignored := Server.lookup_take_of_ignores (s := (Server.fresh {}).run before) h
  have hsame := Server.lookup_run_congr hignored after
  rw [← Server.lookup_run_iff {}, ← Server.lookup_run_iff {}, Server.run_append, Server.run_append,
    Server.run_cons, hsame]

/-- **The language of a document** does not depend on what ignores it. -/
theorem determined_ignored_iff (h : input.IgnoresDocument uri) (before after : List ServerInput) :
    Determined denote (before ++ input :: after) uri language ↔
      Determined denote (before ++ after) uri language := by
  constructor
  · intro hdetermined
    cases hdetermined with
    | opened hopen => exact .opened ((isOpenAs_ignored_iff h before after).mp hopen)
    | implied hclosed hpath hextension himplies =>
      refine .implied ?_ hpath hextension himplies
      intro l hl
      exact hclosed l ((isOpenAs_ignored_iff h before after).mpr hl)
  · intro hdetermined
    cases hdetermined with
    | opened hopen => exact .opened ((isOpenAs_ignored_iff h before after).mpr hopen)
    | implied hclosed hpath hextension himplies =>
      refine .implied ?_ hpath hextension himplies
      intro l hl
      exact hclosed l ((isOpenAs_ignored_iff h before after).mp hl)

/-- A document has at most one language. -/
theorem Determined.unique {history : List ServerInput} {l l' : String}
    (h : Determined Uri.toPath? history uri l) (h' : Determined Uri.toPath? history uri l') : l = l' := by
  have hfound := (Server.language?_run_iff {} history).mpr h
  have hfound' := (Server.language?_run_iff {} history).mpr h'
  exact Option.some.inj (hfound.symm.trans hfound')

end NoticeServer
