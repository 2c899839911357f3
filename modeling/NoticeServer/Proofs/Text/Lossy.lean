import Mathlib.Data.List.Induction
import NoticeServer.Proofs.Text.Decoding

/-!
# `NoticeServer.Proofs.Text.Lossy` — the lossy reading of any byte string

Where no character stands, the longest bytes with which one begins, or else a single byte, make up a malformed
run, and each of these runs is read as one U+FFFD. This says what the lossy reading is, without the states of
the decoder; ASCII bytes are no part of malformed runs, so they are read for themselves.

## Contents

* `StartsChar`, `MalformedRun`, `ReadsLossy`: what the lossy reading is.
* `lead_cases`, `step_cases`: what one byte does.
* `Leaves`: the bytes of an unfinished character.
* `decodeLossy_eq_iff`: the decoder reads every byte string this way.
* `ReadsLossy.mem_iff`, `ReadsLossy.append_ascii`, `ReadsLossy.getLast?`: ASCII bytes.
-/

namespace NoticeServer
namespace Utf8

/-! ## Malformed runs -/

/-- Some character begins with these bytes. -/
def StartsChar (bytes : List UInt8) : Prop := ∃ c, bytes <+: String.utf8EncodeChar c

/-- A maximal malformed run in front of `rest`: no character stands here, and the run is the longest start of
a character, or a single byte with which none begins. -/
structure MalformedRun (run rest : List UInt8) : Prop where
  ne_nil : run ≠ []
  no_char : ∀ c, ¬ String.utf8EncodeChar c <+: run ++ rest
  short : StartsChar run ∨ ∃ b, run = [b]
  longest : ∀ b ∈ rest.head?, ¬ StartsChar (run ++ [b])

/-- The lossy reading of a byte string: its characters, and U+FFFD for each maximal malformed run. -/
inductive ReadsLossy : List UInt8 → List Char → Prop where
  | nil : ReadsLossy [] []
  | char (c : Char) {bytes : List UInt8} {text : List Char} (h : ReadsLossy bytes text) :
      ReadsLossy (String.utf8EncodeChar c ++ bytes) (c :: text)
  | malformed {run rest : List UInt8} {text : List Char} (hrun : MalformedRun run rest)
      (h : ReadsLossy rest text) : ReadsLossy (run ++ rest) ('\uFFFD' :: text)

theorem StartsChar.of_append {bytes more : List UInt8} (h : StartsChar (bytes ++ more)) :
    StartsChar bytes := by
  obtain ⟨c, hc⟩ := h
  exact ⟨c, (List.prefix_append bytes more).trans hc⟩

/-! ## The pieces of characters -/

theorem piecesFrom_encodeChar (c : Char) (rest : List UInt8) :
    piecesFrom none (String.utf8EncodeChar c ++ rest) = .char c :: piecesFrom none rest := by
  have hpieces := foldl_feed_eq none [] (String.utf8EncodeChar c ++ rest)
  rw [List.foldl_append, foldl_feed_encodeChar, foldl_feed_eq] at hpieces
  exact hpieces.symm

/-- Bytes that are read as one character are those of this character. -/
theorem encodeChar_of_piecesFrom {bytes : List UInt8} {c : Char} (h : piecesFrom none bytes = [.char c]) :
    String.utf8EncodeChar c = bytes := by
  have hbytes : encode [c] = bytes := encode_of_piecesFrom h
  rwa [encode_cons, encode_nil, List.append_nil] at hbytes

theorem eq_nil_of_piecesFrom {bytes : List UInt8} (h : piecesFrom none bytes = []) : bytes = [] := by
  have hbytes : encode [] = bytes := encode_of_piecesFrom h
  exact hbytes.symm

/-- No character stands at the beginning of another one. -/
theorem encodeChar_append_inj {c d : Char} {rest : List UInt8}
    (h : String.utf8EncodeChar c ++ rest = String.utf8EncodeChar d) : rest = [] := by
  have hpieces := piecesFrom_encodeChar c rest
  rw [h, ← List.append_nil (String.utf8EncodeChar d), piecesFrom_encodeChar] at hpieces
  exact eq_nil_of_piecesFrom (List.cons.inj hpieces).2.symm

/-- No character begins with bytes behind which a malformed run was found. -/
theorem not_startsChar_of_pieces {bytes : List UInt8}
    (h : ∀ more, ∃ found, piecesFrom none (bytes ++ more) = .malformed :: found) : ¬ StartsChar bytes := by
  rintro ⟨c, more, hc⟩
  obtain ⟨found, hfound⟩ := h more
  rw [hc, ← List.append_nil (String.utf8EncodeChar c), piecesFrom_encodeChar] at hfound
  exact absurd (List.cons.inj hfound).1 nofun

/-! ## What one byte does -/

/-- An unfinished character that some bytes complete. -/
structure Pending.Open (p : Pending) : Prop where
  bounds : p.low ≤ p.high
  missing : p.missing ≠ 0

theorem open_continuation (value : Nat) {missing : Nat} (h : missing ≠ 0) :
    (Pending.mk value missing 0x80 0xBF).Open where
  bounds := show (0x80 : UInt8) ≤ 0xBF by decide
  missing := h

/-- One lead byte raises the lower bound, another one lowers the upper bound. -/
theorem open_lead {b x y low high : UInt8} (hxy : x ≠ y) (hlow : low ≤ 0xBF) (hhigh : 0x80 ≤ high)
    (value : Nat) {missing : Nat} (h : missing ≠ 0) :
    (Pending.mk value missing (if b = x then low else 0x80) (if b = y then high else 0xBF)).Open where
  missing := h
  bounds := by
    dsimp only
    by_cases hx : b = x
    · rw [if_pos hx, if_neg (hx ▸ hxy)]
      exact hlow
    · rw [if_neg hx]
      split
      · exact hhigh
      · decide

/-- A byte that starts something new is a character, is malformed, or leaves a character unfinished. -/
theorem lead_cases (b : UInt8) :
    (∃ c, lead b = (none, [.char c])) ∨ lead b = (none, [.malformed]) ∨
      ∃ p : Pending, p.Open ∧ lead b = (some p, []) := by
  unfold lead
  split
  · exact .inl ⟨_, rfl⟩
  split
  · exact .inr (.inl rfl)
  split
  · exact .inr (.inr ⟨_, open_continuation _ Nat.one_ne_zero, rfl⟩)
  split
  · exact .inr (.inr ⟨_, open_lead (by decide) (by decide) (by decide) _ (by decide), rfl⟩)
  split
  · exact .inr (.inr ⟨_, open_lead (by decide) (by decide) (by decide) _ (by decide), rfl⟩)
  · exact .inr (.inl rfl)

/-- A byte behind an unfinished character completes it, continues it, or ends it as malformed. -/
theorem step_cases {p : Pending} (hp : p.Open) (b : UInt8) :
    (∃ c, step (some p) b = (none, [.char c])) ∨
      (∃ q : Pending, q.Open ∧ step (some p) b = (some q, [])) ∨
      step (some p) b = ((lead b).1, .malformed :: (lead b).2) := by
  have hmissing := hp.missing
  unfold step
  dsimp only
  split
  · split
    · exact .inl ⟨_, rfl⟩
    · exact .inr (.inl ⟨_, open_continuation _ (by omega), rfl⟩)
  · exact .inr (.inr rfl)

/-- An unfinished character can be completed. -/
theorem exists_completion {p : Pending} (hp : p.Open) :
    ∃ tail c, tail ≠ [] ∧ piecesFrom (some p) tail = [.char c] := by
  induction hmissing : p.missing generalizing p with
  | zero => exact absurd hmissing hp.missing
  | succ missing ih =>
    have hbounds : p.low ≤ p.low ∧ p.low ≤ p.high := ⟨UInt8.le_refl _, hp.bounds⟩
    by_cases hlast : p.missing = 1
    · refine ⟨[p.low], Char.ofNat (p.value * 64 + (p.low.toNat - 0x80)), List.cons_ne_nil _ _, ?_⟩
      simp only [piecesFrom, step, if_pos hbounds, if_pos hlast]
      rfl
    · have hnext : (Pending.mk (p.value * 64 + (p.low.toNat - 0x80)) (p.missing - 1) 0x80 0xBF).Open :=
        open_continuation _ (by omega)
      obtain ⟨tail, c, -, htail⟩ := ih hnext (by dsimp only; omega)
      refine ⟨p.low :: tail, c, List.cons_ne_nil _ _, ?_⟩
      simp only [piecesFrom, step, if_pos hbounds, if_neg hlast]
      exact htail

/-! ## Unfinished characters -/

/-- Bytes that leave a character unfinished: what is read behind them is read from the state `p`. -/
structure Leaves (bytes : List UInt8) (p : Pending) : Prop where
  ne_nil : bytes ≠ []
  isOpen : p.Open
  pieces : ∀ more, piecesFrom none (bytes ++ more) = piecesFrom (some p) more

theorem leaves_lead {b : UInt8} {p : Pending} (hp : p.Open) (h : lead b = (some p, [])) :
    Leaves [b] p where
  ne_nil := nofun
  isOpen := hp
  pieces more := by
    show (lead b).2 ++ piecesFrom (lead b).1 more = _
    rw [h]
    rfl

namespace Leaves

variable {bytes rest : List UInt8} {p q : Pending} {b : UInt8}

/-- What the next byte gives is read behind these bytes. -/
theorem pieces_cons (h : Leaves bytes p) (b : UInt8) (more : List UInt8) :
    piecesFrom none (bytes ++ [b] ++ more) =
      (step (some p) b).2 ++ piecesFrom (step (some p) b).1 more := by
  rw [List.append_assoc, h.pieces]
  rfl

theorem next (h : Leaves bytes p) (hq : q.Open) (hstep : step (some p) b = (some q, [])) :
    Leaves (bytes ++ [b]) q where
  ne_nil := by simp
  isOpen := hq
  pieces more := by
    rw [h.pieces_cons, hstep]
    rfl

theorem encodeChar (h : Leaves bytes p) {c : Char} (hstep : step (some p) b = (none, [.char c])) :
    String.utf8EncodeChar c = bytes ++ [b] := by
  apply encodeChar_of_piecesFrom
  have hpieces := h.pieces_cons b []
  rw [hstep, List.append_nil] at hpieces
  exact hpieces

theorem exists_char (h : Leaves bytes p) : ∃ c tail, tail ≠ [] ∧ String.utf8EncodeChar c = bytes ++ tail := by
  obtain ⟨tail, c, htail, hpieces⟩ := exists_completion h.isOpen
  rw [← h.pieces] at hpieces
  exact ⟨c, tail, htail, encodeChar_of_piecesFrom hpieces⟩

/-- No whole character stands at the beginning of an unfinished one. -/
theorem not_prefix (h : Leaves bytes p) (c : Char) : ¬ String.utf8EncodeChar c <+: bytes := by
  rintro ⟨behind, rfl⟩
  obtain ⟨d, tail, htail, hd⟩ := h.exists_char
  rw [List.append_assoc] at hd
  exact htail (List.append_eq_nil_iff.mp (encodeChar_append_inj hd.symm)).2

theorem startsChar (h : Leaves bytes p) : StartsChar bytes := by
  obtain ⟨c, tail, -, hc⟩ := h.exists_char
  exact ⟨c, tail, hc.symm⟩

theorem not_startsChar (h : Leaves bytes p)
    (hstep : step (some p) b = ((lead b).1, .malformed :: (lead b).2)) : ¬ StartsChar (bytes ++ [b]) := by
  apply not_startsChar_of_pieces
  intro more
  rw [h.pieces_cons, hstep]
  exact ⟨_, rfl⟩

/-- Bytes that leave a character unfinished are malformed if the next byte, if any, does not belong to it. -/
theorem malformedRun (h : Leaves bytes p)
    (hrest : ∀ b ∈ rest.head?, step (some p) b = ((lead b).1, .malformed :: (lead b).2)) :
    MalformedRun bytes rest where
  ne_nil := h.ne_nil
  short := .inl h.startsChar
  longest b hb := h.not_startsChar (hrest b hb)
  no_char := by
    rintro c ⟨more, hc⟩
    rcases List.append_eq_append_iff.mp hc with ⟨behind, hbytes, -⟩ | ⟨behind, hchar, hrest'⟩
    · exact h.not_prefix c ⟨behind, hbytes.symm⟩
    · cases behind with
      | nil =>
        rw [List.append_nil] at hchar
        exact h.not_prefix c (hchar ▸ List.prefix_refl _)
      | cons b behind =>
        have hb : b ∈ rest.head? := by
          rw [hrest']
          rfl
        refine h.not_startsChar (hrest b hb) ⟨c, behind, ?_⟩
        rw [hchar, List.append_assoc]
        rfl

end Leaves

/-- A byte with which no character begins. -/
theorem not_startsChar_of_lead {b : UInt8} (h : lead b = (none, [.malformed])) : ¬ StartsChar [b] := by
  apply not_startsChar_of_pieces
  intro more
  refine ⟨piecesFrom none more, ?_⟩
  show (lead b).2 ++ piecesFrom (lead b).1 more = _
  rw [h]
  rfl

theorem encodeChar_of_lead {b : UInt8} {c : Char} (h : lead b = (none, [.char c])) :
    String.utf8EncodeChar c = [b] := by
  apply encodeChar_of_piecesFrom
  show (lead b).2 ++ piecesFrom (lead b).1 [] = _
  rw [h]
  rfl

theorem malformedRun_single {b : UInt8} (h : lead b = (none, [.malformed])) (rest : List UInt8) :
    MalformedRun [b] rest where
  ne_nil := nofun
  short := .inr ⟨b, rfl⟩
  longest _ _ hstarts := not_startsChar_of_lead h hstarts.of_append
  no_char := by
    rintro c ⟨more, hc⟩
    cases hchar : String.utf8EncodeChar c with
    | nil => exact String.utf8EncodeChar_ne_nil hchar
    | cons d tail =>
      rw [hchar] at hc
      obtain rfl := (List.cons.inj hc).1
      exact not_startsChar_of_lead h ⟨c, tail, hchar.symm⟩

/-! ## The decoder -/

/-- From every state the decoder reads lossily, the bytes of an unfinished character included. -/
theorem readsLossy_piecesFrom (bytes : List UInt8) :
    ReadsLossy bytes ((piecesFrom none bytes).map Piece.lossy) ∧
      ∀ done p, Leaves done p → ReadsLossy (done ++ bytes) ((piecesFrom (some p) bytes).map Piece.lossy) := by
  induction bytes with
  | nil => exact ⟨.nil, fun done p h => .malformed (h.malformedRun nofun) .nil⟩
  | cons b bytes ih =>
    obtain ⟨ihnone, ihsome⟩ := ih
    have hnone : ReadsLossy (b :: bytes) ((piecesFrom none (b :: bytes)).map Piece.lossy) := by
      have hpieces : piecesFrom none (b :: bytes) = (lead b).2 ++ piecesFrom (lead b).1 bytes := rfl
      rw [hpieces]
      rcases lead_cases b with ⟨c, hlead⟩ | hlead | ⟨p, hp, hlead⟩
      · have hchar := ReadsLossy.char c ihnone
        rw [encodeChar_of_lead hlead] at hchar
        rw [hlead]
        exact hchar
      · rw [hlead]
        exact .malformed (malformedRun_single hlead bytes) ihnone
      · rw [hlead]
        exact ihsome [b] p (leaves_lead hp hlead)
    refine ⟨hnone, ?_⟩
    intro done p h
    have hpieces : piecesFrom (some p) (b :: bytes) =
        (step (some p) b).2 ++ piecesFrom (step (some p) b).1 bytes := rfl
    rw [hpieces]
    rcases step_cases h.isOpen b with ⟨c, hstep⟩ | ⟨q, hq, hstep⟩ | hstep
    · have hchar := ReadsLossy.char c ihnone
      rw [h.encodeChar hstep, List.append_assoc] at hchar
      rw [hstep]
      exact hchar
    · have hmore := ihsome (done ++ [b]) q (h.next hq hstep)
      rw [List.append_assoc] at hmore
      rw [hstep]
      exact hmore
    · -- the byte is read afresh behind the malformed run
      have hrun : MalformedRun done (b :: bytes) := by
        refine h.malformedRun fun b' hb' => ?_
        obtain rfl := Option.some.inj hb'
        exact hstep
      rw [hstep]
      exact .malformed hrun hnone

/-- Bytes with which a character begins, but no whole one, leave it unfinished. -/
theorem exists_leaves {bytes : List UInt8} (hne : bytes ≠ []) (hstarts : StartsChar bytes)
    (hno : ∀ c, ¬ String.utf8EncodeChar c <+: bytes) : ∃ p, Leaves bytes p := by
  induction bytes using List.reverseRecOn with
  | nil => exact absurd rfl hne
  | append_singleton start b ih =>
    by_cases hstart : start = []
    · subst hstart
      rcases lead_cases b with ⟨c, hlead⟩ | hlead | ⟨p, hp, hlead⟩
      · exact absurd (encodeChar_of_lead hlead ▸ List.prefix_refl _) (hno c)
      · exact absurd hstarts (not_startsChar_of_lead hlead)
      · exact ⟨p, leaves_lead hp hlead⟩
    · obtain ⟨p, h⟩ := ih hstart hstarts.of_append
        fun c hc => hno c (hc.trans (List.prefix_append start [b]))
      rcases step_cases h.isOpen b with ⟨c, hstep⟩ | ⟨q, hq, hstep⟩ | hstep
      · exact absurd (h.encodeChar hstep ▸ List.prefix_refl _) (hno c)
      · exact ⟨q, h.next hq hstep⟩
      · exact absurd hstarts (h.not_startsChar hstep)

/-- A malformed run is one piece. -/
theorem piecesFrom_malformedRun {run rest : List UInt8} (h : MalformedRun run rest) :
    piecesFrom none (run ++ rest) = .malformed :: piecesFrom none rest := by
  by_cases hstarts : StartsChar run
  · have hno : ∀ c, ¬ String.utf8EncodeChar c <+: run := fun c hc =>
      h.no_char c (hc.trans (List.prefix_append run rest))
    obtain ⟨p, hleaves⟩ := exists_leaves h.ne_nil hstarts hno
    rw [hleaves.pieces]
    cases rest with
    | nil => rfl
    | cons b rest =>
      have hb := h.longest b rfl
      rcases step_cases hleaves.isOpen b with ⟨c, hstep⟩ | ⟨q, hq, hstep⟩ | hstep
      · exact absurd ⟨c, hleaves.encodeChar hstep ▸ List.prefix_refl _⟩ hb
      · exact absurd (hleaves.next hq hstep).startsChar hb
      · show (step (some p) b).2 ++ piecesFrom (step (some p) b).1 rest = _
        rw [hstep]
        rfl
  · obtain ⟨b, rfl⟩ := h.short.resolve_left hstarts
    rcases lead_cases b with ⟨c, hlead⟩ | hlead | ⟨p, hp, hlead⟩
    · exact absurd ⟨c, encodeChar_of_lead hlead ▸ List.prefix_refl _⟩ hstarts
    · show (lead b).2 ++ piecesFrom (lead b).1 rest = _
      rw [hlead]
      rfl
    · exact absurd (leaves_lead hp hlead).startsChar hstarts

/-- **The lossy reading** of a byte string is its characters, with one U+FFFD for each maximal malformed
run. -/
theorem decodeLossy_eq_iff {bytes : List UInt8} {text : List Char} :
    decodeLossy bytes = text ↔ ReadsLossy bytes text := by
  rw [decodeLossy, pieces_eq]
  constructor
  · rintro rfl
    exact (readsLossy_piecesFrom bytes).1
  · intro h
    induction h with
    | nil => rfl
    | char c h ih => rw [piecesFrom_encodeChar, List.map_cons, ih]; rfl
    | malformed hrun h ih => rw [piecesFrom_malformedRun hrun, List.map_cons, ih]; rfl

theorem readsLossy_decodeLossy (bytes : List UInt8) : ReadsLossy bytes (decodeLossy bytes) :=
  decodeLossy_eq_iff.mp rfl

/-! ## ASCII bytes -/

variable {d : Char}

theorem encodeChar_ascii (hd : d.toNat < 0x80) : String.utf8EncodeChar d = [UInt8.ofNat d.toNat] := by
  have hone := encodeChar_one hd
  rwa [Char.ofNat_toNat] at hone

/-- An ASCII byte is all of the character to which it belongs. -/
theorem encodeChar_of_mem {c : Char} (hd : d.toNat < 0x80)
    (h : UInt8.ofNat d.toNat ∈ String.utf8EncodeChar c) : String.utf8EncodeChar c = [UInt8.ofNat d.toNat] := by
  obtain rfl : c = d := Char.toNat_inj.mp ((mem_encodeChar_iff hd c).mp h)
  exact encodeChar_ascii hd

namespace MalformedRun

variable {run rest : List UInt8}

/-- No ASCII byte is malformed. -/
theorem ascii_not_mem (h : MalformedRun run rest) (hd : d.toNat < 0x80) :
    UInt8.ofNat d.toNat ∉ run := by
  intro hmem
  have hchar : run = [UInt8.ofNat d.toNat] := by
    rcases h.short with ⟨c, hc⟩ | ⟨b, rfl⟩
    · rw [encodeChar_of_mem hd (hc.subset hmem)] at hc
      rcases List.prefix_cons_iff.mp hc with hempty | ⟨tail, rfl, htail⟩
      · exact absurd hempty h.ne_nil
      · rw [List.prefix_nil.mp htail]
    · rw [List.mem_singleton.mp hmem]
  refine h.no_char d ?_
  rw [encodeChar_ascii hd, hchar]
  exact List.prefix_append _ _

/-- A malformed run stays one, whatever stands behind an ASCII byte. -/
theorem append_ascii (h : MalformedRun run rest) (hd : d.toNat < 0x80) (more : List UInt8) :
    MalformedRun run (rest ++ UInt8.ofNat d.toNat :: more) where
  ne_nil := h.ne_nil
  short := h.short
  longest := by
    intro b hb
    cases rest with
    | nil =>
      obtain rfl := Option.some.inj hb
      rintro ⟨c, hc⟩
      have hmem := hc.subset (List.mem_append_right run List.mem_cons_self)
      rw [encodeChar_of_mem hd hmem] at hc
      have hlength := hc.length_le
      rw [List.length_append] at hlength
      exact h.ne_nil (List.eq_nil_of_length_eq_zero (by simpa using hlength))
    | cons b' rest => exact h.longest b hb
  no_char := by
    rintro c ⟨behind, hc⟩
    rw [← List.append_assoc] at hc
    rcases List.append_eq_append_iff.mp hc with ⟨tail, hrest, -⟩ | ⟨tail, hchar, hmore⟩
    · exact h.no_char c ⟨tail, hrest.symm⟩
    · cases tail with
      | nil =>
        rw [List.append_nil] at hchar
        exact h.no_char c (hchar ▸ List.prefix_refl _)
      | cons b tail =>
        -- the character would go on up to the ASCII byte
        obtain rfl := (List.cons.inj hmore).1
        have hmem : UInt8.ofNat d.toNat ∈ String.utf8EncodeChar c := by
          rw [hchar]
          exact List.mem_append_right _ List.mem_cons_self
        rw [encodeChar_of_mem hd hmem] at hchar
        have hlength := congrArg List.length hchar
        simp only [List.length_append, List.length_cons, List.length_nil] at hlength
        exact h.ne_nil (List.eq_nil_of_length_eq_zero (by omega))

end MalformedRun

theorem ne_replacement (hd : d.toNat < 0x80) : d ≠ '\uFFFD' := by
  rintro rfl
  exact absurd hd (by decide)

variable {bytes : List UInt8} {text : List Char}

/-- An ASCII byte is read as its character, and this character is read of nothing else. -/
theorem ReadsLossy.mem_iff (h : ReadsLossy bytes text) (hd : d.toNat < 0x80) :
    d ∈ text ↔ UInt8.ofNat d.toNat ∈ bytes := by
  induction h with
  | nil => simp
  | char c h ih =>
    rw [List.mem_cons, List.mem_append, ih, mem_encodeChar_iff hd, Char.toNat_inj, eq_comm]
  | malformed hrun h ih =>
    rw [List.mem_cons, List.mem_append, ih, or_iff_right (ne_replacement hd),
      or_iff_right (hrun.ascii_not_mem hd)]

/-- What stands before and behind an ASCII byte is read for itself. -/
theorem ReadsLossy.append_ascii (h : ReadsLossy bytes text) (hd : d.toNat < 0x80) {more : List UInt8}
    {behind : List Char} (hmore : ReadsLossy more behind) :
    ReadsLossy (bytes ++ UInt8.ofNat d.toNat :: more) (text ++ d :: behind) := by
  induction h with
  | nil =>
    have hchar := ReadsLossy.char d hmore
    rwa [encodeChar_ascii hd] at hchar
  | char c h ih =>
    rw [List.append_assoc]
    exact .char c ih
  | malformed hrun h ih =>
    rw [List.append_assoc]
    exact .malformed (hrun.append_ascii hd more) ih

/-- A text that ends in an ASCII character is read of bytes that end in this character's byte. -/
theorem ReadsLossy.getLast? (h : ReadsLossy bytes text) (hd : d.toNat < 0x80)
    (hlast : text.getLast? = some d) : bytes.getLast? = some (UInt8.ofNat d.toNat) := by
  induction h with
  | nil => exact absurd hlast nofun
  | @char c rest text hrest ih =>
    cases text with
    | nil =>
      obtain rfl : c = d := by simpa using hlast
      cases hrest
      rw [List.append_nil, encodeChar_ascii hd]
      rfl
    | cons c' text =>
      rw [List.getLast?_cons_cons] at hlast
      rw [List.getLast?_append, ih hlast]
      rfl
  | @malformed run rest text hrun hrest ih =>
    cases text with
    | nil => exact absurd (by simpa using hlast.symm) (ne_replacement hd)
    | cons c' text =>
      rw [List.getLast?_cons_cons] at hlast
      rw [List.getLast?_append, ih hlast]
      rfl

end Utf8
end NoticeServer
