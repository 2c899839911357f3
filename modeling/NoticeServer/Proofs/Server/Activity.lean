import NoticeServer.Proofs.Server.Folders

/-!
# `NoticeServer.Proofs.Server.Activity` — what turns scanning on and off

Scanning is turned on and off by the check command, until shutdown is asked for, and turned on by the message
that the client is ready if it is to start active. That message acts whenever it finds scanning turned off,
whether or not it came before.

## Contents

* `ServerInput.tellsReady`, `ServerInput.asksCheck`, `ServerInput.asksShutdown`: the inputs that have a say.
* `Server.asks_toggle_iff`, `Server.active_take`, `Server.shutdownRequested_run`: what one input does.
* `Switch`, `Server.switches`, `Server.mem_switches_iff`: all changes along a run.
* `Server.count_switches`: scanning is turned on and off in turn.
* `Server.OnlyCommandsBehindReady`, `Server.ReadyFindsActive`, `Server.onlyCommands_iff`: when the message acts
  but once.
-/

namespace NoticeServer

/-! ## Inputs -/

namespace ServerInput

/-- Whether an input is the message that the client is ready. -/
def tellsReady : ServerInput → Bool
  | .completion _ => false
  | .frame v =>
    match Incoming.ofFrame v with
    | .notification method _ => method == "initialized"
    | _ => false

/-- Whether an input asks to run the check command. -/
def asksCheck : ServerInput → Bool
  | .completion _ => false
  | .frame v =>
    match Incoming.ofFrame v with
    | .request _ method params =>
      method == "workspace/executeCommand" && readCommand? params == some checkCommand
    | _ => false

/-- Whether an input asks for shutdown. -/
def asksShutdown : ServerInput → Bool
  | .completion _ => false
  | .frame v =>
    match Incoming.ofFrame v with
    | .request _ method _ => method == "shutdown"
    | _ => false

theorem tellsReady_iff {v : Json} :
    tellsReady (.frame v) = true ↔ ∃ params, Incoming.ofFrame v = .notification "initialized" params := by
  cases hmessage : Incoming.ofFrame v <;> simp [tellsReady, hmessage]

theorem asksCheck_iff {v : Json} :
    asksCheck (.frame v) = true ↔ ∃ id params,
      Incoming.ofFrame v = .request id "workspace/executeCommand" params ∧
        readCommand? params = some checkCommand := by
  cases hmessage : Incoming.ofFrame v <;> simp [asksCheck, hmessage]

/-- The message that the client is ready is no request. -/
theorem asksCheck_of_tellsReady {input : ServerInput} (h : input.tellsReady = true) :
    input.asksCheck = false := by
  cases input with
  | completion c => rfl
  | frame v =>
    obtain ⟨params, hmessage⟩ := tellsReady_iff.mp h
    simp [asksCheck, hmessage]

end ServerInput

/-- An input that turned scanning on or off. -/
structure Switch where
  input : ServerInput
  /-- Whether scanning is active behind it. -/
  active : Bool

namespace Server

variable {s : Server}

/-! ## What one input does -/

/-- A frame asks to turn scanning on or off in one of two ways. -/
theorem asks_toggle_iff {v : Json} :
    s.Asks v .toggle ↔
      (ServerInput.tellsReady (.frame v) = true ∧ s.orchestrator.config.startActive = true ∧
        s.orchestrator.active = false) ∨
      (ServerInput.asksCheck (.frame v) = true ∧ s.shutdownRequested = false) := by
  rw [ServerInput.tellsReady_iff, ServerInput.asksCheck_iff]
  constructor
  · rintro (⟨h, hopen, hname⟩ | ⟨h, hstart, hoff⟩)
    · exact .inr ⟨⟨_, _, h, hname⟩, hopen⟩
    · exact .inl ⟨⟨_, h⟩, hstart, hoff⟩
  · rintro (⟨⟨params, h⟩, hstart, hoff⟩ | ⟨⟨id, params, h, hname⟩, hopen⟩)
    · exact .ready h hstart hoff
    · exact .command h hopen hname

theorem active_handle_of_asks {v : Json} (h : s.Asks v .toggle) :
    (s.handle v).1.orchestrator.active = !s.orchestrator.active := by
  rw [(handle_of_asks h).1]
  exact s.orchestrator.active_answer .toggle

theorem active_handle_of_not_asks {v : Json} (h : ¬ s.Asks v .toggle) :
    (s.handle v).1.orchestrator.active = s.orchestrator.active := by
  rcases s.handle_cases v with ⟨d, hd, hstate, -⟩ | ⟨hstate, -⟩
  · rw [hstate, Orchestrator.active_answer]
    cases d with
    | toggle => exact absurd hd h
    | saved language => rfl
    | change removed added => rfl
  · rw [hstate]

/-- **What an input makes of scanning**: the message that the client is ready turns it on if it is to start
active, the check command turns it on or off unless shutdown was asked for, and nothing else has a say. -/
theorem active_take (s : Server) (input : ServerInput) :
    (s.take input).1.orchestrator.active =
      if input.tellsReady then s.orchestrator.config.startActive || s.orchestrator.active
      else if input.asksCheck && !s.shutdownRequested then !s.orchestrator.active
      else s.orchestrator.active := by
  cases input with
  | completion c => exact s.orchestrator.perform_active (.apply c)
  | frame v =>
    show (s.handle v).1.orchestrator.active = _
    by_cases hready : ServerInput.tellsReady (.frame v) = true
    · rw [if_pos hready]
      by_cases hguard : s.orchestrator.config.startActive = true ∧ s.orchestrator.active = false
      · rw [active_handle_of_asks (asks_toggle_iff.mpr (.inl ⟨hready, hguard⟩)), hguard.1, hguard.2]
        rfl
      · have hnot : ¬ s.Asks v .toggle := by
          rw [asks_toggle_iff, ServerInput.asksCheck_of_tellsReady hready]
          rintro (⟨-, h⟩ | ⟨h, -⟩)
          · exact hguard h
          · exact absurd h nofun
        rw [active_handle_of_not_asks hnot]
        revert hguard
        cases s.orchestrator.config.startActive <;> cases s.orchestrator.active <;> simp
    · rw [if_neg hready]
      by_cases hguard : ServerInput.asksCheck (.frame v) = true ∧ s.shutdownRequested = false
      · rw [active_handle_of_asks (asks_toggle_iff.mpr (.inr hguard)), hguard.1, hguard.2]
        rfl
      · have hnot : ¬ s.Asks v .toggle := by
          rw [asks_toggle_iff]
          rintro (⟨h, -⟩ | h)
          · exact hready h
          · exact hguard h
        rw [active_handle_of_not_asks hnot, if_neg (by simpa using hguard)]

/-- Only a request for shutdown closes a history. -/
theorem closing_after (denote : String → Option Path) (h : RootHistory) (input : ServerInput) :
    (h.after denote input).closing = (h.closing || input.asksShutdown) := by
  cases input with
  | completion c => exact (Bool.or_false _).symm
  | frame v =>
    unfold RootHistory.after ServerInput.asksShutdown
    dsimp only
    cases Incoming.ofFrame v with
    | other => exact (Bool.or_false _).symm
    | request id method params =>
      dsimp only
      unfold RootHistory.afterRequest
      split
      · next hclosing => rw [hclosing, Bool.true_or]
      split
      · next hmethod =>
        subst hmethod
        exact (Bool.or_false _).symm
      split
      · next hmethod =>
        subst hmethod
        exact (Bool.or_true _).symm
      · next hmethod => rw [beq_false_of_ne hmethod, Bool.or_false]
    | notification method params =>
      dsimp only
      unfold RootHistory.afterNotification
      rw [Bool.or_false]
      split
      · split <;> rfl
      · rfl

/-- **Shutdown was asked for** if some request asked for it. -/
theorem shutdownRequested_run (s : Server) (inputs : List ServerInput) :
    (s.run inputs).shutdownRequested = (s.shutdownRequested || inputs.any (·.asksShutdown)) := by
  induction inputs generalizing s with
  | nil => exact (Bool.or_false _).symm
  | cons input inputs ih =>
    have hfirst : (s.take input).1.shutdownRequested = (s.shutdownRequested || input.asksShutdown) := by
      have hclosing := congrArg RootHistory.closing (s.rootHistory_take input)
      rwa [closing_after] at hclosing
    rw [run_cons, ih, hfirst, List.any_cons, Bool.or_assoc]

/-! ## Changes along a run -/

/-- The inputs that turn scanning on or off, in order. -/
def switches (s : Server) : List ServerInput → List Switch
  | [] => []
  | input :: inputs =>
    let next := (s.take input).1
    (if next.orchestrator.active = s.orchestrator.active then []
      else [⟨input, next.orchestrator.active⟩]) ++ switches next inputs

theorem switches_cons (s : Server) (input : ServerInput) (inputs : List ServerInput) :
    s.switches (input :: inputs) = s.switches [input] ++ (s.take input).1.switches inputs := by
  simp [switches]

theorem switches_append (s : Server) (inputs more : List ServerInput) :
    s.switches (inputs ++ more) = s.switches inputs ++ (s.run inputs).switches more := by
  induction inputs generalizing s with
  | nil => rfl
  | cons input inputs ih =>
    rw [List.cons_append, switches_cons, ih, switches_cons s input inputs, List.append_assoc, run_cons]

theorem mem_switches_single {input : ServerInput} {w : Switch} :
    w ∈ s.switches [input] ↔ w.input = input ∧ s.orchestrator.active = !w.active ∧
      (s.take input).1.orchestrator.active = w.active := by
  simp only [switches, List.append_nil]
  split
  · next hsame =>
    refine iff_of_false List.not_mem_nil ?_
    rintro ⟨-, hbefore, hbehind⟩
    rw [hbefore, hbehind] at hsame
    exact absurd hsame (by cases w.active <;> decide)
  · next hdiffers =>
    rw [List.mem_singleton]
    constructor
    · rintro rfl
      exact ⟨rfl, Bool.eq_not_of_ne (Ne.symm hdiffers), rfl⟩
    · rintro ⟨hinput, -, hbehind⟩
      rw [hbehind, ← hinput]

/-- **A change** is an input behind which scanning is active and was not, or the other way round. -/
theorem mem_switches_iff {inputs : List ServerInput} {w : Switch} :
    w ∈ s.switches inputs ↔ ∃ before after, inputs = before ++ w.input :: after ∧
      (s.run before).orchestrator.active = !w.active ∧
      (s.run (before ++ [w.input])).orchestrator.active = w.active := by
  induction inputs generalizing s with
  | nil => simp [switches]
  | cons input inputs ih =>
    rw [switches_cons, List.mem_append, mem_switches_single, ih]
    constructor
    · rintro (⟨rfl, hbefore, hbehind⟩ | ⟨before, after, rfl, hbefore, hbehind⟩)
      · exact ⟨[], inputs, rfl, hbefore, hbehind⟩
      · exact ⟨input :: before, after, rfl, hbefore, hbehind⟩
    · rintro ⟨before, after, hinputs, hbefore, hbehind⟩
      cases before with
      | nil =>
        obtain ⟨rfl, rfl⟩ := List.cons.inj hinputs
        exact .inl ⟨rfl, hbefore, hbehind⟩
      | cons b before =>
        obtain ⟨rfl, rfl⟩ := List.cons.inj hinputs
        exact .inr ⟨before, after, rfl, hbefore, hbehind⟩

/-- **What turns scanning on or off** is the message that the client is ready, which turns it on, or the check
command. -/
theorem cause_of_mem_switches {inputs : List ServerInput} {w : Switch} (h : w ∈ s.switches inputs) :
    w.input.asksCheck = true ∨ (w.input.tellsReady = true ∧ w.active = true) := by
  obtain ⟨before, after, -, hbefore, hbehind⟩ := mem_switches_iff.mp h
  rw [run_append] at hbehind
  have htake := ((s.run before).active_take w.input).symm.trans hbehind
  rw [hbefore] at htake
  by_cases hready : w.input.tellsReady = true
  · rw [if_pos hready] at htake
    refine .inr ⟨hready, ?_⟩
    cases hactive : w.active with
    | true => rfl
    | false =>
      rw [hactive, Bool.not_false, Bool.or_true] at htake
      exact absurd htake nofun
  · rw [if_neg hready] at htake
    by_cases hcheck : w.input.asksCheck = true
    · exact .inl hcheck
    · rw [eq_false_of_ne_true hcheck, Bool.false_and, if_neg Bool.false_ne_true] at htake
      simp at htake

/-- **Scanning is turned on and off in turn.** -/
theorem count_switches (s : Server) (inputs : List ServerInput) :
    (s.switches inputs).countP (·.active) + s.orchestrator.active.toNat =
      (s.switches inputs).countP (!·.active) + (s.run inputs).orchestrator.active.toNat := by
  induction inputs generalizing s with
  | nil => rfl
  | cons input inputs ih =>
    have hrest := ih (s.take input).1
    have hfirst : (s.switches [input]).countP (·.active) + s.orchestrator.active.toNat =
        (s.switches [input]).countP (!·.active) + (s.take input).1.orchestrator.active.toNat := by
      simp only [switches, List.append_nil]
      cases s.orchestrator.active <;> cases (s.take input).1.orchestrator.active <;> rfl
    rw [switches_cons, List.countP_append, List.countP_append, run_cons]
    omega

/-! ## Messages that the client is ready -/

/-- Such a message turns scanning on only. -/
theorem count_tellsReady_le (s : Server) (inputs : List ServerInput) :
    (s.switches inputs).countP (·.input.tellsReady) ≤ (s.switches inputs).countP (·.active) := by
  refine List.countP_mono_left fun w hw hready => ?_
  rcases cause_of_mem_switches hw with hcheck | ⟨-, hon⟩
  · rw [ServerInput.asksCheck_of_tellsReady hready] at hcheck
    exact absurd hcheck nofun
  · exact hon

/-- Behind the first message that the client is ready only check commands turn scanning on or off. -/
def OnlyCommandsBehindReady (s : Server) (history : List ServerInput) : Prop :=
  ∀ before ready after, history = before ++ ready :: after → ready.tellsReady = true →
    ∀ w ∈ (s.run (before ++ [ready])).switches after, w.input.asksCheck = true

/-- Every message that the client is ready finds scanning active if it is not the first one. -/
def ReadyFindsActive (s : Server) (history : List ServerInput) : Prop :=
  ∀ before ready between again after, history = before ++ ready :: (between ++ again :: after) →
    ready.tellsReady = true → again.tellsReady = true →
      (s.run (before ++ ready :: between)).orchestrator.active = true

theorem run_behind (s : Server) (before : List ServerInput) (input : ServerInput) (more : List ServerInput) :
    (s.run (before ++ [input])).run more = s.run (before ++ input :: more) := by
  rw [← run_append, List.append_assoc]
  rfl

/-- The message that the client is ready turns scanning on unless it is on, so it acts but once only if it never
comes again while scanning is turned off. -/
theorem onlyCommands_iff {history : List ServerInput} (hstart : s.orchestrator.config.startActive = true) :
    s.OnlyCommandsBehindReady history ↔ s.ReadyFindsActive history := by
  constructor
  · intro h before ready between again after hhistory hready hagain
    by_contra hoff
    have hactive : ((s.run (before ++ ready :: between)).take again).1.orchestrator.active = true := by
      rw [active_take, if_pos hagain, config_run, hstart, Bool.true_or]
    have hswitch : ⟨again, true⟩ ∈ (s.run (before ++ [ready])).switches (between ++ again :: after) := by
      refine mem_switches_iff.mpr ⟨between, after, rfl, ?_, ?_⟩
      · rw [run_behind]
        exact eq_false_of_ne_true hoff
      · rw [run_append, run_behind]
        exact hactive
    have hcheck := h before ready (between ++ again :: after) hhistory hready _ hswitch
    rw [ServerInput.asksCheck_of_tellsReady hagain] at hcheck
    exact absurd hcheck nofun
  · intro h before ready after hhistory hready w hw
    rcases cause_of_mem_switches hw with hcheck | ⟨hagain, hon⟩
    · exact hcheck
    · obtain ⟨between, later, rfl, hbefore, -⟩ := mem_switches_iff.mp hw
      have hactive := h before ready between w.input later hhistory hready hagain
      rw [run_behind, hon] at hbefore
      exact absurd (hactive.symm.trans hbefore) nofun

/-- Inputs that are no message that the client is ready turn scanning on or off without one. -/
theorem count_tellsReady_eq_zero {inputs : List ServerInput}
    (h : ∀ input ∈ inputs, input.tellsReady = false) :
    (s.switches inputs).countP (·.input.tellsReady) = 0 := by
  rw [List.countP_eq_zero]
  intro w hw
  obtain ⟨before, after, rfl, -, -⟩ := mem_switches_iff.mp hw
  rw [h w.input (by simp)]
  exact Bool.false_ne_true

/-- If only check commands turn scanning on or off behind the first message that the client is ready, these
messages turn it on at most once. -/
theorem count_tellsReady_le_one {history : List ServerInput} (h : s.OnlyCommandsBehindReady history) :
    (s.switches history).countP (·.input.tellsReady) ≤ 1 := by
  cases hfirst : history.find? (·.tellsReady) with
  | none =>
    have hnone : ∀ input ∈ history, input.tellsReady = false := by
      simpa using List.find?_eq_none.mp hfirst
    rw [count_tellsReady_eq_zero hnone]
    exact Nat.zero_le 1
  | some ready =>
    obtain ⟨hready, before, after, rfl, hbefore⟩ := List.find?_eq_some_iff_append.mp hfirst
    have hcommands := h before ready after rfl hready
    have hnone : ∀ input ∈ before, input.tellsReady = false := by simpa using hbefore
    have hafter : ((s.run (before ++ [ready])).switches after).countP (·.input.tellsReady) = 0 := by
      rw [List.countP_eq_zero]
      intro w hw hagain
      have hcheck := hcommands w hw
      rw [ServerInput.asksCheck_of_tellsReady hagain] at hcheck
      exact absurd hcheck nofun
    have hready : ((s.run before).switches [ready]).countP (·.input.tellsReady) ≤ 1 := by
      refine Nat.le_trans List.countP_le_length ?_
      simp only [switches, List.append_nil]
      split <;> simp
    rw [run_append] at hafter
    have hsplit : s.switches (before ++ ready :: after) = s.switches before ++
        ((s.run before).switches [ready] ++ ((s.run before).run [ready]).switches after) := by
      rw [switches_append, switches_cons]
      rfl
    rw [hsplit, List.countP_append, List.countP_append, count_tellsReady_eq_zero hnone, hafter]
    omega

end Server
end NoticeServer
