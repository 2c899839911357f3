import NoticeServer.Proofs.DiagnosticSet.Spelling
import NoticeServer.Proofs.Orchestrator.Run

/-!
# `NoticeServer.Proofs.Orchestrator.History` — what is published, as a function of the history

A root is withdrawn when it is removed and when scanning is turned off. What it publishes is decided by
the latest scan of it that was taken over since: its set, unless that set is empty. No other operation of
the history has a say (`Orchestrator.sameSets_perform`), so the published set can be read off the history from
its end (`Orchestrator.published_eq_latest`).
-/

namespace NoticeServer

/-- An operation and the state in which it was asked for. -/
structure Event where
  before : Orchestrator
  operation : Operation

namespace Event

/-- Whether the operation removes a root or turns scanning off. -/
def withdraws (e : Event) (root : Path) : Bool :=
  match e.operation with
  | .removeRoot r => r ≈ root
  | .toggle => e.before.active
  | _ => false

/-- The output of a root that the operation takes over: that of a completion of this root which
succeeded, applied while scanning was active and the root monitored. -/
def output? (e : Event) (root : Path) : Option (List Char) :=
  match e.operation with
  | .apply c => if c.root ≈ root then e.before.accepted? c else none
  | _ => none

theorem output?_apply (o : Orchestrator) (c : Completion) (root : Path) :
    (Event.mk o (.apply c)).output? root = if c.root ≈ root then o.accepted? c else none := rfl

end Event

/-- The output taken over last since a root was last withdrawn. -/
def latestOutput? (root : Path) (events : List Event) : Option (List Char) :=
  (events.reverse.takeWhile fun e => !e.withdraws root).findSome? fun e => e.output? root

theorem latestOutput?_concat (root : Path) (events : List Event) (e : Event) :
    latestOutput? root (events ++ [e]) =
      if e.withdraws root then none else (e.output? root).or (latestOutput? root events) := by
  unfold latestOutput?
  rw [List.reverse_concat, List.takeWhile_cons]
  cases e.withdraws root with
  | true => rfl
  | false =>
    rw [Bool.not_false, if_pos rfl, List.findSome?_cons]
    cases e.output? root <;> rfl

namespace Orchestrator

/-- The events of a run. -/
def history (o : Orchestrator) : List Operation → List Event
  | [] => []
  | op :: ops => ⟨o, op⟩ :: history (o.perform op).1 ops

/-- A set that is published, unless it is empty. -/
def filled? (set : DiagnosticSet) : Option DiagnosticSet := if set.isEmpty then none else some set

/-- The set that an output comes to under a root. -/
def setUnder (config : ScanConfig) (root : Path) (output : List Char) : DiagnosticSet :=
  (collect output config.strictSpans).rebase root

/-- Equal up to the spelling of paths, or both missing. -/
def SameSets : Option DiagnosticSet → Option DiagnosticSet → Prop :=
  Option.Rel fun s t => s.same t = true

variable {o : Orchestrator} {root : Path}

theorem sameSets_filled {s t : DiagnosticSet} (h : s.same t = true) : SameSets (filled? s) (filled? t) := by
  unfold filled?
  rw [DiagnosticSet.isEmpty_of_same h]
  split
  · exact .none
  · exact .some h

/-! ## One operation -/

/-- An operation that neither withdraws a root nor takes over an output of it leaves what it publishes. -/
theorem get?_perform_of_idle {op : Operation} (hw : (Event.mk o op).withdraws root = false)
    (hout : (Event.mk o op).output? root = none) :
    (o.perform op).1.published.get? root = o.published.get? root := by
  rw [get?_perform]
  cases op with
  | removeRoot r =>
    have hr : ¬ r ≈ root := by simpa [Event.withdraws] using hw
    exact if_neg hr
  | toggle =>
    have hactive : o.active = false := hw
    exact if_neg (by rw [hactive]; exact nofun)
  | apply c =>
    dsimp only
    cases hacc : o.accepted? c with
    | none => rfl
    | some output =>
      -- an output that is taken over, but not for this root
      have hroot : ¬ c.root ≈ root := by
        intro h
        rw [Event.output?_apply, if_pos h, hacc] at hout
        exact absurd hout nofun
      exact if_neg hroot
  | _ => rfl

/-- After an operation that withdraws a root, nothing is published for it. -/
theorem get?_perform_of_withdraws {op : Operation} (hw : (Event.mk o op).withdraws root = true) :
    (o.perform op).1.published.get? root = none := by
  rw [get?_perform]
  cases op with
  | removeRoot r =>
    have hr : r ≈ root := by simpa [Event.withdraws] using hw
    exact if_pos hr
  | toggle =>
    have hactive : o.active = true := hw
    exact if_pos hactive
  | _ => exact absurd hw (by simp [Event.withdraws])

/-- An output that is taken over for a root decides what the root publishes. -/
theorem get?_perform_of_output {op : Operation} {output : List Char}
    (hout : (Event.mk o op).output? root = some output) :
    SameSets ((o.perform op).1.published.get? root) (filled? (setUnder o.config root output)) := by
  cases op with
  | apply c =>
    by_cases hroot : c.root ≈ root
    · rw [Event.output?_apply, if_pos hroot] at hout
      rw [get?_perform]
      dsimp only
      rw [hout]
      dsimp only
      rw [if_pos hroot]
      exact sameSets_filled (DiagnosticSet.same_rebase hroot _)
    · rw [Event.output?_apply, if_neg hroot] at hout
      exact absurd hout (by simp)
  | _ => exact absurd hout (by simp [Event.output?])

/-! ## Whole runs -/

/-- What a history makes a root publish. -/
def expected? (config : ScanConfig) (root : Path) (events : List Event) : Option DiagnosticSet :=
  (latestOutput? root events).bind fun output => filled? (setUnder config root output)

/-- One more operation keeps the published set equal to what the history makes of it. -/
theorem sameSets_perform {events : List Event}
    (h : SameSets (o.published.get? root) (expected? o.config root events)) (op : Operation) :
    SameSets ((o.perform op).1.published.get? root) (expected? o.config root (events ++ [⟨o, op⟩])) := by
  -- the operation withdraws the root, or takes over an output of it, or does neither
  rw [expected?, latestOutput?_concat]
  cases hw : (Event.mk o op).withdraws root with
  | true =>
    rw [get?_perform_of_withdraws hw]
    exact .none
  | false =>
    cases hout : (Event.mk o op).output? root with
    | none =>
      rw [get?_perform_of_idle hw hout]
      exact h
    | some output => exact get?_perform_of_output hout

theorem sameSets_run {events : List Event} (ops : List Operation)
    (h : SameSets (o.published.get? root) (expected? o.config root events)) :
    SameSets ((o.run ops).published.get? root) (expected? o.config root (events ++ o.history ops)) := by
  -- the induction is on the operations still to come; `events` collects those behind
  induction ops generalizing o events with
  | nil => rwa [history, List.append_nil]
  | cons op ops ih =>
    have hstep := sameSets_perform h op
    rw [← perform_config o op] at hstep
    have hrest := ih hstep
    rwa [perform_config, List.append_assoc] at hrest

/-- **What a root publishes is a function of the history.** After any operations, in any order, a root
publishes the set of the output that was taken over last since the root was last withdrawn, if there is
one and its set is not empty, and nothing otherwise; every operation that neither withdraws the root nor
takes over an output of it leaves what it publishes as it is. -/
theorem published_eq_latest (config : ScanConfig) (ops : List Operation) (root : Path) :
    SameSets (((fresh config).run ops).published.get? root)
        ((latestOutput? root ((fresh config).history ops)).bind fun output =>
          filled? ((collect output config.strictSpans).rebase root)) ∧
      ∀ op, (Event.mk ((fresh config).run ops) op).withdraws root = false →
        (Event.mk ((fresh config).run ops) op).output? root = none →
        ((fresh config).run (ops ++ [op])).published.get? root =
          ((fresh config).run ops).published.get? root := by
  refine ⟨?_, ?_⟩
  · have hfresh : SameSets ((fresh config).published.get? root)
        (expected? (fresh config).config root []) := .none
    have hrun := sameSets_run ops hfresh
    rwa [List.nil_append] at hrun
  · intro op hw hout
    rw [run_append]
    exact get?_perform_of_idle hw hout

end Orchestrator
end NoticeServer
