import NoticeServer.Proofs.Server.Activity
import NoticeServer.Proofs.Session.Run

/-!
# `NoticeServer.Proofs.Session.Activity` — scanning that is to start active

If scanning is to start active, each message that the client is ready turns it on, also when a check command
has turned it off since the last one (`activity_turnedOnAgain`). A client that sends the message again only
while scanning is active never notices. `Session.activity_decided` is the law for all sessions.
-/

namespace NoticeServer
namespace Session

/-- **What turns scanning on and off** if it is to start active. Whatever a server takes in from its
beginning, the message that the client is ready leaves scanning active, and the check command turns it on or
off unless shutdown was asked for before. Only these two change anything, and the message only turns on, at
most once more often than check commands turn off. Behind the first such message only check commands change
anything if and only if no later one finds scanning turned off, and then these messages act at most once. In
every session the server takes in frames and finished scans. -/
theorem activity_decided (config : ScanConfig) (hstart : config.startActive = true) :
    let s := Server.fresh config
    (∀ history input,
      (s.run (history ++ [input])).orchestrator.active =
        if input.tellsReady then true
        else if input.asksCheck && !history.any (·.asksShutdown) then !(s.run history).orchestrator.active
        else (s.run history).orchestrator.active) ∧
    (∀ history, ∀ w ∈ s.switches history,
      w.input.asksCheck = true ∨ (w.input.tellsReady = true ∧ w.active = true)) ∧
    (∀ history,
      (s.switches history).countP (·.input.tellsReady) ≤ (s.switches history).countP (!·.active) + 1) ∧
    (∀ history, s.OnlyCommandsBehindReady history ↔ s.ReadyFindsActive history) ∧
    (∀ history, s.ReadyFindsActive history → (s.switches history).countP (·.input.tellsReady) ≤ 1) ∧
    ∀ events : List SessionEvent,
      ((fresh config).run events).1.server = s.run ((fresh config).inputs events) := by
  intro s
  have hconfig : s.orchestrator.config.startActive = true := hstart
  refine ⟨?_, ?_, ?_, ?_, ?_, ?_⟩
  · intro history input
    have htake := (s.run history).active_take input
    rw [Server.config_run, hconfig, Bool.true_or, Server.shutdownRequested_run] at htake
    rw [Server.run_append]
    exact htake
  · intro history w hw
    exact Server.cause_of_mem_switches hw
  · intro history
    have hcount := s.count_switches history
    have hready := s.count_tellsReady_le history
    have hlast := Bool.toNat_le (s.run history).orchestrator.active
    omega
  · intro history
    exact Server.onlyCommands_iff hconfig
  · intro history hfinds
    exact Server.count_tellsReady_le_one ((Server.onlyCommands_iff hconfig).mpr hfinds)
  · intro events
    exact ((fresh config).follows_inputs events).server

/-- The message that the client is ready. -/
def readyMessage : ServerInput := .frame (.object [("method", .string "initialized")])

/-- The check command. -/
def checkRequest : ServerInput :=
  .frame (.object [("id", .int 1), ("method", .string "workspace/executeCommand"),
    ("params", .object [("command", .string checkCommand)])])

/-- A client that says twice that it is ready, and then turns scanning off for good. -/
theorem activity_turnedOff :
    let s := Server.fresh { startActive := true }
    let history := [readyMessage, readyMessage, checkRequest]
    s.ReadyFindsActive history ∧ s.OnlyCommandsBehindReady history ∧
      (s.switches history).countP (·.input.tellsReady) ≤ 1 ∧
      (s.run history).orchestrator.active = false := by
  intro s history
  obtain ⟨hstep, -, -, honly, honce, -⟩ := activity_decided { startActive := true } rfl
  have hfinds : s.ReadyFindsActive history := by
    intro before ready between again after hhistory hready hagain
    have hcheck : checkRequest.tellsReady ≠ true := by decide +kernel
    -- the check command is no such message, so the two are the first and the second input
    have hfirst : before = [] ∧ ready = readyMessage ∧ between = [] := by
      rcases before with _ | ⟨b, _ | ⟨b', before⟩⟩ <;> rcases between with _ | ⟨i, between⟩ <;>
        simp_all [history, List.cons_eq_append_iff]
    obtain ⟨rfl, rfl, rfl⟩ := hfirst
    decide +kernel
  have hon : (s.run [readyMessage, readyMessage]).orchestrator.active = true := by decide +kernel
  refine ⟨hfinds, (honly history).mpr hfinds, honce history hfinds, ?_⟩
  exact (hstep [readyMessage, readyMessage] checkRequest).trans (by rw [hon]; decide +kernel)

/-- A check command turns scanning off, and the next message that the client is ready turns it on again. -/
theorem activity_turnedOnAgain :
    let s := Server.fresh { startActive := true }
    let history := [readyMessage, checkRequest, readyMessage]
    (s.run [readyMessage, checkRequest]).orchestrator.active = false ∧
      (s.run history).orchestrator.active = true ∧
      (s.switches history).countP (·.input.tellsReady) = 2 ∧ ¬ s.OnlyCommandsBehindReady history := by
  intro s history
  have hoff : (s.run [readyMessage, checkRequest]).orchestrator.active = false := by decide +kernel
  have hon : (s.run history).orchestrator.active = true := by decide +kernel
  refine ⟨hoff, hon, by decide +kernel, ?_⟩
  intro hcommands
  have hswitch : ⟨readyMessage, true⟩ ∈ (s.run [readyMessage]).switches [checkRequest, readyMessage] :=
    Server.mem_switches_iff.mpr ⟨[checkRequest], [], rfl, hoff, hon⟩
  have hcheck := hcommands [] readyMessage [checkRequest, readyMessage] rfl (by decide +kernel) _ hswitch
  exact absurd hcheck (by decide +kernel)

end Session
end NoticeServer
