import NoticeServer.Proofs.Session.Roots

/-!
# `NoticeServer.Proofs.Session.Scans` — which frames start scans

What one frame starts is decided by the state in which it is handled: `Server.StartsScans` lists the cases,
and in all others nothing starts. That the roots are scanned once each is a matter of reachable states, in
which no two of them are equal. `Session.scans_started` puts both together and carries them over to the
analyzer calls of a session.
-/

namespace NoticeServer
namespace Session

/-- **Exactly which frames start scans.** In every state a frame starts scans for just the roots that it asks
to be scanned, in this order, and for none if it asks for none, a finished scan starts none, and whatever
starts is for a root that is monitored then, while scanning is active. In every state that a server can
reach, the configuration is the one that it was given, and no two monitored roots are equal. In every session
the server takes in frames and finished scans, their scans are the analyzer calls, and each of these starts
while scanning is active, for a root that is monitored then. -/
theorem scans_started (config : ScanConfig) :
    (∀ s : Server,
      (∀ frame,
        (∀ roots, s.StartsScans frame roots → (s.handle frame).2.scans = roots) ∧
        ((∀ roots, ¬ s.StartsScans frame roots) → (s.handle frame).2.scans = [])) ∧
      (∀ c, (s.complete c).2.scans = []) ∧
      ∀ input, let after := s.take input
        ∀ root ∈ after.2.scans,
          after.1.orchestrator.active = true ∧ root ∈ after.1.orchestrator.roots) ∧
    (∀ history : List ServerInput,
      let s := (Server.fresh config).run history
      s.orchestrator.config = config ∧ s.orchestrator.roots.Pairwise (fun p q => ¬ p ≈ q)) ∧
    ∀ events : List SessionEvent,
      let r := (fresh config).run events
      let inputs := (fresh config).inputs events
      r.1.server = (Server.fresh config).run inputs ∧
      r.2.scans = (Server.fresh config).scans inputs ∧
      r.1.invocations.calls.map (·.root) = r.2.scans ∧
      ∀ before input, before ++ [input] <+: inputs →
        let after := ((Server.fresh config).run before).take input
        ∀ root ∈ after.2.scans,
          after.1.orchestrator.active = true ∧ root ∈ after.1.orchestrator.roots := by
  refine ⟨?_, ?_, ?_⟩
  · intro s
    refine ⟨?_, s.scans_complete, ?_⟩
    · intro frame
      exact ⟨fun roots h => Server.scans_of_startsScans h, Server.scans_of_not_startsScans⟩
    · intro input after root hroot
      exact Server.monitored_of_scans_take hroot
  · intro history s
    exact ⟨Server.config_run _ history, Server.noTwoEqual_run (Server.noTwoEqual_fresh config) history⟩
  · intro events r inputs
    have hfollows := (fresh config).follows_inputs events
    refine ⟨hfollows.server, hfollows.scans, hfollows.calls, ?_⟩
    intro before input _ after root hroot
    exact Server.monitored_of_scans_take hroot

/-- The first messages of a client that opens two folders, one of them twice, and turns scanning on. -/
def twoFolders : List Json :=
  [.object [("id", .int 1), ("method", .string "initialize"),
      ("params", .object [("workspaceFolders", .array [
        .object [("uri", .string "file:///a")], .object [("uri", .string "file:///b")],
        .object [("uri", .string "file:///a/")]])])],
    .object [("id", .int 2), ("method", .string "workspace/executeCommand"),
      ("params", .object [("command", .string checkCommand)])]]

/-- Both folders are scanned when scanning is turned on; the first one is scanned again when it is removed
under another spelling and added again. -/
theorem scans_twoFolders :
    let a := Path.ofString "/a"
    let b := Path.ofString "/b"
    let s := (Server.fresh {}).run (twoFolders.map .frame)
    let change := folderChange "file:///%61/" "file:///a"
    let events := [SessionEvent.deliver (Frame.writeAll (twoFolders ++ [change]))]
    let r := (fresh {}).run events
    let inputs := (fresh {}).inputs events
    s.StartsScans change [a] ∧ (s.handle change).2.scans = [a] ∧
      r.1.invocations.calls.map (·.root) = [a, b, a] ∧
      ∃ input, inputs.take 1 ++ [input] <+: inputs ∧
        let on := ((Server.fresh {}).run (inputs.take 1)).take input
        on.2.scans = [a, b] ∧ on.1.orchestrator.active = true ∧ b ∈ on.1.orchestrator.roots := by
  intro a b s change events r inputs
  obtain ⟨hserver, -, hsession⟩ := scans_started {}
  obtain ⟨-, -, hcalls, hmonitored⟩ := hsession events
  have hstarts : s.StartsScans change [a] := by
    have hnew : Path.additions (Path.without s.orchestrator.roots
        (FolderChange.removedRoots ⟨["file:///a"], ["file:///%61/"]⟩))
        (FolderChange.addedRoots ⟨["file:///a"], ["file:///%61/"]⟩) = [a] := by decide +kernel
    rw [← hnew]
    exact .changed (.folders rfl rfl) (by decide +kernel)
  have hall : r.2.scans = [a, b, a] := by decide +kernel
  have hturned : inputs[1]?.map
      (fun input => (((Server.fresh {}).run (inputs.take 1)).take input).2.scans) = some [a, b] := by
    decide +kernel
  obtain ⟨input, hinput, hon⟩ := Option.map_eq_some_iff.mp hturned
  have hfront : inputs.take 1 ++ [input] <+: inputs := by
    have htwo := List.take_prefix 2 inputs
    rw [List.take_add_one, hinput] at htwo
    exact htwo
  have hb := hmonitored _ _ hfront b (by rw [hon]; decide)
  refine ⟨hstarts, ((hserver s).1 change).1 _ hstarts, ?_, input, hfront, hon, hb⟩
  rw [hcalls, hall]

end Session
end NoticeServer
