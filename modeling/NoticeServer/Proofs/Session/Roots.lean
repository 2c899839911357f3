import NoticeServer.Proofs.Server.Folders
import NoticeServer.Proofs.Session.Answers

/-!
# `NoticeServer.Proofs.Session.Roots` — the monitored roots along a session

The roots behind a session are those that its history leaves (`Session.roots_folded`). A folder counts if its
URI denotes a path, whatever the scheme of the URI is; in a history whose URIs are all of the scheme `file`
this makes no difference.
-/

namespace NoticeServer
namespace Session

/-- **The monitored roots are what the history leaves.** Whatever a server takes in from its beginning, its
roots are those of the history, and no two of them are equal: the client's start appends the roots that it
names, unless shutdown was asked for, a change of folders first removes every root that is equal to one of
the removed folders and then appends the added ones, both times those that are not there yet, and nothing
else counts. If every URI that the history names denotes a path only if its scheme is `file`, it does not
matter whether other schemes count. For a root that a change of folders removes nothing is published
afterwards, and each of its published files is cleared by a frame that is written for the change. In every
session the server takes in frames and finished scans, and unless a frame cannot be written, what it writes
for them is what the client gets. -/
theorem roots_folded (config : ScanConfig) :
    (∀ history : List ServerInput,
      let s := (Server.fresh config).run history
      s.orchestrator.roots = (RootHistory.of Uri.toPath? history).roots ∧
      s.orchestrator.roots.Pairwise (fun p q => ¬ p ≈ q) ∧
      ((∀ input ∈ history, ∀ uri ∈ input.rootUris, Uri.toFilePath? uri = Uri.toPath? uri) →
        RootHistory.of Uri.toFilePath? history = RootHistory.of Uri.toPath? history) ∧
      ∀ change frame, Server.ChangesFolders change frame →
        ∀ root, (∃ removed ∈ change.removedRoots, removed ≈ root) →
          (s.handle frame).1.orchestrator.published.get? root = none ∧
          ∀ set, s.orchestrator.published.get? root = some set → ∀ f ∈ set.files,
            ∃ notice ∈ (s.handle frame).2.frames, Shows notice (.clear f.1)) ∧
    ∀ events : List SessionEvent,
      let r := (fresh config).run events
      let inputs := (fresh config).inputs events
      r.1.server = (Server.fresh config).run inputs ∧
      (r.1.AllWritten → r.2.frames = (Server.fresh config).frames inputs) := by
  constructor
  · intro history s
    refine ⟨Server.roots_run config history, ?_, RootHistory.of_congr, ?_⟩
    · exact Server.noTwoEqual_run (Server.noTwoEqual_fresh config) history
    · intro change frame hchange root hroot
      exact Server.cleared_of_changesFolders (Server.isAbsolute_run config history) hchange hroot
  · intro events r inputs
    exact ⟨((fresh config).follows_inputs events).server, frames_run⟩

/-- A client that opens a folder and turns scanning on; the scan then finds something in one file. -/
def oneFolder : List ServerInput :=
  [.frame (.object [("id", .int 1), ("method", .string "initialize"),
      ("params", .object [("rootUri", .string "file:///work")])]),
    .frame (.object [("id", .int 2), ("method", .string "workspace/executeCommand"),
      ("params", .object [("command", .string checkCommand)])]),
    .completion ⟨Path.ofString "/work",
      .ok "::notice file=a.go,line=1,col=1,endLine=1,endColumn=2::x".toList⟩]

/-- The message that one folder was removed and another one added. -/
def folderChange (removed added : String) : Json :=
  .object [("method", .string "workspace/didChangeWorkspaceFolders"),
    ("params", .object [("event", .object [
      ("added", .array [.object [("uri", .string added)]]),
      ("removed", .array [.object [("uri", .string removed)]])])])]

theorem changesFolders_folderChange (removed added : String) :
    Server.ChangesFolders ⟨[added], [removed]⟩ (folderChange removed added) := ⟨rfl, rfl⟩

/-- A folder that is removed under another spelling and added again is monitored, without its file; it makes
no difference to read `file` URIs only. -/
theorem roots_oneFolder :
    let s := (Server.fresh {}).run oneFolder
    let change := folderChange "file:///%77ork//" "file:///work"
    let history := oneFolder ++ [.frame change]
    s.orchestrator.published.get? (Path.ofString "/work") ≠ none ∧
      (s.handle change).1.orchestrator.published.get? (Path.ofString "/work") = none ∧
      (∃ notice ∈ (s.handle change).2.frames, Shows notice (.clear (Path.ofString "/work/a.go"))) ∧
      (s.handle change).1.orchestrator.roots = [Path.ofString "/work"] ∧
      (RootHistory.of Uri.toFilePath? history).roots = [Path.ofString "/work"] := by
  intro s change history
  obtain ⟨hfolded, -⟩ := roots_folded {}
  have hremoved : ∃ removed ∈ FolderChange.removedRoots ⟨["file:///work"], ["file:///%77ork//"]⟩,
      removed ≈ Path.ofString "/work" := by decide +kernel
  obtain ⟨hnone, hcleared⟩ := (hfolded oneFolder).2.2.2 _ change (changesFolders_folderChange _ _) _ hremoved
  have hset : s.orchestrator.published.get? (Path.ofString "/work") =
      some ⟨[(Path.ofString "/work/a.go",
        [⟨Path.ofString "a.go", ⟨⟨0, 0⟩, ⟨1, 0⟩⟩, "x"⟩])]⟩ := by decide +kernel
  have hsame := (hfolded history).2.2.1 (by decide +kernel)
  refine ⟨by rw [hset]; exact nofun, hnone, ?_, by decide +kernel, ?_⟩
  · exact hcleared _ hset _ List.mem_cons_self
  · rw [hsame]
    decide +kernel

/-- A folder is monitored, too, if its URI has another scheme than `file`; a history of `file` URIs only
would leave it out. -/
theorem roots_otherScheme :
    let change := folderChange "http://localhost/none" "git:/work/b"
    let history := oneFolder ++ [.frame change]
    Server.ChangesFolders ⟨["git:/work/b"], ["http://localhost/none"]⟩ change ∧
      Uri.toFilePath? "git:/work/b" = none ∧
      (RootHistory.of Uri.toFilePath? history).roots = [Path.ofString "/work"] ∧
      ((Server.fresh {}).run history).orchestrator.roots =
        [Path.ofString "/work", Path.ofString "/work/b"] := by
  intro change history
  exact ⟨changesFolders_folderChange _ _, by decide +kernel, by decide +kernel, by decide +kernel⟩

end Session
end NoticeServer
