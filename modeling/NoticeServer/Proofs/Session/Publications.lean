import NoticeServer.Frame.Writer
import NoticeServer.Proofs.Server.Operations
import NoticeServer.Proofs.Session.Answers

/-!
# `NoticeServer.Proofs.Session.Publications` — every publication reaches the client

Monitored roots are absolute paths in every session, so all that is published is at absolute paths, and
every publication has a frame. In a session in which all is written, these frames are what it writes
besides answers (`Session.publications_delivered`).
-/

namespace NoticeServer
namespace Session

/-- **Every publication reaches the client.** Whatever a server takes in from its beginning, its
orchestrator has undergone the operations that this comes to. Every monitored root is an absolute path, and
so is the path of every publication of these operations. What the server writes besides answers is one
frame for each of the publications, in their order, with the diagnostics in order; and two of these frames
carry the same URI just if the paths of their publications are equivalent. In every session the server
takes in frames and finished scans, and unless a frame cannot be written, what it writes for them is what
the client gets. -/
theorem publications_delivered (config : ScanConfig) :
    (∀ inputs : List ServerInput,
      let ops := (Server.fresh config).operations inputs
      let orchestrator := ((Server.fresh config).run inputs).orchestrator
      let pubs := (Orchestrator.fresh config).publications ops
      let frames := notices ((Server.fresh config).frames inputs)
      orchestrator = (Orchestrator.fresh config).run ops ∧
      (∀ root ∈ orchestrator.roots, root.isAbsolute = true) ∧
      (∀ pub ∈ pubs, pub.path.isAbsolute = true) ∧
      List.Forall₂ Shows frames pubs ∧
      ∀ x ∈ frames.zip pubs, ∀ y ∈ frames.zip pubs,
        (x.1.at? ["params", "uri"] = y.1.at? ["params", "uri"] ↔ x.2.path ≈ y.2.path)) ∧
    ∀ events : List SessionEvent,
      let r := (fresh config).run events
      let inputs := (fresh config).inputs events
      r.1.server = (Server.fresh config).run inputs ∧
      (.breakOutput ∉ events → r.1.AllWritten) ∧
      (r.1.AllWritten → r.2.frames = (Server.fresh config).frames inputs) := by
  constructor
  · intro inputs ops orchestrator pubs frames
    have hops := (Server.fresh config).isAbsolute_operations inputs
    have hfresh := Orchestrator.isAbsolute_fresh config
    obtain ⟨hstate, hframes⟩ := (Server.fresh config).undergoes_run inputs
    have hroots : orchestrator.IsAbsolute := Server.isAbsolute_run config inputs
    have hpubs : ∀ pub ∈ pubs, pub.path.isAbsolute = true :=
      Orchestrator.isAbsolute_publications hfresh hops
    have hshows : List.Forall₂ Shows frames pubs := by
      rw [show frames = _ from hframes]
      exact forall₂_shows_publicationFrames hpubs
    refine ⟨hstate, hroots.roots, hpubs, hshows, ?_⟩
    intro x hx y hy
    obtain ⟨-, hpairs⟩ := List.forall₂_iff_zip.mp hshows
    exact (hpairs hx).uri_eq_iff (hpairs hy)
  · intro events r inputs
    exact ⟨((fresh config).follows_inputs events).server, allWritten_run (canWrite_fresh config), frames_run⟩

/-- A client that opens a folder and turns scanning on; the scan then finds something in one file. -/
def firstFinding : List SessionEvent :=
  [.deliver (Frame.writeAll
    [.object [("id", .int 1), ("method", .string "initialize"),
      ("params", .object [("rootUri", .string "file:///w")])],
    .object [("id", .int 2), ("method", .string "workspace/executeCommand"),
      ("params", .object [("command", .string checkCommand)])]]),
  .finish 0 (.ok "::notice file=a b.go,line=1,col=1,endLine=1,endColumn=2::x".toList)]

theorem publications_firstFinding :
    let r := (fresh {}).run firstFinding
    let inputs := (fresh {}).inputs firstFinding
    r.1.AllWritten ∧ r.2.frames = (Server.fresh {}).frames inputs ∧ r.2.frames.length = 3 ∧
      (notices r.2.frames).map (fun frame => (frame.at? ["params", "uri"]).bind Json.string?) =
        [some "file:///w/a%20b.go"] ∧
      List.Forall₂ Shows (notices r.2.frames)
        ((Orchestrator.fresh {}).publications ((Server.fresh {}).operations inputs)) := by
  intro r inputs
  obtain ⟨hserver, hsession⟩ := publications_delivered {}
  obtain ⟨-, hwritten, hframes⟩ := hsession firstFinding
  have hall := hwritten (by simp [firstFinding])
  have hshows := (hserver inputs).2.2.2.1
  rw [← hframes hall] at hshows
  exact ⟨hall, hframes hall, by decide +kernel, by decide +kernel, hshows⟩

end Session
end NoticeServer
