import CompilationBridge.Notifier
import CompilationBridge.ProjectSystem
import CompilationBridge.Proofs.Graph.Tracking
import CompilationBridge.Proofs.Restores.Bounds
import Mathlib.Data.Finset.Card

/-! Restores as they are asked for. A changed manifest, an editor and a project with unresolved
dependencies ask for the restore of a project that the graph tracks; all three name it by its id and by
the path that the graph has for it, whatever spelling they were given. Ids keep their paths, so the lock
of a path is the lock of a project: at most one tool runs for each tracked project, and no more tools run
than the settings allow. -/

namespace CompilationBridge

open CompilationBridge.Graph (ProjectRef)
open CompilationBridge.Graph.Reconciler (Step facing)

namespace Graph

namespace Reconciler

open Store

variable {r : Reconciler}

/-- The id of a project stands for its path for good. -/
theorem WellFormed.step (hr : r.WellFormed) (s : Step) :
    (r.step s).WellFormed ∧
      ∀ i q, r.store.path? i = some q → (r.step s).store.path? i = some q :=
  ⟨wellFormed_maintained.run hr [s], fun i q hq => by
    cases s with
    | track path => exact (gains_track r.store path).path hq
    | visit order => exact hq
    | apply m => exact (gains_apply r m).path hq⟩

/-- Unresolved dependencies are told of the project that the message is about. -/
theorem eq_of_unresolved {ref ref' : ProjectRef} {payload : Payload}
    (h : Notice.unresolved ref' ∈ (r.applyPayload ref payload).2) : ref' = ref := by
  have hloaded : ∀ r : Reconciler, Notice.unresolved ref' ∉ r.loadedNotice ref := by
    intro r
    unfold loadedNotice
    split <;> [split; skip] <;> simp
  have hchanged : ∀ r : Reconciler, Notice.unresolved ref' ∉ r.changedNotice ref.contextId := by
    intro r
    unfold changedNotice
    split <;> simp
  cases payload with
  | dependencies deps =>
      simp only [applyPayload] at h
      split at h
      · simp [hloaded] at h
      · simpa [hloaded] using h
  | _ => simp [applyPayload, hloaded, hchanged, hostErrorNotices] at h

theorem path?_of_unresolved {m : Message} {ref : ProjectRef} (h : Notice.unresolved ref ∈ (r.apply m).2) :
    r.store.path? ref.contextId = some ref.path := by
  cases hd : r.delivery? m with
  | none =>
      obtain ⟨tally, logs, heq⟩ := apply_eq_of_dropped hd
      simp [heq] at h
  | some d =>
      obtain ⟨-, p, hp, heq⟩ := apply_eq_of_delivered hd
      rw [heq] at h
      rw [eq_of_unresolved h, path?, hp]
      rfl

end Reconciler

end Graph

/-- The graph of projects, the restores, and the projects whose restore was asked for. -/
structure Restoring where
  graph : Graph.Reconciler
  restores : Restores
  asked : List ProjectRef := []

namespace Restoring

def new (extension : String) (outages : Outages Workspace.Method) (settings : Settings.Restore)
    (processors : Nat) : Restoring :=
  { graph := facing extension outages, restores := .new settings processors }

inductive Move where
  | track (path : String)
  | visit (order : Graph.Visiting)
  | message (message : Message)
  /-- A manifest changed. -/
  | manifestChanged (path : String)
  /-- An editor asks for a restore. -/
  | requested (path : String)
  /-- A restore that was asked for is run. -/
  | call (place : Nat)
  | exit (process : Nat) (code : Int)
  | output (process now : Nat)
  | cancel
  /-- A run takes a step, if it is ready. -/
  | work (run : Nat) (answers : Restores.Surroundings)

/-- The restores that the notices of a message ask for. -/
def unresolved (notices : List Graph.Notice) : List ProjectRef :=
  notices.filterMap fun
    | .unresolved project => some project
    | _ => none

def take (s : Restoring) : Move → Restoring
  | .track path => { s with graph := s.graph.step (.track path) }
  | .visit order => { s with graph := s.graph.step (.visit order) }
  | .message m =>
    { s with
      graph := s.graph.step (.apply m)
      asked := s.asked ++ unresolved (s.graph.apply m).2 }
  | .manifestChanged path =>
    { s with asked := s.asked ++ (Notifier.restoreFor s.graph.store path).toList }
  | .requested path =>
    { s with asked := s.asked ++ (ProjectSystem.restoreTarget s.graph.store path).toOption.toList }
  | .call place =>
    match s.asked[place]? with
    | some project =>
      { s with restores := s.restores.run project, asked := s.asked.eraseIdx place }
    | none => s
  | .exit process code => { s with restores := s.restores.exit process code }
  | .output process now => { s with restores := s.restores.output process now }
  | .cancel => { s with restores := s.restores.cancel }
  | .work i e => { s with restores := ((s.restores.step i e).map (·.1)).getD s.restores }

def run (s : Restoring) (moves : List Move) : Restoring :=
  moves.foldl take s

/-- Every restore that was asked for or runs is for a tracked project, under its path. -/
structure Tracked (n : Nat) (s : Restoring) : Prop where
  wellFormed : s.graph.WellFormed
  asked : ∀ ref ∈ s.asked, s.graph.store.path? ref.contextId = some ref.path
  bounded : s.restores.Bounded n fun ref => s.graph.store.path? ref.contextId = some ref.path

variable {s : Restoring} {n : Nat}

/-- More is asked for. -/
theorem Tracked.ask {refs : List ProjectRef} (hs : Tracked n s)
    (hrefs : ∀ ref ∈ refs, s.graph.store.path? ref.contextId = some ref.path) :
    Tracked n { s with asked := s.asked ++ refs } :=
  { hs with asked := fun ref href => (List.mem_append.1 href).elim (hs.asked ref) (hrefs ref) }

/-- The graph goes on. -/
theorem Tracked.grow (hs : Tracked n s) (step : Step) :
    Tracked n { s with graph := s.graph.step step } := by
  obtain ⟨hwf, hpath⟩ := hs.wellFormed.step step
  exact ⟨hwf, fun ref href => hpath _ _ (hs.asked ref href), hs.bounded.mono fun ref => hpath _ _⟩

theorem tracked_take (s : Restoring) (m : Move) (hs : Tracked n s) : Tracked n (s.take m) := by
  cases m with
  | track path => exact hs.grow (.track path)
  | visit order => exact hs.grow (.visit order)
  | message m =>
      refine (hs.grow (.apply m)).ask fun ref href => ?_
      obtain ⟨notice, hnotice, heq⟩ := List.mem_filterMap.1 href
      cases notice <;> simp only [reduceCtorEq, Option.some.injEq] at heq
      subst heq
      exact (hs.wellFormed.step (.apply m)).2 _ _ (Graph.Reconciler.path?_of_unresolved hnotice)
  | manifestChanged path =>
      refine hs.ask fun ref href => ?_
      obtain ⟨id, hid, rfl⟩ := Option.map_eq_some_iff.1 (Option.mem_toList.1 href)
      exact Graph.Store.idOf?_iff.1 hid
  | requested path =>
      refine hs.ask fun ref href => ?_
      unfold ProjectSystem.restoreTarget at href
      split at href
      · rename_i id hid
        obtain rfl := Option.some_inj.1 (Option.mem_toList.1 href)
        exact Graph.Store.idOf?_iff.1 hid
      · cases href
  | call place =>
      simp only [take]
      split
      · rename_i ref href
        exact ⟨hs.wellFormed, fun ref' href' => hs.asked ref' (List.mem_of_mem_eraseIdx href'),
          Restores.bounded_run hs.bounded (hs.asked ref (List.mem_of_getElem? href))⟩
      · exact hs
  | exit process code => exact { hs with bounded := Restores.bounded_exit hs.bounded process code }
  | output process now => exact { hs with bounded := Restores.bounded_output hs.bounded process now }
  | cancel => exact { hs with bounded := Restores.bounded_cancel hs.bounded }
  | work i e => exact { hs with bounded := Restores.bounded_step hs.bounded i e }

theorem tracked_run (extension : String) (outages : Outages Workspace.Method)
    (settings : Settings.Restore) (processors : Nat) (moves : List Move) :
    Tracked (Restores.limitOf settings processors)
      ((new extension outages settings processors).run moves) :=
  List.foldlRecOn moves take
    { wellFormed := Graph.Reconciler.wellFormed_of_empty rfl
      asked := nofun
      bounded := Restores.bounded_new settings processors }
    fun s hs m _ => tracked_take s m hs

/-- The live processes that runs for a project watch. -/
def liveOf (s : Restoring) (id : Nat) : List Nat :=
  s.restores.live.filter fun process => s.restores.runs.any fun x =>
    x.point.process? = some process && x.project.contextId = id

theorem mem_liveOf {id k : Nat} : k ∈ s.liveOf id ↔ s.restores.isLive k = true ∧
    ∃ x ∈ s.restores.runs, x.point.process? = some k ∧ x.project.contextId = id := by
  simp [liveOf, Restores.mem_live]

/-- The runs of a project have its path and so its lock. -/
theorem Tracked.length_liveOf (hs : Tracked n s) (id : Nat) : (s.liveOf id).length ≤ 1 := by
  have hnodup : (s.liveOf id).Nodup := (Restores.nodup_live _).filter _
  rw [← List.toFinset_card_of_nodup hnodup, Finset.card_le_one]
  intro k hk l hl
  rw [List.mem_toFinset] at hk hl
  obtain ⟨-, x, hx, hxk, hxid⟩ := mem_liveOf.1 hk
  obtain ⟨-, y, hy, hyl, hyid⟩ := mem_liveOf.1 hl
  have hpath : some x.project.path = some y.project.path := by
    rw [← hs.bounded.known x hx, ← hs.bounded.known y hy, hxid, hyid]
  obtain rfl := hs.bounded.watcher_unique hx hy hxk hyl (Option.some_inj.1 hpath)
  exact Option.some_inj.1 (hxk.symm.trans hyl)

/-- **Restores are bounded.** However restores are asked for, in whatever order their runs take their
steps and however the outside answers: no more tools run than the settings allow, each of them runs for a
tracked project, and at most one for each. -/
theorem restores_bounded (extension : String) (outages : Outages Workspace.Method)
    (settings : Settings.Restore) (processors : Nat) (moves : List Move) :
    let s := (new extension outages settings processors).run moves
    s.restores.live.length ≤ (if 0 < settings.maxConcurrency then settings.maxConcurrency.toNat
      else max 1 (processors / 2)) ∧
    (∀ k ∈ s.restores.live, ∃ ref ∈ s.graph.store.refs, k ∈ s.liveOf ref.contextId) ∧
    ∀ ref ∈ s.graph.store.refs, (s.liveOf ref.contextId).length ≤ 1 := by
  intro s
  have hs : Tracked (Restores.limitOf settings processors) s := tracked_run ..
  refine ⟨hs.bounded.length_live, fun k hk => ?_, fun ref _ => hs.length_liveOf ref.contextId⟩
  have hlive : s.restores.isLive k = true := Restores.mem_live.1 hk
  obtain ⟨x, hx, hxk⟩ := hs.bounded.watched k hlive
  exact ⟨x.project, Graph.Store.mem_refs.2 (hs.bounded.known x hx), mem_liveOf.2 ⟨hlive, x, hx, hxk, rfl⟩⟩

/-- Of three runs on two permits the third waits for the lock of the project that the first restores,
which was asked for under another spelling. -/
theorem two_projects_restored :
    let moves :=
      [Move.track "/a/project.json", Move.track "/b/project.json", Move.requested "/a/./project.json",
        Move.manifestChanged "/b/project.json", Move.requested "/a/project.json", Move.call 0, Move.call 0,
        Move.call 0] ++
      List.replicate 5 (Move.work 0 { now := 0 }) ++ List.replicate 5 (Move.work 1 { now := 0 }) ++
      List.replicate 5 (Move.work 2 { now := 0 })
    let s := (new ".cs" {} { enabled := true, maxConcurrency := 2 } 8).run moves
    s.restores.live = [0, 1] ∧ s.restores.runs.length = 3 ∧
      (∃ ref ∈ s.graph.store.refs, 1 ∈ s.liveOf ref.contextId) ∧ (s.liveOf 1).length ≤ 1 := by
  intro moves s
  obtain ⟨-, htracked, hsole⟩ :=
    restores_bounded ".cs" {} { enabled := true, maxConcurrency := 2 } 8 moves
  exact ⟨by decide +kernel, by decide +kernel, htracked 1 (by decide +kernel),
    hsole ⟨1, "/a/project.json"⟩ (by decide +kernel)⟩

end Restoring

end CompilationBridge
