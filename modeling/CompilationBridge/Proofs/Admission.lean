import CompilationBridge.Proofs.Paths
import CompilationBridge.Server
import Mathlib.Data.List.Permutation

/-! Editors that open a workspace. The first request that names a root has it loaded, and the root is noted
before the load and never given up. From then on a request is answered by the noted root alone: the workspace
is never loaded again, and once its load has failed an editor that names its root is greeted as if it were
there, and one that names another root is turned away for its sake. -/

namespace CompilationBridge

theorem Uri.ne_empty_of_location {uri path : String} (h : location uri = .path path) : path ≠ "" := by
  unfold location at h
  simp only at h
  repeat' split at h
  all_goals cases h
  all_goals exact Path.clean_ne_empty _

/-- A workspace has a root that is not empty, so an empty root stands for none. -/
theorem Editor.InitializeParams.ne_empty_of_workspaceRoot {params : InitializeParams} {root : String}
    (h : params.workspaceRoot = .path root) : root ≠ "" := by
  have hlocation : ∀ {path}, params.rootLocation = .path path → path ≠ "" := by
    intro path h
    unfold rootLocation at h
    repeat' split at h
    · exact Uri.ne_empty_of_location h
    · cases h
      exact Path.clean_ne_empty _
    · cases h
  unfold workspaceRoot at h
  repeat' split at h
  · exact Uri.ne_empty_of_location h
  · exact hlocation h
  · exact hlocation h

namespace Server

/-- The root that a request of a connected editor names to open a workspace. -/
def namedRoot? (s : Server) (id : Handle) : Editor.Request → Option String
  | .openWorkspace params =>
    match s.bridge.sessions.get id, params.workspaceRoot with
    | .ok _, .path root => some root
    | _, _ => none
  | _ => none

/-- How a request that names a root is answered while the bridge serves a root. -/
def answerUnder (served root : String) : Answer :=
  if served = root then .result greeting
  else .fault (.text ("bridge already serves workspace " ++ Text.quote served))

theorem answerUnder_ne_load (served root loaded : String) : answerUnder served root ≠ .load loaded := by
  unfold answerUnder
  split <;> exact nofun

/-- What can happen to the bridge. -/
inductive Move where
  | connect (id : Handle) (connection : Option String) (now : Nat)
  | disconnect (id : Handle) (now : Nat)
  | request (id : Handle) (request : Editor.Request) (now : Nat)
  /-- The load under way ends, with the fault that it failed with or none. -/
  | loaded (fault : Option Fault)
  /-- The parts beside the bridge change in any way. -/
  | elsewhere (server : Server)

/-- What the editors that open workspaces have seen. -/
inductive Entry where
  | asked (root : String) (answer : Answer)
  /-- A load has ended, and its editor is answered the greeting, or the fault. -/
  | loaded (root : String) (fault : Option Fault)

def Entry.isLoad : Entry → Bool
  | .asked .. => false
  | .loaded .. => true

/-- A bridge with what has been asked of it. -/
structure Opening where
  server : Server
  /-- The root of the load under way. -/
  loading : Option String := none
  log : List Entry := []

namespace Opening

def root (s : Opening) : String :=
  s.server.bridge.root

/-- Takes up a request. -/
def ask (s : Opening) (id : Handle) (request : Editor.Request) (now : Nat) : Opening :=
  let (server, answer, _) := s.server.handle now id request
  { server := server
    loading := match answer with
      | .load root => some root
      | _ => s.loading
    log := s.log ++ ((s.server.namedRoot? id request).map (.asked · answer)).toList }

def take (s : Opening) : Move → Opening
  | .connect id connection now =>
    { s with server := { s.server with bridge := (s.server.bridge.openSession id connection now).1 } }
  | .disconnect id now =>
    { s with server := { s.server with bridge := s.server.bridge.endSession id now } }
  | .request id request now => s.ask id request now
  | .loaded fault =>
    match s.loading with
    | some root => { s with loading := none, log := s.log ++ [.loaded root fault] }
    | none => s
  | .elsewhere server => { s with server := { server with bridge := s.server.bridge } }

def run (s : Opening) (moves : List Move) : Opening :=
  moves.foldl take s

end Opening

/-- The last load of a root that has ended failed. -/
def Failed (log : List Entry) (root : String) : Prop :=
  ∃ before fault after, log = before ++ .loaded root (some fault) :: after ∧ .loaded root none ∉ after

/-- An editor is greeted only if the load of its root has not failed, and turned away only for a root whose
load has not failed. -/
def Honest (log : List Entry) : Prop :=
  ∀ before root answer after, log = before ++ .asked root answer :: after →
    (answer = .result greeting → ¬ Failed before root) ∧
    ∀ served, served ≠ root → answer = answerUnder served root → ¬ Failed before served

variable {s : Server} {o : Opening} {id : Handle}

/-! ### What one request does -/

theorem bridge_fileChanged (s : Server) (now : Nat) (path : String) :
    (s.fileChanged now path).1.bridge = s.bridge := by
  unfold fileChanged
  split
  · rfl
  · split <;> rfl

theorem bridge_filesChanged (s : Server) (now : Nat) (changes : List (Option Editor.FileEvent)) :
    (s.filesChanged now changes).1.bridge = s.bridge := by
  induction changes generalizing s with
  | nil => rfl
  | cons change rest ih =>
      cases change with
      | none => exact ih s
      | some change =>
          rw [filesChanged]
          split
          · rfl
          · exact ih s
          · exact (ih _).trans (bridge_fileChanged ..)

theorem root_openSession (b : Bridge) (id : Handle) (connection : Option String) (now : Nat) :
    (b.openSession id connection now).1.root = b.root := by
  unfold Bridge.openSession
  split <;> rfl

theorem root_exit (b : Bridge) (id : Handle) (now : Nat) : (b.exit id now).1.root = b.root := by
  unfold Bridge.exit
  split
  · rfl
  · split <;> rfl

theorem root_ready (s : Server) (id : Handle) : (s.ready id).1.bridge.root = s.bridge.root := by
  unfold ready
  split <;> rfl

/-- A request that names no root has nothing loaded. -/
theorem handle_of_unnamed {request : Editor.Request} (h : s.namedRoot? id request = none) (now : Nat) :
    (s.handle now id request).1.bridge.root = s.bridge.root ∧
      ∀ root, (s.handle now id request).2.1 ≠ .load root := by
  cases request with
  | openWorkspace params =>
      simp only [handle, openWorkspace]
      split
      · exact ⟨rfl, nofun⟩
      · split
        · exact ⟨rfl, nofun⟩
        · exact ⟨rfl, nofun⟩
        · simp [namedRoot?, *] at h
  | ready =>
      refine ⟨root_ready s id, fun root => ?_⟩
      simp only [handle, ready]
      split <;> exact nofun
  | exit => exact ⟨root_exit s.bridge id now, nofun⟩
  | filesChanged params =>
      refine ⟨congrArg Bridge.root (bridge_filesChanged s now _), fun root => ?_⟩
      simp only [handle]
      split <;> exact nofun
  | restore params =>
      simp only [handle]
      split <;> exact ⟨rfl, nofun⟩
  | _ => exact ⟨rfl, nofun⟩

/-- A request that names a root has it loaded if none was named before, and is answered under the root that
was named first otherwise. -/
theorem handle_of_named {request : Editor.Request} {root : String}
    (h : s.namedRoot? id request = some root) (now : Nat) : root ≠ "" ∧
      if s.bridge.root = "" then
        (s.handle now id request).1.bridge.root = root ∧ (s.handle now id request).2.1 = .load root
      else
        (s.handle now id request).1.bridge.root = s.bridge.root ∧
          (s.handle now id request).2.1 = answerUnder s.bridge.root root := by
  cases request with
  | openWorkspace params =>
      simp only [namedRoot?] at h
      split at h
      · rename_i session path hsession hpath
        obtain rfl := Option.some_inj.1 h
        refine ⟨Editor.InitializeParams.ne_empty_of_workspaceRoot hpath, ?_⟩
        simp only [handle, openWorkspace, hsession, hpath, Bridge.accept, answerUnder]
        by_cases hnone : s.bridge.root = ""
        · simp [hnone]
        · by_cases hsame : s.bridge.root = path
          · simp [← hsame, hnone]
          · simp [hsame, hnone]
      · cases h
  | _ => cases h

/-- The first request that names a root. -/
theorem Opening.ask_first {request : Editor.Request} {root : String}
    (hnamed : o.server.namedRoot? id request = some root) (hnone : o.root = "") (now : Nat) : root ≠ "" ∧
      (o.ask id request now).root = root ∧ (o.ask id request now).loading = some root ∧
      (o.ask id request now).log = o.log ++ [Entry.asked root (.load root)] := by
  obtain ⟨hne, hcase⟩ := handle_of_named hnamed now
  obtain ⟨hroot, hanswer⟩ := (if_pos hnone).mp hcase
  refine ⟨hne, hroot, ?_, ?_⟩
  · simp only [Opening.ask, hanswer]
  · simp [Opening.ask, hnamed, hanswer]

/-- A later request that names a root. -/
theorem Opening.ask_later {request : Editor.Request} {root : String}
    (hnamed : o.server.namedRoot? id request = some root) (hsome : o.root ≠ "") (now : Nat) :
      (o.ask id request now).root = o.root ∧ (o.ask id request now).loading = o.loading ∧
      (o.ask id request now).log = o.log ++ [Entry.asked root (answerUnder o.root root)] := by
  obtain ⟨-, hcase⟩ := handle_of_named hnamed now
  obtain ⟨hroot, hanswer⟩ := (if_neg hsome).mp hcase
  refine ⟨hroot, ?_, ?_⟩
  · simp only [Opening.ask, hanswer]
    split
    · exact absurd ‹_› (answerUnder_ne_load _ _ _)
    · rfl
  · simp [Opening.ask, hnamed, hanswer, Opening.root]

/-! ### What holds at all times -/

/-- What has been asked since the first request: each is answered under the root that was named first, and
its load is the only one, under way until it ends. -/
structure Serving (o : Opening) (later : List Entry) : Prop where
  named : o.root ≠ ""
  log : o.log = .asked o.root (.load o.root) :: later
  answers : ∀ root answer, .asked root answer ∈ later → answer = answerUnder o.root root
  loads : ∃ outcome : Option (Option Fault), o.loading = (if outcome.isSome then none else some o.root) ∧
    later.filter Entry.isLoad = outcome.toList.map (.loaded o.root)

/-- Nothing has been asked yet, or the root that was named first is served. -/
def Opening.Steady (o : Opening) : Prop :=
  (o.root = "" ∧ o.loading = none ∧ o.log = []) ∨ ∃ later, Serving o later

theorem Opening.Steady.frame {o' : Opening} (h : o.Steady) (hroot : o'.root = o.root)
    (hloading : o'.loading = o.loading) (hlog : o'.log = o.log) : o'.Steady := by
  rcases h with h | ⟨later, h⟩
  · exact Or.inl ⟨hroot.trans h.1, hloading.trans h.2.1, hlog.trans h.2.2⟩
  · exact Or.inr ⟨later, hroot ▸ h.named, by rw [hlog, hroot, h.log], hroot ▸ h.answers,
      by rw [hloading, hroot]; exact h.loads⟩

theorem Opening.Steady.ask (h : o.Steady) (id : Handle) (request : Editor.Request) (now : Nat) :
    (o.ask id request now).Steady := by
  cases hnamed : o.server.namedRoot? id request with
  | none =>
      obtain ⟨hroot, hanswer⟩ := handle_of_unnamed hnamed now
      refine h.frame hroot ?_ (by simp [Opening.ask, hnamed])
      simp only [Opening.ask]
  | some root =>
      rcases h with ⟨hnone, -, hempty⟩ | ⟨later, h⟩
      · obtain ⟨hne, hroot, hloading, hlog⟩ := Opening.ask_first hnamed hnone now
        exact Or.inr ⟨[], hroot ▸ hne, by rw [hroot, hlog, hempty]; rfl, nofun,
          none, by rw [hroot, hloading]; rfl, rfl⟩
      · obtain ⟨hroot, hloading, hlog⟩ := Opening.ask_later hnamed h.named now
        obtain ⟨outcome, hunder, hloads⟩ := h.loads
        refine Or.inr ⟨later ++ [Entry.asked root (answerUnder o.root root)], hroot ▸ h.named,
          by rw [hroot, hlog, h.log]; rfl, ?_, outcome, by rw [hroot, hloading, hunder], ?_⟩
        · intro r answer hmem
          rw [hroot]
          rcases List.mem_append.1 hmem with hmem | hmem
          · exact h.answers r answer hmem
          · cases List.mem_singleton.1 hmem
            rfl
        · rw [hroot, List.filter_append, hloads]
          exact List.append_nil _

theorem Opening.Steady.take (h : o.Steady) (move : Move) : (o.take move).Steady := by
  cases move with
  | connect id connection now => exact h.frame (root_openSession ..) rfl rfl
  | disconnect id now => exact h.frame rfl rfl rfl
  | request id request now => exact h.ask id request now
  | loaded fault =>
      simp only [Opening.take]
      split
      · rename_i root hloading
        rcases h with h | ⟨later, h⟩
        · cases h.2.1.symm.trans hloading
        · obtain ⟨outcome, hunder, hloads⟩ := h.loads
          cases outcome with
          | some _ => cases hunder.symm.trans hloading
          | none =>
              obtain rfl : o.root = root := Option.some_inj.1 (hunder.symm.trans hloading)
              refine Or.inr ⟨later ++ [Entry.loaded o.root fault], h.named, by simp [h.log, Opening.root],
                fun r answer hmem => ?_, some fault, rfl, ?_⟩
              · exact h.answers r answer (by simpa using hmem)
              · rw [List.filter_append, hloads]
                rfl
      · exact h
  | elsewhere server => exact h.frame rfl rfl rfl

theorem Opening.Steady.run (h : o.Steady) (moves : List Move) : (o.run moves).Steady :=
  List.foldlRecOn moves Opening.take h fun _ h move _ => h.take move

/-! ### What a failed load leaves -/

theorem Serving.honest_iff {later : List Entry} (h : Serving o later) :
    Honest o.log ↔ ∀ before root fault after,
      o.log = before ++ Entry.loaded root (some fault) :: after → after = [] := by
  constructor
  · intro hhonest before root fault after hlog
    obtain ⟨outcome, -, hloads⟩ := h.loads
    cases before with
    | nil => cases h.log.symm.trans hlog
    | cons first before =>
        have hlater : later = before ++ Entry.loaded root (some fault) :: after :=
          (List.cons.inj (h.log.symm.trans hlog)).2
        -- the load of the root is the only one
        rw [hlater, List.filter_append, List.filter_cons_of_pos rfl] at hloads
        have hroot : root = o.root ∧ after.filter Entry.isLoad = [] := by
          cases outcome with
          | none => simp at hloads
          | some outcome =>
              cases hbefore : before.filter Entry.isLoad <;> simp_all
        obtain ⟨rfl, hnone⟩ := hroot
        cases after with
        | nil => rfl
        | cons entry rest =>
            cases entry with
            | loaded r f => cases hnone
            | asked r answer =>
                have hanswer := h.answers r answer (by simp [hlater])
                have hfailed : Failed (first :: before ++ [Entry.loaded o.root (some fault)]) o.root :=
                  ⟨_, fault, [], rfl, List.not_mem_nil⟩
                obtain ⟨hgreeted, hrefused⟩ := hhonest _ r answer rest
                  (by rw [hlog, ← List.append_cons])
                by_cases hr : o.root = r
                · subst hr
                  exact absurd hfailed (hgreeted (hanswer.trans (if_pos rfl)))
                · exact absurd hfailed (hrefused o.root hr hanswer)
  · intro hlast before root answer after hlog
    have hnot : ∀ r, ¬ Failed before r := by
      rintro r ⟨b, fault, a, rfl, -⟩
      have := hlast b r fault (a ++ .asked root answer :: after) (by rw [hlog]; simp)
      simp at this
    exact ⟨fun _ => hnot root, fun served _ _ => hnot served⟩

/-- Whatever editors connect, ask and leave and however the load ends: the root that is named first is
loaded, once, and every other request is answered under it alone. So an editor is greeted in vain, or turned
away in vain, unless nobody asks any more once the load has failed. -/
theorem honest_iff_last (settings : Settings) (moves : List Move) :
    let o := ({ server := .new settings } : Opening).run moves
    o.Steady ∧ (Honest o.log ↔ ∀ before root fault after,
      o.log = before ++ .loaded root (some fault) :: after → after = []) := by
  intro o
  have h : o.Steady := Opening.Steady.run (Or.inl ⟨rfl, rfl, rfl⟩) moves
  refine ⟨h, ?_⟩
  rcases h with ⟨-, -, hlog⟩ | ⟨later, h⟩
  · simp [hlog, Honest]
  · exact h.honest_iff

/-- A directory cannot be listed, so the load fails. The next editor is greeted, and the one after it is told
that the workspace is served. -/
theorem failed_load_greeted :
    let asks (root : String) : Editor.Request := .openWorkspace { rootPath := root }
    let moves : List Move := [.connect ⟨1⟩ (some "a") 0, .connect ⟨2⟩ (some "b") 0,
      .request ⟨1⟩ (asks "/ws") 0, .loaded (some (.text "permission denied")),
      .request ⟨2⟩ (asks "/ws") 0, .request ⟨1⟩ (asks "/other") 0]
    ¬ Honest (({ server := .new default } : Opening).run moves).log := by
  intro asks moves h
  have hlog : (({ server := .new default } : Opening).run moves).log =
      [.asked "/ws" (.load "/ws"), .loaded "/ws" (some (.text "permission denied")),
        .asked "/ws" (.result greeting),
        .asked "/other" (.fault (.text "bridge already serves workspace \"/ws\""))] := by
    simp only [moves, asks]
    cbv
  have hfailed : Failed [.asked "/ws" (.load "/ws"), .loaded "/ws" (some (.text "permission denied"))] "/ws" :=
    ⟨[_], _, [], rfl, List.not_mem_nil⟩
  exact (h [_, _] _ _ [_] hlog).1 rfl hfailed

end Server

end CompilationBridge
