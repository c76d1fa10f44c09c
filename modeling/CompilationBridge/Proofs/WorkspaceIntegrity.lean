import CompilationBridge.Proofs.Workspace

/-! The workspace under any calls. A call is a program that changes the workspace in place, in which a failure
takes nothing back that was done before it; since each of them checks before it writes, a call that fails
leaves the workspace as it was. What every call keeps is that each project is under its own handle and that
its references are to projects of the workspace: taking a project away takes the references to it away too. -/

namespace CompilationBridge

namespace Workspace

/-! ### Calls in place -/

/-- A program over the workspace, which keeps what it has written when it fails. -/
abbrev Program (α : Type) : Type :=
  EStateM Fault Workspace α

namespace Program

def entry (project : Handle) : Program Entry := do
  match (← get).projects.get? project with
  | some e => return e
  | none => throw (.handleNotFound project)

def write (project : Handle) (e : Entry) : Program Unit :=
  modify fun w => ⟨w.projects.put project e⟩

end Program

/-- A project without its reference to another. -/
def Entry.forget (e : Entry) (project : Handle) : Entry :=
  { e with references := e.references.filter (· ≠ project) }

/-- A call, statement by statement. -/
def Call.program : Call → Program Unit
  | .addProject info => do
    if (← get).projects.contains info.handle then
      throw (.text ("project " ++ Text.quote info.handle.text ++ " already added"))
    Program.write info.handle { info := info }
  | .removeProject project => do
    let _ ← Program.entry project
    modify fun w => ⟨w.projects.erase project⟩
    modify fun w => ⟨w.projects.map (·.forget project)⟩
  | .addMetadataReference project ref => do
    let e ← Program.entry project
    Program.write project { e with metadata := e.metadata.put ref.handle ref }
  | .removeMetadataReference project ref => do
    let e ← Program.entry project
    unless e.metadata.contains ref do
      throw (.handleNotFound ref)
    Program.write project { e with metadata := e.metadata.erase ref }
  | .addProjectReference project target => do
    let e ← Program.entry project
    unless (← get).projects.contains target do
      throw (.handleNotFound target)
    Program.write project { e with
      references := if target ∈ e.references then e.references else e.references ++ [target] }
  | .removeProjectReference project target => do
    let e ← Program.entry project
    Program.write project (e.forget target)
  | .addDocument project document path => do
    let e ← Program.entry project
    Program.write project { e with documents := e.documents.put document path }
  | .removeDocument project document => do
    let e ← Program.entry project
    unless e.documents.contains document do
      throw (.handleNotFound document)
    Program.write project { e with documents := e.documents.erase document }
  | .setCompilationOptions project options => do
    let e ← Program.entry project
    Program.write project { e with compilation := some options }
  | .setParseOptions project options => do
    let e ← Program.entry project
    Program.write project { e with parse := some options }

variable {w w' : Workspace} {project : Handle}

namespace Program

theorem get_bind {α : Type} (f : Workspace → Program α) (w : Workspace) : (get >>= f) w = f w w :=
  rfl

theorem entry_of_some {e : Entry} (h : w.projects.get? project = some e) :
    entry project w = .ok e w := by
  rw [entry, get_bind, h]
  rfl

theorem entry_of_none (h : w.projects.get? project = none) :
    entry project w = .error (.handleNotFound project) w := by
  rw [entry, get_bind, h]
  rfl

/-- What a program makes of a project, read as a change of that project. -/
theorem entry_bind {body : Entry → Program Unit} {change : Entry → Except Fault Entry}
    (h : ∀ e, body e w = match change e with
      | .ok e' => .ok () ⟨w.projects.put project e'⟩
      | .error fault => .error fault w) :
    (entry project >>= body) w = match w.update project change with
      | .ok w' => .ok () w'
      | .error fault => .error fault w := by
  simp only [bind, EStateM.bind, update]
  cases he : w.projects.get? project with
  | none => rw [entry_of_none he]
  | some e =>
      rw [entry_of_some he]
      dsimp only
      rw [h e]
      cases change e <;> rfl

end Program

/-- In place or not, a call does the same, and one that fails changes nothing. -/
theorem run_program (w : Workspace) (call : Call) : call.program.run w =
    match w.perform call with
    | .ok w' => .ok () w'
    | .error fault => .error fault w := by
  cases call with
  | addProject info =>
      cases hc : w.projects.contains info.handle with
      | true =>
          rw [perform, if_pos hc]
          rw [Call.program, EStateM.run, Program.get_bind, hc]
          rfl
      | false =>
          rw [perform, if_neg (by simp [hc])]
          rw [Call.program, EStateM.run, Program.get_bind, hc]
          rfl
  | removeProject project =>
      simp only [Call.program, perform, EStateM.run, bind, EStateM.bind, Table.contains_eq_isSome]
      cases he : w.projects.get? project with
      | none =>
          rw [Program.entry_of_none he]
          rfl
      | some e =>
          rw [Program.entry_of_some he]
          rfl
  | addMetadataReference project ref => exact Program.entry_bind fun e => rfl
  | removeMetadataReference project ref =>
      refine Program.entry_bind fun e => ?_
      cases hc : e.metadata.contains ref <;> rfl
  | addProjectReference project target =>
      refine Program.entry_bind fun e => ?_
      rw [Program.get_bind]
      cases hc : w.projects.contains target <;> rfl
  | removeProjectReference project target => exact Program.entry_bind fun e => rfl
  | addDocument project document path => exact Program.entry_bind fun e => rfl
  | removeDocument project document =>
      refine Program.entry_bind fun e => ?_
      cases hc : e.documents.contains document <;> rfl
  | setCompilationOptions project options => exact Program.entry_bind fun e => rfl
  | setParseOptions project options => exact Program.entry_bind fun e => rfl

/-- The workspace after a call, whether it fails or not. -/
def after (w : Workspace) (call : Call) : Workspace :=
  match call.program.run w with
  | .ok _ w' => w'
  | .error _ w' => w'

def follow (w : Workspace) (calls : List Call) : Workspace :=
  calls.foldl after w

variable {call : Call} {h k : Handle} {e e' : Entry}

theorem perform_of_run (hw : call.program.run w = .ok () w') : w.perform call = .ok w' := by
  rw [run_program] at hw
  split at hw
  · rename_i w₁ hw₁
    cases hw
    exact hw₁
  · cases hw

/-- A call that is accepted succeeds. -/
theorem perform_eq_after (haccepts : w.accepts call = true) : w.perform call = .ok (w.after call) := by
  have hspec := w.perform_spec call
  rw [if_pos haccepts] at hspec
  obtain ⟨w', hw', -⟩ := hspec
  simp only [after, run_program, hw']

theorem eq_of_run_error {fault : Fault} (hw : call.program.run w = .error fault w') : w' = w := by
  rw [run_program] at hw
  split at hw
  · cases hw
  · cases hw
    rfl

/-! ### What every call keeps -/

/-- Each project is under its own handle, and references projects that are there. -/
structure Intact (w : Workspace) : Prop where
  keys : w.projects.keys.Nodup
  handle : ∀ h e, w.projects.get? h = some e → e.info.handle = h
  closed : ∀ h e, w.projects.get? h = some e → ∀ t ∈ e.references, w.projects.contains t = true

theorem Intact.empty : Intact {} where
  keys := List.nodup_nil
  handle := by simp
  closed := by simp

theorem keys_update_nodup {change : Entry → Except Fault Entry} (hkeys : w.projects.keys.Nodup)
    (hw : w.update project change = .ok w') : w'.projects.keys.Nodup := by
  unfold update at hw
  split at hw
  · cases hw
  · rename_i e _
    cases hchange : change e with
    | error fault =>
        rw [hchange] at hw
        cases hw
    | ok e' =>
        rw [hchange] at hw
        cases hw
        exact Table.keys_put_nodup hkeys project e'

theorem keys_perform_nodup (hkeys : w.projects.keys.Nodup) (hw : w.perform call = .ok w') :
    w'.projects.keys.Nodup := by
  cases call with
  | addProject info =>
      rw [perform] at hw
      split at hw
      · cases hw
      · cases hw
        exact Table.keys_put_nodup hkeys _ _
  | removeProject project =>
      rw [perform] at hw
      split at hw
      · cases hw
        rw [Table.keys_map]
        exact Table.keys_erase_nodup hkeys project
      · cases hw
  | _ => exact keys_update_nodup hkeys hw

/-- One project changes, and references what it did before or what is there. -/
theorem Intact.edit (hw : Intact w) {f : Entry → Entry} (hkeys : w'.projects.keys.Nodup)
    (hget : ∀ k, w'.projects.get? k = if k = project then (w.projects.get? k).map f else w.projects.get? k)
    (hinfo : ∀ e, (f e).info = e.info)
    (hreferences : ∀ e, ∀ t ∈ (f e).references, t ∈ e.references ∨ w.projects.contains t = true) :
    Intact w' := by
  have hold {k : Handle} {e' : Entry} (he' : w'.projects.get? k = some e') :
      ∃ e, w.projects.get? k = some e ∧ (e' = f e ∨ e' = e) := by
    rw [hget] at he'
    split at he'
    · obtain ⟨e, he, rfl⟩ := Option.map_eq_some_iff.1 he'
      exact ⟨e, he, Or.inl rfl⟩
    · exact ⟨e', he', Or.inr rfl⟩
  have hcontains (t : Handle) : w'.projects.contains t = w.projects.contains t := by
    rw [Table.contains_eq_isSome, Table.contains_eq_isSome, hget]
    split
    · exact Option.isSome_map
    · rfl
  refine ⟨hkeys, fun k e' he' => ?_, fun k e' he' t ht => ?_⟩
  · obtain ⟨e, he, rfl | rfl⟩ := hold he'
    · rw [hinfo, hw.handle k e he]
    · exact hw.handle k _ he
  · rw [hcontains]
    obtain ⟨e, he, rfl | rfl⟩ := hold he'
    · exact (hreferences e t ht).elim (hw.closed k e he t) id
    · exact hw.closed k _ he t ht

theorem Intact.perform (h : Intact w) (hw : w.perform call = .ok w') : Intact w' := by
  have hkeys := keys_perform_nodup h.keys hw
  have hget := get?_perform hw
  cases call with
  | addProject info =>
      have hcontains {t : Handle} (ht : w.projects.contains t = true) : w'.projects.contains t = true := by
        rw [Table.contains_eq_isSome] at ht ⊢
        rw [hget, Call.effect]
        split
        · rfl
        · exact ht
      refine ⟨hkeys, fun k e he => ?_, fun k e he t ht => ?_⟩
      · rw [hget, Call.effect] at he
        split at he
        · cases he
          exact (‹k = info.handle›).symm
        · exact h.handle k e he
      · rw [hget, Call.effect] at he
        split at he
        · cases he
          cases ht
        · exact hcontains (h.closed k e he t ht)
  | removeProject project =>
      have hold {k : Handle} {e' : Entry} (he' : w'.projects.get? k = some e') :
          ∃ e, w.projects.get? k = some e ∧ e' = e.forget project := by
        rw [hget, Call.effect] at he'
        split at he'
        · cases he'
        · obtain ⟨e, he, rfl⟩ := Option.map_eq_some_iff.1 he'
          exact ⟨e, he, rfl⟩
      refine ⟨hkeys, fun k e' he' => ?_, fun k e' he' t ht => ?_⟩
      · obtain ⟨e, he, rfl⟩ := hold he'
        exact h.handle k e he
      · obtain ⟨e, he, rfl⟩ := hold he'
        obtain ⟨ht, hne⟩ := List.mem_filter.1 ht
        have hthere := h.closed k e he t ht
        rw [Table.contains_eq_isSome] at hthere ⊢
        rw [hget, Call.effect, if_neg (of_decide_eq_true hne), Option.isSome_map]
        exact hthere
  | addProjectReference project target =>
      have haccepts := accepts_of_perform hw
      rw [accepts, Bool.and_eq_true] at haccepts
      refine h.edit hkeys hget (fun _ => rfl) fun e t ht => ?_
      rw [Call.edit] at ht
      dsimp only at ht
      split at ht
      · exact Or.inl ht
      · refine (List.mem_append.1 ht).imp_right fun ht => ?_
        rw [List.mem_singleton.1 ht]
        exact haccepts.2
  | removeProjectReference project target =>
      exact h.edit hkeys hget (fun _ => rfl) fun e t ht => Or.inl (List.mem_filter.1 ht).1
  | _ => exact h.edit hkeys hget (fun _ => rfl) fun e t ht => Or.inl ht

theorem Intact.after (h : Intact w) (call : Call) : Intact (w.after call) := by
  unfold Workspace.after
  cases hrun : call.program.run w with
  | ok _ w' => exact h.perform (perform_of_run hrun)
  | error fault w' => exact eq_of_run_error hrun ▸ h

theorem Intact.follow (h : Intact w) (calls : List Call) : Intact (w.follow calls) :=
  List.foldlRecOn calls Workspace.after h fun _ h call _ => h.after call

/-! ### Snapshots -/

def Snapshot.forget (s : Snapshot) (project : Handle) : Snapshot :=
  { s with references := s.references.filter (· ≠ project) }

theorem Intact.mem_snapshot (h : Intact w) (s : Snapshot) :
    s ∈ w.snapshot ↔ ∃ k e, w.projects.get? k = some e ∧ e.snapshot = s := by
  simp only [snapshot, List.mem_mergeSort, List.mem_map, Table.mem_values h.keys]
  constructor
  · rintro ⟨e, ⟨k, he⟩, hs⟩
    exact ⟨k, e, he, hs⟩
  · rintro ⟨k, e, he, hs⟩
    exact ⟨e, ⟨k, he⟩, hs⟩

theorem mergeSort_filter (l : List Handle) (p : Handle → Bool) :
    (l.filter p).mergeSort Handle.le = (l.mergeSort Handle.le).filter p := by
  have htrans (a b c : Handle) (hab : Handle.le a b = true) (hbc : Handle.le b c = true) :
      Handle.le a c = true := by
    simp only [Handle.le, decide_eq_true_eq] at *
    omega
  have htotal (a b : Handle) : (Handle.le a b || Handle.le b a) = true := by
    simp only [Handle.le, Bool.or_eq_true, decide_eq_true_eq]
    omega
  have hanti (a b : Handle) (hab : Handle.le a b = true) (hba : Handle.le b a = true) : a = b := by
    obtain ⟨a⟩ := a
    obtain ⟨b⟩ := b
    simp only [Handle.le, decide_eq_true_eq] at hab hba
    exact congrArg Handle.mk (by omega)
  refine List.Perm.eq_of_pairwise (fun a b _ _ => hanti a b) (List.pairwise_mergeSort htrans htotal _)
    ((List.pairwise_mergeSort htrans htotal l).filter p) ?_
  exact (List.mergeSort_perm _ _).trans ((List.mergeSort_perm l _).filter p).symm

theorem snapshot_forget (e : Entry) (project : Handle) :
    (e.forget project).snapshot = e.snapshot.forget project := by
  simp only [Entry.snapshot, Entry.forget, Snapshot.forget, mergeSort_filter]

/-- Taking a project away takes it out of the snapshot, and leaves the others without the references to it. -/
theorem Intact.mem_snapshot_removed (hw : Intact w) (hperform : w.perform (.removeProject h) = .ok w')
    (s' : Snapshot) :
    s' ∈ w'.snapshot ↔ ∃ s ∈ w.snapshot, s.info.handle ≠ h ∧ s.forget h = s' := by
  have hget := get?_perform hperform
  rw [(hw.perform hperform).mem_snapshot]
  constructor
  · rintro ⟨k, e', he', rfl⟩
    rw [hget, Call.effect] at he'
    split at he'
    · cases he'
    · obtain ⟨e, he, rfl⟩ := Option.map_eq_some_iff.1 he'
      refine ⟨e.snapshot, (hw.mem_snapshot _).2 ⟨k, e, he, rfl⟩, ?_, (snapshot_forget e h).symm⟩
      intro hk
      exact ‹k ≠ h› ((hw.handle k e he).symm.trans hk)
  · rintro ⟨s, hs, hne, rfl⟩
    obtain ⟨k, e, he, rfl⟩ := (hw.mem_snapshot s).1 hs
    have hk : k ≠ h := fun hk => hne ((hw.handle k e he).trans hk)
    refine ⟨k, e.forget h, ?_, snapshot_forget e h⟩
    rw [hget, Call.effect, if_neg hk, he]
    rfl

/-! ### The workspace is intact -/

/-- After any calls, on any handles and in any order, each reference is to a project of the workspace, and so
is each reference of a snapshot to a project of the same snapshot. A call that fails leaves the workspace as
it was. When a project is taken away neither it nor a reference to it is left, in the workspace or in the
snapshot, and all else about the other projects is as before. -/
theorem references_intact (calls : List Call) :
    let w := ({} : Workspace).follow calls
    (∀ h e, w.projects.get? h = some e → ∀ t ∈ e.references, w.projects.contains t = true) ∧
    (∀ call fault w', (Call.program call).run w = .error fault w' → w' = w) ∧
    (∀ s ∈ w.snapshot, ∀ t ∈ s.references, ∃ s' ∈ w.snapshot, s'.info.handle = t) ∧
    ∀ h w', w.perform (.removeProject h) = .ok w' →
      w'.projects.get? h = none ∧
      (∀ k e, w'.projects.get? k = some e → h ∉ e.references) ∧
      (∀ k, k ≠ h → w'.projects.get? k = (w.projects.get? k).map (·.forget h)) ∧
      (∀ s ∈ w'.snapshot, s.info.handle ≠ h ∧ h ∉ s.references) ∧
      ∀ s', s' ∈ w'.snapshot ↔ ∃ s ∈ w.snapshot, s.info.handle ≠ h ∧ s.forget h = s' := by
  intro w
  have hw : Intact w := Intact.empty.follow calls
  refine ⟨hw.closed, fun call fault w' hrun => eq_of_run_error hrun, ?_, ?_⟩
  · intro s hs t ht
    obtain ⟨k, e, he, rfl⟩ := (hw.mem_snapshot s).1 hs
    obtain ⟨e', he'⟩ := (Table.contains_iff ..).1 (hw.closed k e he t (List.mem_mergeSort.1 ht))
    exact ⟨e'.snapshot, (hw.mem_snapshot _).2 ⟨t, e', he', rfl⟩, hw.handle t e' he'⟩
  · intro h w' hperform
    have hget := get?_perform hperform
    have hgone : w'.projects.get? h = none := by rw [hget, Call.effect, if_pos rfl]
    have hsnapshot := hw.mem_snapshot_removed hperform
    refine ⟨hgone, fun k e he ht => ?_, fun k hk => ?_, fun s' hs' => ?_, hsnapshot⟩
    · have hthere := (hw.perform hperform).closed k e he h ht
      rw [Table.contains_eq_isSome, hgone] at hthere
      cases hthere
    · rw [hget, Call.effect, if_neg hk]
      rfl
    · obtain ⟨s, -, hne, rfl⟩ := (hsnapshot s').1 hs'
      exact ⟨hne, fun ht => of_decide_eq_true (List.mem_filter.1 ht).2 rfl⟩

/-- Among the calls two fail: a project is added again, and a reference is to a project that is not there. -/
theorem references_intact_without_one :
    let one : Handle := ⟨1⟩
    let two : Handle := ⟨2⟩
    let calls : List Call := [.addProject ⟨one, "P", "/p/project.json", "net"⟩,
      .addProject ⟨two, "Q", "/q/project.json", "net"⟩, .addProject ⟨one, "R", "/r/project.json", "net"⟩,
      .addProjectReference one one, .addProjectReference two one, .addProjectReference two one,
      .addProjectReference two two, .addProjectReference two ⟨3⟩, .addDocument two ⟨4⟩ "/q/a.cs"]
    let q (references : List Handle) : Entry :=
      ⟨⟨two, "Q", "/q/project.json", "net"⟩, .empty, references, Table.empty.put ⟨4⟩ "/q/a.cs", none, none⟩
    let w := ({} : Workspace).follow calls
    let w' := w.after (.removeProject one)
    w.projects.get? two = some (q [one, two]) ∧
    w.perform (.removeProject one) = .ok w' ∧
    w'.projects.get? one = none ∧
    w'.projects.get? two = some (q [two]) := by
  intro one two calls q w w'
  have htwo : w.projects.get? two = some (q [one, two]) := by decide +kernel
  have hperform : w.perform (.removeProject one) = .ok w' := perform_eq_after (by decide +kernel)
  obtain ⟨-, -, -, hremoved⟩ := references_intact calls
  obtain ⟨hgone, -, hothers, -, -⟩ := hremoved one w' hperform
  refine ⟨htwo, hperform, hgone, ?_⟩
  rw [hothers two (by decide), htwo]
  decide +kernel

end Workspace

end CompilationBridge
