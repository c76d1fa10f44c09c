import CompilationBridge.Outages
import CompilationBridge.Proofs.Tables
import CompilationBridge.Workspace

/-! The workspace by lookup. A call is accepted or refused by what is in the workspace, apart from options,
and a call that is accepted changes each project by itself; so two workspaces that differ at most in the
options of some projects accept the same calls, and differ in no more afterwards. -/

namespace CompilationBridge

namespace Workspace

/-! ### What a call needs and what it does -/

/-- The workspace has what a call is about. -/
def accepts (w : Workspace) : Call → Bool
  | .addProject info => !w.projects.contains info.handle
  | .removeMetadataReference project ref => (w.projects.get? project).any (·.metadata.contains ref)
  | .addProjectReference project target => w.projects.contains project && w.projects.contains target
  | .removeDocument project document => (w.projects.get? project).any (·.documents.contains document)
  | call => w.projects.contains call.project

/-- What a call makes of the project that it is about. -/
def Call.edit (call : Call) (e : Entry) : Entry :=
  match call with
  | .addProject _ | .removeProject _ => e
  | .addMetadataReference _ ref => { e with metadata := e.metadata.put ref.handle ref }
  | .removeMetadataReference _ ref => { e with metadata := e.metadata.erase ref }
  | .addProjectReference _ target =>
    { e with references := if target ∈ e.references then e.references else e.references ++ [target] }
  | .removeProjectReference _ target => { e with references := e.references.filter (· ≠ target) }
  | .addDocument _ document path => { e with documents := e.documents.put document path }
  | .removeDocument _ document => { e with documents := e.documents.erase document }
  | .setCompilationOptions _ options => { e with compilation := some options }
  | .setParseOptions _ options => { e with parse := some options }

/-- What is under a handle after a call, given what was there before. -/
def Call.effect (call : Call) (k : Handle) (old : Option Entry) : Option Entry :=
  match call with
  | .addProject info => if k = info.handle then some { info := info } else old
  | .removeProject project =>
    if k = project then none
    else old.map fun e => { e with references := e.references.filter (· ≠ project) }
  | call => if k = call.project then old.map call.edit else old

theorem update_spec (w : Workspace) (h : Handle) (change : Entry → Except Fault Entry) (guard : Entry → Bool)
    (edit : Entry → Entry)
    (hgood : ∀ e, w.projects.get? h = some e → guard e = true → change e = .ok (edit e))
    (hbad : ∀ e, w.projects.get? h = some e → guard e = false → ∃ fault, change e = .error fault) :
    if (w.projects.get? h).any guard then
      ∃ w', w.update h change = .ok w' ∧
        ∀ k, w'.projects.get? k = if k = h then (w.projects.get? k).map edit else w.projects.get? k
    else ∃ fault, w.update h change = .error fault := by
  unfold update
  cases he : w.projects.get? h with
  | none => exact ⟨_, rfl⟩
  | some e =>
      cases hg : guard e with
      | true =>
          simp only [Option.any_some, hg, if_true, hgood e he hg]
          refine ⟨_, rfl, fun k => ?_⟩
          rw [Table.get?_put]
          by_cases hk : k = h
          · rw [if_pos hk, if_pos hk, hk, he, Option.map_some]
          · rw [if_neg hk, if_neg hk]
      | false =>
          obtain ⟨fault, hf⟩ := hbad e he hg
          simp only [Option.any_some, hg, hf]
          exact ⟨fault, rfl⟩

theorem contains_eq_any (w : Workspace) (h : Handle) :
    w.projects.contains h = (w.projects.get? h).any fun _ => true := by
  rw [Table.contains_eq_isSome]
  cases w.projects.get? h <;> rfl

/-- **What a call does.** A call that the workspace accepts changes each project by itself; any other call
fails. -/
theorem perform_spec (w : Workspace) (call : Call) :
    if w.accepts call then
      ∃ w', w.perform call = .ok w' ∧ ∀ k, w'.projects.get? k = call.effect k (w.projects.get? k)
    else ∃ fault, w.perform call = .error fault := by
  have hplain : ∀ (h : Handle) (edit : Entry → Entry),
      if w.projects.contains h then
        ∃ w', w.update h (fun e => .ok (edit e)) = .ok w' ∧
          ∀ k, w'.projects.get? k = if k = h then (w.projects.get? k).map edit else w.projects.get? k
      else ∃ fault, w.update h (fun e => .ok (edit e)) = .error fault := by
    intro h edit
    rw [contains_eq_any]
    exact w.update_spec h _ _ edit (fun _ _ _ => rfl) fun _ _ hg => nomatch hg
  cases call with
  | addProject info =>
      cases hc : w.projects.contains info.handle with
      | true =>
          simp only [accepts, perform, hc]
          exact ⟨_, rfl⟩
      | false =>
          simp only [accepts, perform, hc]
          exact ⟨_, rfl, fun k => Table.get?_put ..⟩
  | removeProject project =>
      cases hc : w.projects.contains project with
      | true =>
          simp only [accepts, perform, Call.project, hc, if_true]
          refine ⟨_, rfl, fun k => ?_⟩
          rw [Table.get?_map, Table.get?_erase, Call.effect]
          split <;> rfl
      | false =>
          simp only [accepts, perform, Call.project, hc]
          exact ⟨_, rfl⟩
  | addMetadataReference project ref => exact hplain project _
  | removeMetadataReference project ref =>
      refine w.update_spec project _ (·.metadata.contains ref)
        (fun e => { e with metadata := e.metadata.erase ref }) (fun e _ hg => if_pos hg) fun e _ hg => ?_
      exact ⟨_, if_neg (Bool.eq_false_iff.1 hg)⟩
  | addProjectReference project target =>
      have hspec := w.update_spec project
        (fun e => if w.projects.contains target then
          .ok ((Call.addProjectReference project target).edit e) else .error (.handleNotFound target))
        (fun _ => w.projects.contains target) (Call.addProjectReference project target).edit
        (fun e _ hg => if_pos hg) fun e _ hg => ⟨_, if_neg (Bool.eq_false_iff.1 hg)⟩
      have hguard : (w.projects.get? project).any (fun _ => w.projects.contains target) =
          (w.projects.contains project && w.projects.contains target) := by
        rw [contains_eq_any w project]
        cases w.projects.get? project <;> rfl
      rw [hguard] at hspec
      exact hspec
  | removeProjectReference project target => exact hplain project _
  | addDocument project document path => exact hplain project _
  | removeDocument project document =>
      refine w.update_spec project _ (·.documents.contains document)
        (fun e => { e with documents := e.documents.erase document }) (fun e _ hg => if_pos hg)
        fun e _ hg => ?_
      exact ⟨_, if_neg (Bool.eq_false_iff.1 hg)⟩
  | setCompilationOptions project options => exact hplain project _
  | setParseOptions project options => exact hplain project _

theorem accepts_of_perform {w w' : Workspace} {call : Call} (hw : w.perform call = .ok w') :
    w.accepts call = true := by
  by_contra hrefused
  have hspec := w.perform_spec call
  rw [if_neg hrefused] at hspec
  obtain ⟨fault, hfault⟩ := hspec
  rw [hw] at hfault
  cases hfault

/-- What is under a handle after a call that succeeded. -/
theorem get?_perform {w w' : Workspace} {call : Call} (hw : w.perform call = .ok w') (k : Handle) :
    w'.projects.get? k = call.effect k (w.projects.get? k) := by
  have hspec := w.perform_spec call
  rw [if_pos (accepts_of_perform hw)] at hspec
  obtain ⟨w₁, hw₁, hget⟩ := hspec
  rw [Except.ok.inj (hw.symm.trans hw₁), hget]

/-! ### Workspaces that agree apart from options -/

/-- A project without its options. -/
def Entry.core (e : Entry) : Entry :=
  { e with compilation := none, parse := none }

/-- Two workspaces have the same projects, which differ at most in the options of those that are stale. -/
structure Agrees (stale : Handle → Prop) (w w' : Workspace) : Prop where
  core : ∀ k, (w'.projects.get? k).map Entry.core = (w.projects.get? k).map Entry.core
  fresh : ∀ k, ¬stale k → w'.projects.get? k = w.projects.get? k

section

variable {stale : Handle → Prop} {w w' : Workspace}

theorem Agrees.refl (stale : Handle → Prop) (w : Workspace) : w.Agrees stale w :=
  ⟨fun _ => rfl, fun _ _ => rfl⟩

theorem core_any {e e' : Option Entry} (h : e'.map Entry.core = e.map Entry.core) {test : Entry → Bool}
    (htest : ∀ e, test e.core = test e) : e'.any test = e.any test := by
  have hcore : ∀ o : Option Entry, o.any test = (o.map Entry.core).any test := by
    intro o
    cases o with
    | none => rfl
    | some e => exact (htest e).symm
  rw [hcore, h, ← hcore]

theorem Agrees.contains (hw : w.Agrees stale w') (h : Handle) :
    w'.projects.contains h = w.projects.contains h := by
  rw [contains_eq_any, contains_eq_any]
  exact core_any (hw.core h) fun _ => rfl

theorem Agrees.accepts (hw : w.Agrees stale w') (call : Call) : w'.accepts call = w.accepts call := by
  cases call with
  | addProject info => simp only [Workspace.accepts, hw.contains]
  | removeMetadataReference project ref => exact core_any (hw.core project) fun _ => rfl
  | addProjectReference project target => simp only [Workspace.accepts, hw.contains]
  | removeDocument project document => exact core_any (hw.core project) fun _ => rfl
  | removeProject project => exact hw.contains project
  | addMetadataReference project ref => exact hw.contains project
  | removeProjectReference project target => exact hw.contains project
  | addDocument project document path => exact hw.contains project
  | setCompilationOptions project options => exact hw.contains project
  | setParseOptions project options => exact hw.contains project

theorem map_core {e e' : Option Entry} (h : e'.map Entry.core = e.map Entry.core) {f : Entry → Entry}
    (hf : ∀ e, (f e).core = (f e.core).core) :
    (e'.map f).map Entry.core = (e.map f).map Entry.core := by
  have hcore : ∀ o : Option Entry, (o.map f).map Entry.core = ((o.map Entry.core).map f).map Entry.core := by
    intro o
    cases o with
    | none => rfl
    | some e => exact congrArg some (hf e)
  rw [hcore, h, ← hcore]

theorem edit_core (call : Call) (e : Entry) : (call.edit e).core = (call.edit e.core).core := by
  cases call <;> rfl

theorem effect_core (call : Call) (k : Handle) {e e' : Option Entry}
    (h : e'.map Entry.core = e.map Entry.core) :
    (call.effect k e').map Entry.core = (call.effect k e).map Entry.core := by
  have hedit : ∀ project, (if k = project then e'.map call.edit else e').map Entry.core =
      (if k = project then e.map call.edit else e).map Entry.core := by
    intro project
    split
    · exact map_core h (edit_core call)
    · exact h
  cases call with
  | addProject info =>
      simp only [Call.effect]
      split
      · rfl
      · exact h
  | removeProject project =>
      simp only [Call.effect]
      split
      · rfl
      · exact map_core h fun _ => rfl
  | _ => exact hedit _

/-- Both workspaces accept a call, or both refuse it. -/
theorem Agrees.perform (hw : w.Agrees stale w') (call : Call) :
    (∃ w₁ w₁', w.perform call = .ok w₁ ∧ w'.perform call = .ok w₁' ∧ w₁.Agrees stale w₁') ∨
      ∃ fault fault', w.perform call = .error fault ∧ w'.perform call = .error fault' := by
  have hspec := w.perform_spec call
  have hspec' := w'.perform_spec call
  rw [hw.accepts call] at hspec'
  split at hspec
  · rename_i haccepts
    rw [if_pos haccepts] at hspec'
    obtain ⟨w₁, hw₁, hget⟩ := hspec
    obtain ⟨w₁', hw₁', hget'⟩ := hspec'
    refine Or.inl ⟨w₁, w₁', hw₁, hw₁', fun k => ?_, fun k hk => ?_⟩
    · rw [hget, hget']
      exact effect_core call k (hw.core k)
    · rw [hget, hget', hw.fresh k hk]
  · rename_i haccepts
    rw [if_neg haccepts] at hspec'
    obtain ⟨fault, hf⟩ := hspec
    obtain ⟨fault', hf'⟩ := hspec'
    exact Or.inr ⟨fault, fault', hf, hf'⟩

end

end Workspace

/-! ### Outages of some parts -/

namespace Outages

variable {τ : Type} [DecidableEq τ] {o : Outages τ} {failing : τ → Prop}

/-- Only some parts have outages. -/
def Only (o : Outages τ) (failing : τ → Prop) : Prop :=
  ∀ part uses, o.script.get? part = some uses → true ∈ uses → failing part

theorem only_empty (failing : τ → Prop) : Only {} failing :=
  fun _ _ h => nomatch h

theorem Only.mono {failing' : τ → Prop} (ho : o.Only failing) (h : ∀ part, failing part → failing' part) :
    o.Only failing' :=
  fun part uses hget hmem => h part (ho part uses hget hmem)

theorem only_plan {part : τ} (hpart : failing part) (uses : List Bool) :
    Only (plan {} part uses) failing := by
  intro part' uses' hget _
  rw [plan, Table.get?_put] at hget
  split at hget
  · rename_i heq
    exact heq ▸ hpart
  · cases hget

theorem Only.draw (ho : o.Only failing) (part : τ) :
    (o.draw part).2.Only failing ∧ ((o.draw part).1 = true → failing part) := by
  unfold Outages.draw
  split
  · rename_i fails rest hscript
    refine ⟨fun part' uses hget hmem => ?_, fun hfails => ?_⟩
    · rw [Table.get?_put] at hget
      split at hget
      · rename_i heq
        obtain rfl := Option.some.inj hget
        exact heq ▸ ho part _ hscript (List.mem_cons_of_mem _ hmem)
      · exact ho part' uses hget hmem
    · have hfails : fails = true := hfails
      exact ho part _ hscript (hfails ▸ List.mem_cons_self)
  · exact ⟨ho, fun h => absurd h Bool.false_ne_true⟩

end Outages

end CompilationBridge
