import CompilationBridge.Graph.Reconciler
import CompilationBridge.Proofs.Graph.Store

/-! Workspace calls of the reconciler. A call never touches the graph, the handles given out, the source
extension or the order of visiting, whether it fails or not; where no outage is due, a call that the
workspace accepts is carried out and recorded as good. The operations that change no documents and no
metadata references come down to changes of the graph and calls of a few kinds. -/

namespace CompilationBridge

/-- Calls that add a project, or that are about its references to other projects or its options. -/
def Workspace.Method.isOuter : Workspace.Method → Bool
  | .addProject | .addProjectReference | .removeProjectReference => true
  | .setCompilationOptions | .setParseOptions => true
  | _ => false

namespace Graph.Reconciler

open Store

/-! ### What a message says about a project -/

section

variable {s : Store} {id : Nat} {info : ProjectInformation}

theorem project?_describeIn {p : Project} (hp : s.project? id = some p) (info : ProjectInformation) :
    (describeIn s id info).project? id = some (describe info p) := by
  rw [describeIn, project?_modifyProject, if_pos rfl, hp, Option.map_some]

theorem path?_describeIn (i : Nat) : (describeIn s id info).path? i = s.path? i :=
  path?_modifyProject ..

theorem has_describeIn {i : Nat} {v : Variant} : (describeIn s id info).Has i v ↔ s.Has i v :=
  has_modifyProject (path_describe info) fun _ => rfl

end

/-! ### What calls leave alone -/

/-- The same handles have been given out, source files have the same ending, and variants are visited in
the same order. -/
structure Steady (r r' : Reconciler) : Prop where
  nextHandle : r'.nextHandle = r.nextHandle
  sourceExtension : r'.sourceExtension = r.sourceExtension
  visiting : r'.visiting = r.visiting

/-- The graph is the same too. -/
structure Untouched (r r' : Reconciler) : Prop extends Steady r r' where
  store : r'.store = r.store

theorem Untouched.refl (r : Reconciler) : Untouched r r :=
  ⟨⟨rfl, rfl, rfl⟩, rfl⟩

theorem Untouched.trans {r r' r'' : Reconciler} (h : Untouched r r') (h' : Untouched r' r'') :
    Untouched r r'' where
  nextHandle := h'.nextHandle.trans h.nextHandle
  sourceExtension := h'.sourceExtension.trans h.sourceExtension
  visiting := h'.visiting.trans h.visiting
  store := h'.store.trans h.store

theorem perform_untouched (r : Reconciler) (call : Workspace.Call) : Untouched r (r.perform call).1 := by
  unfold perform
  dsimp only
  split
  · exact ⟨⟨rfl, rfl, rfl⟩, rfl⟩
  · split <;> exact ⟨⟨rfl, rfl, rfl⟩, rfl⟩

/-- A call for a variant either succeeds or adds a record of its failure. -/
theorem attempt_cases (r : Reconciler) (action : String) (id : Nat) (h : Handle) (call : Workspace.Call) :
    (r.attempt action id h call = ((r.perform call).1, true) ∧ (r.perform call).2 = none) ∨
      ∃ fault, (r.perform call).2 = some fault ∧
        r.attempt action id h call = ((r.perform call).1.logFailure action id h fault, false) := by
  unfold attempt
  obtain ⟨r', result⟩ := r.perform call
  cases result with
  | none => exact Or.inl ⟨rfl, rfl⟩
  | some fault => exact Or.inr ⟨fault, rfl, rfl⟩

theorem attempt_untouched (r : Reconciler) (action : String) (id : Nat) (h : Handle)
    (call : Workspace.Call) : Untouched r (r.attempt action id h call).1 := by
  have hcall := r.perform_untouched call
  rcases r.attempt_cases action id h call with ⟨ha, -⟩ | ⟨fault, -, ha⟩ <;> rw [ha]
  · exact hcall
  · exact ⟨⟨hcall.nextHandle, hcall.sourceExtension, hcall.visiting⟩, hcall.store⟩

theorem carryOut_untouched (r : Reconciler) (action : String) (id : Nat) (h : Handle)
    (call : Workspace.Call) : Untouched r (r.carryOut action id h call) :=
  r.attempt_untouched action id h call

theorem sendOptions_untouched (r : Reconciler) (id : Nat) (v : Variant) :
    Untouched r (r.sendOptions id v) := by
  unfold sendOptions
  cases v.compilation with
  | none =>
      cases v.parse with
      | none => exact Untouched.refl r
      | some o => exact carryOut_untouched ..
  | some c =>
      cases v.parse with
      | none => exact carryOut_untouched ..
      | some o => exact (carryOut_untouched ..).trans (carryOut_untouched ..)

/-- Several calls, one after the other. -/
def carryOutAll (r : Reconciler) (action : String) (id : Nat) (h : Handle)
    (calls : List Workspace.Call) : Reconciler :=
  calls.foldl (fun r call => r.carryOut action id h call) r

theorem carryOutAll_untouched (r : Reconciler) (action : String) (id : Nat) (h : Handle)
    (calls : List Workspace.Call) : Untouched r (r.carryOutAll action id h calls) := by
  induction calls generalizing r with
  | nil => exact Untouched.refl r
  | cons call rest ih => exact (r.carryOut_untouched action id h call).trans (ih _)

@[simp] theorem carryOut_store (r : Reconciler) (action : String) (id : Nat) (h : Handle)
    (call : Workspace.Call) : (r.carryOut action id h call).store = r.store :=
  (r.carryOut_untouched action id h call).store

@[simp] theorem sendOptions_store (r : Reconciler) (id : Nat) (v : Variant) :
    (r.sendOptions id v).store = r.store :=
  (r.sendOptions_untouched id v).store

@[simp] theorem carryOutAll_store (r : Reconciler) (action : String) (id : Nat) (h : Handle)
    (calls : List Workspace.Call) : (r.carryOutAll action id h calls).store = r.store :=
  (r.carryOutAll_untouched action id h calls).store

/-! ### Calls that are carried out -/

/-- No outage is due. -/
def Calm (r : Reconciler) : Prop :=
  r.outages = {}

/-- The reconciler after a call that changed the workspace. -/
def after (r : Reconciler) (call : Workspace.Call) (w : Workspace) : Reconciler :=
  { r with workspace := w, calls := r.calls ++ [(call, none)] }

theorem perform_of_calm {r : Reconciler} (hr : r.Calm) {call : Workspace.Call} {w : Workspace}
    (hw : r.workspace.perform call = .ok w) : r.perform call = (r.after call w, none) := by
  have hdraw : r.outages.draw call.method = (false, r.outages) := by
    rw [hr]
    rfl
  unfold perform
  rw [hdraw]
  simp only [hw, Bool.false_eq_true, if_false]
  rfl

theorem attempt_of_calm {r : Reconciler} (hr : r.Calm) {call : Workspace.Call} {w : Workspace}
    (hw : r.workspace.perform call = .ok w) (action : String) (id : Nat) (h : Handle) :
    r.attempt action id h call = (r.after call w, true) := by
  rw [attempt, perform_of_calm hr hw]

theorem carryOut_of_calm {r : Reconciler} (hr : r.Calm) {call : Workspace.Call} {w : Workspace}
    (hw : r.workspace.perform call = .ok w) (action : String) (id : Nat) (h : Handle) :
    r.carryOut action id h call = r.after call w := by
  rw [carryOut, attempt_of_calm hr hw]

/-! ### Calls that may fail -/

/-- A call that succeeds does to the workspace what it says, and one that fails does nothing to it. -/
theorem perform_workspace (r : Reconciler) (call : Workspace.Call) :
    ((r.perform call).2 = none ∧ r.workspace.perform call = .ok (r.perform call).1.workspace) ∨
      ((r.perform call).2 ≠ none ∧ (r.perform call).1.workspace = r.workspace) := by
  unfold perform
  dsimp only
  split
  · exact Or.inr ⟨nofun, rfl⟩
  · split
    · rename_i workspace hw
      exact Or.inl ⟨rfl, hw⟩
    · exact Or.inr ⟨nofun, rfl⟩

theorem attempt_workspace (r : Reconciler) (action : String) (id : Nat) (h : Handle)
    (call : Workspace.Call) :
    ((r.attempt action id h call).2 = true ∧
        r.workspace.perform call = .ok (r.attempt action id h call).1.workspace) ∨
      ((r.attempt action id h call).2 = false ∧
        (r.attempt action id h call).1.workspace = r.workspace) := by
  rcases r.attempt_cases action id h call with ⟨ha, hgood⟩ | ⟨fault, hbad, ha⟩ <;> rw [ha]
  · exact Or.inl ⟨rfl, (r.perform_workspace call).elim (fun h => h.2) fun h => absurd hgood h.1⟩
  · refine Or.inr ⟨rfl, (r.perform_workspace call).elim (fun h => ?_) fun h => h.2⟩
    rw [hbad] at h
    cases h.1

theorem carryOut_workspace (r : Reconciler) (action : String) (id : Nat) (h : Handle)
    (call : Workspace.Call) :
    r.workspace.perform call = .ok (r.carryOut action id h call).workspace ∨
      (r.carryOut action id h call).workspace = r.workspace :=
  (r.attempt_workspace action id h call).imp (fun h => h.2) fun h => h.2

/-! ### Operations without documents and metadata references -/

/-- One state comes from another by changes of the graph and by calls, good or bad, that add projects or are
about their references to other projects or their options. -/
inductive Makes (r : Reconciler) : Reconciler → Prop where
  | refl : Makes r r
  | store {r'} (s : Store) : Makes r r' → Makes r { r' with store := s }
  | call {r' action id h c} : Makes r r' → c.method.isOuter = true → Makes r (r'.carryOut action id h c)

variable {r r' : Reconciler}

theorem Makes.steady (h : Makes r r') : Steady r r' := by
  induction h with
  | refl => exact ⟨rfl, rfl, rfl⟩
  | store s _ ih => exact ⟨ih.nextHandle, ih.sourceExtension, ih.visiting⟩
  | call _ _ ih =>
      exact ⟨(carryOut_untouched ..).nextHandle.trans ih.nextHandle,
        (carryOut_untouched ..).sourceExtension.trans ih.sourceExtension,
        (carryOut_untouched ..).visiting.trans ih.visiting⟩

theorem Makes.carryOutAll (hr : Makes r r') (action : String) (id : Nat) (h : Handle)
    {calls : List Workspace.Call} (hcalls : ∀ c ∈ calls, c.method.isOuter = true) :
    Makes r (r'.carryOutAll action id h calls) := by
  induction calls generalizing r' with
  | nil => exact hr
  | cons c rest ih =>
      exact ih (hr.call (hcalls c List.mem_cons_self)) fun c hc => hcalls c (List.mem_cons_of_mem _ hc)

theorem Makes.sendOptions (hr : Makes r r') (id : Nat) (v : Variant) : Makes r (r'.sendOptions id v) := by
  unfold Reconciler.sendOptions
  cases v.compilation with
  | none =>
      cases v.parse with
      | none => exact hr
      | some o => exact hr.call rfl
  | some c =>
      cases v.parse with
      | none => exact hr.call rfl
      | some o => exact (hr.call rfl).call rfl

theorem makes_setOptions (id : Nat) (h : Handle) (r : Reconciler) (options : CompilerOptions) :
    Makes r (setOptions id h r options) := by
  have hstored : Makes r (r.modifyVariant h fun v => { v with
      compilation := some options.compilation
      parse := some options.parse }) := Makes.refl.store _
  unfold setOptions
  dsimp only
  split
  · split
    · exact hstored.sendOptions id _
    · exact hstored
  · exact hstored

theorem makes_dropProject (id : Nat) (h : Handle) (r : Reconciler) (edge : String × Handle) :
    Makes r (dropProject id h r edge) := by
  have hdropped : Makes r (r.modifyVariant h fun v =>
      { v with projectRefs := v.projectRefs.erase edge.1 }) := Makes.refl.store _
  unfold dropProject
  dsimp only
  split
  · split <;> split
    · exact hdropped.call rfl
    · exact hdropped.store _
    · exact (hdropped.call rfl).store _
    · exact (hdropped.store _).store _
  · exact hdropped

theorem makes_link (id : Nat) (h : Handle) (r : Reconciler) (p : Project) (path : String)
    (target : Handle) : Makes r (link id h r p path target) := by
  have hlinked : Makes r ((r.modifyVariant target fun t =>
      { t with dependees := t.dependees.put p.path id }).modifyVariant h fun v =>
        { v with projectRefs := v.projectRefs.put path target }) := (Makes.refl.store _).store _
  unfold link
  dsimp only
  split
  · exact hlinked.store _
  · exact hlinked.call rfl

end Graph.Reconciler

end CompilationBridge
