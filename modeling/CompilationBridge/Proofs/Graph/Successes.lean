import CompilationBridge.Proofs.Graph.Tracking

/-! Operations of which no workspace call fails. An operation only adds to the record of calls, so where none
of its calls fails, none fails in any of its parts; and a call that does not fail is recorded as good. What
an operation asks of the workspace is then the list of what its parts ask. -/

namespace CompilationBridge.Graph

/-- A registered variant that nothing waits for stays as it is when it is settled. -/
theorem Variant.settle_of_settled (v : Variant) (hreg : v.registered = true) (hpending : v.pending = []) :
    v.settle = v := by
  obtain ⟨⟩ := v
  simp only at hreg hpending
  simp only [settle, hreg, hpending]

namespace Store

theorem modifyVariant_congr {s : Store} {h : Handle} {f g : Variant → Variant}
    (hfg : ∀ {i v}, s.Has i v → v.handle = h → f v = g v) : s.modifyVariant h f = s.modifyVariant h g := by
  refine change_congr fun {_ p} hp => ?_
  congr 1
  refine List.map_congr_left fun v hv => ?_
  split
  · exact hfg ⟨p, hp, hv⟩ ‹_›
  · rfl

/-- A change that leaves its variant as it is leaves the graph as it is. -/
theorem modifyVariant_of_same {s : Store} {h : Handle} {f : Variant → Variant}
    (hf : ∀ {i v}, s.Has i v → v.handle = h → f v = v) : s.modifyVariant h f = s :=
  (modifyVariant_congr hf).trans (modifyVariant_id s h fun _ => rfl)

end Store

namespace Reconciler

open Store

variable {r r' r'' : Reconciler} {id : Nat} {h : Handle} {v : Variant} {asked : List Workspace.Call}

/-! ### The record of calls -/

/-- The calls recorded in one state are the first ones recorded in another. -/
def Precedes (r r' : Reconciler) : Prop :=
  r.calls <+: r'.calls

theorem Precedes.refl (r : Reconciler) : Precedes r r :=
  List.prefix_refl r.calls

theorem Precedes.trans (h : Precedes r r') (h' : Precedes r' r'') : Precedes r r'' :=
  List.IsPrefix.trans h h'

theorem precedes_of_calls (h : r'.calls = r.calls) : Precedes r r' :=
  ⟨[], by rw [List.append_nil, h]⟩

theorem precedes_foldl {α β : Type} {step : β → α → β} (state : β → Reconciler)
    (hstep : ∀ b a, Precedes (state b) (state (step b a))) (l : List α) (b : β) :
    Precedes (state b) (state (l.foldl step b)) := by
  induction l generalizing b with
  | nil => exact Precedes.refl _
  | cons a rest ih => exact (hstep b a).trans (ih (step b a))

/-- A call is recorded with its fault, if it has one. -/
theorem perform_calls (r : Reconciler) (call : Workspace.Call) :
    (r.perform call).1.calls = r.calls ++ [(call, (r.perform call).2)] := by
  unfold perform
  dsimp only
  split
  · rfl
  · split <;> rfl

theorem attempt_calls (r : Reconciler) (action : String) (id : Nat) (h : Handle) (call : Workspace.Call) :
    ∃ fault : Option Fault, (r.attempt action id h call).1.calls = r.calls ++ [(call, fault)] ∧
      (r.attempt action id h call).2 = fault.isNone := by
  have hcalls := r.perform_calls call
  rcases r.attempt_cases action id h call with ⟨ha, hgood⟩ | ⟨fault, hbad, ha⟩ <;> rw [ha]
  · exact ⟨none, by rw [hcalls, hgood], rfl⟩
  · exact ⟨some fault, hcalls.trans (by rw [hbad]), rfl⟩

theorem precedes_attempt (r : Reconciler) (action : String) (id : Nat) (h : Handle)
    (call : Workspace.Call) : Precedes r (r.attempt action id h call).1 := by
  obtain ⟨fault, hcalls, -⟩ := r.attempt_calls action id h call
  rw [Precedes, hcalls]
  exact List.prefix_append ..

theorem precedes_carryOut (r : Reconciler) (action : String) (id : Nat) (h : Handle)
    (call : Workspace.Call) : Precedes r (r.carryOut action id h call) :=
  r.precedes_attempt action id h call

theorem Makes.precedes (h : Makes r r') : Precedes r r' := by
  induction h with
  | refl => exact Precedes.refl r
  | store s _ ih => exact ih
  | call _ _ ih => exact ih.trans (precedes_carryOut ..)

theorem precedes_variantFor (r : Reconciler) (id : Nat) (framework : Framework) :
    Precedes r (r.variantFor id framework).1 := by
  unfold variantFor
  split <;> exact precedes_of_calls rfl

theorem precedes_sendOptions (r : Reconciler) (id : Nat) (v : Variant) : Precedes r (r.sendOptions id v) :=
  (Makes.refl.sendOptions id v).precedes

theorem precedes_carryOutAll (r : Reconciler) (action : String) (id : Nat) (h : Handle)
    (calls : List Workspace.Call) : Precedes r (r.carryOutAll action id h calls) :=
  precedes_foldl (fun r => r) (fun r call => r.precedes_carryOut action id h call) calls r

theorem precedes_register (r : Reconciler) (id : Nat) (h : Handle) : Precedes r (r.register id h) := by
  unfold register
  split
  · rename_i p v hp hv
    split
    · exact Precedes.refl r
    · have hadd := r.precedes_attempt "adding project" id h (.addProject (v.framework.projectInfo h p.name p.path))
      split <;> rename_i heq <;> rw [heq] at hadd
      · exact hadd
      · rename_i r'
        have hsent := (r'.modifyVariant h fun v => { v with registered := true }).precedes_sendOptions id v
        exact (hadd.trans hsent).trans
          (precedes_foldl (fun r => r) (fun r _ => r.precedes_carryOut _ id h _) v.pending _)
  · exact Precedes.refl r

theorem precedes_ownVariant (r : Reconciler) (id : Nat) (framework : Framework) :
    Precedes r (r.ownVariant id framework).1 :=
  (r.precedes_variantFor id framework).trans (precedes_register _ id _)

theorem precedes_dropEntry (slot : Slot) (id : Nat) (h : Handle) (r : Reconciler)
    (entry : String × Handle) : Precedes r (dropEntry slot id h r entry) :=
  r.precedes_carryOut slot.removal id h _

theorem precedes_addEntry (slot : Slot) (id : Nat) (h : Handle) (r : Reconciler) (item : Slot.Item) :
    Precedes r (addEntry slot id h r item) := by
  unfold addEntry
  split
  · exact Precedes.refl r
  · split
    · exact Precedes.refl r
    · have hadd := r.fresh.1.precedes_attempt slot.addition id h (slot.addCall h r.fresh.2 item)
      dsimp only
      split <;> rename_i heq <;> rw [heq] at hadd
      · exact hadd
      · exact hadd

theorem precedes_setEntries (slot : Slot) (id : Nat) (h : Handle) (r : Reconciler) (items : List Slot.Item) :
    Precedes r (setEntries slot id h r items) :=
  (precedes_foldl (fun r => r) (precedes_dropEntry slot id h) _ r).trans
    (precedes_foldl (fun r => r) (precedes_addEntry slot id h) items _)

theorem precedes_dropProject (id : Nat) (h : Handle) (r : Reconciler) (edge : String × Handle) :
    Precedes r (dropProject id h r edge) :=
  (makes_dropProject id h r edge).precedes

theorem precedes_addProject (id : Nat) (h : Handle) (state : Reconciler × List ProjectRef)
    (edge : String × Framework) : Precedes state.1 (addProject id h state edge).1 := by
  obtain ⟨r, added⟩ := state
  unfold addProject
  dsimp only
  split
  · split
    · exact Precedes.refl r
    · exact (precedes_variantFor { r with store := (r.store.track edge.1).1 } _ edge.2).trans
        (makes_link id h _ _ edge.1 _).precedes
  · exact Precedes.refl r

theorem precedes_setProjects (id : Nat) (h : Handle) (r : Reconciler) (wanted : Table String Framework) :
    Precedes r (setProjects id h r wanted).1 :=
  (precedes_foldl (fun r => r) (precedes_dropProject id h) _ r).trans
    (precedes_foldl Prod.fst (precedes_addProject id h) wanted.entries (_, []))

theorem precedes_teardown (r : Reconciler) (id : Nat) (h : Handle) : Precedes r (r.teardown id h) := by
  unfold teardown
  dsimp only
  split
  · rename_i p v hp hv
    have hremove := precedes_carryOut
      { r with store := v.projectRefs.values.foldl (withdrawEdge p.path p h) r.store }
      "removing project" id h (.removeProject h)
    split
    · split <;> exact hremove
    · exact hremove
  · exact Precedes.refl r

theorem precedes_listFramework (id : Nat) (r : Reconciler) (framework : Framework) :
    Precedes r (listFramework id r framework) := by
  refine (r.precedes_variantFor id framework).trans ?_
  exact precedes_register ((r.variantFor id framework).1.modifyVariant (r.variantFor id framework).2
    fun v => { v with framework := framework }) id (r.variantFor id framework).2

/-! ### Calls that succeed -/

/-- Some calls lead from one state to another, and none of them fails. -/
def Asks (r r' : Reconciler) (asked : List Workspace.Call) : Prop :=
  r'.calls = r.calls ++ asked.map (·, none)

/-- No call fails on the way from one state to another. -/
def Smooth (r r' : Reconciler) : Prop :=
  ∃ asked, Asks r r' asked

theorem asks_of_calls (h : r'.calls = r.calls) : Asks r r' [] := by
  rw [Asks, h, List.map_nil, List.append_nil]

theorem Asks.trans {asked' : List Workspace.Call} (h : Asks r r' asked) (h' : Asks r' r'' asked') :
    Asks r r'' (asked ++ asked') := by
  rw [Asks, List.map_append, ← List.append_assoc, ← h, ← h']

/-- Where no call has ever failed, the calls alone say what was asked. -/
theorem asks_of_clean (hr : ∀ c ∈ r.calls, c.2 = none) (hr' : ∀ c ∈ r'.calls, c.2 = none)
    (hcalls : r'.calls.map (·.1) = r.calls.map (·.1) ++ asked) : Asks r r' asked := by
  have hclean : ∀ l : List (Workspace.Call × Option Fault), (∀ c ∈ l, c.2 = none) →
      l = (l.map (·.1)).map (·, none) := by
    intro l hl
    rw [List.map_map]
    refine (List.map_congr_left fun c hc => ?_).trans (List.map_id' l) |>.symm
    exact Prod.ext rfl (hl c hc).symm
  rw [Asks, hclean _ hr', hcalls, List.map_append, ← hclean _ hr]

/-- Where nothing fails as a whole, nothing fails in the parts. -/
theorem Smooth.split (hall : Smooth r r'') (h : Precedes r r') (h' : Precedes r' r'') :
    Smooth r r' ∧ Smooth r' r'' := by
  obtain ⟨asked, hall⟩ := hall
  obtain ⟨first, hfirst⟩ := h
  obtain ⟨second, hsecond⟩ := h'
  have heq : asked.map (·, (none : Option Fault)) = first ++ second := by
    have happend : r.calls ++ asked.map (·, (none : Option Fault)) = r.calls ++ (first ++ second) := by
      rw [← List.append_assoc, hfirst, hsecond]
      exact hall.symm
    exact List.append_cancel_left happend
  obtain ⟨asked₁, asked₂, -, hleft, hright⟩ := List.map_eq_append_iff.1 heq
  refine ⟨⟨asked₁, ?_⟩, ⟨asked₂, ?_⟩⟩
  · rw [Asks, hleft, hfirst]
  · rw [Asks, hright, hsecond]

theorem asks_of_attempt {action : String} {call : Workspace.Call}
    (h' : Smooth r (r.attempt action id h call).1) :
    (r.attempt action id h call).2 = true ∧ Asks r (r.attempt action id h call).1 [call] := by
  obtain ⟨asked, hasked⟩ := h'
  obtain ⟨fault, hcalls, htaken⟩ := r.attempt_calls action id h call
  have heq : asked.map (·, (none : Option Fault)) = [(call, fault)] :=
    List.append_cancel_left (hasked.symm.trans hcalls)
  obtain ⟨c, -, hc⟩ := List.map_eq_singleton_iff.1 heq
  obtain ⟨rfl, rfl⟩ := Prod.mk.inj hc
  exact ⟨htaken, hcalls⟩

theorem asks_of_carryOut {action : String} {call : Workspace.Call}
    (h' : Smooth r (r.carryOut action id h call)) : Asks r (r.carryOut action id h call) [call] :=
  (asks_of_attempt h').2

theorem asks_of_carryOutAll {action : String} {calls : List Workspace.Call}
    (h' : Smooth r (r.carryOutAll action id h calls)) :
    Asks r (r.carryOutAll action id h calls) calls := by
  induction calls generalizing r with
  | nil => exact asks_of_calls rfl
  | cons call rest ih =>
      obtain ⟨hfirst, hrest⟩ := h'.split (r.precedes_carryOut action id h call)
        (precedes_carryOutAll _ action id h rest)
      exact (asks_of_carryOut hfirst).trans (ih hrest)

/-- The calls that set the options a variant has stored. -/
def optionCalls (v : Variant) : List Workspace.Call :=
  (v.compilation.map (.setCompilationOptions v.handle)).toList ++
    (v.parse.map (.setParseOptions v.handle)).toList

theorem asks_of_sendOptions (h' : Smooth r (r.sendOptions id v)) :
    Asks r (r.sendOptions id v) (optionCalls v) := by
  unfold sendOptions at h' ⊢
  unfold optionCalls
  cases hcompilation : v.compilation <;> cases hparse : v.parse <;> simp only [hcompilation, hparse] at h' ⊢
  · exact asks_of_calls rfl
  · exact asks_of_carryOut h'
  · exact asks_of_carryOut h'
  · obtain ⟨hfirst, hsecond⟩ := h'.split (precedes_carryOut ..) (precedes_carryOut ..)
    exact (asks_of_carryOut hfirst).trans (asks_of_carryOut hsecond)

/-! ### Registration -/

/-- The calls that register a variant: it is added, its options are set, and the references that waited for
it are resolved. -/
def registeringCalls (p : Project) (v : Variant) : List Workspace.Call :=
  if v.registered then [] else addingCall p v :: optionCalls v ++ resolvingCalls v

/-- Where no call fails, the workspace takes a variant that is to be registered. -/
theorem taken_of_smooth (hs : r.store.Sound r.nextHandle) {p : Project}
    (hp : r.store.project? id = some p) (hv : v ∈ p.variants) (hreg : v.registered = false)
    (h' : Smooth r (r.register id v.handle)) :
    ∃ r₁, r.attempt "adding project" id v.handle (addingCall p v) = (r₁, true) := by
  obtain ⟨⟨r₁, taken⟩, ha⟩ : ∃ result, r.attempt "adding project" id v.handle (addingCall p v) = result :=
    ⟨_, rfl⟩
  cases taken with
  | true => exact ⟨r₁, ha⟩
  | false =>
      have hr₁ := congrArg Prod.fst ha
      subst hr₁
      rw [register_of_refused hs hp hv hreg ha] at h'
      have hgood := (asks_of_attempt h').1
      rw [congrArg Prod.snd ha] at hgood
      cases hgood

theorem asks_of_register (hs : r.store.Sound r.nextHandle) {p : Project}
    (hp : r.store.project? id = some p) (hv : v ∈ p.variants) (h' : Smooth r (r.register id v.handle)) :
    Asks r (r.register id v.handle) (registeringCalls p v) := by
  cases hreg : v.registered with
  | true =>
      rw [register_of_registered hs ⟨p, hp, hv⟩ hreg, registeringCalls, if_pos hreg]
      exact asks_of_calls rfl
  | false =>
      obtain ⟨r₁, ha⟩ := taken_of_smooth hs hp hv hreg h'
      have hadd := r.precedes_attempt "adding project" id v.handle (addingCall p v)
      rw [register_of_taken hs hp hv hreg ha] at h' ⊢
      rw [registeringCalls, if_neg (by simp [hreg])]
      have hr₁ := congrArg Prod.fst ha
      subst hr₁
      let r₂ := (r.attempt "adding project" id v.handle (addingCall p v)).1.modifyVariant v.handle
        fun v => { v with registered := true }
      have hsend : Precedes r₂ (r₂.sendOptions id v) := precedes_sendOptions r₂ id v
      have hresolve := (r₂.sendOptions id v).precedes_carryOutAll "resolving pending reference" id v.handle
        (resolvingCalls v)
      have hsmooth : Smooth r ((r₂.sendOptions id v).carryOutAll "resolving pending reference" id v.handle
        (resolvingCalls v)) := h'
      obtain ⟨hfirst, hlater⟩ := hsmooth.split hadd (hsend.trans hresolve)
      obtain ⟨hoptions, hlast⟩ := hlater.split hsend hresolve
      have hasked : Asks r r₂ [addingCall p v] := (asks_of_attempt hfirst).2
      exact (hasked.trans (asks_of_sendOptions hoptions)).trans (asks_of_carryOutAll hlast)

/-- Where no call fails, a variant that is to be registered is settled, also if it was registered before. -/
theorem register_store_of_smooth (hr : r.WellFormed) (hv : r.store.Has id v)
    (h' : Smooth r (r.register id v.handle)) :
    (r.register id v.handle).store = r.store.modifyVariant v.handle Variant.settle := by
  obtain ⟨p, hp, hmem⟩ := hv
  have hv : r.store.Has id v := ⟨p, hp, hmem⟩
  cases hreg : v.registered with
  | true =>
      rw [register_of_registered hr.sound hv hreg]
      refine (modifyVariant_of_same fun hw hwh => ?_).symm
      rw [(hr.sound.handle_inj hw hv hwh).2]
      exact v.settle_of_settled hreg (hr.linked.settled hv hreg)
  | false =>
      obtain ⟨r₁, ha⟩ := taken_of_smooth hr.sound hp hmem hreg h'
      have hstore : r₁.store = r.store := by
        have hcall := (r.attempt_untouched "adding project" id v.handle (addingCall p v)).store
        rwa [ha] at hcall
      rw [register_of_taken hr.sound hp hmem hreg ha, modifyVariant_store, carryOutAll_store,
        sendOptions_store, modifyVariant_store, hstore]
      exact modifyVariant_modifyVariant r.store v.handle _ fun _ => rfl

end Reconciler

end CompilationBridge.Graph
