import CompilationBridge.Proofs.Graph.Mirror
import CompilationBridge.Proofs.Workspace

/-! Two reconcilers in step. A reconciler that may meet outages has a twin that meets none, with the same
graph, the same handles given out and the same workspace apart from options that are stale. The operations
of both go the same way as long as no call fails on which the course of an operation depends; where no
outage is left at all, whole runs do, and a message with options leaves those of its variant the same on
both sides. -/

namespace CompilationBridge

/-- Calls that are made anew with the next message if they failed: an entry that was refused is not
recorded, and options are set with every message that has them. -/
def Workspace.Method.isRetried : Workspace.Method → Bool
  | .addMetadataReference | .addDocument | .setCompilationOptions | .setParseOptions => true
  | _ => false

namespace Graph.Reconciler

/-- A reconciler of which some calls may fail, and a twin without outages. Only calls that are made anew
may fail, and while some may, all options may be stale. -/
structure Twin (failing : Workspace.Method → Prop) (stale : Handle → Prop) (r r' : Reconciler) : Prop
    extends Untouched r r' where
  workspace : r.workspace.Agrees stale r'.workspace
  outages : r.outages.Only failing
  calm : r'.Calm
  retried : ∀ {m}, failing m → m.isRetried = true
  outdated : ∀ {m}, failing m → ∀ h, stale h

variable {r r' : Reconciler} {failing : Workspace.Method → Prop} {stale : Handle → Prop}

/-! ### Changes apart from calls -/

theorem Twin.next (ht : Twin failing stale r r') {r₁ r₁' : Reconciler} (hu : Untouched r₁ r₁')
    (hw : r₁.workspace.Agrees stale r₁'.workspace) (ho : r₁.outages.Only failing) (hc : r₁'.Calm) :
    Twin failing stale r₁ r₁' :=
  { hu with
    workspace := hw
    outages := ho
    calm := hc
    retried := ht.retried
    outdated := ht.outdated }

theorem Twin.of_eq (ht : Twin failing stale r r') {r₁ r₁' : Reconciler} (hu : Untouched r₁ r₁')
    (hw : r₁.workspace = r.workspace) (hw' : r₁'.workspace = r'.workspace) (ho : r₁.outages = r.outages)
    (ho' : r₁'.outages = r'.outages) : Twin failing stale r₁ r₁' := by
  refine ht.next hu ?_ ?_ (ho'.trans ht.calm)
  · rw [hw, hw']
    exact ht.workspace
  · rw [ho]
    exact ht.outages

/-- A change of the graph that is made on both sides. -/
theorem Twin.withStore (ht : Twin failing stale r r') (f : Store → Store) :
    Twin failing stale { r with store := f r.store } { r' with store := f r'.store } :=
  ht.of_eq ⟨⟨ht.nextHandle, ht.sourceExtension, ht.visiting⟩, congrArg f ht.store⟩ rfl rfl rfl rfl

theorem Twin.modifyVariant (ht : Twin failing stale r r') (h : Handle) (f : Variant → Variant) :
    Twin failing stale (r.modifyVariant h f) (r'.modifyVariant h f) :=
  ht.withStore (·.modifyVariant h f)

theorem Twin.quiet (ht : Twin failing stale r r') (tally tally' : ReconcilerTally)
    (logs logs' : List LogRecord) :
    Twin failing stale { r with tally := tally, logs := logs } { r' with tally := tally', logs := logs' } :=
  ht.of_eq ⟨⟨ht.nextHandle, ht.sourceExtension, ht.visiting⟩, ht.store⟩ rfl rfl rfl rfl

theorem Twin.issued (ht : Twin failing stale r r') : Twin failing stale r.issued r'.issued :=
  ht.of_eq ⟨⟨congrArg (· + 1) ht.nextHandle, ht.sourceExtension, ht.visiting⟩, ht.store⟩ rfl rfl rfl rfl

theorem Twin.created (ht : Twin failing stale r r') (id : Nat) (framework : Framework) :
    Twin failing stale (r.created id framework) (r'.created id framework) := by
  unfold Reconciler.created
  rw [ht.nextHandle]
  have hstore := congrArg (·.addVariant id { framework := framework, handle := ⟨r.nextHandle⟩ }) ht.store
  exact ht.of_eq ⟨⟨rfl, ht.sourceExtension, ht.visiting⟩, hstore⟩ rfl rfl rfl rfl

theorem Twin.variantFor (ht : Twin failing stale r r') (id : Nat) (framework : Framework) :
    Twin failing stale (r.variantFor id framework).1 (r'.variantFor id framework).1 ∧
      (r'.variantFor id framework).2 = (r.variantFor id framework).2 := by
  have hnew := ht.created id framework
  unfold Reconciler.variantFor
  rw [ht.store]
  split
  · exact ⟨ht, rfl⟩
  · exact ⟨hnew, congrArg Handle.mk ht.nextHandle⟩

theorem Twin.foldl {α : Type} {f f' : Reconciler → α → Reconciler}
    (hf : ∀ {r r'} a, Twin failing stale r r' → Twin failing stale (f r a) (f' r' a)) (l : List α)
    (ht : Twin failing stale r r') : Twin failing stale (l.foldl f r) (l.foldl f' r') := by
  induction l generalizing r r' with
  | nil => exact ht
  | cons a rest ih => exact ih (hf a ht)

/-! ### Calls -/

/-- A call that does not fail by an outage goes the same way on both sides. -/
theorem Twin.perform (ht : Twin failing stale r r') {c : Workspace.Call}
    (hdraw : (r.outages.draw c.method).1 = false) :
    Twin failing stale (r.perform c).1 (r'.perform c).1 ∧
      ((r'.perform c).2 = none ↔ (r.perform c).2 = none) := by
  have hleft := (ht.outages.draw c.method).1
  have hdraw' : r'.outages.draw c.method = (false, r'.outages) := by
    rw [ht.calm]
    rfl
  unfold Reconciler.perform
  rw [hdraw']
  simp only [hdraw, Bool.false_eq_true, if_false]
  rcases ht.workspace.perform c with ⟨w, w', hw, hw', hagrees⟩ | ⟨fault, fault', hw, hw'⟩ <;>
    simp only [hw, hw']
  · exact ⟨ht.next ⟨⟨ht.nextHandle, ht.sourceExtension, ht.visiting⟩, ht.store⟩ hagrees hleft ht.calm, trivial⟩
  · exact ⟨ht.next ⟨⟨ht.nextHandle, ht.sourceExtension, ht.visiting⟩, ht.store⟩ ht.workspace hleft ht.calm,
      iff_of_false nofun nofun⟩

theorem Twin.attempt (ht : Twin failing stale r r') {c : Workspace.Call}
    (hdraw : (r.outages.draw c.method).1 = false) (action : String) (id : Nat) (h : Handle) :
    Twin failing stale (r.attempt action id h c).1 (r'.attempt action id h c).1 ∧
      (r'.attempt action id h c).2 = (r.attempt action id h c).2 := by
  obtain ⟨ht₁, hsame⟩ := ht.perform hdraw
  rcases r.attempt_cases action id h c with ⟨ha, hgood⟩ | ⟨fault, hbad, ha⟩ <;>
    rcases r'.attempt_cases action id h c with ⟨ha', hgood'⟩ | ⟨fault', hbad', ha'⟩ <;> rw [ha, ha']
  · exact ⟨ht₁, rfl⟩
  · rw [hsame.2 hgood] at hbad'
    cases hbad'
  · rw [hsame.1 hgood'] at hbad
    cases hbad
  · exact ⟨ht₁.quiet .., rfl⟩

/-- A call that fails by an outage leaves all as it was. -/
theorem Twin.attempt_failing (ht : Twin failing stale r r') {c : Workspace.Call}
    (hdraw : (r.outages.draw c.method).1 = true) (action : String) (id : Nat) (h : Handle) :
    Twin failing stale (r.attempt action id h c).1 r' ∧ (r.attempt action id h c).2 = false := by
  have hleft := (ht.outages.draw c.method).1
  have hperform : r.perform c = ({ r with
      outages := (r.outages.draw c.method).2
      calls := r.calls ++ [(c, some injectedFault)] }, some injectedFault) := by
    unfold Reconciler.perform
    simp only [hdraw, if_true]
  unfold Reconciler.attempt
  rw [hperform]
  exact ⟨ht.next ⟨⟨ht.nextHandle, ht.sourceExtension, ht.visiting⟩, ht.store⟩ ht.workspace hleft ht.calm, rfl⟩

theorem Twin.spared (ht : Twin failing stale r r') {m : Workspace.Method} (hm : ¬failing m) :
    (r.outages.draw m).1 = false :=
  Bool.eq_false_iff.2 fun hdraw => hm ((ht.outages.draw m).2 hdraw)

/-- Calls that are not made anew never fail by an outage. -/
theorem Twin.lasting (ht : Twin failing stale r r') {m : Workspace.Method} (hm : m.isRetried = false) :
    ¬failing m := by
  intro hfailing
  rw [ht.retried hfailing] at hm
  cases hm

theorem Twin.carryOut (ht : Twin failing stale r r') {c : Workspace.Call} (hcall : ¬failing c.method)
    (action : String) (id : Nat) (h : Handle) :
    Twin failing stale (r.carryOut action id h c) (r'.carryOut action id h c) :=
  (ht.attempt (ht.spared hcall) action id h).1

theorem Twin.dropEntry (ht : Twin failing stale r r') (slot : Slot) (id : Nat) (h : Handle)
    (entry : String × Handle) :
    Twin failing stale (dropEntry slot id h r entry) (dropEntry slot id h r' entry) := by
  have hcall : ¬failing (slot.removeCall h entry.2).method := by
    apply ht.lasting
    cases slot <;> rfl
  exact (ht.carryOut hcall slot.removal id h).modifyVariant h _

theorem Twin.ite (b : Bool) {r₁ r₁' r₂ r₂' : Reconciler} (ht : Twin failing stale r₁ r₁')
    (ht' : Twin failing stale r₂ r₂') :
    Twin failing stale (if b then r₁ else r₂) (if b then r₁' else r₂') := by
  cases b with
  | true => exact ht
  | false => exact ht'

theorem Twin.dropProject (ht : Twin failing stale r r') (id : Nat) (h : Handle) (edge : String × Handle) :
    Twin failing stale (dropProject id h r edge) (dropProject id h r' edge) := by
  have ht₁ := ht.modifyVariant h fun v => { v with projectRefs := v.projectRefs.erase edge.1 }
  unfold Reconciler.dropProject
  dsimp only
  rw [ht₁.store]
  split
  · rename_i p target hp htarget
    have hcall := ht₁.carryOut (c := .removeProjectReference h edge.2) (ht.lasting rfl)
      "removing project reference" id h
    have ht₂ := Twin.ite target.registered hcall (ht₁.modifyVariant edge.2 (·.removePending h))
    exact Twin.ite _ ht₂ (ht₂.modifyVariant ..)
  · exact ht₁

theorem Twin.link (ht : Twin failing stale r r') (id : Nat) (h : Handle) (p : Project) (path : String)
    (target : Handle) : Twin failing stale (link id h r p path target) (link id h r' p path target) := by
  have ht₁ := (ht.modifyVariant target fun t => { t with dependees := t.dependees.put p.path id }).modifyVariant
    h fun v => { v with projectRefs := v.projectRefs.put path target }
  unfold Reconciler.link
  dsimp only
  rw [ht₁.store]
  split
  · exact ht₁.modifyVariant ..
  · exact ht₁.carryOut (ht.lasting rfl) ..

/-! ### Registration and teardown -/

/-- A call uses its method once, good or bad. -/
theorem carryOut_outages (r : Reconciler) (action : String) (id : Nat) (h : Handle) (c : Workspace.Call) :
    (r.carryOut action id h c).outages = (r.outages.draw c.method).2 := by
  have hperform : (r.perform c).1.outages = (r.outages.draw c.method).2 := by
    unfold Reconciler.perform
    dsimp only
    split
    · rfl
    · split <;> rfl
  rcases r.attempt_cases action id h c with ⟨ha, -⟩ | ⟨fault, -, ha⟩ <;> rw [Reconciler.carryOut, ha]
  · exact hperform
  · exact hperform

theorem only_carryOut (hr : r.outages.Only failing) (action : String) (id : Nat) (h : Handle)
    (c : Workspace.Call) : (r.carryOut action id h c).outages.Only failing := by
  rw [carryOut_outages]
  exact (hr.draw c.method).1

/-- Setting an option changes nothing but options, good or bad. -/
theorem core_carryOut {c : Workspace.Call} (hedit : ∀ e : Workspace.Entry, (c.edit e).core = e.core)
    (heffect : ∀ k old, c.effect k old = if k = c.project then old.map c.edit else old)
    (r : Reconciler) (action : String) (id : Nat) (h k : Handle) :
    ((r.carryOut action id h c).workspace.projects.get? k).map Workspace.Entry.core =
      (r.workspace.projects.get? k).map Workspace.Entry.core := by
  rcases r.carryOut_workspace action id h c with hw | hw
  · rw [Workspace.get?_perform hw, heffect]
    split
    · rw [Option.map_map]
      exact Option.map_congr fun e _ => hedit e
    · rfl
  · rw [hw]

/-- Setting an option keeps two reconcilers in step: where the call may fail, the option is stale. -/
theorem Twin.setOption (ht : Twin failing stale r r') {c : Workspace.Call}
    (hedit : ∀ e : Workspace.Entry, (c.edit e).core = e.core)
    (heffect : ∀ k old, c.effect k old = if k = c.project then old.map c.edit else old)
    (action : String) (id : Nat) (h : Handle) :
    Twin failing stale (r.carryOut action id h c) (r'.carryOut action id h c) := by
  by_cases hfailing : failing c.method
  · have hu := r.carryOut_untouched action id h c
    have hu' := r'.carryOut_untouched action id h c
    refine ht.next ⟨⟨?_, ?_, ?_⟩, ?_⟩ ⟨fun k => ?_, fun k hk => absurd (ht.outdated hfailing k) hk⟩
      (only_carryOut ht.outages action id h c) ?_
    · rw [hu.nextHandle, hu'.nextHandle, ht.nextHandle]
    · rw [hu.sourceExtension, hu'.sourceExtension, ht.sourceExtension]
    · rw [hu.visiting, hu'.visiting, ht.visiting]
    · rw [hu.store, hu'.store, ht.store]
    · rw [core_carryOut hedit heffect, core_carryOut hedit heffect, ht.workspace.core]
    · rw [Calm, carryOut_outages, ht.calm]
      rfl
  · exact ht.carryOut hfailing action id h

theorem Twin.sendOptions (ht : Twin failing stale r r') (id : Nat) (v : Variant) :
    Twin failing stale (r.sendOptions id v) (r'.sendOptions id v) := by
  have hcompilation : ∀ {r r' : Reconciler} o, Twin failing stale r r' →
      Twin failing stale
        (r.carryOut "setting compilation options" id v.handle (.setCompilationOptions v.handle o))
        (r'.carryOut "setting compilation options" id v.handle (.setCompilationOptions v.handle o)) :=
    fun o ht => ht.setOption (fun _ => rfl) (fun _ _ => rfl) ..
  have hparse : ∀ {r r' : Reconciler} o, Twin failing stale r r' →
      Twin failing stale (r.carryOut "setting parse options" id v.handle (.setParseOptions v.handle o))
        (r'.carryOut "setting parse options" id v.handle (.setParseOptions v.handle o)) :=
    fun o ht => ht.setOption (fun _ => rfl) (fun _ _ => rfl) ..
  unfold Reconciler.sendOptions
  cases v.compilation with
  | none =>
      cases v.parse with
      | none => exact ht
      | some o => exact hparse o ht
  | some c =>
      cases v.parse with
      | none => exact hcompilation c ht
      | some o => exact hparse o (hcompilation c ht)

theorem Twin.setOptions (ht : Twin failing stale r r') (id : Nat) (h : Handle) (options : CompilerOptions) :
    Twin failing stale (setOptions id h r options) (setOptions id h r' options) := by
  have ht₁ := ht.modifyVariant h fun v =>
    { v with compilation := some options.compilation, parse := some options.parse }
  unfold Reconciler.setOptions
  dsimp only
  rw [ht₁.store]
  split
  · exact Twin.ite _ (ht₁.sendOptions id _) ht₁
  · exact ht₁

theorem Twin.register (ht : Twin failing stale r r') (id : Nat) (h : Handle) :
    Twin failing stale (r.register id h) (r'.register id h) := by
  unfold Reconciler.register
  rw [ht.store]
  split
  · rename_i p v hp hv
    refine Twin.ite _ ht ?_
    obtain ⟨ht₁, hsame⟩ := ht.attempt (c := .addProject (v.framework.projectInfo h p.name p.path))
      (ht.spared (ht.lasting rfl)) "adding project" id h
    -- both sides take the variant, or neither does
    generalize r.attempt "adding project" id h (.addProject (v.framework.projectInfo h p.name p.path)) = a
      at ht₁ hsame ⊢
    generalize r'.attempt "adding project" id h (.addProject (v.framework.projectInfo h p.name p.path)) = a'
      at ht₁ hsame ⊢
    obtain ⟨r₁, taken⟩ := a
    obtain ⟨r₁', taken'⟩ := a'
    obtain rfl : taken' = taken := hsame
    cases taken' with
    | false => exact ht₁
    | true =>
        have ht₂ := (ht₁.modifyVariant h fun v => { v with registered := true }).sendOptions id v
        have hresolve : ∀ {r r' : Reconciler} (referrer : Handle), Twin failing stale r r' →
            Twin failing stale
              (r.carryOut "resolving pending reference" id h (.addProjectReference referrer h))
              (r'.carryOut "resolving pending reference" id h (.addProjectReference referrer h)) :=
          fun referrer ht => ht.carryOut (ht.lasting rfl) ..
        exact (Twin.foldl hresolve v.pending ht₂).modifyVariant ..
  · exact ht

/-- The end of a teardown: the variant is emptied, and stays only if something refers to it. -/
def vacated (path : String) (h : Handle) (s : Store) : Store :=
  let s := s.modifyVariant h Variant.reset
  let s := s.modifyVariant h fun v => (referrers s path h).foldl Variant.addPending v
  match s.variant? h with
  | some v => if v.dependees.isEmpty && v.pending.isEmpty then s.removeVariant h else s
  | none => s

theorem teardown_vacated {id : Nat} {h : Handle} {p : Project} {v : Variant}
    (hp : r.store.project? id = some p) (hv : r.store.variant? h = some v) :
    r.teardown id h =
      let r₁ := { r with store := v.projectRefs.values.foldl (withdrawEdge p.path p h) r.store }.carryOut
        "removing project" id h (.removeProject h)
      { r₁ with store := vacated p.path h r₁.store } := by
  have hfinish : ∀ r : Reconciler,
      (let r := r.modifyVariant h Variant.reset
      let r := r.modifyVariant h fun v => (referrers r.store p.path h).foldl Variant.addPending v
      match r.store.variant? h with
      | some v =>
        if v.dependees.isEmpty && v.pending.isEmpty then { r with store := r.store.removeVariant h } else r
      | none => r) = { r with store := vacated p.path h r.store } := by
    intro r
    simp only [vacated, Reconciler.modifyVariant]
    split
    · rename_i w hw
      cases w.dependees.isEmpty && w.pending.isEmpty <;> rfl
    · rfl
  unfold Reconciler.teardown
  simp only [hp, hv]
  exact hfinish _

theorem Twin.teardown (ht : Twin failing stale r r') (id : Nat) (h : Handle) :
    Twin failing stale (r.teardown id h) (r'.teardown id h) := by
  cases hp : r.store.project? id with
  | none =>
      unfold Reconciler.teardown
      rw [ht.store, hp]
      exact ht
  | some p =>
      cases hv : r.store.variant? h with
      | none =>
          unfold Reconciler.teardown
          rw [ht.store, hp, hv]
          exact ht
      | some v =>
          have ht₁ := (ht.withStore (v.projectRefs.values.foldl (withdrawEdge p.path p h))).carryOut
            (c := .removeProject h) (ht.lasting rfl) "removing project" id h
          rw [teardown_vacated hp hv, teardown_vacated (ht.store ▸ hp) (ht.store ▸ hv)]
          exact ht₁.withStore (vacated p.path h)

theorem Twin.ownVariant (ht : Twin failing stale r r') (id : Nat) (framework : Framework) :
    Twin failing stale (r.ownVariant id framework).1 (r'.ownVariant id framework).1 ∧
      (r'.ownVariant id framework).2 = (r.ownVariant id framework).2 := by
  obtain ⟨ht₁, hh⟩ := ht.variantFor id framework
  change Twin failing stale ((r.variantFor id framework).1.register id (r.variantFor id framework).2)
    ((r'.variantFor id framework).1.register id (r'.variantFor id framework).2) ∧ _
  rw [hh]
  exact ⟨ht₁.register .., hh⟩

theorem Twin.listFramework (ht : Twin failing stale r r') (id : Nat) (framework : Framework) :
    Twin failing stale (listFramework id r framework) (listFramework id r' framework) := by
  obtain ⟨ht₁, hh⟩ := ht.variantFor id framework
  unfold Reconciler.listFramework
  dsimp only
  rw [hh]
  exact (ht₁.modifyVariant ..).register ..

theorem Twin.applyProjectInformation (ht : Twin failing stale r r') (id : Nat) (info : ProjectInformation) :
    Twin failing stale (r.applyProjectInformation id info) (r'.applyProjectInformation id info) := by
  have ht₁ := ht.withStore (describeIn · id info)
  unfold Reconciler.applyProjectInformation
  dsimp only
  rw [congrArg Visiting.order ht.visiting]
  rw [ht.store] at ht₁ ⊢
  refine Twin.foldl (fun framework ht => ht.listFramework id framework) _ ?_
  exact Twin.foldl (fun h ht => ht.teardown id h) _ ht₁

theorem Twin.visit (ht : Twin failing stale r r') (order : Visiting) :
    Twin failing stale (r.visit order) (r'.visit order) :=
  ht.of_eq ⟨⟨ht.nextHandle, ht.sourceExtension, rfl⟩, ht.store⟩ rfl rfl rfl rfl

theorem Twin.track (ht : Twin failing stale r r') (path : String) :
    Twin failing stale (r.track path).1 (r'.track path).1 :=
  ht.withStore fun s => (s.track path).1

theorem addEntry_offered (slot : Slot) (id : Nat) (h : Handle) (r : Reconciler) (item : Slot.Item) :
    addEntry slot id h r item =
      match r.store.variant? h with
      | none => r
      | some v =>
        if (slot.table v).contains item.key then r
        else if (offered slot id h r item).2 then
          (offered slot id h r item).1.modifyVariant h (slot.update (·.put item.key ⟨r.nextHandle⟩))
        else (offered slot id h r item).1 := by
  unfold Reconciler.addEntry
  cases r.store.variant? h with
  | none => rfl
  | some v =>
      dsimp only
      split
      · rfl
      · obtain ⟨⟨r', taken⟩, hoffered⟩ : ∃ result, offered slot id h r item = result := ⟨_, rfl⟩
        rw [hoffered]
        unfold offered issued at hoffered
        simp only [fresh, hoffered]
        cases taken <;> rfl

/-- Offering an item either goes the same way on both sides, or fails by an outage. -/
theorem Twin.offered (ht : Twin failing stale r r') (slot : Slot) (id : Nat) (h : Handle) (item : Slot.Item) :
    (Twin failing stale (offered slot id h r item).1 (offered slot id h r' item).1 ∧
        (offered slot id h r' item).2 = (offered slot id h r item).2) ∨
      ((∃ m, failing m) ∧ Twin failing stale (offered slot id h r item).1 r'.issued ∧
        (offered slot id h r item).2 = false) := by
  unfold Reconciler.offered
  rw [ht.nextHandle]
  cases hdraw : (r.outages.draw (slot.addCall h ⟨r.nextHandle⟩ item).method).1 with
  | false => exact Or.inl (ht.issued.attempt hdraw slot.addition id h)
  | true => exact Or.inr ⟨⟨_, (ht.outages.draw _).2 hdraw⟩, ht.issued.attempt_failing hdraw slot.addition id h⟩

/-- Adding an entry either goes the same way on both sides, or fails by an outage: then a handle has been
given out, and all else is as it was. -/
theorem Twin.addEntry (ht : Twin failing stale r r') (slot : Slot) (id : Nat) (h : Handle)
    (item : Slot.Item) :
    Twin failing stale (addEntry slot id h r item) (addEntry slot id h r' item) ∨
      ((∃ m, failing m) ∧ Twin failing stale (addEntry slot id h r item) r'.issued) := by
  rw [addEntry_offered, addEntry_offered, ht.store]
  split
  · exact Or.inl ht
  · rename_i v hv
    cases (slot.table v).contains item.key with
    | true => exact Or.inl ht
    | false =>
        simp only [Bool.false_eq_true, if_false]
        rcases ht.offered slot id h item with ⟨ht₁, hsame⟩ | ⟨hfailing, ht₁, hrefused⟩
        · rw [hsame, ht.nextHandle]
          exact Or.inl (Twin.ite _ (ht₁.modifyVariant ..) ht₁)
        · rw [hrefused]
          exact Or.inr ⟨hfailing, ht₁⟩

/-! ### Runs without outages -/

section

variable (ht : Twin (fun _ => False) stale r r')

include ht

theorem Twin.setEntries (slot : Slot) (id : Nat) (h : Handle) (items : List Slot.Item) :
    Twin (fun _ => False) stale (setEntries slot id h r items) (setEntries slot id h r' items) := by
  unfold Reconciler.setEntries
  dsimp only
  rw [ht.store]
  refine Twin.foldl (fun item ht => ?_) items (Twin.foldl (fun entry ht => ht.dropEntry slot id h entry) _ ht)
  rcases ht.addEntry slot id h item with ht₁ | ⟨⟨m, hm⟩, -⟩
  · exact ht₁
  · exact hm.elim

theorem Twin.addProject (id : Nat) (h : Handle) (added added' : List ProjectRef) (edge : String × Framework) :
    Twin (fun _ => False) stale (addProject id h (r, added) edge).1 (addProject id h (r', added') edge).1 := by
  unfold Reconciler.addProject
  dsimp only
  rw [ht.store]
  split
  · rename_i p v hp hv
    split
    · exact ht
    · obtain ⟨store, ref, isNew⟩ := r.store.track edge.1
      have ht₁ : Twin (fun _ => False) stale { r with store := store } { r' with store := store } :=
        ht.of_eq ⟨⟨ht.nextHandle, ht.sourceExtension, ht.visiting⟩, rfl⟩ rfl rfl rfl rfl
      obtain ⟨ht₂, hh⟩ := ht₁.variantFor ref.contextId edge.2
      dsimp only
      rw [hh]
      exact ht₂.link ..
  · exact ht

theorem Twin.setProjects (id : Nat) (h : Handle) (wanted : Table String Framework) :
    Twin (fun _ => False) stale (setProjects id h r wanted).1 (setProjects id h r' wanted).1 := by
  have hadd : ∀ (edges : List (String × Framework)) {state state' : Reconciler × List ProjectRef},
      Twin (fun _ => False) stale state.1 state'.1 →
      Twin (fun _ => False) stale (edges.foldl (Reconciler.addProject id h) state).1
        (edges.foldl (Reconciler.addProject id h) state').1 := by
    intro edges
    induction edges with
    | nil => exact fun ht => ht
    | cons edge rest ih =>
        intro state state' ht
        exact ih (ht.addProject id h state.2 state'.2 edge)
  unfold Reconciler.setProjects
  dsimp only
  rw [ht.store]
  exact hadd _ (Twin.foldl (fun edge ht => ht.dropProject id h edge) _ ht)

theorem Twin.applyReferences (id : Nat) (refs : References) :
    Twin (fun _ => False) stale (r.applyReferences id refs).1 (r'.applyReferences id refs).1 := by
  obtain ⟨ht₁, hh⟩ := ht.ownVariant id refs.framework
  unfold Reconciler.applyReferences setReferences
  dsimp only
  rw [hh]
  exact ((ht₁.setEntries .file ..).setEntries .raw ..).setProjects ..

theorem Twin.applySources (id : Nat) (sources : Sources) :
    Twin (fun _ => False) stale (r.applySources id sources) (r'.applySources id sources) := by
  obtain ⟨ht₁, hh⟩ := ht.ownVariant id sources.framework
  have hsource : (r'.ownVariant id sources.framework).1.isSource =
      (r.ownVariant id sources.framework).1.isSource := by
    funext file
    rw [isSource, isSource, ht₁.sourceExtension]
  unfold Reconciler.applySources setSources
  dsimp only
  rw [hh, hsource]
  exact (ht₁.setEntries .document ..).modifyVariant ..

theorem Twin.applyCompilerOptions (id : Nat) (options : CompilerOptions) :
    Twin (fun _ => False) stale (r.applyCompilerOptions id options) (r'.applyCompilerOptions id options) := by
  obtain ⟨ht₁, hh⟩ := ht.ownVariant id options.framework
  unfold Reconciler.applyCompilerOptions
  dsimp only
  rw [hh]
  exact ht₁.setOptions ..

theorem Twin.applyPayload (ref : ProjectRef) (payload : Payload) :
    Twin (fun _ => False) stale (r.applyPayload ref payload).1 (r'.applyPayload ref payload).1 := by
  cases payload with
  | projectInformation info => exact ht.applyProjectInformation ..
  | references refs => exact ht.applyReferences ..
  | dependencies deps => exact (ht.ownVariant ..).1
  | compilerOptions options =>
      rw [applyPayload_compilerOptions, applyPayload_compilerOptions]
      exact ht.applyCompilerOptions ..
  | sources sources => exact ht.applySources ..
  | hostError e => exact ht
  | unknown type raw => exact ht

theorem Twin.delivery? (m : Message) : r'.delivery? m = r.delivery? m := by
  unfold Reconciler.delivery?
  rw [ht.store]

theorem Twin.apply (m : Message) : Twin (fun _ => False) stale (r.apply m).1 (r'.apply m).1 := by
  have hsame := ht.delivery? m
  cases hd : r.delivery? m with
  | none =>
      obtain ⟨tally, logs, heq⟩ := apply_of_dropped hd
      obtain ⟨tally', logs', heq'⟩ := apply_of_dropped (hsame.trans hd)
      rw [heq, heq']
      exact ht.quiet ..
  | some d =>
      obtain ⟨-, p, hp, heq⟩ := apply_of_delivered hd
      obtain ⟨-, p', hp', heq'⟩ := apply_of_delivered (hsame.trans hd)
      rw [ht.store, hp] at hp'
      obtain rfl := Option.some.inj hp'
      rw [heq, heq']
      have hcount : Twin (fun _ => False) stale (r.countMessage m.type) (r'.countMessage m.type) := ht.quiet ..
      exact hcount.applyPayload ..

theorem Twin.step (s : Step) : Twin (fun _ => False) stale (r.step s) (r'.step s) := by
  cases s with
  | track path => exact ht.track path
  | visit order => exact ht.visit order
  | apply m => exact ht.apply m

end

/-! ### Options that are set anew -/

theorem carryOut_of_drawn {c : Workspace.Call} (hdraw : (r.outages.draw c.method).1 = false)
    (action : String) (id : Nat) (h : Handle) :
    (r.carryOut action id h c).workspace =
      match r.workspace.perform c with
      | .ok w => w
      | .error _ => r.workspace := by
  unfold Reconciler.carryOut Reconciler.attempt Reconciler.perform
  simp only [hdraw, Bool.false_eq_true, if_false]
  cases r.workspace.perform c <;> rfl

/-- Setting an option where no outage is due: a project that is there gets it. -/
theorem get?_setOption {c : Workspace.Call} (hdraw : (r.outages.draw c.method).1 = false)
    (haccepts : r.workspace.accepts c = r.workspace.projects.contains c.project)
    (heffect : ∀ old, c.effect c.project old = old.map c.edit)
    (action : String) (id : Nat) (h : Handle) :
    (r.carryOut action id h c).workspace.projects.get? c.project =
      (r.workspace.projects.get? c.project).map c.edit := by
  have hspec := r.workspace.perform_spec c
  rw [carryOut_of_drawn hdraw]
  split at hspec
  · obtain ⟨w, hw, hget⟩ := hspec
    rw [hw]
    exact (hget _).trans (heffect _)
  · rename_i hrefused
    obtain ⟨fault, hw⟩ := hspec
    rw [haccepts, Bool.not_eq_true, Table.contains_eq_false] at hrefused
    rw [hw, hrefused]
    rfl

theorem setOptions_of_registered {id : Nat} {v : Variant} (hs : r.store.Sound r.nextHandle)
    (hv : r.store.Has id v) (hreg : v.registered = true) (options : CompilerOptions) :
    setOptions id v.handle r options =
      ((r.modifyVariant v.handle (withOptions options)).carryOut "setting compilation options" id v.handle
        (.setCompilationOptions v.handle options.compilation)).carryOut "setting parse options" id v.handle
        (.setParseOptions v.handle options.parse) := by
  have hplain := plain_options r.store v.handle options
  have hfind : (r.modifyVariant v.handle (withOptions options)).store.variant? v.handle =
      some (withOptions options v) :=
    (hs.plain hplain).variant? (hv.modify (withOptions options))
  unfold withOptions at hfind
  unfold Reconciler.setOptions
  simp only [hfind, hreg, if_true, sendOptions]
  rfl

/-- The workspace project of a variant after a message with options. -/
theorem get?_setOptions {id : Nat} {v : Variant} (hs : r.store.Sound r.nextHandle)
    (hv : r.store.Has id v) (hreg : v.registered = true) (hr : r.outages.Only fun _ => False)
    (options : CompilerOptions) :
    (setOptions id v.handle r options).workspace.projects.get? v.handle =
      (r.workspace.projects.get? v.handle).map fun e =>
        { e.core with compilation := some options.compilation, parse := some options.parse } := by
  have hdraw : ∀ {o : Outages Workspace.Method} {m}, o.Only (fun _ => False) → (o.draw m).1 = false :=
    fun ho => Bool.eq_false_iff.2 fun h => (ho.draw _).2 h
  have hr₁ := only_carryOut (r := r.modifyVariant v.handle (withOptions options)) hr
    "setting compilation options" id v.handle (.setCompilationOptions v.handle options.compilation)
  have hfirst : ((r.modifyVariant v.handle (withOptions options)).carryOut "setting compilation options" id
      v.handle (.setCompilationOptions v.handle options.compilation)).workspace.projects.get? v.handle =
        (r.workspace.projects.get? v.handle).map fun e => { e with compilation := some options.compilation } :=
    get?_setOption (r := r.modifyVariant v.handle (withOptions options))
      (c := .setCompilationOptions v.handle options.compilation) (hdraw hr) rfl (fun _ => if_pos rfl) ..
  have hsecond := get?_setOption (c := .setParseOptions v.handle options.parse) (hdraw hr₁) rfl
    (fun _ => if_pos rfl) "setting parse options" id v.handle
  rw [setOptions_of_registered hs hv hreg]
  refine hsecond.trans ((congrArg _ hfirst).trans ?_)
  rw [Option.map_map]
  rfl

/-- After a message with options, those of its variant are the same on both sides. -/
theorem Twin.refresh (ht : Twin (fun _ => False) stale r r') {id : Nat} {v : Variant}
    (hs : r.store.Sound r.nextHandle) (hv : r.store.Has id v) (hreg : v.registered = true)
    (options : CompilerOptions) :
    Twin (fun _ => False) (fun k => stale k ∧ k ≠ v.handle) (Reconciler.setOptions id v.handle r options)
      (Reconciler.setOptions id v.handle r' options) := by
  have ht₁ := ht.setOptions id v.handle options
  have hs' : r'.store.Sound r'.nextHandle := by
    rw [ht.store, ht.nextHandle]
    exact hs
  have hself : (Reconciler.setOptions id v.handle r' options).workspace.projects.get? v.handle =
      (Reconciler.setOptions id v.handle r options).workspace.projects.get? v.handle := by
    have honly : r'.outages.Only fun _ => False := by
      rw [ht.calm]
      exact Outages.only_empty _
    have hcore := ht.workspace.core v.handle
    rw [get?_setOptions hs hv hreg ht.outages, get?_setOptions hs' (ht.store ▸ hv) hreg honly]
    have hmap : ∀ o : Option Workspace.Entry, (o.map fun e => { e.core with
        compilation := some options.compilation, parse := some options.parse }) =
        (o.map Workspace.Entry.core).map fun e => { e with
          compilation := some options.compilation, parse := some options.parse } := by
      intro o
      rw [Option.map_map]
      rfl
    rw [hmap, hmap, hcore]
  refine { ht₁ with
    workspace := ⟨ht₁.workspace.core, fun k hk => ?_⟩
    outdated := fun h => h.elim }
  by_cases hkv : k = v.handle
  · rw [hkv]
    exact hself
  · exact ht₁.workspace.fresh k fun hstale => hk ⟨hstale, hkv⟩

end Graph.Reconciler

end CompilationBridge
