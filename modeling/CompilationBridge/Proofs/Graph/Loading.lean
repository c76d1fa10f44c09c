import CompilationBridge.Proofs.Graph.Lockstep
import CompilationBridge.Proofs.Graph.Replay

/-! Projects that are announced as loaded. A variant counts as loaded once a message has brought its
sources, also if it could not be registered then and the workspace took none of them; a later message of any
kind may register it. So a project may be announced as loaded while the workspace has nothing of the sources
of one of its variants. This takes an outage in which a variant is refused: whichever other calls fail, the
sources of every registered variant have come while it was registered. -/

namespace CompilationBridge

/-- A project stays in the workspace until it is removed. -/
theorem Workspace.contains_perform {w w' : Workspace} {call : Call} (hw : w.perform call = .ok w')
    {k : Handle} (hcall : call ≠ .removeProject k) (hk : w.projects.contains k = true) :
    w'.projects.contains k = true := by
  obtain ⟨e, he⟩ := (Table.contains_iff _ _).1 hk
  rw [Table.contains_eq_isSome, get?_perform hw, he]
  cases call with
  | addProject info =>
      simp only [Call.effect]
      split <;> rfl
  | removeProject project =>
      have hne : k ≠ project := fun heq => hcall (heq ▸ rfl)
      simp only [Call.effect, if_neg hne]
      rfl
  | _ =>
      simp only [Call.effect]
      split <;> rfl

namespace Graph

open Store

/-! ### The workspace loses no project -/

namespace Reconciler

variable {r r' : Reconciler} {failing : Workspace.Method → Prop}

/-- From one state to another no project has left the workspace, and no other method has come to fail. -/
def Onward (failing : Workspace.Method → Prop) (r r' : Reconciler) : Prop :=
  (r.outages.Only failing → r'.outages.Only failing) ∧
    ∀ k, r.workspace.projects.contains k = true → r'.workspace.projects.contains k = true

theorem Onward.refl (failing : Workspace.Method → Prop) (r : Reconciler) : Onward failing r r :=
  ⟨fun ho => ho, fun _ hk => hk⟩

theorem Onward.trans {r'' : Reconciler} (h : Onward failing r r') (h' : Onward failing r' r'') :
    Onward failing r r'' :=
  ⟨fun ho => h'.1 (h.1 ho), fun k hk => h'.2 k (h.2 k hk)⟩

theorem onward_carryOut (failing : Workspace.Method → Prop) (r : Reconciler) (action : String) (id : Nat)
    (h : Handle) (call : Workspace.Call) (hcall : call.method ≠ .removeProject) :
    Onward failing r (r.carryOut action id h call) := by
  refine ⟨fun ho => only_carryOut ho action id h call, fun k hk => ?_⟩
  rcases r.carryOut_workspace action id h call with hw | hw
  · refine Workspace.contains_perform hw ?_ hk
    intro heq
    rw [heq] at hcall
    exact hcall rfl
  · rw [hw]
    exact hk

theorem Makes.onward (failing : Workspace.Method → Prop) (h : Makes r r') : Onward failing r r' := by
  induction h with
  | refl => exact Onward.refl failing r
  | store s _ ih => exact ih
  | call _ hc ih =>
      refine ih.trans (onward_carryOut failing _ _ _ _ _ ?_)
      intro heq
      rw [heq] at hc
      cases hc

/-- A variant that the workspace does not take is refused in an outage, or is there already. -/
theorem refused_cases (ho : r.outages.Only failing) {action : String} {id : Nat} {h : Handle}
    {info : Workspace.ProjectInfo} (hrefused : (r.attempt action id h (.addProject info)).2 = false) :
    failing .addProject ∨ r.workspace.projects.contains info.handle = true := by
  have hfault : (r.perform (.addProject info)).2 ≠ none := by
    intro hgood
    rcases r.attempt_cases action id h (.addProject info) with ⟨ha, -⟩ | ⟨fault, hbad, -⟩
    · rw [ha] at hrefused
      cases hrefused
    · rw [hgood] at hbad
      cases hbad
  unfold perform at hfault
  dsimp only at hfault
  split at hfault
  · rename_i hdrawn
    exact Or.inl ((ho.draw _).2 hdrawn)
  · split at hfault
    · exact absurd rfl hfault
    · rename_i fault hbad
      refine Or.inr ?_
      rw [Workspace.perform] at hbad
      split at hbad
      · assumption
      · cases hbad

end Reconciler

/-! ### Loaded variants -/

/-- The variants of a graph come from those of an earlier one, as registered and as loaded as they were;
one that is new is not loaded, and no registered one is missing. -/
structure Store.Stems (s s' : Store) : Prop where
  back : ∀ {i w}, s'.Has i w →
    (∃ v, s.Has i v ∧ w.handle = v.handle ∧ w.framework.name = v.framework.name ∧
      w.registered = v.registered ∧ w.loaded = v.loaded) ∨ w.loaded = false ∧ ¬s.Owns i w.handle
  forth : ∀ {i v}, s.Has i v → v.registered = true →
    ∃ w, s'.Has i w ∧ w.framework.name = v.framework.name ∧ w.registered = true

namespace Store

variable {s s' : Store}

theorem Stems.of_has (hs : ∀ {i w}, s'.Has i w ↔ s.Has i w) : Stems s s' where
  back {_ w} hw := Or.inl ⟨w, hs.1 hw, rfl, rfl, rfl, rfl⟩
  forth {_ v} hv hreg := ⟨v, hs.2 hv, rfl, hreg⟩

theorem stems_alters {h : Handle} {f : Variant → Variant} (ha : Alters s s' h f)
    (hf : ∀ {i v}, s.Has i v → v.handle = h → (f v).handle = v.handle ∧
      (f v).framework.name = v.framework.name ∧ (f v).registered = v.registered ∧
      (f v).loaded = v.loaded) : Stems s s' := by
  have hsame : ∀ {i} {v w : Variant}, s.Has i v → w.content = (changed h f v).content → w.handle = v.handle ∧
      w.framework.name = v.framework.name ∧ w.registered = v.registered ∧ w.loaded = v.loaded := by
    intro i v w hv hc
    rw [Variant.eq_of_content hc]
    by_cases hh : v.handle = h
    · rw [changed_of_eq hh]
      exact hf hv hh
    · rw [changed_of_ne hh]
      exact ⟨rfl, rfl, rfl, rfl⟩
  constructor
  · intro i w hw
    obtain ⟨v, hv, hc⟩ := ha.of_has hw
    exact Or.inl ⟨v, hv, hsame hv hc⟩
  · intro i v hv hreg
    obtain ⟨w, hw, hc⟩ := ha.has hv
    obtain ⟨-, hn, hwr, -⟩ := hsame hv hc
    exact ⟨w, hw, hn, hwr.trans hreg⟩

theorem stems_addVariant {next j : Nat} {q : String} (hs : s.Sound next) (hj : s.path? j = some q)
    (framework : Framework) : Stems s (s.addVariant j { framework := framework, handle := ⟨next⟩ }) := by
  constructor
  · intro i w hw
    rcases (has_addVariant ⟨q, hj⟩).1 hw with hw | ⟨rfl, rfl⟩
    · exact Or.inl ⟨w, hw, rfl, rfl, rfl, rfl⟩
    · refine Or.inr ⟨rfl, ?_⟩
      intro ⟨v, hv, hh⟩
      have hlt := hs.handle_lt hv
      rw [hh] at hlt
      exact Nat.lt_irrefl next hlt
  · exact fun {_ v} hv hreg => ⟨v, (has_addVariant ⟨q, hj⟩).2 (Or.inl hv), rfl, hreg⟩

end Store

namespace Reconciler

variable {r r' : Reconciler} {failing : Workspace.Method → Prop} {told reached : Nat → String → Prop}
  {id : Nat} {h : Handle} {v : Variant}

/-- What is known of the loaded variants: their sources have been told and, if no variant is ever refused,
have reached the registered ones. Then one that is not registered is barred from the workspace, which still
has a project of its handle. A variant that its sources have reached is registered. -/
structure Sourced (failing : Workspace.Method → Prop) (told reached : Nat → String → Prop)
    (r : Reconciler) : Prop extends r.WellFormed where
  outages : r.outages.Only failing
  heard : ∀ {i v}, r.store.Has i v → v.loaded = true → told i v.framework.name
  arrived : ∀ {i v}, r.store.Has i v → v.loaded = true → v.registered = true →
    failing .addProject ∨ reached i v.framework.name
  barred : ∀ {i v}, r.store.Has i v → v.loaded = true → v.registered = false →
    failing .addProject ∨ r.workspace.projects.contains v.handle = true
  lasting : ∀ {i f}, reached i f → ∃ v, r.store.Has i v ∧ v.framework.name = f ∧ v.registered = true

/-- The same while a variant is updated, which is registered unless the workspace refused it. -/
structure Sourcing (failing : Workspace.Method → Prop) (told reached : Nat → String → Prop) (id : Nat)
    (h : Handle) (r : Reconciler) : Prop extends Sourced failing told reached r where
  owns : r.store.Owns id h
  refused : ∀ {v}, r.store.Has id v → v.handle = h → v.registered = false →
    failing .addProject ∨ r.workspace.projects.contains h = true

theorem Sourcing.updating (hr : Sourcing failing told reached id h r) : Updating id h r :=
  ⟨hr.toWellFormed, hr.owns⟩

theorem Sourced.stem (hr : Sourced failing told reached r) (hwf : r'.WellFormed)
    (hs : r.store.Stems r'.store) (hon : Onward failing r r') : Sourced failing told reached r' := by
  -- a loaded variant was there before, and was loaded then
  have hback : ∀ {i w}, r'.store.Has i w → w.loaded = true → ∃ v, r.store.Has i v ∧
      w.handle = v.handle ∧ w.framework.name = v.framework.name ∧ w.registered = v.registered ∧
      v.loaded = true := by
    intro i w hw hl
    rcases hs.back hw with ⟨v, hv, hh, hn, hreg, hloaded⟩ | ⟨hnot, -⟩
    · exact ⟨v, hv, hh, hn, hreg, hloaded ▸ hl⟩
    · rw [hl] at hnot
      cases hnot
  refine { hwf with outages := hon.1 hr.outages, heard := ?_, arrived := ?_, barred := ?_, lasting := ?_ }
  · intro i w hw hl
    obtain ⟨v, hv, -, hn, -, hloaded⟩ := hback hw hl
    rw [hn]
    exact hr.heard hv hloaded
  · intro i w hw hl hreg
    obtain ⟨v, hv, -, hn, hsame, hloaded⟩ := hback hw hl
    rw [hn]
    exact hr.arrived hv hloaded (hsame ▸ hreg)
  · intro i w hw hl hreg
    obtain ⟨v, hv, hh, -, hsame, hloaded⟩ := hback hw hl
    rw [hh]
    exact (hr.barred hv hloaded (hsame ▸ hreg)).imp_right (hon.2 v.handle)
  · intro i f hf
    obtain ⟨v, hv, hn, hreg⟩ := hr.lasting hf
    obtain ⟨w, hw, hwn, hwr⟩ := hs.forth hv hreg
    exact ⟨w, hw, hwn.trans hn, hwr⟩

theorem Sourcing.stem (hr : Sourcing failing told reached id h r) (hup : Updating id h r')
    (hs : r.store.Stems r'.store) (hon : Onward failing r r') : Sourcing failing told reached id h r' := by
  refine { hr.toSourced.stem hup.1 hs hon with owns := hup.2, refused := ?_ }
  intro w hw hwh hreg
  rcases hs.back hw with ⟨v, hv, hh, -, hsame, -⟩ | ⟨-, hnew⟩
  · exact (hr.refused hv (hh ▸ hwh) (hsame ▸ hreg)).imp_right (hon.2 h)
  · rw [hwh] at hnew
    exact absurd hr.owns hnew

theorem Sourced.congr {told' reached' : Nat → String → Prop} (hr : Sourced failing told reached r)
    (ht : ∀ {i f}, told i f → told' i f) (hreach : ∀ {i f}, reached i f ↔ reached' i f) :
    Sourced failing told' reached' r :=
  { hr with
    heard := fun hv hl => ht (hr.heard hv hl)
    arrived := fun hv hl hreg => (hr.arrived hv hl hreg).imp_right hreach.1
    lasting := fun hf => hr.lasting (hreach.2 hf) }

/-! ### Single changes -/

theorem Sourcing.dropEntry (hr : Sourcing failing told reached id h r) (hv : r.store.Has id v)
    (hh : v.handle = h) {slot : Slot} {key : String} {ref : Handle}
    (hkey : (slot.table v).get? key = some ref) :
    Sourcing failing told reached id h (dropEntry slot id h r (key, ref)) := by
  refine hr.stem ((entryUpdates_updating slot id h).drop hr.updating hv hh hkey) ?_
    (onward_carryOut failing r slot.removal id h (slot.removeCall h ref) (by cases slot <;> exact nofun))
  rw [dropEntry_store]
  exact stems_alters (alters_modify r.store h fun v => slot.update_handle _ v)
    fun _ _ => by simp

theorem Sourcing.addEntry (hr : Sourcing failing told reached id h r) (slot : Slot) (item : Slot.Item) :
    Sourcing failing told reached id h (addEntry slot id h r item) := by
  have hup := (entryUpdates_updating slot id h).add item hr.updating
  obtain ⟨v, hv, rfl⟩ := hr.owns
  have hoffered := onward_carryOut failing r.issued slot.addition id v.handle
    (slot.addCall v.handle ⟨r.nextHandle⟩ item) (by cases slot <;> exact nofun)
  rw [addEntry_eq hr.sound hv] at hup ⊢
  split
  · exact hr
  · rename_i hnew
    rw [if_neg hnew] at hup
    split
    · rename_i htaken
      rw [if_pos htaken] at hup
      refine hr.stem hup ?_ hoffered
      rw [modifyVariant_store, offered_store]
      exact stems_alters (alters_modify r.store v.handle fun v => slot.update_handle _ v)
        fun _ _ => by simp
    · rename_i hrefused
      rw [if_neg hrefused] at hup
      refine hr.stem hup ?_ hoffered
      rw [offered_store]
      exact Stems.of_has Iff.rfl

/-- A variant that is not registered after the attempt has been refused. -/
theorem register_cases (hs : r.store.Sound r.nextHandle) (ho : r.outages.Only failing)
    (hv : r.store.Has id v) (hreg : v.registered = false) :
    ((r.register id v.handle).store = r.store ∧
        (failing .addProject ∨ r.workspace.projects.contains v.handle = true)) ∨
      ((r.register id v.handle).store = r.store.modifyVariant v.handle Variant.settle ∧
        r.workspace.projects.contains v.handle = false) := by
  obtain ⟨p, hp, hmem⟩ := hv
  have hcall := r.attempt_untouched "adding project" id v.handle (addingCall p v)
  have hback := r.attempt_workspace "adding project" id v.handle (addingCall p v)
  obtain ⟨⟨r', taken⟩, ha⟩ : ∃ result, r.attempt "adding project" id v.handle (addingCall p v) = result :=
    ⟨_, rfl⟩
  cases taken with
  | false =>
      refine Or.inl ⟨?_, refused_cases ho (congrArg Prod.snd ha)⟩
      rw [ha] at hcall
      rw [register_of_refused hs hp hmem hreg ha]
      exact hcall.store
  | true =>
      rw [ha] at hcall hback
      have hstore : (r.register id v.handle).store = r.store.modifyVariant v.handle Variant.settle := by
        rw [register_of_taken hs hp hmem hreg ha, modifyVariant_store, carryOutAll_store,
          sendOptions_store, modifyVariant_store, hcall.store]
        exact modifyVariant_modifyVariant r.store v.handle _ fun _ => rfl
      refine Or.inr ⟨hstore, ?_⟩
      rcases hback with ⟨-, hw⟩ | ⟨hfalse, -⟩
      · rw [addingCall, Workspace.perform] at hw
        split at hw
        · cases hw
        · rename_i hnew
          exact Bool.eq_false_iff.2 hnew
      · cases hfalse

theorem Sourced.register (hr : Sourced failing told reached r) (hv : r.store.Has id v) :
    Sourcing failing told reached id v.handle (r.register id v.handle) := by
  have hup := wellFormed_maintained.register hr.toWellFormed hv
  have hon := (makes_register hr.sound hv).onward failing
  cases hreg : v.registered with
  | true =>
      rw [register_of_registered hr.sound hv hreg]
      refine { hr with owns := ⟨v, hv, rfl⟩, refused := fun {w} hw hwh hunreg => ?_ }
      rw [(hr.sound.handle_inj hw hv hwh).2, hreg] at hunreg
      cases hunreg
  | false =>
      rcases register_cases hr.sound hr.outages hv hreg with ⟨hstore, hcause⟩ | ⟨hstore, hnew⟩
      · refine { hr.stem hup.1 ?_ hon with owns := hup.2, refused := fun _ _ _ => hcause.imp_right (hon.2 _) }
        rw [hstore]
        exact Stems.of_has Iff.rfl
      · -- a loaded variant that the workspace takes was not barred, so that some are refused
        have hcause : v.loaded = true → failing .addProject := by
          intro hl
          refine (hr.barred hv hl hreg).resolve_right ?_
          rw [hnew]
          exact nofun
        have hback : ∀ {i w}, (r.register id v.handle).store.Has i w →
            (i = id ∧ w = v.settle) ∨ r.store.Has i w := by
          intro i w hw
          rw [hstore] at hw
          obtain ⟨u, hu, rfl⟩ := has_modifyVariant.1 hw
          by_cases hh : u.handle = v.handle
          · obtain ⟨rfl, rfl⟩ := hr.sound.handle_inj hu hv hh
            exact Or.inl ⟨rfl, changed_self⟩
          · rw [changed_of_ne hh]
            exact Or.inr hu
        refine { hup.1 with
          outages := hon.1 hr.outages, heard := ?_, arrived := ?_, barred := ?_, lasting := ?_,
          owns := hup.2, refused := ?_ }
        · intro i w hw hl
          rcases hback hw with ⟨rfl, rfl⟩ | hw
          · change told i v.framework.name
            exact hr.heard hv hl
          · exact hr.heard hw hl
        · intro i w hw hl hwr
          rcases hback hw with ⟨rfl, rfl⟩ | hw
          · exact Or.inl (hcause hl)
          · exact hr.arrived hw hl hwr
        · intro i w hw hl hwr
          rcases hback hw with ⟨rfl, rfl⟩ | hw
          · cases hwr
          · exact (hr.barred hw hl hwr).imp_right (hon.2 _)
        · intro i f hf
          obtain ⟨u, hu, hn, hur⟩ := hr.lasting hf
          have hne : u.handle ≠ v.handle := by
            intro hh
            rw [(hr.sound.handle_inj hu hv hh).2, hreg] at hur
            cases hur
          rw [hstore]
          exact ⟨u, has_modifyVariant.2 ⟨u, hu, (changed_of_ne hne).symm⟩, hn, hur⟩
        · intro w hw hwh hwr
          rw [hstore] at hw
          obtain rfl := eq_of_modified (f := Variant.settle) hr.sound hv (fun _ => rfl) hw hwh
          cases hwr

/-- A message that brings sources: the variant is loaded from now on. -/
theorem Sourcing.markLoaded {told' reached' : Nat → String → Prop}
    (hr : Sourcing failing told reached id h r) (ht : ∀ {i f}, told i f → told' i f)
    (hreach : ∀ {i f}, reached i f → reached' i f)
    (hlast : ∀ {i f}, reached' i f → reached i f ∨
      ∃ v, r.store.Has i v ∧ v.framework.name = f ∧ v.registered = true)
    (hself : ∀ {v}, r.store.Has id v → v.handle = h → told' id v.framework.name ∧
      (v.registered = true → reached' id v.framework.name)) :
    Sourced failing told' reached' (r.modifyVariant h fun v => { v with loaded := true }) := by
  have hup := wellFormed_maintained.markLoaded hr.updating
  have hback : ∀ {i w}, (r.modifyVariant h fun v => { v with loaded := true }).store.Has i w →
      (i = id ∧ ∃ v, r.store.Has id v ∧ v.handle = h ∧ w = { v with loaded := true }) ∨
        r.store.Has i w := by
    intro i w hw
    obtain ⟨u, hu, rfl⟩ := has_modifyVariant.1 hw
    by_cases hh : u.handle = h
    · obtain ⟨v, hv, hvh⟩ := hr.owns
      obtain ⟨rfl, rfl⟩ := hr.sound.handle_inj hu hv (hh.trans hvh.symm)
      exact Or.inl ⟨rfl, u, hu, hh, changed_of_eq hh⟩
    · rw [changed_of_ne hh]
      exact Or.inr hu
  refine { hup.1 with outages := hr.outages, heard := ?_, arrived := ?_, barred := ?_, lasting := ?_ }
  · intro i w hw hl
    rcases hback hw with ⟨rfl, v, hv, hh, rfl⟩ | hw
    · exact (hself hv hh).1
    · exact ht (hr.heard hw hl)
  · intro i w hw hl hreg
    rcases hback hw with ⟨rfl, v, hv, hh, rfl⟩ | hw
    · exact Or.inr ((hself hv hh).2 hreg)
    · exact (hr.arrived hw hl hreg).imp_right hreach
  · intro i w hw hl hreg
    rcases hback hw with ⟨rfl, v, hv, hh, rfl⟩ | hw
    · rw [hh]
      exact hr.refused hv hh hreg
    · exact hr.barred hw hl hreg
  · intro i f hf
    have hthere : ∃ v, r.store.Has i v ∧ v.framework.name = f ∧ v.registered = true :=
      (hlast hf).elim hr.lasting fun hv => hv
    obtain ⟨v, hv, hn, hreg⟩ := hthere
    refine ⟨changed h (fun v => { v with loaded := true }) v, has_modifyVariant.2 ⟨v, hv, rfl⟩, ?_⟩
    unfold changed
    split
    · exact ⟨hn, hreg⟩
    · exact ⟨hn, hreg⟩

/-- A variant that is torn down is not loaded any more. -/
theorem Sourced.teardown (hr : Sourced failing told reached r) (hv : r.store.Has id v)
    (hreg : v.registered = true) :
    Sourced failing (fun i f => told i f ∧ ¬(i = id ∧ f = v.framework.name))
      (fun i f => reached i f ∧ ¬(i = id ∧ f = v.framework.name)) (r.teardown id v.handle) := by
  have hwf := hr.toWellFormed.teardown hv hreg
  obtain ⟨p, hp, hmem⟩ := hv
  have hv : r.store.Has id v := ⟨p, hp, hmem⟩
  have hafter : (r.teardown id v.handle).outages = (r.afterTeardown id p v).outages ∧
      (r.teardown id v.handle).workspace = (r.afterTeardown id p v).workspace := by
    rcases teardown_effect hr.sound hr.linked hp hv hreg with he | ⟨he, -, -⟩ <;> rw [he] <;>
      exact ⟨rfl, rfl⟩
  have hkeep : ∀ k, k ≠ v.handle → r.workspace.projects.contains k = true →
      (r.teardown id v.handle).workspace.projects.contains k = true := by
    intro k hk hin
    rw [hafter.2]
    rcases carryOut_workspace
      { r with store := v.projectRefs.values.foldl (withdrawEdge p.path p v.handle) r.store }
      "removing project" id v.handle (.removeProject v.handle) with hw | hw
    · refine Workspace.contains_perform hw ?_ hin
      intro heq
      exact hk (Workspace.Call.removeProject.inj heq).symm
    · have hw : (r.afterTeardown id p v).workspace = r.workspace := hw
      rw [hw]
      exact hin
  have hback : ∀ {i w}, (r.teardown id v.handle).store.Has i w → w.loaded = true → ∃ u, r.store.Has i u ∧
      u.handle ≠ v.handle ∧ w.handle = u.handle ∧ w.framework.name = u.framework.name ∧
      w.registered = u.registered ∧ u.loaded = true := by
    intro i w hw hl
    obtain ⟨u, hu, hc⟩ := has_of_teardown hr.toWellFormed hv hreg hw
    have hw := Variant.eq_of_content hc
    by_cases hh : u.handle = v.handle
    · rw [hw, changed_of_eq hh] at hl
      cases hl
    · rw [changed_of_ne hh] at hw
      rw [hw] at hl
      exact ⟨u, hu, hh, by rw [hw], by rw [hw], by rw [hw], hl⟩
  have hother : ∀ {i u}, r.store.Has i u → u.handle ≠ v.handle →
      ¬(i = id ∧ u.framework.name = v.framework.name) := by
    intro i u hu hne ⟨hi, hn⟩
    subst hi
    exact hne (by rw [hr.sound.name_inj hu hv hn])
  refine { hwf with outages := ?_, heard := ?_, arrived := ?_, barred := ?_, lasting := ?_ }
  · rw [hafter.1]
    exact only_carryOut (r := { r with
      store := v.projectRefs.values.foldl (withdrawEdge p.path p v.handle) r.store }) hr.outages _ _ _ _
  · intro i w hw hl
    obtain ⟨u, hu, hne, -, hn, -, hloaded⟩ := hback hw hl
    rw [hn]
    exact ⟨hr.heard hu hloaded, hother hu hne⟩
  · intro i w hw hl hwr
    obtain ⟨u, hu, hne, -, hn, hsame, hloaded⟩ := hback hw hl
    rw [hn]
    exact (hr.arrived hu hloaded (hsame ▸ hwr)).imp_right fun h => ⟨h, hother hu hne⟩
  · intro i w hw hl hwr
    obtain ⟨u, hu, hne, hh, -, hsame, hloaded⟩ := hback hw hl
    rw [hh]
    exact (hr.barred hu hloaded (hsame ▸ hwr)).imp_right (hkeep _ hne)
  · intro i f ⟨hf, hnot⟩
    obtain ⟨u, hu, hn, hur⟩ := hr.lasting hf
    have hne : u.handle ≠ v.handle := by
      intro hh
      obtain ⟨rfl, rfl⟩ := hr.sound.handle_inj hu hv hh
      exact hnot ⟨rfl, hn.symm⟩
    obtain ⟨w, hw, hc⟩ := teardown_others hr.toWellFormed hv hreg hu hne
    rw [Variant.eq_of_content hc] at hw
    exact ⟨_, hw, hn, hur⟩

theorem sourced_kept (failing : Workspace.Method → Prop) (told reached : Nat → String → Prop) :
    Kept (Sourced failing told reached) (Sourcing failing told reached) where
  wellFormed hr := hr.toWellFormed
  quiet tally logs hr := hr.stem (wellFormed_maintained.quiet tally logs hr.toWellFormed)
    (Stems.of_has Iff.rfl) (Onward.refl failing _)
  track path hr := hr.stem (wellFormed_maintained.track path hr.toWellFormed)
    (Stems.of_has has_track) (Onward.refl failing _)
  visit order hr := hr.stem (wellFormed_maintained.visit order hr.toWellFormed)
    (Stems.of_has Iff.rfl) (Onward.refl failing _)
  describe id info hr := hr.stem (wellFormed_maintained.describe id info hr.toWellFormed)
    (Stems.of_has has_describeIn) (Onward.refl failing _)
  create hr hj hnew := hr.stem (wellFormed_maintained.create hr.toWellFormed hj hnew)
    (stems_addVariant hr.sound hj _) (Onward.refl failing _)
  relabel {r id v framework} hr hv hn := by
    refine hr.stem (wellFormed_maintained.relabel hr.toWellFormed hv hn) ?_ (Onward.refl failing _)
    refine stems_alters (alters_modify r.store v.handle (by intro; rfl)) fun {i w} hw hh => ?_
    rw [(hr.sound.handle_inj hw hv hh).2]
    exact ⟨rfl, hn.symm, rfl, rfl⟩
  register hr hv := hr.register hv
  done hr := hr.toSourced
  entries slot id h := {
    wellFormed := fun hr => hr.toWellFormed
    owns := fun hr => hr.owns
    drop := fun hr hv hh hkey => hr.dropEntry hv hh hkey
    add := fun item hr => hr.addEntry slot item }
  edges id h := {
    wellFormed := fun hr => hr.toWellFormed
    owns := fun hr => hr.owns
    dropProject := fun hr hv hh hedge => by
      refine hr.stem ((edgeUpdates_updating id h).dropProject hr.updating hv hh hedge) ?_
        ((makes_dropProject ..).onward failing)
      subst hh
      obtain ⟨ha, -, -⟩ := dropProject_effect hr.sound hr.linked hv hedge
      exact stems_alters ha fun _ _ => ⟨rfl, rfl, rfl, rfl⟩
    track := fun path hr => hr.stem ((edgeUpdates_updating id h).track path hr.updating)
      (Stems.of_has has_track) (Onward.refl failing _)
    create := fun hr hj hnew => hr.stem ((edgeUpdates_updating id h).create hr.updating hj hnew)
      (stems_addVariant hr.sound hj _) (Onward.refl failing _)
    link := fun hr hq hv hh hnew hu hj => by
      refine hr.stem ((edgeUpdates_updating id h).link hr.updating hq hv hh hnew hu hj) ?_
        ((makes_link ..).onward failing)
      subst hh
      obtain ⟨ha, -, -⟩ := link_effect hr.sound hr.linked hq hv hu hj hnew
      exact stems_alters ha fun _ _ => ⟨rfl, rfl, rfl, rfl⟩ }
  setOptions {r id h} options hr := by
    refine hr.stem (wellFormed_maintained.setOptions options hr.updating) ?_
      ((makes_setOptions ..).onward failing)
    rw [setOptions_store]
    exact stems_alters (f := withOptions options) (alters_modify r.store h fun _ => rfl)
      fun _ _ => ⟨rfl, rfl, rfl, rfl⟩

/-! ### A message about a project -/

/-- What is known of the variants apart from some of one project. -/
def spared (known : Nat → String → Prop) (id : Nat) (names : List String) (i : Nat) (f : String) : Prop :=
  known i f ∧ ¬(i = id ∧ f ∈ names)

theorem spared_append {known : Nat → String → Prop} {names : List String} {name : String} {i : Nat}
    {f : String} : spared known id names i f ∧ ¬(i = id ∧ f = name) ↔
      spared known id (names ++ [name]) i f := by
  unfold spared
  rw [and_assoc, ← not_or, ← and_or_left, List.mem_append, List.mem_singleton]

theorem spared_nil {known : Nat → String → Prop} {i : Nat} {f : String} :
    known i f ↔ spared known id [] i f := by
  simp [spared]

theorem spared_congr {known : Nat → String → Prop} {names names' : List String}
    (h : ∀ f, f ∈ names ↔ f ∈ names') {i : Nat} {f : String} : spared known id names i f ↔ spared known id names' i f := by
  rw [spared, spared, h]

/-- Nothing is said any more of the variants that the message leaves out. -/
theorem Sourced.applyProjectInformation (hr : Sourced failing told reached r) {p : Project}
    (hp : r.store.project? id = some p) (info : ProjectInformation) :
    let gone := (omitted (describe info p) (info.frameworks.getD [])).map (nameOf r.store)
    Sourced failing (spared told id gone) (spared reached id gone) (r.applyProjectInformation id info) := by
  intro gone
  have hr₁ := (sourced_kept failing told reached).describe id info hr
  have hid₁ : (describeIn r.store id info).path? id = some p.path := by
    rw [path?_describeIn, path?, hp, Option.map_some]
  have hsame : ∀ f, f ∈ (r.visiting.order (omitted (describe info p) (info.frameworks.getD []))).map
      (nameOf r.store) ↔ f ∈ gone := fun _ => ((r.visiting.perm _).map _).mem_iff
  rw [applyProjectInformation_eq hp]
  obtain ⟨⟨hr₂, hid₂, -⟩, -⟩ := dismantled_keeps
    (Q := fun done r' => Sourced failing (spared told id (done.map (nameOf r.store)))
        (spared reached id (done.map (nameOf r.store))) r' ∧ r'.store.path? id = some p.path ∧
      ∀ {v}, r'.store.Has id v → nameOf r.store v.handle = v.framework.name)
    (fun hq => hq.1.toWellFormed)
    (fun {done r' v} hq hv hreg => by
      obtain ⟨hr', hid, hnames⟩ := hq
      refine ⟨?_, (path?_teardown hr'.toWellFormed hv hreg id).trans hid,
        fun hw => nameOf_teardown hr'.toWellFormed hv hreg hnames hw⟩
      rw [List.map_append, List.map_singleton, hnames hv]
      exact (hr'.teardown hv hreg).congr spared_append.1 spared_append)
    hp (r.visiting.perm _)
    ⟨hr₁.congr spared_nil.1 spared_nil, hid₁, fun hv => nameOf_eq hr.sound (has_describeIn.1 hv)⟩
  have hlist := List.foldlRecOn (info.frameworks.getD []) (listFramework id)
    (motive := fun r' => Sourced failing (spared told id gone) (spared reached id gone) r' ∧
      r'.store.path? id = some p.path) ⟨hr₂.congr (spared_congr hsame).1 (spared_congr hsame), hid₂⟩
    fun r' hr' f _ => (sourced_kept failing _ _).listFramework hr'.1 hr'.2 f
  exact hlist.1

end Reconciler

end Graph

end CompilationBridge
