import CompilationBridge.Proofs.Graph.Lockstep
import CompilationBridge.Proofs.Graph.Replay

/-! Recovery from outages. While only calls fail that are made anew, the workspace mirrors the graph apart
from options: the graph records an entry only once the workspace has it. When the outages are over, the
reconciler and its twin run in step, so each message sent again brings its part of a variant to what it
says; and a message with options sets them, whatever they were. -/

namespace CompilationBridge.Graph.Reconciler

open Store

variable {r r' : Reconciler} {id : Nat} {h : Handle} {v : Variant} {stale : Handle → Prop}

/-! ### While calls fail -/

/-- The workspace mirrors the graph apart from options, and only calls may fail that are made anew. -/
def Repairable (r : Reconciler) : Prop :=
  ∃ r', r'.Mirrored ∧ Twin (fun m => m.isRetried = true) (fun _ => True) r r'

/-- The same while one registered variant is updated. -/
def Repairing (id : Nat) (h : Handle) (r : Reconciler) : Prop :=
  ∃ r', Mirroring id h r' ∧ Twin (fun m => m.isRetried = true) (fun _ => True) r r'

theorem Mirroring.issued (hr : Mirroring id h r) : Mirroring id h r.issued := by
  obtain ⟨hr, hreg⟩ := hr
  have hle : r.nextHandle ≤ r.issued.nextHandle := Nat.le_succ _
  have hm : Mirror r.store r.issued.nextHandle r.workspace :=
    { hr.mirror with distinct := fun hv => (hr.mirror.distinct hv).mono hle }
  exact ⟨hr.serve ⟨hr.sound.mono hle, hr.linked⟩ ⟨rfl, fun _ hc => Or.inl hc⟩ hm, hreg⟩

theorem repairable_maintained : Maintained Repairable Repairing where
  wellFormed := by
    rintro r ⟨r', hr, ht⟩
    exact hr.toWellFormed.of_eq ht.store.symm ht.nextHandle.symm
  quiet := by
    rintro r tally logs ⟨r', hr, ht⟩
    exact ⟨r', hr, ht.of_eq ⟨⟨ht.nextHandle, ht.sourceExtension, ht.visiting⟩, ht.store⟩ rfl rfl rfl rfl⟩
  track := by
    rintro r path ⟨r', hr, ht⟩
    exact ⟨_, hr.track path, ht.withStore fun s => (s.track path).1⟩
  visit := by
    rintro r order ⟨r', hr, ht⟩
    exact ⟨_, mirrored_maintained.visit order hr, ht.visit order⟩
  describe := by
    rintro r id info ⟨r', hr, ht⟩
    exact ⟨_, mirrored_maintained.describe id info hr, ht.withStore (describeIn · id info)⟩
  create := by
    rintro r j q framework ⟨r', hr, ht⟩ hj hnew
    rw [← ht.store] at hj hnew
    exact ⟨_, hr.create hj hnew, ht.created j framework⟩
  relabel := by
    rintro r id v framework ⟨r', hr, ht⟩ hv hn
    rw [← ht.store] at hv
    exact ⟨_, hr.relabel hv hn, ht.modifyVariant ..⟩
  teardown := by
    rintro r id v ⟨r', hr, ht⟩ hv hreg
    rw [← ht.store] at hv
    exact ⟨_, hr.teardown hv hreg, ht.teardown ..⟩
  register := by
    rintro r id v ⟨r', hr, ht⟩ hv
    rw [← ht.store] at hv
    exact ⟨_, hr.register hv, ht.register ..⟩
  done := by
    rintro r id h ⟨r', hr, ht⟩
    exact ⟨r', hr.1, ht⟩
  entries slot id h := {
    wellFormed := by
      rintro r ⟨r', hr, ht⟩
      exact hr.1.toWellFormed.of_eq ht.store.symm ht.nextHandle.symm
    owns := by
      rintro r ⟨r', hr, ht⟩
      rw [← ht.store]
      exact hr.2.imp fun _ hv => ⟨hv.1, hv.2.1⟩
    drop := by
      rintro r v key ref ⟨r', hr, ht⟩ hv hh hkey
      rw [← ht.store] at hv
      exact ⟨_, hr.dropEntry hv hh hkey, ht.dropEntry ..⟩
    add := by
      rintro r item ⟨r', hr, ht⟩
      rcases ht.addEntry slot id h item with ht₁ | ⟨-, ht₁⟩
      · exact ⟨_, hr.addEntry slot item, ht₁⟩
      · exact ⟨_, hr.issued, ht₁⟩ }
  edges id h := {
    wellFormed := by
      rintro r ⟨r', hr, ht⟩
      exact hr.1.toWellFormed.of_eq ht.store.symm ht.nextHandle.symm
    owns := by
      rintro r ⟨r', hr, ht⟩
      rw [← ht.store]
      exact hr.2.imp fun _ hv => ⟨hv.1, hv.2.1⟩
    dropProject := by
      rintro r v path target ⟨r', hr, ht⟩ hv hh hedge
      rw [← ht.store] at hv
      exact ⟨_, hr.dropProject hv hh hedge, ht.dropProject ..⟩
    track := by
      rintro r path ⟨r', hr, ht⟩
      exact ⟨_, (mirrored_maintained.edges id h).track path hr, ht.withStore fun s => (s.track path).1⟩
    create := by
      rintro r j q framework ⟨r', hr, ht⟩ hj hnew
      rw [← ht.store] at hj hnew
      exact ⟨_, (mirrored_maintained.edges id h).create hr hj hnew, ht.created j framework⟩
    link := by
      rintro r p v j u path ⟨r', hr, ht⟩ hq hv hh hnew hu hj
      rw [← ht.store] at hq hv hu hj
      exact ⟨_, hr.link hq hv hh hnew hu hj, ht.link ..⟩ }
  setOptions := by
    rintro r id h options ⟨r', hr, ht⟩
    exact ⟨_, hr.setOptions options, ht.setOptions ..⟩
  markLoaded := by
    rintro r id h ⟨r', hr, ht⟩
    exact ⟨_, hr.markLoaded, ht.modifyVariant ..⟩

/-- When the outages are over. -/
def recovered (r : Reconciler) : Reconciler :=
  { r with outages := {} }

/-- While only calls fail that are made anew, a reconciler has a twin in a workspace that mirrors the graph,
and once the outages are over the two differ in options at most. -/
theorem recovered_run (extension : String) {outages : Outages Workspace.Method}
    (ho : outages.Only fun m => m.isRetried = true) (steps : List Step) :
    ∃ r', r'.Mirrored ∧
      Twin (fun _ => False) (fun _ => True) ((facing extension outages).run steps).recovered r' := by
  have hstart : (facing extension outages).Repairable := by
    refine ⟨new extension, mirrored_new extension, ?_⟩
    exact {
      nextHandle := rfl
      sourceExtension := rfl
      visiting := rfl
      store := rfl
      workspace := .refl _ _
      outages := ho
      calm := rfl
      retried := fun hm => hm
      outdated := fun _ _ => trivial }
  obtain ⟨r', hr', ht⟩ := repairable_maintained.run hstart steps
  refine ⟨r', hr', ?_⟩
  exact { ht with
    outages := Outages.only_empty _
    retried := fun hm => hm.elim
    outdated := fun hm => hm.elim }

/-! ### Options that have been sent again -/

/-- Where options have been sent, those of the workspace are not stale. -/
def current (stale : Handle → Prop) (latest : Nat → String → Latest) (i : Nat) (v : Variant) : Prop :=
  (latest i v.framework.name).options ≠ none → ¬stale v.handle

theorem expectations_current (stale : Handle → Prop) : Expectations (current stale) where
  expectation latest := {
    content := fun hc hv => by
      rw [current, Variant.framework_of_content hc, Variant.handle_of_content hc]
      exact hv
    fresh := fun {i framework h} hnone hsome => by
      have hnone : latest i framework.name = {} := hnone
      exact absurd (congrArg Latest.options hnone) hsome
    settle := fun hv => hv
    relabel := fun hn hv => by
      rw [current, hn] at hv
      exact hv }
  congr hsame hv := by
    rw [current, hsame]
    exact hv
  idle hnone _ hsome := absurd (congrArg Latest.options hnone) hsome

/-- A reconciler and its twin after some messages, with the options that have been sent the same. -/
structure Realigned (past : List Delivery) (stale : Handle → Prop) (r r' : Reconciler) : Prop where
  twin : Twin (fun _ => False) stale r r'
  mirrored : r'.Mirrored
  records : Records (current stale (latestOf past)) (unmentioned (latestOf past)) r'.store

section

variable {latest : Nat → String → Latest} {q : String}

/-- A message that is not about options: the variant that it is about is followed from its registration on,
and what was known of its options stays known. -/
theorem Following.keepCurrent {name : String} {l : Latest}
    (hr : Following id h name (current stale latest id) (current stale latest) (unmentioned latest) r)
    (hl : l.options = (latest id name).options) :
    Records (current stale (revise latest id name l)) (unmentioned (revise latest id name l)) r.store := by
  refine hr.done (fun hn hv => ?_) (fun hself hv => ?_) fun hself hnone => ?_
  · rw [current, hn] at hv
    rw [current, revise, if_pos ⟨rfl, hn⟩, hl]
    exact hv
  · rw [current, revise, if_neg hself]
    exact hv
  · rw [unmentioned, revise, if_neg hself]
    exact hnone

theorem follow_current (hm : r.Mirrored) (hr : Records (current stale latest) (unmentioned latest) r.store)
    (hid : r.store.path? id = some q) (framework : Framework) :
    Following id (r.ownVariant id framework).2 framework.name (current stale latest id)
      (current stale latest) (unmentioned latest) (r.ownVariant id framework).1 :=
  follow_ownVariant ((expectations_current stale).expectation latest) hm hr hid framework fun _ hv => hv

theorem current_entries (slot : Slot) {name : String} :
    EntryUpdates slot id h
      (Following id h name (current stale latest id) (current stale latest) (unmentioned latest)) := by
  have he := (expectations_current stale).expectation latest
  refine following_entries slot he he.content fun f v hv => ?_
  rw [current, slot.update_framework, slot.update_handle]
  exact hv

theorem current_references (hm : r.Mirrored)
    (hr : Records (current stale latest) (unmentioned latest) r.store) (hid : r.store.path? id = some q)
    (refs : References) :
    let after := revise latest id refs.framework.name
      { latest id refs.framework.name with references := some refs }
    Records (current stale after) (unmentioned after) (r.applyReferences id refs).1.store := by
  have he := (expectations_current stale).expectation latest
  have hedges : EdgeUpdates id (r.ownVariant id refs.framework).2 (Following id
      (r.ownVariant id refs.framework).2 refs.framework.name (current stale latest id)
      (current stale latest) (unmentioned latest)) :=
    following_edges he he.content fun _ _ hv => hv
  exact (setReferences_keeps (current_entries .file) (current_entries .raw) hedges
    (follow_current hm hr hid refs.framework) refs).keepCurrent rfl

theorem current_sources (hm : r.Mirrored)
    (hr : Records (current stale latest) (unmentioned latest) r.store) (hid : r.store.path? id = some q)
    (sources : Sources) :
    let after := revise latest id sources.framework.name
      { latest id sources.framework.name with sources := some sources }
    Records (current stale after) (unmentioned after) (r.applySources id sources).store := by
  have he := (expectations_current stale).expectation latest
  have hkeep : ∀ v : Variant, { v with loaded := true }.handle = v.handle := fun _ => rfl
  refine (setSources_keeps (current_entries .document) (fun hr => ?_)
    (follow_current hm hr hid sources.framework) sources).keepCurrent rfl
  exact hr.alter he he.content hr.mirroring.markLoaded (alters_modify _ _ hkeep)
    (fun _ => ⟨rfl, rfl, rfl⟩) fun _ _ hv => hv

/-- A message about options makes those of its variant current. -/
theorem current_compilerOptions (hm : r.Mirrored)
    (hr : Records (current stale latest) (unmentioned latest) r.store) (hid : r.store.path? id = some q)
    (options : CompilerOptions) :
    let after := revise latest id options.framework.name
      { latest id options.framework.name with options := some options }
    let stale' := fun k => stale k ∧ k ≠ (r.ownVariant id options.framework).2
    Records (current stale' after) (unmentioned after) (r.applyCompilerOptions id options).store := by
  intro after stale'
  have he := (expectations_current stale).expectation latest
  have hr₀ : Following id (r.ownVariant id options.framework).2 options.framework.name (fun _ => True)
      (current stale latest) (unmentioned latest) (r.ownVariant id options.framework).1 :=
    follow_ownVariant he hm hr hid options.framework fun _ _ => trivial
  have ha : Alters (r.ownVariant id options.framework).1.store (r.applyCompilerOptions id options).store
      (r.ownVariant id options.framework).2 (withOptions options) := by
    change Alters _ (setOptions id (r.ownVariant id options.framework).2
      (r.ownVariant id options.framework).1 options).store _ _
    rw [setOptions_store]
    exact alters_modify _ _ fun _ => rfl
  have hr₁ : Following id (r.ownVariant id options.framework).2 options.framework.name
      (fun w => w.handle = (r.ownVariant id options.framework).2) (current stale latest) (unmentioned latest)
      (r.applyCompilerOptions id options) :=
    hr₀.alter he (fun hc hv => (Variant.handle_of_content hc).trans hv) (hr₀.mirroring.setOptions options) ha
      (fun _ => ⟨rfl, rfl, rfl⟩) fun _ hh _ => hh
  refine hr₁.done (fun hn hv _ hstale => hstale.2 hv) (fun hself hv hsome hstale => ?_) fun hself hnone => ?_
  · rw [show after _ _ = _ from if_neg hself] at hsome
    exact hv hsome hstale.1
  · rw [unmentioned, show after _ _ = _ from if_neg hself]
    exact hnone

end

section

variable {past : List Delivery}

/-- The options of the variant that a message is about are the same on both sides afterwards. -/
theorem Twin.applyOptions (ht : Twin (fun _ => False) stale r r') (hm : r'.Mirrored) {q : String}
    (hid : r'.store.path? id = some q) (options : CompilerOptions) :
    Twin (fun _ => False) (fun k => stale k ∧ k ≠ (r'.ownVariant id options.framework).2)
      (r.applyCompilerOptions id options) (r'.applyCompilerOptions id options) := by
  obtain ⟨ht₁, hh⟩ := ht.ownVariant id options.framework
  obtain ⟨hm₁, v, hv, hvh, hreg⟩ := mirrored_maintained.ownVariant hm hid options.framework
  have hs := hm₁.sound
  rw [ht₁.store, ht₁.nextHandle] at hs
  rw [ht₁.store] at hv
  have ht₂ := ht₁.refresh hs hv hreg options
  rw [hvh] at ht₂
  rw [applyCompilerOptions_eq, applyCompilerOptions_eq, ← hh]
  exact ht₂

theorem Realigned.payload (hr : Realigned past stale r r') {p : Project}
    (hp : r'.store.project? id = some p) {path : String} (payload : Payload) :
    ∃ stale', Realigned (past ++ [⟨r'.store, id, payload⟩]) stale' (r.applyPayload ⟨id, path⟩ payload).1
      (r'.applyPayload ⟨id, path⟩ payload).1 := by
  obtain ⟨ht, hm, hrec⟩ := hr
  have hid : r'.store.path? id = some p.path := by rw [path?, hp, Option.map_some]
  have ht₁ := ht.applyPayload ⟨id, path⟩ payload
  have hm₁ : (r'.applyPayload ⟨id, path⟩ payload).1.Mirrored :=
    mirrored_maintained.applyPayload hm hid payload
  cases payload with
  | projectInformation info =>
      refine ⟨stale, ht₁, hm₁, ?_⟩
      rw [latestOf_projectInformation hm.sound hp rfl]
      exact records_projectInformation (expectations_current stale) hm hrec hp info
  | references refs =>
      refine ⟨stale, ht₁, hm₁, ?_⟩
      rw [latestOf_references rfl]
      exact current_references hm hrec hid refs
  | dependencies deps =>
      refine ⟨stale, ht₁, hm₁, ?_⟩
      rw [latestOf_other (fun _ _ => rfl) (fun _ _ => rfl) (fun _ _ => rfl) fun _ _ => rfl]
      exact records_dependencies (expectations_current stale) hm hrec hid deps.framework
  | compilerOptions options =>
      rw [applyPayload_compilerOptions] at hm₁
      rw [applyPayload_compilerOptions, applyPayload_compilerOptions]
      refine ⟨_, ht.applyOptions hm hid options, hm₁, ?_⟩
      rw [latestOf_options rfl]
      exact current_compilerOptions hm hrec hid options
  | sources sources =>
      refine ⟨stale, ht₁, hm₁, ?_⟩
      rw [latestOf_sources rfl]
      exact current_sources hm hrec hid sources
  | hostError e =>
      refine ⟨stale, ht₁, hm₁, ?_⟩
      rw [latestOf_other (fun _ _ => rfl) (fun _ _ => rfl) (fun _ _ => rfl) fun _ _ => rfl]
      exact hrec
  | unknown type raw =>
      refine ⟨stale, ht₁, hm₁, ?_⟩
      rw [latestOf_other (fun _ _ => rfl) (fun _ _ => rfl) (fun _ _ => rfl) fun _ _ => rfl]
      exact hrec

theorem Realigned.step (hr : Realigned past stale r r') (s : Step) :
    ∃ stale', Realigned (past ++ (s.delivery? r).toList) stale' (r.step s) (r'.step s) := by
  cases s with
  | track path =>
      rw [Step.delivery?, Option.toList_none, List.append_nil]
      exact ⟨stale, hr.twin.track path, hr.mirrored.track path, hr.records.of_has has_track⟩
  | visit order =>
      rw [Step.delivery?, Option.toList_none, List.append_nil]
      exact ⟨stale, hr.twin.visit order, mirrored_maintained.visit order hr.mirrored, hr.records⟩
  | apply m =>
      have hsame := hr.twin.delivery? m
      cases hd : r.delivery? m with
      | none =>
          obtain ⟨tally, logs, heq⟩ := apply_of_dropped (hsame.trans hd)
          rw [Step.delivery?, hd, Option.toList_none, List.append_nil]
          refine ⟨stale, hr.twin.apply m, mirrored_maintained.apply hr.mirrored m, ?_⟩
          rw [Reconciler.step, heq]
          exact hr.records
      | some d =>
          obtain ⟨-, p', hp', heq'⟩ := apply_of_delivered hd
          obtain ⟨hbefore, p, hp, heq⟩ := apply_of_delivered (hsame.trans hd)
          rw [hr.twin.store, hp'] at hp
          obtain rfl := Option.some.inj hp
          rw [Step.delivery?, hd, Option.toList_some, Reconciler.step, Reconciler.step, heq, heq']
          obtain ⟨before, id, payload⟩ := d
          obtain rfl : before = r'.store := hbefore
          have hcount : Realigned past stale (r.countMessage m.type) (r'.countMessage m.type) :=
            ⟨hr.twin.quiet .., mirrored_maintained.quiet _ r'.logs hr.mirrored, hr.records⟩
          exact hcount.payload ((congrArg (·.project? id) hr.twin.store).trans hp') payload

/-- **Re-alignment.** From the end of the outages on, a reconciler and its twin stay in step, and the options
of the variants for which some have been sent since are the same. -/
theorem realigned_run (ht : Twin (fun _ => False) stale r r') (hm : r'.Mirrored) (steps : List Step) :
    ∃ stale', Realigned (r.history steps) stale' (r.run steps) (r'.run steps) := by
  induction steps using List.reverseRecOn with
  | nil => exact ⟨stale, ht, hm, fun _ hsome => absurd rfl hsome, fun _ _ _ => rfl⟩
  | append_singleton steps s ih =>
      obtain ⟨stale', hr⟩ := ih
      rw [history_append, run_append, run_append]
      exact hr.step s

theorem Twin.history (ht : Twin (fun _ => False) stale r r') (steps : List Step) :
    r'.history steps = r.history steps := by
  induction steps generalizing r r' with
  | nil => rfl
  | cons s rest ih =>
      have hsame : s.delivery? r' = s.delivery? r := by
        cases s with
        | track path => rfl
        | visit order => rfl
        | apply m => exact ht.delivery? m
      rw [Reconciler.history, Reconciler.history, hsame, ih (ht.step s)]

end

/-! ### Variants that have been sent again -/

/-- The parts of a variant that some latest message is about. -/
def told (l : Latest) : Part → Prop
  | .entries .file | .entries .raw | .projects => l.references ≠ none
  | .options => l.options ≠ none
  | .entries .document | .loaded => l.sources ≠ none

theorem informative_told : Informative told where
  references {l refs part} hpart hother := by
    obtain ⟨hfile, hraw, hprojects⟩ := hother
    rcases part with (_ | _ | _) | _ | _ | _ <;> first | exact hpart | contradiction
  options {l options part} hpart hother := by
    rcases part with (_ | _ | _) | _ | _ | _ <;> first | exact hpart | contradiction
  sources {l sources part} hpart hother := by
    obtain ⟨hdocument, hloaded⟩ := hother
    rcases part with (_ | _ | _) | _ | _ | _ <;> first | exact hpart | contradiction

/-- Before the first message nothing is told. -/
theorem records_untold (ending : String) (s : Store) :
    Records (expected told ending (latestOf [])) (unmentioned (latestOf [])) s := by
  refine ⟨fun {i v} _ part hpart => ?_, fun _ _ _ => rfl⟩
  rcases part with (_ | _ | _) | _ | _ | _ <;> exact absurd rfl hpart

/-- **Recovery.** While only calls fail that are made anew, and after the end of the outages, the projects of
the workspace are the registered variants; and a variant for which references, options and sources have
been sent since the end of the outages is registered, has recorded what they say and is shown so. -/
theorem resent_shown (extension : String) {outages : Outages Workspace.Method}
    (ho : outages.Only fun m => m.isRetried = true) (steps resent : List Step) :
    let r := ((facing extension outages).run steps).recovered
    let after := r.run resent
    after.WellFormed ∧ (∀ h, after.workspace.projects.contains h = true ↔ after.store.Live h) ∧
    ∀ {i f refs options sources}, latestOf (r.history resent) i f = ⟨some refs, some options, some sources⟩ →
      ∃ v e, after.store.Has i v ∧ v.framework.name = f ∧ v.registered = true ∧
        after.workspace.projects.get? v.handle = some e ∧ Shows after.store.Live v e ∧
        Reflects (Text.lower extension) ⟨some refs, some options, some sources⟩ (fun _ => True) v := by
  intro r after
  obtain ⟨r', hm, ht⟩ := recovered_run extension ho steps
  obtain ⟨stale, ht₁, hm₁, hcurrent⟩ := realigned_run ht hm resent
  have hext : r'.sourceExtension = Text.lower extension :=
    ht.sourceExtension.trans (sourceExtension_run extension outages steps)
  have htold := records_steps informative_told hm hext (records_untold _ _) resent
  simp only [List.nil_append, ht.history resent] at htold
  have hstore : (r'.run resent).store = after.store := ht₁.store
  refine ⟨hm₁.toWellFormed.of_eq ht₁.store.symm ht₁.nextHandle.symm, fun h => ?_,
    fun {i f _ _ _} hlatest => ?_⟩
  · rw [← ht₁.workspace.contains, ← hstore, Table.contains_iff]
    constructor
    · rintro ⟨e, he⟩
      exact hm₁.mirror.live he
    · rintro ⟨i, v, hv, rfl, hreg⟩
      exact (hm₁.mirror.shown hv hreg).imp fun _ he => he.1
  · have hthere : ∃ v, (r'.run resent).store.Has i v ∧ v.framework.name = f ∧ v.registered = true := by
      by_contra hno
      have hnone : latestOf (r.history resent) i f = {} := hcurrent.quiet i f fun {v} hv hn => by
        rw [← Bool.not_eq_true]
        exact fun hreg => hno ⟨v, hv, hn, hreg⟩
      rw [hlatest] at hnone
      cases hnone
    obtain ⟨v, hv, hn, hreg⟩ := hthere
    obtain ⟨e, he, hshows⟩ := hm₁.mirror.shown hv hreg
    have hfresh : ¬stale v.handle := by
      apply hcurrent.variant hv
      rw [hn, hlatest]
      intro h
      cases h
    have hreflects := htold.variant hv
    rw [expected, hn, hlatest] at hreflects
    rw [ht₁.workspace.fresh v.handle hfresh] at he
    rw [hstore] at hv hshows
    refine ⟨v, e, hv, hn, hreg, he, hshows, fun part _ => hreflects part ?_⟩
    rcases part with (_ | _ | _) | _ | _ | _ <;> intro h <;> cases h

end CompilationBridge.Graph.Reconciler
