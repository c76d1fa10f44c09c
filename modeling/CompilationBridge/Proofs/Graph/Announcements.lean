import CompilationBridge.Proofs.Graph.Loading

/-! When a project is announced as loaded. The reports of a run list its messages, each with the graph that
it met and the one that it left. The sources of a variant have been told if a report since its last
teardown brings them; they have reached it if it was registered when they were applied. A variant that is
registered stays so until its teardown, so the latest report that brings its sources decides. -/

namespace CompilationBridge.Graph.Reconciler

open Store

/-! ### Reports -/

/-- A message for a tracked project, with the graph that it left. -/
structure Report where
  delivery : Delivery
  after : Store
deriving DecidableEq

namespace Report

/-- The message brings the sources of a variant. -/
def tells (x : Report) (i : Nat) (f : String) : Bool :=
  (x.delivery.sources? i f).isSome

/-- The message brings the sources of a variant that is registered when they are applied. -/
def reaches (x : Report) (i : Nat) (f : String) : Bool :=
  x.tells i f && ((x.after.project? i).bind (·.variant? f)).any (·.registered)

theorem reaches_iff {x : Report} {next : Nat} (hs : x.after.Sound next) {i : Nat} {f : String} :
    x.reaches i f = true ↔ x.tells i f = true ∧
      ∃ w, x.after.Has i w ∧ w.framework.name = f ∧ w.registered = true := by
  rw [reaches, Bool.and_eq_true]
  exact and_congr_right fun _ => any_registered_iff hs

end Report

/-- The messages that a run applies, in order, each with the graph that it left. -/
def reports (r : Reconciler) : List Step → List Report
  | [] => []
  | s :: rest => ((s.delivery? r).map fun d => ⟨d, (r.step s).store⟩).toList ++ (r.step s).reports rest

theorem reports_append (r : Reconciler) (steps : List Step) (s : Step) :
    r.reports (steps ++ [s]) = r.reports steps ++
      ((s.delivery? (r.run steps)).map fun d => ⟨d, ((r.run steps).step s).store⟩).toList := by
  induction steps generalizing r with
  | nil =>
      rw [List.nil_append, reports, reports]
      exact List.append_nil _
  | cons first rest ih =>
      rw [List.cons_append, reports, ih, reports, List.append_assoc]
      rfl

/-- A report since the last teardown of a variant is of some kind. -/
def since (kind : Report → Nat → String → Bool) (past : List Report) (i : Nat) (f : String) : Bool :=
  (past.rtakeWhile fun x => !x.delivery.closes i f).any (kind · i f)

theorem since_append (kind : Report → Nat → String → Bool) (past : List Report) (x : Report) (i : Nat)
    (f : String) : since kind (past ++ [x]) i f =
      (!x.delivery.closes i f && (since kind past i f || kind x i f)) := by
  cases hc : x.delivery.closes i f with
  | true => simp [since, hc]
  | false => simp [since, hc]

/-- The sources of a variant have been told since its last teardown. -/
def SourcesTold (past : List Report) (i : Nat) (f : String) : Prop :=
  since Report.tells past i f = true

/-- The sources of a variant have come while it was registered, since its last teardown. -/
def SourcesReached (past : List Report) (i : Nat) (f : String) : Prop :=
  since Report.reaches past i f = true

instance (past : List Report) (i : Nat) (f : String) : Decidable (SourcesTold past i f) :=
  inferInstanceAs (Decidable (_ = true))

instance (past : List Report) (i : Nat) (f : String) : Decidable (SourcesReached past i f) :=
  inferInstanceAs (Decidable (_ = true))

section

variable {kind : Report → Nat → String → Bool} {past : List Report} {x : Report} {i : Nat} {f : String}

theorem since_of_past (hc : x.delivery.closes i f = false) (h : since kind past i f = true) :
    since kind (past ++ [x]) i f = true := by
  rw [since_append, hc, h]
  rfl

theorem since_of_last (hc : x.delivery.closes i f = false) (h : kind x i f = true) :
    since kind (past ++ [x]) i f = true := by
  rw [since_append, hc, h, Bool.or_true]
  rfl

/-- A message of another kind, which closes nothing. -/
theorem since_of_other (hc : x.delivery.closes i f = false) (hk : kind x i f = false) :
    since kind past i f = true ↔ since kind (past ++ [x]) i f = true := by
  rw [since_append, hc, hk, Bool.or_false]
  rfl

/-- A message about a project closes what it leaves out, and nothing else. -/
theorem since_iff_spared (x : Report) {next : Nat} (hs : x.delivery.before.Sound next) {p : Project}
    (hp : x.delivery.before.project? x.delivery.id = some p) {info : ProjectInformation}
    (hd : x.delivery.payload = .projectInformation info) (hk : kind x i f = false) :
    spared (fun i f => since kind past i f = true) x.delivery.id
        ((omitted (describe info p) (info.frameworks.getD [])).map (nameOf x.delivery.before)) i f ↔
      since kind (past ++ [x]) i f = true := by
  have hclose : x.delivery.closes i f = false ↔ ¬(i = x.delivery.id ∧
      f ∈ (omitted (describe info p) (info.frameworks.getD [])).map (nameOf x.delivery.before)) := by
    rw [← Bool.not_eq_true, not_iff_not]
    by_cases hi : i = x.delivery.id
    · rw [hi, closes_iff hs hp hd, and_iff_right rfl]
    · have hother : x.delivery.closes i f = false := by
        simp [Delivery.closes, hd, Ne.symm hi]
      simp [hother, hi]
  rw [spared, ← hclose, since_append, hk, Bool.or_false, Bool.and_eq_true, Bool.not_eq_true', and_comm]

end

/-- The latest report since the last teardown of a variant that brings its sources. -/
def lastTold (past : List Report) (i : Nat) (f : String) : Option Report :=
  ((past.rtakeWhile fun x => !x.delivery.closes i f).filter (·.tells i f)).getLast?

theorem lastTold_append (past : List Report) (x : Report) (i : Nat) (f : String) :
    lastTold (past ++ [x]) i f = if x.delivery.closes i f then none
      else if x.tells i f then some x else lastTold past i f := by
  cases hc : x.delivery.closes i f with
  | true => simp [lastTold, hc]
  | false => cases ht : x.tells i f <;> simp [lastTold, hc, ht]

theorem lastTold_of_told {past : List Report} {i : Nat} {f : String} (h : SourcesTold past i f) :
    ∃ x, lastTold past i f = some x := by
  obtain ⟨x, hx, ht⟩ := List.any_eq_true.1 h
  have hne : (past.rtakeWhile fun x => !x.delivery.closes i f).filter (·.tells i f) ≠ [] :=
    List.ne_nil_of_mem (List.mem_filter.2 ⟨hx, ht⟩)
  exact ⟨_, List.getLast?_eq_some_getLast hne⟩

/-! ### Messages -/

variable {r : Reconciler} {failing : Workspace.Method → Prop} {past : List Report} {id : Nat} {h : Handle}
  {q : String}

/-- What the reports of a run say of the loaded variants. -/
abbrev Accounted (failing : Workspace.Method → Prop) (past : List Report) (r : Reconciler) : Prop :=
  Sourced failing (SourcesTold past) (SourcesReached past) r

theorem accounted_kept (failing : Workspace.Method → Prop) (past : List Report) :
    Kept (Accounted failing past) (Sourcing failing (SourcesTold past) (SourcesReached past)) :=
  sourced_kept failing _ _

theorem entryUpdates_extending (slot : Slot) (id : Nat) (h : Handle) (before : Store) :
    EntryUpdates slot id h fun r => Updating id h r ∧ Extends before r.store where
  wellFormed hr := hr.1.1
  owns hr := hr.1.2
  drop hr hv hh hkey := ⟨(entryUpdates_updating slot id h).drop hr.1 hv hh hkey,
    hr.2.trans (hr.1.1.dropEntry slot id h _).2⟩
  add item hr := by
    obtain ⟨v, hv, rfl⟩ := hr.1.2
    exact ⟨(entryUpdates_updating slot id v.handle).add item hr.1,
      hr.2.trans (hr.1.1.addEntry hv slot item).2⟩

/-- The variant that a message is about has the name of the framework, also after its tables have been
brought up to date. -/
theorem ownVariant_named (hr : r.WellFormed) (hid : r.store.path? id = some q) (framework : Framework)
    (slot : Slot) (items : List Slot.Item) {v : Variant}
    (hv : (setEntries slot id (r.ownVariant id framework).2 (r.ownVariant id framework).1 items).store.Has id v)
    (hh : v.handle = (r.ownVariant id framework).2) : v.framework.name = framework.name := by
  obtain ⟨hr', u, hu, hn, hown⟩ := wellFormed_maintained.variantFor hr hid framework
  obtain ⟨w, hw, hwh, hwn⟩ := (hr'.register hu).2.has hu
  have heq : r.ownVariant id framework = ((r.variantFor id framework).1.register id u.handle, u.handle) := by
    rw [← hown]
    rfl
  rw [heq] at hv hh
  obtain ⟨⟨hwf, -⟩, hext⟩ := (entryUpdates_extending slot id u.handle _).setEntries
    ⟨wellFormed_maintained.register hr' hu, Extends.refl _⟩ items
  obtain ⟨w', hw', hwh', hwn'⟩ := hext.has hw
  rw [(hwf.sound.handle_inj hv hw' (hh.trans (hwh.symm.trans hwh'.symm))).2, hwn', hwn, hn]

theorem Accounted.applySources (hr : Accounted failing past r) {d : Delivery}
    (hid : r.store.path? d.id = some q) {sources : Sources} (hd : d.payload = .sources sources) :
    let r' := r.applySources d.id sources
    Accounted failing (past ++ [⟨d, r'.store⟩]) r' := by
  intro r'
  have hclose : ∀ i f, d.closes i f = false := by
    intro i f
    simp [Delivery.closes, hd]
  have hown := (accounted_kept failing past).ownVariant hr hid sources.framework
  let items := Slot.plain ((sources.files.getD []).filter (r.ownVariant d.id sources.framework).1.isSource)
  have hset := ((accounted_kept failing past).entries .document d.id _).setEntries hown items
  have hafter : r' = (setEntries .document d.id (r.ownVariant d.id sources.framework).2
      (r.ownVariant d.id sources.framework).1 items).modifyVariant (r.ownVariant d.id sources.framework).2
        fun v => { v with loaded := true } := rfl
  have hwf : r'.WellFormed := (wellFormed_maintained.markLoaded hset.updating).1
  have hlast : ∀ {i f}, SourcesReached (past ++ [⟨d, r'.store⟩]) i f → SourcesReached past i f ∨
      ∃ v, (setEntries .document d.id (r.ownVariant d.id sources.framework).2
        (r.ownVariant d.id sources.framework).1 items).store.Has i v ∧ v.framework.name = f ∧
          v.registered = true := by
    intro i f hf
    rw [SourcesReached, since_append, Bool.and_eq_true, Bool.or_eq_true] at hf
    refine hf.2.imp_right fun hreaches => ?_
    obtain ⟨-, w, hw, hn, hreg⟩ := (Report.reaches_iff hwf.sound).1 hreaches
    rw [hafter] at hw
    obtain ⟨v, hv, rfl⟩ := has_modifyVariant.1 hw
    refine ⟨v, hv, ?_⟩
    unfold changed at hn hreg
    split at hn
    · rename_i hh
      rw [if_pos hh] at hreg
      exact ⟨hn, hreg⟩
    · rename_i hh
      rw [if_neg hh] at hreg
      exact ⟨hn, hreg⟩
  rw [hafter]
  refine hset.markLoaded (since_of_past (hclose _ _)) (since_of_past (hclose _ _)) hlast fun {v} hv hh => ?_
  have hn := ownVariant_named hr.toWellFormed hid sources.framework .document items hv hh
  have htells : Report.tells ⟨d, r'.store⟩ d.id v.framework.name = true := by
    simp [Report.tells, Delivery.sources?, hd, hn]
  refine ⟨since_of_last (hclose _ _) htells, fun hreg => since_of_last (hclose _ _) ?_⟩
  have hmarked : r'.store.Has d.id { v with loaded := true } := by
    rw [hafter]
    exact has_modifyVariant.2 ⟨v, hv, by rw [changed_of_eq hh]⟩
  rw [← hafter]
  exact (Report.reaches_iff hwf.sound).2 ⟨htells, _, hmarked, rfl, hreg⟩

theorem Accounted.applyPayload (hr : Accounted failing past r) {d : Delivery}
    (hbefore : d.before = r.store) {p : Project} (hp : r.store.project? d.id = some p) :
    let r' := (r.applyPayload ⟨d.id, p.path⟩ d.payload).1
    Accounted failing (past ++ [⟨d, r'.store⟩]) r' := by
  intro r'
  have hkept := accounted_kept failing past
  have hid : r.store.path? d.id = some p.path := by rw [path?, hp, Option.map_some]
  have hother : (∀ i f, d.closes i f = false ∧ d.sources? i f = none) → ∀ {r₁ : Reconciler},
      Accounted failing past r₁ → Accounted failing (past ++ [⟨d, r'.store⟩]) r₁ := by
    intro hsilent r₁ hr₁
    refine hr₁.congr (since_of_past (hsilent _ _).1) (since_of_other (hsilent _ _).1 ?_)
    rw [Report.reaches, Report.tells, (hsilent _ _).2]
    rfl
  obtain ⟨before, id, payload⟩ := d
  dsimp only at hbefore hp hid
  subst hbefore
  cases payload with
  | projectInformation info =>
      let x : Report := ⟨⟨r.store, id, .projectInformation info⟩, r'.store⟩
      exact (hr.applyProjectInformation hp info).congr (since_iff_spared x hr.sound hp rfl rfl).1
        (since_iff_spared x hr.sound hp rfl rfl)
  | references refs => exact hother (fun _ _ => ⟨rfl, rfl⟩) (hkept.applyReferences hr hid refs)
  | dependencies deps =>
      exact hother (fun _ _ => ⟨rfl, rfl⟩) (hkept.done (hkept.ownVariant hr hid deps.framework))
  | compilerOptions options =>
      have hr' := hkept.applyCompilerOptions hr hid options
      rw [← applyPayload_compilerOptions r ⟨id, p.path⟩] at hr'
      exact hother (fun _ _ => ⟨rfl, rfl⟩) hr'
  | sources sources => exact hr.applySources hid rfl
  | hostError e => exact hother (fun _ _ => ⟨rfl, rfl⟩) hr
  | unknown type raw => exact hother (fun _ _ => ⟨rfl, rfl⟩) hr

/-! ### Runs -/

/-- The latest report that brings the sources of a variant decides whether they have reached it. -/
def LastDecides (past : List Report) : Prop :=
  ∀ i f, SourcesReached past i f ↔ ∃ x, lastTold past i f = some x ∧ x.reaches i f = true

theorem lastDecides_nil : LastDecides [] := fun i f => by
  simp [SourcesReached, since, lastTold]

theorem LastDecides.append (hp : LastDecides past) {d : Delivery}
    (hr : Accounted failing (past ++ [⟨d, r.store⟩]) r) : LastDecides (past ++ [⟨d, r.store⟩]) := by
  intro i f
  rw [lastTold_append]
  cases hc : d.closes i f with
  | true =>
      rw [SourcesReached, since_append]
      simp [hc]
  | false =>
      cases ht : Report.tells ⟨d, r.store⟩ i f with
      | true =>
          simp only [Bool.false_eq_true, if_false, if_true, Option.some_inj, exists_eq_left']
          -- a variant that its sources have reached before is still registered
          refine ⟨fun hreached => ?_, since_of_last hc⟩
          exact (Report.reaches_iff hr.sound).2 ⟨ht, hr.lasting hreached⟩
      | false =>
          have hk : Report.reaches ⟨d, r.store⟩ i f = false := by rw [Report.reaches, ht, Bool.false_and]
          simp only [Bool.false_eq_true, if_false]
          exact (since_of_other hc hk).symm.trans (hp i f)

/-- What is known of the loaded variants after a run. -/
theorem accounted_run (extension : String) {outages : Outages Workspace.Method} (ho : outages.Only failing)
    (steps : List Step) :
    Accounted failing ((facing extension outages).reports steps) ((facing extension outages).run steps) ∧
      LastDecides ((facing extension outages).reports steps) := by
  induction steps using List.reverseRecOn with
  | nil =>
      have hnone : ∀ {i v}, ¬(facing extension outages).store.Has i v := not_has_empty
      refine ⟨?_, lastDecides_nil⟩
      exact {
        wellFormed_run extension outages [] with
        outages := ho
        heard := fun hv => absurd hv hnone
        arrived := fun hv => absurd hv hnone
        barred := fun hv => absurd hv hnone
        lasting := fun hf => nomatch hf }
  | append_singleton rest s ih =>
      rw [run_append, reports_append]
      obtain ⟨hr, hlast⟩ := ih
      have hkept := accounted_kept failing ((facing extension outages).reports rest)
      cases s with
      | track path =>
          rw [Step.delivery?, Option.map_none, Option.toList_none, List.append_nil]
          exact ⟨hkept.track path hr, hlast⟩
      | visit order =>
          rw [Step.delivery?, Option.map_none, Option.toList_none, List.append_nil]
          exact ⟨hkept.visit order hr, hlast⟩
      | apply m =>
          cases hd : ((facing extension outages).run rest).delivery? m with
          | none =>
              rw [Step.delivery?, hd, Option.map_none, Option.toList_none, List.append_nil]
              obtain ⟨tally, logs, heq⟩ := apply_of_dropped hd
              rw [step, heq]
              exact ⟨hkept.quiet tally logs hr, hlast⟩
          | some d =>
              rw [Step.delivery?, hd, Option.map_some, Option.toList_some]
              obtain ⟨hbefore, p, hp, heq⟩ := apply_of_delivered hd
              have hcount := hkept.quiet (((facing extension outages).run rest).countMessage m.type).tally
                ((facing extension outages).run rest).logs hr
              rw [step, heq]
              have hafter := hcount.applyPayload hbefore hp
              exact ⟨hafter, hlast.append hafter⟩

/-- A project is announced as loaded after a message about it, if all its registered variants are. -/
theorem of_mem_loaded {ref ref' : ProjectRef} {payload : Payload}
    (hmem : Notice.loaded ref' ∈ (r.applyPayload ref payload).2) :
    ref' = ref ∧ ∃ p, (r.applyPayload ref payload).1.store.project? ref.contextId = some p ∧
      p.allLoaded = true := by
  have hloaded : ∀ r : Reconciler, Notice.loaded ref' ∈ r.loadedNotice ref →
      ref' = ref ∧ ∃ p, r.store.project? ref.contextId = some p ∧ p.allLoaded = true := by
    intro r hmem
    unfold loadedNotice at hmem
    split at hmem
    · rename_i p hp
      split at hmem
      · rename_i hall
        exact ⟨Notice.loaded.inj (List.mem_singleton.1 hmem), p, hp, hall⟩
      · cases hmem
    · cases hmem
  have hchanged : ∀ r : Reconciler, Notice.loaded ref' ∉ r.changedNotice ref.contextId := by
    intro r
    unfold changedNotice
    split <;> simp
  refine hloaded _ ?_
  cases payload with
  | unknown type raw => cases hmem
  | dependencies deps =>
      simp only [Reconciler.applyPayload] at hmem ⊢
      split at hmem
      · simpa using hmem
      · simpa using hmem
  | _ => simpa [Reconciler.applyPayload, hchanged, hostErrorNotices] using hmem

theorem mem_of_allLoaded {p : Project} (hall : p.allLoaded = true) {v : Variant} (hv : v ∈ p.variants)
    (hreg : v.registered = true) : v.loaded = true := by
  simp only [Project.allLoaded, Bool.and_eq_true] at hall
  exact List.all_eq_true.1 hall.2 v (List.mem_filter.2 ⟨hv, hreg⟩)

/-- Whenever a project is announced as loaded, this is known of each of its registered variants. -/
def LoadedMeans (known : List Report → Nat → String → Prop) (extension : String)
    (outages : Outages Workspace.Method) : Prop :=
  ∀ steps m ref, Notice.loaded ref ∈ (((facing extension outages).run steps).apply m).2 →
    ∀ v, (((facing extension outages).run steps).apply m).1.store.Has ref.contextId v →
      v.registered = true →
      known ((facing extension outages).reports (steps ++ [.apply m])) ref.contextId v.framework.name

theorem loaded_of_announced {m : Message} {ref : ProjectRef} (hmem : Notice.loaded ref ∈ (r.apply m).2)
    {v : Variant} (hv : (r.apply m).1.store.Has ref.contextId v) (hreg : v.registered = true) :
    v.loaded = true := by
  cases hd : r.delivery? m with
  | none =>
      obtain ⟨tally, logs, heq⟩ := apply_eq_of_dropped hd
      rw [heq] at hmem
      cases hmem
  | some d =>
      obtain ⟨-, p, -, heq⟩ := apply_eq_of_delivered hd
      rw [heq] at hmem hv
      obtain ⟨rfl, p', hp', hall⟩ := of_mem_loaded hmem
      obtain ⟨p'', hp'', hin⟩ := hv
      obtain rfl : p' = p'' := Option.some_inj.1 (hp'.symm.trans hp'')
      exact mem_of_allLoaded hall hin hreg

theorem loadedMeans_told (extension : String) (outages : Outages Workspace.Method) :
    LoadedMeans (fun past i f => ∃ x, lastTold past i f = some x ∧
      (SourcesReached past i f ↔ x.reaches i f = true)) extension outages := by
  intro steps m ref hmem v hv hreg
  have ho : outages.Only fun _ => True := fun _ _ _ _ => trivial
  obtain ⟨hrun, hlast⟩ := accounted_run extension ho (steps ++ [Step.apply m])
  rw [run_append] at hrun
  obtain ⟨x, hx⟩ := lastTold_of_told (hrun.heard hv (loaded_of_announced hmem hv hreg))
  refine ⟨x, hx, (hlast _ _).trans ?_⟩
  rw [hx]
  simp

theorem loadedMeans_reached (extension : String) {outages : Outages Workspace.Method}
    (ho : outages.Only failing) (hadd : ¬failing .addProject) :
    LoadedMeans SourcesReached extension outages := by
  intro steps m ref hmem v hv hreg
  obtain ⟨hrun, -⟩ := accounted_run extension ho (steps ++ [Step.apply m])
  rw [run_append] at hrun
  exact (hrun.arrived hv (loaded_of_announced hmem hv hreg) hreg).resolve_left hadd

/-- The projects that are announced as loaded, in order. -/
def loadedRefs (notices : List Notice) : List ProjectRef :=
  notices.filterMap fun
    | .loaded ref => some ref
    | _ => none

theorem mem_loadedRefs {notices : List Notice} {ref : ProjectRef} :
    ref ∈ loadedRefs notices ↔ Notice.loaded ref ∈ notices := by
  rw [loadedRefs, List.mem_filterMap]
  constructor
  · intro ⟨n, hn, heq⟩
    split at heq
    · rwa [← Option.some_inj.1 heq]
    · cases heq
  · exact fun hmem => ⟨_, hmem, rfl⟩

/-- A message that brings the sources of the first project. -/
def sourcesMessage : Message where
  type := "Sources"
  contextId := 1
  payload := some "\x7b\"Files\":[\"a.cs\"]\x7d"

/-- A message that says that it has no dependencies. -/
def dependenciesMessage : Message where
  type := "Dependencies"
  contextId := 1
  payload := some "\x7b\x7d"

/-- The variant of the project, loaded without documents. -/
def bareVariant : Variant where
  framework := {}
  handle := ⟨1⟩
  registered := true
  loaded := true

/-- The store with that variant alone. -/
def bareStore : Store where
  nextId := 2
  projects := ⟨[(1, { path := "/app", variants := [bareVariant] })]⟩
  byPath := ⟨[("/app", 1)]⟩

theorem has_bareVariant {s : Store} (hs : s = bareStore) : s.Has 1 bareVariant := by
  rw [hs]
  exact ⟨_, rfl, List.mem_singleton_self bareVariant⟩

/-- The workspace refuses a variant when its sources come, and takes it when its dependencies come: the
project is announced, and its variant has no documents. -/
theorem announced_unreached :
    let start := facing ".cs" (Outages.plan {} .addProject [true])
    let r := start.run [.track "/app", .apply sourcesMessage]
    ⟨1, "/app"⟩ ∈ loadedRefs (r.apply dependenciesMessage).2 ∧
      (r.apply dependenciesMessage).1.store = bareStore ∧
      ¬SourcesReached
        (start.reports ([Step.track "/app", Step.apply sourcesMessage] ++ [Step.apply dependenciesMessage])) 1
        bareVariant.framework.name := by
  decide +kernel

/-- **What it means that a project is announced as loaded.** Whichever workspace calls fail, each of its
registered variants has been told its sources since its last teardown; they have come while the variant was
registered if and only if it was registered when they came last. Let some methods of the workspace be open
to outages, in any finite pattern: the sources have come while the variant was registered, at every
announcement of every such run, if and only if adding a project is not among the methods. -/
theorem loaded_means_sourced (failing : Workspace.Method → Prop) :
    (∀ extension outages, LoadedMeans (fun past i f => ∃ x, lastTold past i f = some x ∧
      (SourcesReached past i f ↔ x.reaches i f = true)) extension outages) ∧
    ((∀ extension outages, outages.Only failing → LoadedMeans SourcesReached extension outages) ↔
      ¬failing .addProject) := by
  refine ⟨loadedMeans_told, fun hall hadd => ?_, fun hadd extension outages ho => ?_⟩
  · obtain ⟨hmem, hstore, hnot⟩ := announced_unreached
    exact hnot (hall ".cs" _ (Outages.only_plan hadd [true]) [.track "/app", .apply sourcesMessage]
      dependenciesMessage ⟨1, "/app"⟩ (mem_loadedRefs.1 hmem) bareVariant (has_bareVariant hstore) rfl)
  · exact loadedMeans_reached extension ho hadd

/-- A document that the workspace does not take makes no difference: the sources have come. -/
theorem refused_document_announced :
    Notice.loaded ⟨1, "/app"⟩ ∈ (((facing ".cs" (Outages.plan {} .addDocument [true])).run
        [.track "/app"]).apply sourcesMessage).2 ∧
      SourcesReached ((facing ".cs" (Outages.plan {} .addDocument [true])).reports
        ([.track "/app"] ++ [.apply sourcesMessage])) 1 bareVariant.framework.name := by
  have ho : (Outages.plan {} Workspace.Method.addDocument [true]).Only (· = .addDocument) := by
    apply Outages.only_plan
    rfl
  have hmem : Notice.loaded ⟨1, "/app"⟩ ∈ (((facing ".cs" (Outages.plan {} .addDocument [true])).run
      [.track "/app"]).apply sourcesMessage).2 := by
    apply mem_loadedRefs.1
    decide +kernel
  have hstore : (((facing ".cs" (Outages.plan {} .addDocument [true])).run
      [.track "/app"]).apply sourcesMessage).1.store = bareStore := by
    decide +kernel
  refine ⟨hmem, ?_⟩
  exact (loaded_means_sourced (· = .addDocument)).2.2 nofun ".cs" _ ho [.track "/app"] sourcesMessage
    ⟨1, "/app"⟩ hmem bareVariant (has_bareVariant hstore) rfl

/-- A project is announced as loaded although no sources have reached its registered variant: they came
when the workspace refused the variant, and its dependencies came when the workspace took it. -/
theorem unsourced_project_announced :
    Notice.loaded ⟨1, "/app"⟩ ∈ (((facing ".cs" (Outages.plan {} .addProject [true])).run
        [.track "/app", .apply sourcesMessage]).apply dependenciesMessage).2 ∧
      (((facing ".cs" (Outages.plan {} .addProject [true])).run
        [.track "/app", .apply sourcesMessage]).apply dependenciesMessage).1.store.Has 1 bareVariant ∧
      ¬SourcesReached ((facing ".cs" (Outages.plan {} .addProject [true])).reports
        ([.track "/app", .apply sourcesMessage] ++ [.apply dependenciesMessage])) 1
          bareVariant.framework.name := by
  obtain ⟨hmem, hstore, hnot⟩ := announced_unreached
  exact ⟨mem_loadedRefs.1 hmem, has_bareVariant hstore, hnot⟩

end CompilationBridge.Graph.Reconciler
