import CompilationBridge.Proofs.Graph.Latest

/-! What each message does to what the variants have recorded. A message about one variant brings its
variant to what the latest messages say once it is among them; a message about a project forgets the
latest messages of the frameworks that it takes from the project. -/

namespace CompilationBridge.Graph

open Store

namespace Reconciler

variable {r : Reconciler} {id : Nat} {h : Handle} {v : Variant}

/-! ### The ending of source files -/

theorem addEntry_sourceExtension (hr : r.WellFormed) (hv : r.store.Has id v) (slot : Slot)
    (item : Slot.Item) :
    (addEntry slot id v.handle r item).sourceExtension = r.sourceExtension := by
  have hoffered : (offered slot id v.handle r item).1.sourceExtension = r.sourceExtension :=
    (attempt_untouched ..).sourceExtension
  rw [addEntry_eq hr.sound hv]
  split
  · rfl
  · split <;> exact hoffered

/-- The ending of source files never changes. -/
theorem extension_maintained (ending : String) :
    Maintained (fun r => r.WellFormed ∧ r.sourceExtension = ending)
      (fun id h r => Updating id h r ∧ r.sourceExtension = ending) where
  wellFormed hr := hr.1
  quiet tally logs hr := ⟨wellFormed_maintained.quiet tally logs hr.1, hr.2⟩
  visit order hr := ⟨wellFormed_maintained.visit order hr.1, hr.2⟩
  track path hr := ⟨wellFormed_maintained.track path hr.1, hr.2⟩
  describe id info hr := ⟨wellFormed_maintained.describe id info hr.1, hr.2⟩
  create hr hj hnew := ⟨wellFormed_maintained.create hr.1 hj hnew, hr.2⟩
  relabel hr hv hn := ⟨wellFormed_maintained.relabel hr.1 hv hn, hr.2⟩
  teardown {r id v} hr hv hreg := by
    refine ⟨wellFormed_maintained.teardown hr.1 hv hreg, Eq.trans ?_ hr.2⟩
    obtain ⟨p, hp, hmem⟩ := hv
    have hafter : (r.afterTeardown id p v).sourceExtension = r.sourceExtension :=
      (carryOut_untouched ..).sourceExtension
    rcases teardown_effect hr.1.sound hr.1.linked hp ⟨p, hp, hmem⟩ hreg with he | ⟨he, -, -⟩ <;> rw [he]
    · exact hafter
    · exact hafter
  register hr hv := ⟨wellFormed_maintained.register hr.1 hv,
    (register_store hr.1.sound hv).1.sourceExtension.trans hr.2⟩
  done hr := ⟨hr.1.1, hr.2⟩
  entries slot id h := {
    wellFormed := fun hr => hr.1.1
    owns := fun hr => hr.1.2
    drop := fun hr hv hh hkey =>
      ⟨(entryUpdates_updating slot id h).drop hr.1 hv hh hkey,
        (dropEntry_steady ..).sourceExtension.trans hr.2⟩
    add := fun {r} item hr => by
      obtain ⟨v, hv, rfl⟩ := hr.1.2
      exact ⟨(entryUpdates_updating slot id v.handle).add item hr.1,
        (addEntry_sourceExtension hr.1.1 hv slot item).trans hr.2⟩ }
  edges id h := {
    wellFormed := fun hr => hr.1.1
    owns := fun hr => hr.1.2
    dropProject := fun hr hv hh hedge => ⟨(edgeUpdates_updating id h).dropProject hr.1 hv hh hedge,
      (makes_dropProject ..).steady.sourceExtension.trans hr.2⟩
    track := fun path hr => ⟨(edgeUpdates_updating id h).track path hr.1, hr.2⟩
    create := fun hr hj hnew => ⟨(edgeUpdates_updating id h).create hr.1 hj hnew, hr.2⟩
    link := fun hr hq hv hh hnew hu hj => ⟨(edgeUpdates_updating id h).link hr.1 hq hv hh hnew hu hj,
      (makes_link ..).steady.sourceExtension.trans hr.2⟩ }
  setOptions options hr :=
    ⟨wellFormed_maintained.setOptions options hr.1, (makes_setOptions ..).steady.sourceExtension.trans hr.2⟩
  markLoaded hr := ⟨wellFormed_maintained.markLoaded hr.1, hr.2⟩

theorem sourceExtension_run (extension : String) (outages : Outages Workspace.Method) (steps : List Step) :
    ((facing extension outages).run steps).sourceExtension = Text.lower extension := by
  have hnew : (facing extension outages).WellFormed ∧
      (facing extension outages).sourceExtension = Text.lower extension :=
    ⟨wellFormed_of_empty rfl, rfl⟩
  exact ((extension_maintained (Text.lower extension)).run hnew steps).2

/-! ### Messages about one variant -/

/-- The parts of a variant that are known, given the latest messages for its project and framework name,
are what these messages say. -/
def expected (known : Latest → Part → Prop) (ending : String) (latest : Nat → String → Latest) (i : Nat)
    (v : Variant) : Prop :=
  Reflects ending (latest i v.framework.name) (known (latest i v.framework.name)) v

/-- A message makes known only the parts that it sets. -/
structure Informative (known : Latest → Part → Prop) : Prop where
  references : ∀ {l : Latest} {refs part}, known { l with references := some refs } part →
    part ≠ .entries .file ∧ part ≠ .entries .raw ∧ part ≠ .projects → known l part
  options : ∀ {l : Latest} {options part}, known { l with options := some options } part →
    part ≠ .options → known l part
  sources : ∀ {l : Latest} {sources part}, known { l with sources := some sources } part →
    part ≠ .entries .document ∧ part ≠ .loaded → known l part

/-- There are no messages for a project and a framework name. -/
def unmentioned (latest : Nat → String → Latest) (i : Nat) (f : String) : Prop :=
  latest i f = {}

theorem expectation (known : Latest → Part → Prop) (ending : String) (latest : Nat → String → Latest) :
    Expectation (expected known ending latest) (unmentioned latest) where
  content {i v w} hc hv := by
    rw [expected, Variant.framework_of_content hc]
    exact hv.of_content hc
  fresh {i framework h} hnone := by
    have hidle : Variant.Idle { framework := framework, handle := h } := rfl
    rw [expected, hnone]
    exact hidle.reflects
  settle {i v} hv := by
    refine Reflects.frame hv (fun slot _ => ?_) (fun _ => rfl) (fun _ => ⟨rfl, rfl⟩) fun _ => rfl
    cases slot <;> rfl
  relabel {i v framework} hn hv := by
    rw [expected, hn] at hv
    refine Reflects.frame hv (fun slot _ => ?_) (fun _ => rfl) (fun _ => ⟨rfl, rfl⟩) fun _ => rfl
    cases slot <;> rfl

/-- Other latest messages for one project and framework name. -/
def revise (latest : Nat → String → Latest) (id : Nat) (name : String) (l : Latest) (i : Nat) (f : String) :
    Latest :=
  if i = id ∧ f = name then l else latest i f

section

variable {ending name q : String} {latest : Nat → String → Latest} {l : Latest}
  {known : Latest → Part → Prop}

theorem Following.finish
    (hr : Following id h name (Reflects ending l (known l)) (expected known ending latest)
      (unmentioned latest) r) :
    Records (expected known ending (revise latest id name l)) (unmentioned (revise latest id name l))
      r.store := by
  refine hr.done (fun hn hv => ?_) (fun hself hv => ?_) fun hself hnone => ?_
  · rw [expected, revise, if_pos ⟨rfl, hn⟩]
    exact hv
  · rw [expected, revise, if_neg hself]
    exact hv
  · rw [unmentioned, revise, if_neg hself]
    exact hnone

/-- A message that sets some parts brings them to what it says and keeps the others. -/
theorem follow_message (hm : r.Mirrored)
    (hr : Records (expected known ending latest) (unmentioned latest) r.store)
    (hid : r.store.path? id = some q) (framework : Framework) (l : Latest) (kept : Part → Prop)
    (hkept : ∀ v part, kept part → part.Shown ending (latest id framework.name) v → part.Shown ending l v) :
    Following id (r.ownVariant id framework).2 framework.name
      (Reflects ending l fun part => known (latest id framework.name) part ∧ kept part)
      (expected known ending latest) (unmentioned latest) (r.ownVariant id framework).1 := by
  refine follow_ownVariant (expectation known ending latest) hm hr hid framework
    fun {v} hn hv part hpart => ?_
  rw [expected, hn] at hv
  exact hkept v part hpart.2 (hv part hpart.1)

theorem records_references (hknown : Informative known) (hm : r.Mirrored)
    (hr : Records (expected known ending latest) (unmentioned latest) r.store)
    (hid : r.store.path? id = some q) (refs : References) :
    let after := revise latest id refs.framework.name
      { latest id refs.framework.name with references := some refs }
    Records (expected known ending after) (unmentioned after) (r.applyReferences id refs).1.store := by
  intro after
  have he := expectation known ending latest
  have hkept : ∀ (v : Variant) (part : Part),
      part ≠ .entries .file ∧ part ≠ .entries .raw ∧ part ≠ .projects →
      part.Shown ending (latest id refs.framework.name) v →
      part.Shown ending { latest id refs.framework.name with references := some refs } v := by
    rintro v (slot | _ | _ | _) ⟨hfile, hraw, hprojects⟩ hshown
    · cases slot with
      | file => exact absurd rfl hfile
      | raw => exact absurd rfl hraw
      | document => exact hshown
    · exact absurd rfl hprojects
    · exact hshown
    · exact hshown
  have hr₀ := follow_message hm hr hid refs.framework _ _ hkept
  have hr₁ := hr₀.setEntries he (fun h => h.2.1 rfl)
  have hr₂ := hr₁.setEntries he (fun h => h.elim (fun h => h.2.2.1 rfl) nofun)
  have hr₃ := hr₂.setProjects he
    (fun h => h.elim (fun h => h.elim (fun h => h.2.2.2 rfl) nofun) nofun) rfl
  refine (hr₃.know fun {v} _ _ hown part hpart => hown part ?_).finish
  by_cases hprojects : part = .projects
  · exact Or.inr hprojects
  · by_cases hraw : part = .entries .raw
    · exact Or.inl (Or.inr hraw)
    · by_cases hfile : part = .entries .file
      · exact Or.inl (Or.inl (Or.inr hfile))
      · have hother := And.intro hfile (And.intro hraw hprojects)
        exact Or.inl (Or.inl (Or.inl ⟨hknown.references hpart hother, hother⟩))

theorem records_compilerOptions (hknown : Informative known) (hm : r.Mirrored)
    (hr : Records (expected known ending latest) (unmentioned latest) r.store)
    (hid : r.store.path? id = some q) (options : CompilerOptions) :
    let after := revise latest id options.framework.name
      { latest id options.framework.name with options := some options }
    Records (expected known ending after) (unmentioned after) (r.applyCompilerOptions id options).store := by
  intro after
  have he := expectation known ending latest
  have hkept : ∀ (v : Variant) (part : Part), part ≠ .options →
      part.Shown ending (latest id options.framework.name) v →
      part.Shown ending { latest id options.framework.name with options := some options } v := by
    rintro v (slot | _ | _ | _) hoptions hshown
    · cases slot <;> exact hshown
    · exact hshown
    · exact absurd rfl hoptions
    · exact hshown
  have hr₀ := follow_message hm hr hid options.framework _ _ hkept
  have hr₁ := hr₀.setOptions he (fun h => h.2 rfl) rfl
  refine (hr₁.know fun {v} _ _ hown part hpart => hown part ?_).finish
  by_cases hoptions : part = .options
  · exact Or.inr hoptions
  · exact Or.inl ⟨hknown.options hpart hoptions, hoptions⟩

theorem records_sources (hknown : Informative known) (hm : r.Mirrored) (hext : r.sourceExtension = ending)
    (hr : Records (expected known ending latest) (unmentioned latest) r.store)
    (hid : r.store.path? id = some q) (sources : Sources) :
    let after := revise latest id sources.framework.name
      { latest id sources.framework.name with sources := some sources }
    Records (expected known ending after) (unmentioned after) (r.applySources id sources).store := by
  intro after
  have he := expectation known ending latest
  have hkept : ∀ (v : Variant) (part : Part), part ≠ .entries .document ∧ part ≠ .loaded →
      part.Shown ending (latest id sources.framework.name) v →
      part.Shown ending { latest id sources.framework.name with sources := some sources } v := by
    rintro v (slot | _ | _ | _) ⟨hdoc, hloaded⟩ hshown
    · cases slot with
      | file => exact hshown
      | raw => exact hshown
      | document => exact absurd rfl hdoc
    · exact hshown
    · exact hshown
    · exact absurd rfl hloaded
  have hr₀ := follow_message hm hr hid sources.framework _ _ hkept
  have hr₁ := hr₀.setEntries he (fun h => h.2.1 rfl)
  have hr₂ := hr₁.markLoaded he (fun h => h.elim (fun h => h.2.2 rfl) nofun) rfl
  have hsource : (r.ownVariant id sources.framework).1.isSource =
      fun file => ending.toList.isSuffixOf (Text.lower file).toList := by
    have hown := ((extension_maintained ending).ownVariant ⟨hm.toWellFormed, hext⟩ hid sources.framework).2
    funext file
    rw [isSource, hown]
  have heq : r.applySources id sources =
      (Reconciler.setEntries .document id (r.ownVariant id sources.framework).2
        (r.ownVariant id sources.framework).1
        (Latest.items { latest id sources.framework.name with sources := some sources } ending .document)
      ).modifyVariant (r.ownVariant id sources.framework).2 fun v => { v with loaded := true } := by
    change Reconciler.setSources id (r.ownVariant id sources.framework).2
      (r.ownVariant id sources.framework).1 sources = _
    rw [setSources, hsource]
    rfl
  rw [heq]
  refine (hr₂.know fun {v} _ _ hown part hpart => hown part ?_).finish
  by_cases hloaded : part = .loaded
  · exact Or.inr hloaded
  · by_cases hdoc : part = .entries .document
    · exact Or.inl (Or.inr hdoc)
    · have hother := And.intro hdoc hloaded
      exact Or.inl (Or.inl ⟨hknown.sources hpart hother, hother⟩)

end

/-! ### Any expectation -/

/-- What is expected of variants depends on the latest messages for their project and framework name
alone, and where there are none, a variant with nothing recorded is as expected. -/
structure Expectations (holds : (Nat → String → Latest) → Nat → Variant → Prop) : Prop where
  expectation : ∀ latest, Expectation (holds latest) (unmentioned latest)
  congr : ∀ {latest latest' i v}, latest' i v.framework.name = latest i v.framework.name →
    holds latest i v → holds latest' i v
  idle : ∀ {latest i v}, latest i v.framework.name = {} → v.Idle → holds latest i v

theorem expectations (known : Latest → Part → Prop) (ending : String) :
    Expectations (expected known ending) where
  expectation := expectation known ending
  congr hsame hv := by
    rw [expected, hsame]
    exact hv
  idle hnone hidle := by
    rw [expected, hnone]
    exact hidle.reflects

section

variable {holds : (Nat → String → Latest) → Nat → Variant → Prop} {latest : Nat → String → Latest}
  {q : String}

/-- A message about the dependencies of a variant only makes sure that it is registered. -/
theorem records_dependencies (hh : Expectations holds) (hm : r.Mirrored)
    (hr : Records (holds latest) (unmentioned latest) r.store)
    (hid : r.store.path? id = some q) (framework : Framework) :
    Records (holds latest) (unmentioned latest) (r.ownVariant id framework).1.store := by
  have he := hh.expectation latest
  obtain ⟨hm₁, v, hv, -, hh⟩ := mirrored_maintained.variantFor hm hid framework
  have hr₁ := records_register he (records_variantFor he hr hid framework) hm₁.toWellFormed hv
  rw [← hh] at hr₁
  exact hr₁

/-! ### Messages about a project -/

/-- The latest messages, with those for some framework names of a project forgotten. -/
def forget (latest : Nat → String → Latest) (id : Nat) (names : List String) (i : Nat) (f : String) :
    Latest :=
  if i = id ∧ f ∈ names then {} else latest i f

theorem forget_congr {latest : Nat → String → Latest} {id : Nat} {names names' : List String}
    (h : ∀ f, f ∈ names ↔ f ∈ names') : forget latest id names = forget latest id names' := by
  funext i f
  simp only [forget, h]

theorem forget_append (latest : Nat → String → Latest) (id : Nat) (names : List String) (name : String) :
    revise (forget latest id names) id name {} = forget latest id (names ++ [name]) := by
  funext i f
  unfold revise forget
  by_cases hi : i = id
  · by_cases hf : f = name
    · simp [hi, hf]
    · simp [hi, hf]
  · simp [hi]

theorem records_teardown (hh : Expectations holds) (hm : r.Mirrored)
    (hr : Records (holds latest) (unmentioned latest) r.store) (hv : r.store.Has id v)
    (hreg : v.registered = true) :
    let after := revise latest id v.framework.name {}
    Records (holds after) (unmentioned after) (r.teardown id v.handle).store := by
  intro after
  have hself : ∀ {i u}, r.store.Has i u →
      (u.handle = v.handle ↔ i = id ∧ u.framework.name = v.framework.name) := by
    intro i u hu
    constructor
    · intro hh
      obtain ⟨rfl, rfl⟩ := hm.sound.handle_inj hu hv hh
      exact ⟨rfl, rfl⟩
    · rintro ⟨rfl, hn⟩
      rw [hm.sound.name_inj hu hv hn]
  refine ⟨fun {i w} hw => ?_, fun i f hnone => ?_⟩
  · obtain ⟨u, hu, hc⟩ := has_of_teardown hm.toWellFormed hv hreg hw
    have hname : w.framework.name = u.framework.name := by
      rw [Variant.framework_of_content hc]
      unfold changed
      split <;> rfl
    by_cases huv : u.handle = v.handle
    · rw [changed_of_eq huv] at hc
      have hidle : u.reset.Idle := rfl
      refine hh.idle ?_ (hidle.of_content hc)
      rw [hname]
      exact if_pos ((hself hu).1 huv)
    · rw [changed_of_ne huv] at hc
      refine hh.congr ?_ ((hh.expectation latest).content hc (hr.variant hu))
      rw [hname]
      exact if_neg fun h => huv ((hself hu).2 h)
  · by_cases hf : i = id ∧ f = v.framework.name
    · exact if_pos hf
    · have hafter : after i f = latest i f := if_neg hf
      rw [unmentioned, hafter]
      refine hr.quiet i f fun {u} hu hn => ?_
      have huv : u.handle ≠ v.handle := fun huv => hf (hn ▸ (hself hu).1 huv)
      obtain ⟨w, hw, hc⟩ := teardown_others hm.toWellFormed hv hreg hu huv
      rw [← Variant.registered_of_content hc]
      exact hnone hw ((congrArg Framework.name (Variant.framework_of_content hc)).trans hn)

/-- The framework name of the variant of a handle. -/
def nameOf (s : Store) (h : Handle) : String :=
  ((s.variant? h).map (·.framework.name)).getD ""

theorem nameOf_eq {s : Store} {next : Nat} (hs : s.Sound next) (hv : s.Has id v) :
    nameOf s v.handle = v.framework.name := by
  rw [nameOf, hs.variant? hv, Option.map_some, Option.getD_some]

/-- The variants that are left after a teardown have the names that they had. -/
theorem nameOf_teardown (hr : r.WellFormed) (hv : r.store.Has id v) (hreg : v.registered = true) {s : Store}
    (hnames : ∀ {v}, r.store.Has id v → nameOf s v.handle = v.framework.name) {w : Variant}
    (hw : (r.teardown id v.handle).store.Has id w) : nameOf s w.handle = w.framework.name := by
  obtain ⟨u, hu, hc⟩ := has_of_teardown hr hv hreg hw
  have hsame : w.handle = u.handle ∧ w.framework.name = u.framework.name := by
    rw [Variant.handle_of_content hc, Variant.framework_of_content hc]
    unfold changed
    split <;> exact ⟨rfl, rfl⟩
  rw [hsame.1, hsame.2]
  exact hnames hu

theorem records_projectInformation (hh : Expectations holds) (hm : r.Mirrored)
    (hr : Records (holds latest) (unmentioned latest) r.store) {p : Project}
    (hp : r.store.project? id = some p) (info : ProjectInformation) :
    let after := forget latest id
      ((omitted (describe info p) (info.frameworks.getD [])).map (nameOf r.store))
    Records (holds after) (unmentioned after) (r.applyProjectInformation id info).store := by
  intro after
  have hm₁ := mirrored_maintained.describe id info hm
  have hr₁ : Records (holds latest) (unmentioned latest) (describeIn r.store id info) :=
    hr.of_has has_describeIn
  have hid₁ : (describeIn r.store id info).path? id = some p.path := by
    rw [path?_describeIn, path?, hp, Option.map_some]
  rw [applyProjectInformation_eq hp]
  -- while the variants are torn down, those that are left keep their names
  obtain ⟨⟨hm₂, hid₂, hr₂, -⟩, -⟩ := dismantled_keeps
    (Q := fun done r' => r'.Mirrored ∧ r'.store.path? id = some p.path ∧
      Records (holds (forget latest id (done.map (nameOf r.store))))
        (unmentioned (forget latest id (done.map (nameOf r.store)))) r'.store ∧
      ∀ {v}, r'.store.Has id v → nameOf r.store v.handle = v.framework.name)
    (fun hr => hr.1.toWellFormed)
    (fun {done r' v} hq hv hreg => by
      obtain ⟨hm, hid, hr, hnames⟩ := hq
      refine ⟨hm.teardown hv hreg, (path?_teardown hm.toWellFormed hv hreg id).trans hid, ?_, ?_⟩
      · have hr' := records_teardown hh hm hr hv hreg
        rw [List.map_append, List.map_singleton, hnames hv, ← forget_append]
        exact hr'
      · exact fun hw => nameOf_teardown hm.toWellFormed hv hreg hnames hw)
    hp (r.visiting.perm _) ⟨hm₁, hid₁, by
      have hnil : forget latest id [] = latest := by
        funext i f
        exact if_neg fun h => List.not_mem_nil h.2
      rw [List.map_nil, hnil]
      exact hr₁, fun hv => nameOf_eq hm.sound (has_describeIn.1 hv)⟩
  rw [forget_congr fun _ => ((r.visiting.perm _).map _).mem_iff] at hr₂
  have hlist := List.foldlRecOn (info.frameworks.getD []) (listFramework id)
    (motive := fun r' => r'.Mirrored ∧ r'.store.path? id = some p.path ∧
      Records (holds after) (unmentioned after) r'.store) ⟨hm₂, hid₂, hr₂⟩
    fun r' hr' f _ => by
      obtain ⟨hm', hid'⟩ := mirrored_maintained.listFramework hr'.1 hr'.2.1 f
      exact ⟨hm', hid', records_listFramework (hh.expectation after) hr'.1 hr'.2.2 hr'.2.1 f⟩
  exact hlist.2.2

end

end Reconciler

end CompilationBridge.Graph
