import CompilationBridge.Proofs.Graph.Successes

/-! A message about a project that comes a second time. After the first time, where no call failed, the project
is known as the message says, each listed framework has a registered variant with the data that the list has
last for its name, and no other framework is registered. So the second time nothing is torn down and nothing
is registered; the data of a framework may change while the list is gone through, but not in the end. -/

namespace CompilationBridge.Graph

namespace Store

/-- A change that leaves its project as it is leaves the graph as it is. -/
theorem modifyProject_of_same {s : Store} {id : Nat} {f : Project → Project} {hpath : ∀ p, (f p).path = p.path}
    (hf : ∀ p, s.project? id = some p → f p = p) : s.modifyProject id f hpath = s := by
  refine change_of_same fun {i p} hp => ?_
  split
  · rename_i hi
    exact hf p (hi ▸ hp)
  · rfl

end Store

/-! ### The data of frameworks -/

/-- What a list of frameworks has last for a name. -/
def latestNamed (frameworks : List Framework) (name : String) : Option Framework :=
  frameworks.reverse.find? (·.name = name)

theorem latestNamed_concat_self (frameworks : List Framework) (framework : Framework) :
    latestNamed (frameworks ++ [framework]) framework.name = some framework := by
  simp [latestNamed]

theorem latestNamed_concat_of_ne {framework : Framework} {name : String} (h : framework.name ≠ name)
    (frameworks : List Framework) : latestNamed (frameworks ++ [framework]) name = latestNamed frameworks name := by
  simp [latestNamed, h]

/-- Of a listed name there is a last entry, which has the name. -/
theorem latestNamed_of_mem {frameworks : List Framework} {framework : Framework} (h : framework ∈ frameworks) :
    ∃ last, latestNamed frameworks framework.name = some last ∧ last.name = framework.name := by
  obtain ⟨last, hlast⟩ := Option.isSome_iff_exists.1
    (List.find?_isSome (p := fun f : Framework => f.name = framework.name).2
      ⟨framework, List.mem_reverse.2 h, decide_eq_true rfl⟩)
  exact ⟨last, hlast, by simpa using List.find?_some hlast⟩

/-- A variant with the data that a list of frameworks has last for its name. -/
def Variant.relabelled (frameworks : List Framework) (v : Variant) : Variant :=
  { v with framework := (latestNamed frameworks v.framework.name).getD v.framework }

/-- A change of the data of a listed framework does not show once all of them have been brought up to date. -/
theorem Variant.relabelled_of_listed {frameworks : List Framework} {framework : Framework}
    (h : framework ∈ frameworks) {v : Variant} (hn : v.framework.name = framework.name) :
    ({ v with framework := framework } : Variant).relabelled frameworks = v.relabelled frameworks := by
  obtain ⟨last, hlast, -⟩ := latestNamed_of_mem h
  simp only [relabelled, hn, hlast, Option.getD_some]

namespace Store

/-- A graph with the variants of a project brought up to date. -/
def relabel (s : Store) (id : Nat) (frameworks : List Framework) : Store :=
  s.modifyProject id (fun p => { p with variants := p.variants.map (Variant.relabelled frameworks) })
    fun _ => rfl

theorem relabel_of_current {s : Store} {id : Nat} {frameworks : List Framework}
    (h : ∀ {v}, s.Has id v → v.relabelled frameworks = v) : s.relabel id frameworks = s := by
  refine modifyProject_of_same fun p hp => ?_
  have hsame : p.variants.map (Variant.relabelled frameworks) = p.variants :=
    (List.map_congr_left fun v hv => h ⟨p, hp, hv⟩).trans (List.map_id' _)
  rw [hsame]

theorem relabel_modifyVariant {s : Store} {next : Nat} (hs : s.Sound next) {id : Nat} {v : Variant}
    (hv : s.Has id v) {frameworks : List Framework} {framework : Framework} (hmem : framework ∈ frameworks)
    (hn : v.framework.name = framework.name) :
    (s.modifyVariant v.handle fun v => { v with framework := framework }).relabel id frameworks =
      s.relabel id frameworks := by
  refine ext_project? fun i => ?_
  rw [relabel, relabel, project?_modifyProject, project?_modifyProject, project?_modifyVariant]
  cases hp : s.project? i with
  | none => rfl
  | some p =>
      simp only [Option.map_some]
      split
      · rename_i hi
        simp only [List.map_map, Option.some.injEq]
        congr 1
        refine List.map_congr_left fun w hw => ?_
        rw [Function.comp_apply, changed]
        split
        · rename_i hh
          obtain rfl := (hs.handle_inj ⟨p, hp, hw⟩ hv hh).2
          exact Variant.relabelled_of_listed hmem hn
        · rfl
      · rename_i hi
        have hsame : p.variants.map (changed v.handle fun v => { v with framework := framework }) = p.variants := by
          refine (List.map_congr_left fun w hw => changed_of_ne fun hh => hi ?_).trans (List.map_id' _)
          exact (hs.handle_inj ⟨p, hp, hw⟩ hv hh).1
        rw [hsame]

end Store

namespace Reconciler

open Store

variable {r r' : Reconciler} {id : Nat} {v : Variant} {q : String} {frameworks : List Framework}
  {framework : Framework}

/-! ### Listing frameworks -/

/-- Where no call fails, a listed framework has a registered variant with its data, and the variants of the
other frameworks are those that were there before. -/
theorem listFramework_of_smooth (hr : r.WellFormed) (hid : r.store.path? id = some q)
    (hsmooth : Smooth r (listFramework id r framework)) :
    (∃ w, (listFramework id r framework).store.Has id w ∧ w.framework = framework) ∧
      ∀ {w}, (listFramework id r framework).store.Has id w →
        (w.framework = framework ∧ w.registered = true) ∨
          (r.store.Has id w ∧ w.framework.name ≠ framework.name) := by
  obtain ⟨hr₁, v, hv, hn, hh⟩ := wellFormed_maintained.variantFor hr hid framework
  let r₁ := (r.variantFor id framework).1
  let label : Variant → Variant := fun v => { v with framework := framework }
  have hlist : listFramework id r framework = (r₁.modifyVariant v.handle label).register id v.handle := by
    rw [← hh]
    rfl
  have hr₂ := wellFormed_maintained.relabel hr₁ hv hn
  have hv₂ : (r₁.modifyVariant v.handle label).store.Has id (label v) := hv.modify label
  rw [hlist] at hsmooth ⊢
  have hpre : Precedes r (r₁.modifyVariant v.handle label) := r.precedes_variantFor id framework
  obtain ⟨-, hregister⟩ := hsmooth.split hpre (precedes_register ..)
  have hstore := register_store_of_smooth hr₂ hv₂ hregister
  have hstore' : ((r₁.modifyVariant v.handle label).register id v.handle).store =
      r₁.store.modifyVariant v.handle fun v => (label v).settle :=
    hstore.trans (modifyVariant_modifyVariant r₁.store v.handle _ fun _ => rfl)
  rw [hstore']
  refine ⟨⟨_, hv.modify _, rfl⟩, fun {w} hw => ?_⟩
  obtain ⟨u, hu, rfl⟩ := has_modifyVariant.1 hw
  by_cases huh : u.handle = v.handle
  · rw [changed_of_eq huh]
    exact Or.inl ⟨rfl, rfl⟩
  · rw [changed_of_ne huh]
    have hname : u.framework.name ≠ framework.name := fun heq =>
      huh (congrArg Variant.handle (hr₁.sound.name_inj hu hv (heq.trans hn.symm)))
    refine Or.inr ⟨?_, hname⟩
    have hu : (r.variantFor id framework).1.store.Has id u := hu
    rcases r.variantFor_cases hid framework with ⟨_, _, _, he⟩ | ⟨_, he⟩ <;> rw [he] at hu
    · exact hu
    · exact ((has_addVariant ⟨q, hid⟩).1 hu).resolve_right fun h => hname (by rw [h.2])

/-- The frameworks of a list have been brought up to date. -/
structure Listed (frameworks : List Framework) (id : Nat) (r : Reconciler) : Prop where
  wellFormed : r.WellFormed
  there : ∀ f ∈ frameworks, ∃ v, r.store.Has id v ∧ v.framework.name = f.name
  registered : ∀ {v}, r.store.Has id v → (∃ f ∈ frameworks, f.name = v.framework.name) → v.registered = true
  current : ∀ {v}, r.store.Has id v → v.relabelled frameworks = v

theorem listed_nil (hr : r.WellFormed) (id : Nat) : Listed [] id r where
  wellFormed := hr
  there _ hf := nomatch hf
  registered _ hf := nomatch hf
  current _ := rfl

theorem Listed.listFramework (hr : Listed frameworks id r) (hid : r.store.path? id = some q)
    (hsmooth : Smooth r (listFramework id r framework)) :
    Listed (frameworks ++ [framework]) id (listFramework id r framework) := by
  obtain ⟨⟨w, hw, hwf⟩, hall⟩ := listFramework_of_smooth hr.wellFormed hid hsmooth
  refine ⟨(wellFormed_maintained.listFramework hr.wellFormed hid framework).1, fun f hf => ?_,
    fun {v} hv hf => ?_, fun {v} hv => ?_⟩
  · rcases List.mem_append.1 hf with hf | hf
    · obtain ⟨u, hu, hn⟩ := hr.there f hf
      obtain ⟨u', hu', -, hn'⟩ := (extends_listFramework hr.wellFormed hid framework).has hu
      exact ⟨u', hu', hn'.trans hn⟩
    · rw [List.mem_singleton.1 hf]
      exact ⟨w, hw, congrArg Framework.name hwf⟩
  · rcases hall hv with ⟨-, hreg⟩ | ⟨hold, hne⟩
    · exact hreg
    · obtain ⟨f, hf, hn⟩ := hf
      rcases List.mem_append.1 hf with hf | hf
      · exact hr.registered hold ⟨f, hf, hn⟩
      · exact absurd hn.symm (List.mem_singleton.1 hf ▸ hne)
  · rcases hall hv with ⟨hvf, -⟩ | ⟨hold, hne⟩
    · rw [Variant.relabelled, hvf, latestNamed_concat_self, Option.getD_some, ← hvf]
    · rw [Variant.relabelled, latestNamed_concat_of_ne (Ne.symm hne)]
      exact hr.current hold

theorem precedes_foldl_listFramework (id : Nat) (frameworks : List Framework) (r : Reconciler) :
    Precedes r (frameworks.foldl (listFramework id) r) :=
  precedes_foldl (fun r => r) (precedes_listFramework id) frameworks r

theorem Listed.foldl {rest : List Framework} (hr : Listed frameworks id r) (hid : r.store.path? id = some q)
    (hsmooth : Smooth r (rest.foldl (Reconciler.listFramework id) r)) :
    Listed (frameworks ++ rest) id (rest.foldl (Reconciler.listFramework id) r) := by
  induction rest generalizing frameworks r with
  | nil => rwa [List.append_nil]
  | cons framework rest ih =>
      obtain ⟨hfirst, hrest⟩ := hsmooth.split (precedes_listFramework id r framework)
        (precedes_foldl_listFramework id rest _)
      have hid₁ := (path?_congr (headings_listFramework id r framework) id).trans hid
      have hall := ih (hr.listFramework hid hfirst) hid₁ hrest
      rwa [List.append_assoc] at hall

/-- No framework is registered that is not listed. -/
def Exclusive (frameworks : List Framework) (id : Nat) (s : Store) : Prop :=
  ∀ v, s.Has id v → v.registered = true → ∃ f ∈ frameworks, f.name = v.framework.name

theorem exclusive_foldl {rest : List Framework} (hr : r.WellFormed) (hid : r.store.path? id = some q)
    (hrest : ∀ f ∈ rest, f ∈ frameworks) (hex : Exclusive frameworks id r.store)
    (hsmooth : Smooth r (rest.foldl (listFramework id) r)) :
    Exclusive frameworks id (rest.foldl (listFramework id) r).store := by
  induction rest generalizing r with
  | nil => exact hex
  | cons framework rest ih =>
      obtain ⟨hfirst, hlater⟩ := hsmooth.split (precedes_listFramework id r framework)
        (precedes_foldl_listFramework id rest _)
      have hid₁ := (path?_congr (headings_listFramework id r framework) id).trans hid
      have hr₁ := (wellFormed_maintained.listFramework hr hid framework).1
      refine ih hr₁ hid₁ (fun f hf => hrest f (List.mem_cons_of_mem _ hf)) (fun v hv hreg => ?_) hlater
      rcases (listFramework_of_smooth hr hid hfirst).2 hv with ⟨hvf, -⟩ | ⟨hold, -⟩
      · exact ⟨framework, hrest framework List.mem_cons_self, by rw [hvf]⟩
      · exact hex v hold hreg

/-! ### Listing frameworks again -/

/-- A framework whose variant is registered only gets its data. -/
theorem listFramework_of_registered (hr : r.WellFormed) (hv : r.store.Has id v) (hreg : v.registered = true)
    (hn : v.framework.name = framework.name) :
    listFramework id r framework = r.modifyVariant v.handle fun v => { v with framework := framework } := by
  obtain ⟨q, hq⟩ := hv.path
  rcases r.variantFor_cases hq framework with ⟨w, hw, hwn, he⟩ | ⟨hnew, -⟩
  · obtain rfl := hr.sound.name_inj hw hv (hwn.trans hn.symm)
    let label : Variant → Variant := fun v => { v with framework := framework }
    have hr₁ := wellFormed_maintained.relabel hr hw hn
    have hw₁ : (r.modifyVariant w.handle label).store.Has id (label w) := hw.modify label
    have hskip := register_of_registered hr₁.sound hw₁ hreg
    unfold listFramework
    simp only [he]
    exact hskip
  · exact absurd hn (hnew hv)

/-- Going through a list of registered frameworks changes only their data. -/
theorem foldl_listFramework_again {rest : List Framework} (hr : r.WellFormed)
    (hall : ∀ f ∈ frameworks, ∃ v, r.store.Has id v ∧ v.framework.name = f.name ∧ v.registered = true)
    (hrest : ∀ f ∈ rest, f ∈ frameworks) :
    (rest.foldl (listFramework id) r).calls = r.calls ∧
      (rest.foldl (listFramework id) r).store.relabel id frameworks = r.store.relabel id frameworks := by
  induction rest generalizing r with
  | nil => exact ⟨rfl, rfl⟩
  | cons framework rest ih =>
      have hmem := hrest framework List.mem_cons_self
      obtain ⟨v, hv, hn, hreg⟩ := hall framework hmem
      let label : Variant → Variant := fun v => { v with framework := framework }
      have hone : listFramework id r framework = r.modifyVariant v.handle label :=
        listFramework_of_registered hr hv hreg hn
      have hr₁ := wellFormed_maintained.relabel hr hv hn
      have hall₁ : ∀ f ∈ frameworks, ∃ w, (r.modifyVariant v.handle label).store.Has id w ∧
          w.framework.name = f.name ∧ w.registered = true := by
        intro f hf
        obtain ⟨u, hu, hun, hur⟩ := hall f hf
        refine ⟨changed v.handle label u, has_modifyVariant.2 ⟨u, hu, rfl⟩, ?_⟩
        by_cases hh : u.handle = v.handle
        · obtain rfl := (hr.sound.handle_inj hu hv hh).2
          rw [changed_self]
          exact ⟨hn.symm.trans hun, hur⟩
        · rw [changed_of_ne hh]
          exact ⟨hun, hur⟩
      obtain ⟨hcalls, hstore⟩ := ih hr₁ hall₁ fun f hf => hrest f (List.mem_cons_of_mem _ hf)
      rw [List.foldl_cons, hone]
      exact ⟨hcalls, hstore.trans (relabel_modifyVariant hr.sound hv hmem hn)⟩

/-- A list that has been gone through changes nothing when it is gone through again. -/
theorem Listed.again (hr : Listed frameworks id r) (hid : r.store.path? id = some q) :
    (frameworks.foldl (Reconciler.listFramework id) r).calls = r.calls ∧
      (frameworks.foldl (Reconciler.listFramework id) r).store = r.store := by
  have hall : ∀ f ∈ frameworks, ∃ v, r.store.Has id v ∧ v.framework.name = f.name ∧ v.registered = true := by
    intro f hf
    obtain ⟨v, hv, hn⟩ := hr.there f hf
    exact ⟨v, hv, hn, hr.registered hv ⟨f, hf, hn.symm⟩⟩
  obtain ⟨hcalls, hstore⟩ := foldl_listFramework_again hr.wellFormed hall fun f hf => hf
  have hdone := (listed_nil hr.wellFormed id).foldl hid ⟨[], asks_of_calls hcalls⟩
  refine ⟨hcalls, ?_⟩
  rw [List.nil_append] at hdone
  rw [← relabel_of_current hr.current, ← hstore, relabel_of_current hdone.current]

/-! ### Messages about a project -/

/-- A project is known as a message about it says. -/
structure Described (info : ProjectInformation) (id : Nat) (r : Reconciler) : Prop where
  listed : Listed (info.frameworks.getD []) id r
  exclusive : Exclusive (info.frameworks.getD []) id r.store
  described : ∀ p, r.store.project? id = some p → describe info p = p

/-- Describing a project again changes nothing, whatever has become of its variants. -/
theorem describe_of_heading {info : ProjectInformation} {p p' : Project}
    (h : p'.heading = (describe info p).heading) : describe info p' = p' := by
  obtain ⟨⟩ := p'
  simp only [Project.heading, describe, Project.mk.injEq] at h
  obtain ⟨-, rfl, rfl, rfl, rfl, rfl, -⟩ := h
  unfold describe
  simp only [Project.mk.injEq]
  split <;> simp [*]

/-- Tearing the left out frameworks down leaves only listed ones registered. -/
theorem exclusive_dismantled (hr : r.WellFormed) {p : Project} (hp : r.store.project? id = some p)
    (info : ProjectInformation) {order : List Handle}
    (horder : order.Perm (omitted (describe info p) (info.frameworks.getD []))) :
    (r.dismantled id info order).WellFormed ∧
      Exclusive (info.frameworks.getD []) id (r.dismantled id info order).store := by
  -- what is registered on the way was registered before, and has not been torn down
  obtain ⟨⟨hr', hkept⟩, -⟩ := dismantled_keeps
    (Q := fun done r' => r'.WellFormed ∧ ∀ w, r'.store.Has id w → w.registered = true →
      w.handle ∉ done ∧ ∃ u, (describeIn r.store id info).Has id u ∧ u.handle = w.handle ∧
        u.framework.name = w.framework.name ∧ u.registered = true)
    (fun hQ => hQ.1)
    (fun {done r' v} hQ hv hreg => by
      refine ⟨hQ.1.teardown hv hreg, fun w hw hwr => ?_⟩
      obtain ⟨u, hu, hc⟩ := has_of_teardown hQ.1 hv hreg hw
      by_cases hh : u.handle = v.handle
      · rw [changed_of_eq hh] at hc
        rw [Variant.registered_of_content hc] at hwr
        cases hwr
      · rw [changed_of_ne hh] at hc
        rw [Variant.registered_of_content hc] at hwr
        obtain ⟨hnot, hbefore⟩ := hQ.2 u hu hwr
        rw [Variant.handle_of_content hc, Variant.framework_of_content hc, List.mem_append,
          List.mem_singleton]
        exact ⟨not_or.2 ⟨hnot, hh⟩, hbefore⟩)
    hp horder ⟨wellFormed_maintained.describe id info hr,
      fun w hw hwr => ⟨List.not_mem_nil, w, hw, rfl, rfl, hwr⟩⟩
  refine ⟨hr', fun w hw hwr => ?_⟩
  obtain ⟨hnot, u, ⟨p', hp', hu⟩, hh, hn, hreg⟩ := hkept w hw hwr
  obtain rfl := Option.some.inj (hp'.symm.trans (project?_describeIn hp info))
  by_contra hunlisted
  exact hnot (horder.mem_iff.2 (mem_omitted.2 ⟨u, hu, hreg, hn ▸ hunlisted, hh⟩))

theorem headings_foldl_teardown (id : Nat) (gone : List Handle) (r : Reconciler) :
    (gone.foldl (·.teardown id ·) r).store.headings = r.store.headings :=
  List.foldlRecOn gone (fun (r : Reconciler) h => r.teardown id h)
    (motive := fun r' => r'.store.headings = r.store.headings) rfl
    fun r' hr' h _ => (headings_teardown r' id h).trans hr'

theorem headings_foldl_listFramework (id : Nat) (frameworks : List Framework) (r : Reconciler) :
    (frameworks.foldl (listFramework id) r).store.headings = r.store.headings :=
  List.foldlRecOn frameworks (listFramework id) (motive := fun r' => r'.store.headings = r.store.headings) rfl
    fun r' hr' f _ => (headings_listFramework id r' f).trans hr'

/-- After a message about it, where no call fails, a project is known as the message says. -/
theorem described_of_smooth (hr : r.WellFormed) (hid : r.store.path? id = some q) {info : ProjectInformation}
    (hsmooth : Smooth r (r.applyProjectInformation id info)) :
    Described info id (r.applyProjectInformation id info) := by
  obtain ⟨p, hp, -⟩ := Option.map_eq_some_iff.1 hid
  let r₁ : Reconciler := { r with store := describeIn r.store id info }
  let r₂ := r.dismantled id info (r.visiting.order (omitted (describe info p) (info.frameworks.getD [])))
  have hp₁ : r₁.store.project? id = some (describe info p) := project?_describeIn hp info
  have hid₁ : r₁.store.path? id = some p.path := by
    rw [path?, hp₁, Option.map_some]
    rfl
  have happly : r.applyProjectInformation id info = (info.frameworks.getD []).foldl (listFramework id) r₂ :=
    applyProjectInformation_eq hp info
  obtain ⟨hr₂, hex₂⟩ := exclusive_dismantled hr hp info (r.visiting.perm _)
  have hheadings₂ : r₂.store.headings = r₁.store.headings := headings_foldl_teardown id _ r₁
  have hid₂ : r₂.store.path? id = some p.path := (path?_congr hheadings₂ id).trans hid₁
  rw [happly] at hsmooth ⊢
  have hpre : Precedes r r₂ :=
    precedes_foldl (fun r => r) (fun r h => r.precedes_teardown id h) _ r₁
  obtain ⟨-, hlist⟩ := hsmooth.split hpre (precedes_foldl_listFramework id _ r₂)
  refine ⟨?_, exclusive_foldl hr₂ hid₂ (fun f hf => hf) hex₂ hlist, fun p' hp' => ?_⟩
  · have hlisted := (listed_nil hr₂ id).foldl hid₂ hlist
    rwa [List.nil_append] at hlisted
  · have hheadings := (headings_foldl_listFramework id (info.frameworks.getD []) r₂).trans hheadings₂
    have hheading := heading?_congr hheadings id
    rw [hp', hp₁] at hheading
    exact describe_of_heading (Option.some.inj hheading)

/-- A message that says what is known of a project asks for nothing and changes nothing. -/
theorem Described.again {info : ProjectInformation} (hr : Described info id r)
    (hid : r.store.path? id = some q) :
    (r.applyProjectInformation id info).calls = r.calls ∧
      (r.applyProjectInformation id info).store = r.store := by
  obtain ⟨p, hp, -⟩ := Option.map_eq_some_iff.1 hid
  have hdescribe : describeIn r.store id info = r.store := modifyProject_of_same hr.described
  have hnone : omitted p (info.frameworks.getD []) = [] := by
    refine List.eq_nil_iff_forall_not_mem.2 fun h hmem => ?_
    obtain ⟨v, hv, hreg, hunlisted, -⟩ := mem_omitted.1 hmem
    exact hunlisted (hr.exclusive v ⟨p, hp, hv⟩ hreg)
  have hquiet : r.visiting.order [] = [] := (r.visiting.perm []).eq_nil
  unfold applyProjectInformation
  simp only [hdescribe, hp, Option.map_some, Option.getD_some, hnone, hquiet, List.foldl_nil]
  exact hr.listed.again hid

end Reconciler

end CompilationBridge.Graph
