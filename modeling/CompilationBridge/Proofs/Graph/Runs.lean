import CompilationBridge.Proofs.Graph.Updates

/-! Runs of the reconciler. A run tracks paths and applies messages in any order. An invariant of all
runs is given by what the single operations keep: between messages it holds by itself, and while one
variant is being updated it holds together with what is known about that variant. -/

namespace CompilationBridge.Graph.Reconciler

open Store

variable {r : Reconciler} {id : Nat} {h : Handle} {v : Variant}

/-- From here on messages visit in another order. -/
def visit (r : Reconciler) (order : Visiting) : Reconciler :=
  { r with visiting := order }

@[simp] theorem visit_store (r : Reconciler) (order : Visiting) : (r.visit order).store = r.store := rfl

@[simp] theorem visit_workspace (r : Reconciler) (order : Visiting) :
    (r.visit order).workspace = r.workspace := rfl

/-- What can happen to a reconciler. The order of visiting may change before any message, so that each
message of a run has an order of its own. -/
inductive Step where
  | track (path : String)
  | visit (order : Visiting)
  | apply (message : Message)

def step (r : Reconciler) : Step → Reconciler
  | .track path => (r.track path).1
  | .visit order => r.visit order
  | .apply message => (r.apply message).1

def run (r : Reconciler) (steps : List Step) : Reconciler :=
  steps.foldl step r

theorem run_append (r : Reconciler) (steps : List Step) (s : Step) :
    r.run (steps ++ [s]) = (r.run steps).step s := by
  rw [run, List.foldl_append, List.foldl_cons, List.foldl_nil]
  rfl

/-- A message for a tracked project, with the graph that it meets. -/
structure Delivery where
  before : Store
  id : Nat
  payload : Payload
deriving DecidableEq

/-- What a message brings to a tracked project. A message that cannot be decoded, is of unknown type or
names no tracked project brings nothing. -/
def delivery? (r : Reconciler) (m : Message) : Option Delivery :=
  match m.decode with
  | .error _ => none
  | .ok (.unknown _ _) => none
  | .ok payload => (r.store.project? m.contextId).map fun _ => ⟨r.store, m.contextId.toNat, payload⟩

theorem apply_eq_of_dropped {m : Message} (hm : r.delivery? m = none) :
    ∃ tally logs, r.apply m = ({ r with tally := tally, logs := logs }, []) := by
  unfold delivery? at hm
  unfold Reconciler.apply
  dsimp only
  split
  · exact ⟨_, _, rfl⟩
  · exact ⟨_, _, rfl⟩
  · rename_i payload hunknown hdecode
    rw [hdecode] at hm
    split at hm
    · rename_i heq
      cases heq
    · rename_i type raw heq
      exact absurd (Except.ok.inj heq) (hunknown type raw)
    · have hnone : (r.countMessage m.type).store.project? m.contextId = none :=
        Option.map_eq_none_iff.1 hm
      rw [hnone]
      exact ⟨_, _, rfl⟩

theorem apply_eq_of_delivered {m : Message} {d : Delivery} (hm : r.delivery? m = some d) :
    d.before = r.store ∧ ∃ p, r.store.project? d.id = some p ∧
      r.apply m = (r.countMessage m.type).applyPayload ⟨d.id, p.path⟩ d.payload := by
  unfold delivery? at hm
  split at hm
  · cases hm
  · cases hm
  · rename_i payload hunknown hdecode
    obtain ⟨p, hp, rfl⟩ := Option.map_eq_some_iff.1 hm
    have hnat : ((m.contextId.toNat : Nat) : Int) = m.contextId := Store.toNat_of_project? hp
    refine ⟨rfl, p, hnat.symm ▸ hp, ?_⟩
    have hp' : (r.countMessage m.type).store.project? m.contextId = some p := hp
    unfold Reconciler.apply
    dsimp only
    split
    · rename_i fault heq
      rw [hdecode] at heq
      cases heq
    · rename_i type raw heq
      rw [hdecode] at heq
      exact absurd (Except.ok.inj heq) (hunknown type raw)
    · rename_i payload' hunknown' heq
      rw [hdecode] at heq
      obtain rfl := Except.ok.inj heq
      rw [hp']

theorem applyPayload_compilerOptions (r : Reconciler) (ref : ProjectRef) (options : CompilerOptions) :
    (r.applyPayload ref (.compilerOptions options)).1 = r.applyCompilerOptions ref.contextId options := by
  unfold applyPayload
  rfl

theorem applyCompilerOptions_eq (r : Reconciler) (id : Nat) (options : CompilerOptions) :
    r.applyCompilerOptions id options = setOptions id (r.ownVariant id options.framework).2
      (r.ownVariant id options.framework).1 options := by
  unfold applyCompilerOptions
  rfl

theorem apply_of_dropped {m : Message} (hm : r.delivery? m = none) :
    ∃ tally logs, (r.apply m).1 = { r with tally := tally, logs := logs } := by
  obtain ⟨tally, logs, heq⟩ := apply_eq_of_dropped hm
  exact ⟨tally, logs, congrArg Prod.fst heq⟩

theorem apply_of_delivered {m : Message} {d : Delivery} (hm : r.delivery? m = some d) :
    d.before = r.store ∧ ∃ p, r.store.project? d.id = some p ∧
      (r.apply m).1 = ((r.countMessage m.type).applyPayload ⟨d.id, p.path⟩ d.payload).1 := by
  obtain ⟨hbefore, p, hp, heq⟩ := apply_eq_of_delivered hm
  exact ⟨hbefore, p, hp, congrArg Prod.fst heq⟩

/-! ### Teardowns of one message -/

/-- A teardown leaves the content of the other variants. -/
theorem teardown_others (hr : r.WellFormed) (hv : r.store.Has id v) (hreg : v.registered = true) {i : Nat}
    {w : Variant} (hw : r.store.Has i w) (hne : w.handle ≠ v.handle) :
    ∃ w', (r.teardown id v.handle).store.Has i w' ∧ w'.content = w.content := by
  obtain ⟨p, hp, hmem⟩ := hv
  have hv : r.store.Has id v := ⟨p, hp, hmem⟩
  obtain ⟨ha, -, -⟩ := tornDown_effect hr.sound hr.linked hp hv hreg
  obtain ⟨w', hw', hc⟩ := ha.has hw
  rw [changed_of_ne hne] at hc
  refine ⟨w', ?_, hc⟩
  rcases teardown_effect hr.sound hr.linked hp hv hreg with he | ⟨he, -, -⟩ <;> rw [he]
  · exact hw'
  · exact has_removeVariant.2 ⟨hw', by rwa [Variant.handle_of_content hc]⟩

/-- What is there after a teardown was there before, with the variant itself emptied. -/
theorem has_of_teardown (hr : r.WellFormed) (hv : r.store.Has id v) (hreg : v.registered = true) {i : Nat}
    {w : Variant} (hw : (r.teardown id v.handle).store.Has i w) :
    ∃ u, r.store.Has i u ∧ w.content = (changed v.handle Variant.reset u).content := by
  obtain ⟨p, hp, hmem⟩ := hv
  have hv : r.store.Has id v := ⟨p, hp, hmem⟩
  obtain ⟨ha, -, -⟩ := tornDown_effect hr.sound hr.linked hp hv hreg
  rcases teardown_effect hr.sound hr.linked hp hv hreg with he | ⟨he, -, -⟩ <;> rw [he] at hw
  · exact ha.of_has hw
  · exact ha.of_has (has_removeVariant.1 hw).1

/-- The handle of a registered variant of a project. -/
def Registers (s : Store) (id : Nat) (h : Handle) : Prop :=
  ∃ v, s.Has id v ∧ v.handle = h ∧ v.registered = true

/-- Tearing several variants down one after the other: each is still there when its turn comes, and so
are the registered variants that are not torn down. -/
theorem foldl_teardown {Q : List Handle → Reconciler → Prop}
    (hwf : ∀ {l r}, Q l r → r.WellFormed)
    (hstep : ∀ {l r v}, Q l r → r.store.Has id v → v.registered = true →
      Q (l ++ [v.handle]) (r.teardown id v.handle))
    {gone : List Handle} (hn : gone.Nodup) (hgone : ∀ h ∈ gone, Registers r.store id h)
    (done : List Handle) (hr : Q done r) :
    Q (done ++ gone) (gone.foldl (·.teardown id ·) r) ∧
      ∀ h, h ∉ gone → Registers r.store id h →
        Registers (gone.foldl (·.teardown id ·) r).store id h := by
  induction gone generalizing r done with
  | nil =>
      rw [List.append_nil]
      exact ⟨hr, fun _ _ hreg => hreg⟩
  | cons h rest ih =>
      rw [List.nodup_cons] at hn
      obtain ⟨v, hv, rfl, hreg⟩ := hgone h List.mem_cons_self
      have hkeep : ∀ k, k ≠ v.handle → Registers r.store id k →
          Registers (r.teardown id v.handle).store id k := by
        rintro k hk ⟨w, hw, rfl, hwr⟩
        obtain ⟨w', hw', hc⟩ := teardown_others (hwf hr) hv hreg hw hk
        exact ⟨w', hw', Variant.handle_of_content hc, (Variant.registered_of_content hc).trans hwr⟩
      have hrest : ∀ k ∈ rest, Registers (r.teardown id v.handle).store id k := fun k hk =>
        hkeep k (fun heq => hn.1 (heq ▸ hk)) (hgone k (List.mem_cons_of_mem _ hk))
      obtain ⟨hQ, hothers⟩ := ih hn.2 hrest _ (hstep hr hv hreg)
      rw [List.append_assoc, List.singleton_append] at hQ
      refine ⟨hQ, fun k hk hkr => ?_⟩
      rw [List.mem_cons, not_or] at hk
      exact hothers k hk.2 (hkeep k hk.1 hkr)

theorem mem_omitted {p : Project} {frameworks : List Framework} {h : Handle} :
    h ∈ omitted p frameworks ↔ ∃ v ∈ p.variants, v.registered = true ∧
      (¬∃ f ∈ frameworks, f.name = v.framework.name) ∧ v.handle = h := by
  simp only [omitted, List.mem_map, List.mem_filter, Bool.and_eq_true, Bool.not_eq_true']
  refine exists_congr fun v => ?_
  rw [← Bool.not_eq_true, List.any_eq_true]
  simp only [decide_eq_true_eq, and_assoc]

theorem omitted_nodup {s : Store} {next : Nat} (hs : s.Sound next) {p : Project}
    (hp : s.project? id = some p) (frameworks : List Framework) : (omitted p frameworks).Nodup := by
  have hn := hs.unique id
  rw [handles, hp] at hn
  exact List.Nodup.sublist (List.filter_sublist.map _) hn

theorem omitted_registers {s : Store} {p : Project} (hp : s.project? id = some p)
    (frameworks : List Framework) : ∀ h ∈ omitted p frameworks, Registers s id h := by
  intro h hh
  obtain ⟨v, hv, hreg, -, rfl⟩ := mem_omitted.1 hh
  exact ⟨v, ⟨p, hp, hv⟩, rfl, hreg⟩

/-- The reconciler in the middle of a message about a project: the project has been described anew and
some of the variants that the message leaves out have been torn down. -/
def dismantled (r : Reconciler) (id : Nat) (info : ProjectInformation) (done : List Handle) : Reconciler :=
  done.foldl (·.teardown id ·) { r with store := describeIn r.store id info }

/-- A message about a project with the variants that it leaves out visited in a given order. -/
def applyInOrder (r : Reconciler) (id : Nat) (info : ProjectInformation) (order : List Handle) : Reconciler :=
  (info.frameworks.getD []).foldl (listFramework id) (r.dismantled id info order)

theorem applyProjectInformation_eq {p : Project} (hp : r.store.project? id = some p)
    (info : ProjectInformation) : r.applyProjectInformation id info =
      r.applyInOrder id info (r.visiting.order (omitted (describe info p) (info.frameworks.getD []))) := by
  unfold applyProjectInformation applyInOrder dismantled
  simp only [project?_describeIn hp, Option.map_some, Option.getD_some]

/-- What every teardown keeps holds when all variants that a message leaves out are down, in whatever order
they are visited; the other registered variants are still there. -/
theorem dismantled_keeps {Q : List Handle → Reconciler → Prop}
    (hwf : ∀ {l r}, Q l r → r.WellFormed)
    (hstep : ∀ {l r v}, Q l r → r.store.Has id v → v.registered = true →
      Q (l ++ [v.handle]) (r.teardown id v.handle))
    {p : Project} (hp : r.store.project? id = some p) {info : ProjectInformation} {order : List Handle}
    (horder : order.Perm (omitted (describe info p) (info.frameworks.getD [])))
    (hr : Q [] { r with store := describeIn r.store id info }) :
    Q order (r.dismantled id info order) ∧
      ∀ h, h ∉ order → Registers (describeIn r.store id info) id h →
        Registers (r.dismantled id info order).store id h := by
  have hp₁ := project?_describeIn hp info
  have hn := omitted_nodup (hwf hr).sound hp₁ (info.frameworks.getD [])
  exact foldl_teardown (Q := Q) hwf hstep (horder.nodup_iff.2 hn)
    (fun h hh => omitted_registers hp₁ _ h (horder.mem_iff.1 hh)) [] hr

/-! ### Invariants of runs -/

/-- A property that holds between messages, and one that holds while a variant is updated, which the
operations of the reconciler keep, apart from tearing a variant down and from marking it as loaded. -/
structure Kept (P : Reconciler → Prop) (W : Nat → Handle → Reconciler → Prop) : Prop where
  wellFormed : ∀ {r}, P r → r.WellFormed
  quiet : ∀ {r} tally logs, P r → P { r with tally := tally, logs := logs }
  visit : ∀ {r} order, P r → P (r.visit order)
  track : ∀ {r} path, P r → P { r with store := (r.store.track path).1 }
  describe : ∀ {r} id info, P r → P { r with store := describeIn r.store id info }
  create : ∀ {r j q framework}, P r → r.store.path? j = some q →
    (∀ {v}, r.store.Has j v → v.framework.name ≠ framework.name) → P (r.created j framework)
  relabel : ∀ {r id v} {framework : Framework}, P r → r.store.Has id v →
    v.framework.name = framework.name →
    P (r.modifyVariant v.handle fun v => { v with framework := framework })
  register : ∀ {r id v}, P r → r.store.Has id v → W id v.handle (r.register id v.handle)
  done : ∀ {r id h}, W id h r → P r
  entries : ∀ slot id h, EntryUpdates slot id h (W id h)
  edges : ∀ id h, EdgeUpdates id h (W id h)
  setOptions : ∀ {r id h} options, W id h r → W id h (setOptions id h r options)

/-- The same of all operations. -/
structure Maintained (P : Reconciler → Prop) (W : Nat → Handle → Reconciler → Prop) : Prop
    extends Kept P W where
  teardown : ∀ {r id v}, P r → r.store.Has id v → v.registered = true → P (r.teardown id v.handle)
  markLoaded : ∀ {r id h}, W id h r → W id h (r.modifyVariant h fun v => { v with loaded := true })

variable {P : Reconciler → Prop} {W : Nat → Handle → Reconciler → Prop} {q : String}

theorem Kept.variantFor (hP : Kept P W) (hr : P r) (hid : r.store.path? id = some q)
    (framework : Framework) :
    P (r.variantFor id framework).1 ∧ ∃ v, (r.variantFor id framework).1.store.Has id v ∧
      v.framework.name = framework.name ∧ (r.variantFor id framework).2 = v.handle := by
  rcases r.variantFor_cases hid framework with ⟨v, hv, hn, he⟩ | ⟨hnew, he⟩ <;> rw [he]
  · exact ⟨hr, v, hv, hn, rfl⟩
  · exact ⟨hP.create hr hid hnew, { framework := framework, handle := ⟨r.nextHandle⟩ },
      (has_addVariant ⟨q, hid⟩).2 (Or.inr ⟨rfl, rfl⟩), rfl, rfl⟩

theorem Kept.ownVariant (hP : Kept P W) (hr : P r) (hid : r.store.path? id = some q)
    (framework : Framework) :
    W id (r.ownVariant id framework).2 (r.ownVariant id framework).1 := by
  obtain ⟨hr', v, hv, -, hh⟩ := hP.variantFor hr hid framework
  change W id (r.variantFor id framework).2
    ((r.variantFor id framework).1.register id (r.variantFor id framework).2)
  rw [hh]
  exact hP.register hr' hv

theorem Kept.applyReferences (hP : Kept P W) (hr : P r) (hid : r.store.path? id = some q)
    (refs : References) : P (r.applyReferences id refs).1 :=
  hP.done (setReferences_keeps (hP.entries ..) (hP.entries ..) (hP.edges ..)
    (hP.ownVariant hr hid refs.framework) refs)

theorem Kept.applyCompilerOptions (hP : Kept P W) (hr : P r) (hid : r.store.path? id = some q)
    (options : CompilerOptions) : P (r.applyCompilerOptions id options) :=
  hP.done (hP.setOptions options (hP.ownVariant hr hid options.framework))

/-- The id of a project stands for its path for good. -/
theorem path?_teardown (hr : r.WellFormed) (hv : r.store.Has id v) (hreg : v.registered = true) (i : Nat) :
    (r.teardown id v.handle).store.path? i = r.store.path? i := by
  obtain ⟨p, hp, hmem⟩ := hv
  have hv : r.store.Has id v := ⟨p, hp, hmem⟩
  obtain ⟨ha, -, -⟩ := tornDown_effect hr.sound hr.linked hp hv hreg
  rcases teardown_effect hr.sound hr.linked hp hv hreg with he | ⟨he, -, -⟩ <;> rw [he]
  · exact ha.path? i
  · exact (path?_removeVariant ..).trans (ha.path? i)

theorem path?_register (hs : r.store.Sound r.nextHandle) (hv : r.store.Has id v) (i : Nat) :
    (r.register id v.handle).store.path? i = r.store.path? i := by
  obtain ⟨-, he | ⟨-, he⟩⟩ := register_store hs hv <;> rw [he]
  exact path?_modifyVariant ..

theorem Kept.listFramework (hP : Kept P W) (hr : P r) (hid : r.store.path? id = some q)
    (framework : Framework) : P (listFramework id r framework) ∧
      (listFramework id r framework).store.path? id = some q := by
  obtain ⟨hr', v, hv, hn, hh⟩ := hP.variantFor hr hid framework
  have hpath : (r.variantFor id framework).1.store.path? id = some q := by
    rcases r.variantFor_cases hid framework with ⟨_, _, _, he⟩ | ⟨_, he⟩ <;> rw [he]
    · exact hid
    · exact (path?_addVariant ..).trans hid
  have hlist : Reconciler.listFramework id r framework =
      ((r.variantFor id framework).1.modifyVariant (r.variantFor id framework).2
        fun v => { v with framework := framework }).register id (r.variantFor id framework).2 := rfl
  have hr₁ := hP.relabel hr' hv hn
  have hv₁ := hv.modify fun v => { v with framework := framework }
  have hW := hP.register hr₁ hv₁
  have hkeep := path?_register (hP.wellFormed hr₁).sound hv₁ id
  rw [hlist, hh]
  exact ⟨hP.done hW, hkeep.trans ((path?_modifyVariant ..).trans hpath)⟩

theorem Maintained.applyProjectInformation (hP : Maintained P W) (hr : P r)
    (hid : r.store.path? id = some q) (info : ProjectInformation) :
    P (r.applyProjectInformation id info) := by
  have hr₁ := hP.describe id info hr
  have hid₁ : (describeIn r.store id info).path? id = some q := (path?_describeIn id).trans hid
  obtain ⟨p, hp, -⟩ := Option.map_eq_some_iff.1 hid
  rw [applyProjectInformation_eq hp]
  obtain ⟨⟨hr₂, hid₂⟩, -⟩ := dismantled_keeps
    (Q := fun _ r => P r ∧ r.store.path? id = some q) (fun hr => hP.wellFormed hr.1)
    (fun hr hv hreg => ⟨hP.teardown hr.1 hv hreg,
      (path?_teardown (hP.wellFormed hr.1) hv hreg id).trans hr.2⟩)
    hp (r.visiting.perm _) ⟨hr₁, hid₁⟩
  have hlist : P _ ∧ _ := List.foldlRecOn (info.frameworks.getD []) (Reconciler.listFramework id)
    (motive := fun r => P r ∧ r.store.path? id = some q) ⟨hr₂, hid₂⟩
    fun r hr f _ => hP.listFramework hr.1 hr.2 f
  exact hlist.1

theorem Maintained.applyPayload (hP : Maintained P W) (hr : P r) {ref : ProjectRef}
    (hid : r.store.path? ref.contextId = some q) (payload : Payload) :
    P (r.applyPayload ref payload).1 := by
  cases payload with
  | projectInformation info => exact hP.applyProjectInformation hr hid info
  | references refs => exact hP.applyReferences hr hid refs
  | dependencies deps => exact hP.done (hP.ownVariant hr hid deps.framework)
  | compilerOptions options => exact hP.applyCompilerOptions hr hid options
  | sources sources =>
      exact hP.done (setSources_keeps (hP.entries ..) hP.markLoaded
        (hP.ownVariant hr hid sources.framework) sources)
  | hostError e => exact hr
  | unknown type raw => exact hr

theorem Maintained.apply (hP : Maintained P W) (hr : P r) (m : Message) : P (r.apply m).1 := by
  cases hd : r.delivery? m with
  | none =>
      obtain ⟨tally, logs, heq⟩ := apply_of_dropped hd
      rw [heq]
      exact hP.quiet tally logs hr
  | some d =>
      obtain ⟨-, p, hp, heq⟩ := apply_of_delivered hd
      have hcount : P (r.countMessage m.type) := hP.quiet _ r.logs hr
      have hid : (r.countMessage m.type).store.path? d.id = some p.path := by
        change (r.store.project? d.id).map _ = _
        rw [hp, Option.map_some]
      rw [heq]
      exact hP.applyPayload hcount hid d.payload

/-- **Invariants of runs.** What the operations keep holds after any run. -/
theorem Maintained.run (hP : Maintained P W) (hr : P r) (steps : List Step) : P (r.run steps) :=
  List.foldlRecOn steps step hr fun r hr s _ => by
    cases s with
    | track path => exact hP.track path hr
    | visit order => exact hP.visit order hr
    | apply m => exact hP.apply hr m

end CompilationBridge.Graph.Reconciler
