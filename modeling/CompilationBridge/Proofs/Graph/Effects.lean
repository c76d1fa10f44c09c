import CompilationBridge.Proofs.Graph.Calls
import CompilationBridge.Proofs.Graph.Edges

/-! What the operations of the reconciler do to the graph. Apart from the edges back and the lists of
waiting variants, each of them changes one variant; and each keeps the graph sound and linked, since
what it does to the graph does not depend on whether a workspace call fails, except that a variant is
registered and a reference or document recorded only if the workspace took it. -/

namespace CompilationBridge.Graph

/-- A variant without what other variants recorded at it. -/
def Variant.content (v : Variant) : Variant :=
  { v with dependees := .empty, pending := [] }

/-- Variants of the same content agree in all fields but two. -/
theorem Variant.eq_of_content {a b : Variant} (h : a.content = b.content) :
    a = { b with dependees := a.dependees, pending := a.pending } := by
  obtain ⟨⟩ := a
  obtain ⟨⟩ := b
  simp only [content, Variant.mk.injEq] at h ⊢
  simp only [h, and_self]

theorem Variant.handle_of_content {a b : Variant} (h : a.content = b.content) : a.handle = b.handle := by
  rw [eq_of_content h]

theorem Variant.tidy_of_content {a b : Variant} (h : a.content = b.content) (hb : b.Tidy) : a.Tidy := by
  rw [eq_of_content h]
  exact hb

theorem Variant.framework_of_content {a b : Variant} (h : a.content = b.content) :
    a.framework = b.framework := by
  rw [eq_of_content h]

theorem Variant.registered_of_content {a b : Variant} (h : a.content = b.content) :
    a.registered = b.registered := by
  rw [eq_of_content h]

theorem Variant.projectRefs_of_content {a b : Variant} (h : a.content = b.content) :
    a.projectRefs = b.projectRefs := by
  rw [eq_of_content h]

/-- A variant that the workspace has taken, with nothing waiting for it. -/
def Variant.settle (v : Variant) : Variant :=
  { v with registered := true, pending := [] }

/-- A variant without its reference to the project of a path. -/
def Variant.withoutRef (path : String) (v : Variant) : Variant :=
  { v with projectRefs := v.projectRefs.erase path }

/-- A variant with a reference under the path of a project. -/
def Variant.withRef (path : String) (target : Handle) (v : Variant) : Variant :=
  { v with projectRefs := v.projectRefs.put path target }

/-- A variant with an edge back to a project that references it. -/
def Variant.withBack (path : String) (id : Nat) (v : Variant) : Variant :=
  { v with dependees := v.dependees.put path id }

/-- A variant of which only its name and the edges back are left. -/
def Variant.reset (v : Variant) : Variant :=
  { v with
    registered := false
    loaded := false
    fileRefs := .empty
    rawRefs := .empty
    projectRefs := .empty
    documents := .empty
    compilation := none
    parse := none }

namespace Store

theorem modifyVariant_modifyVariant (s : Store) (h : Handle) {f : Variant → Variant} (g : Variant → Variant)
    (hf : ∀ v, (f v).handle = v.handle) :
    (s.modifyVariant h f).modifyVariant h g = s.modifyVariant h fun v => g (f v) := by
  rw [modifyVariant, modifyVariant, change_change]
  refine change_congr fun {_ p} _ => ?_
  rw [List.map_map]
  congr 1
  refine List.map_congr_left fun v _ => ?_
  by_cases hv : v.handle = h
  · simp [hv, hf]
  · simp [hv]

theorem modifyVariant_id (s : Store) (h : Handle) {f : Variant → Variant} (hf : ∀ v, f v = v) :
    s.modifyVariant h f = s := by
  refine change_of_same fun {_ p} _ => ?_
  simp only [hf, ite_self, List.map_id']

theorem changed_content (h : Handle) {f : Variant → Variant} (hf : ∀ v, (f v).content = v.content)
    (v : Variant) : (changed h f v).content = v.content := by
  unfold changed
  split
  · exact hf v
  · rfl

theorem Keeps.of_content {s : Store} {f g : Variant → Variant} (hf : s.Keeps f)
    (hc : ∀ {i v}, s.Has i v → (g v).content = (f v).content) : s.Keeps g where
  handle hv := (Variant.handle_of_content (hc hv)).trans (hf.handle hv)
  name hv := by
    rw [Variant.framework_of_content (hc hv)]
    exact hf.name hv
  tidy hv := Variant.tidy_of_content (hc hv) (hf.tidy hv)

/-- One store has the variants of another, with one of them changed by a function, up to edges back and
lists of waiting variants. -/
def Alters (s s' : Store) (h : Handle) (f : Variant → Variant) : Prop :=
  ∃ g, Image s s' g ∧ ∀ {i v}, s.Has i v → (g v).content = (changed h f v).content

theorem alters_modify (s : Store) (h : Handle) {f : Variant → Variant} (hf : ∀ v, (f v).handle = v.handle) :
    Alters s (s.modifyVariant h f) h f :=
  ⟨changed h f, image_modify s h hf, fun _ => rfl⟩

theorem Alters.path? {s s' : Store} {h : Handle} {f : Variant → Variant} (ha : Alters s s' h f) (i : Nat) :
    s'.path? i = s.path? i := by
  obtain ⟨g, hi, -⟩ := ha
  exact hi.path i

theorem Alters.of_has {s s' : Store} {h : Handle} {f : Variant → Variant} (ha : Alters s s' h f) {i : Nat}
    {w : Variant} (hw : s'.Has i w) : ∃ v, s.Has i v ∧ w.content = (changed h f v).content := by
  obtain ⟨g, hi, hg⟩ := ha
  obtain ⟨v, hv, rfl⟩ := (hi.has i w).1 hw
  exact ⟨v, hv, hg hv⟩

theorem Alters.has {s s' : Store} {h : Handle} {f : Variant → Variant} (ha : Alters s s' h f) {i : Nat}
    {v : Variant} (hv : s.Has i v) : ∃ w, s'.Has i w ∧ w.content = (changed h f v).content := by
  obtain ⟨g, hi, hg⟩ := ha
  exact ⟨g v, hi.has_image hv, hg hv⟩

end Store

namespace Reconciler

open Store

variable {r : Reconciler} {id : Nat} {v : Variant}

@[simp] theorem modifyVariant_store (r : Reconciler) (h : Handle) (f : Variant → Variant) :
    (r.modifyVariant h f).store = r.store.modifyVariant h f :=
  rfl

/-! ### Variants of a framework -/

/-- The reconciler with a new variant of a project. -/
def created (r : Reconciler) (id : Nat) (framework : Framework) : Reconciler :=
  { r with
    nextHandle := r.nextHandle + 1
    store := r.store.addVariant id { framework := framework, handle := ⟨r.nextHandle⟩ } }

theorem variant?_of_mem {s : Store} {next : Nat} (hs : s.Sound next) {p : Project}
    (hp : s.project? id = some p) (hv : v ∈ p.variants) : p.variant? v.framework.name = some v := by
  cases hfind : p.variant? v.framework.name with
  | none =>
      have hnone := List.find?_eq_none.1 hfind v hv
      simp at hnone
  | some w =>
      have hname : w.framework.name = v.framework.name := by simpa using List.find?_some hfind
      rw [hs.name_inj ⟨p, hp, List.mem_of_find?_eq_some hfind⟩ ⟨p, hp, hv⟩ hname]

theorem any_registered_iff {s : Store} {next : Nat} (hs : s.Sound next) {i : Nat} {f : String} :
    ((s.project? i).bind (·.variant? f)).any (·.registered) = true ↔
      ∃ w, s.Has i w ∧ w.framework.name = f ∧ w.registered = true := by
  constructor
  · intro hany
    cases hfind : (s.project? i).bind (·.variant? f) with
    | none =>
        rw [hfind] at hany
        cases hany
    | some w =>
        rw [hfind] at hany
        obtain ⟨p, hp, hw⟩ := Option.bind_eq_some_iff.1 hfind
        exact ⟨w, ⟨p, hp, List.mem_of_find?_eq_some hw⟩, by simpa using List.find?_some hw, hany⟩
  · intro ⟨w, ⟨p, hp, hmem⟩, hn, hreg⟩
    rw [hp, Option.bind_some, ← hn, variant?_of_mem hs hp hmem]
    exact hreg

theorem variantFor_cases (r : Reconciler) {id : Nat} {q : String} (hid : r.store.path? id = some q)
    (framework : Framework) :
    (∃ v, r.store.Has id v ∧ v.framework.name = framework.name ∧
      r.variantFor id framework = (r, v.handle)) ∨
    ((∀ {v}, r.store.Has id v → v.framework.name ≠ framework.name) ∧
      r.variantFor id framework = (r.created id framework, ⟨r.nextHandle⟩)) := by
  obtain ⟨p, hp, -⟩ := Option.map_eq_some_iff.1 hid
  unfold variantFor
  simp only [hp, Option.bind_some, Project.variant?]
  cases hfind : p.variants.find? (·.framework.name = framework.name) with
  | some v =>
      have hname := List.find?_some hfind
      exact Or.inl ⟨v, ⟨p, hp, List.mem_of_find?_eq_some hfind⟩, by simpa using hname, rfl⟩
  | none =>
      refine Or.inr ⟨?_, rfl⟩
      rintro v ⟨p', hp', hv⟩
      rw [hp, Option.some.injEq] at hp'
      have hnone := List.find?_eq_none.1 hfind v (hp' ▸ hv)
      simpa using hnone

/-! ### Registration -/

theorem register_of_registered (hs : r.store.Sound r.nextHandle) (hv : r.store.Has id v)
    (hreg : v.registered = true) : r.register id v.handle = r := by
  have hfind := hs.variant? hv
  obtain ⟨p, hp, -⟩ := hv
  unfold register
  simp only [hp, hfind, hreg, if_true]

/-- The calls that resolve the references that waited for a variant. -/
def resolvingCalls (v : Variant) : List Workspace.Call :=
  v.pending.map fun referrer => .addProjectReference referrer v.handle

theorem resolvingCalls_outer (v : Variant) : ∀ c ∈ resolvingCalls v, c.method.isOuter = true := by
  intro c hc
  obtain ⟨k, -, rfl⟩ := List.mem_map.1 hc
  rfl

/-- The call that adds a variant to the workspace. -/
def addingCall (p : Project) (v : Variant) : Workspace.Call :=
  .addProject (v.framework.projectInfo v.handle p.name p.path)

theorem register_of_refused (hs : r.store.Sound r.nextHandle) {p : Project}
    (hp : r.store.project? id = some p) (hv : v ∈ p.variants) (hreg : v.registered = false)
    {r' : Reconciler} (hr : r.attempt "adding project" id v.handle (addingCall p v) = (r', false)) :
    r.register id v.handle = r' := by
  have hfind := hs.variant? ⟨p, hp, hv⟩
  rw [addingCall] at hr
  unfold register
  simp only [hp, hfind, hreg, Bool.false_eq_true, if_false, hr]

theorem register_of_taken (hs : r.store.Sound r.nextHandle) {p : Project}
    (hp : r.store.project? id = some p) (hv : v ∈ p.variants) (hreg : v.registered = false)
    {r' : Reconciler} (hr : r.attempt "adding project" id v.handle (addingCall p v) = (r', true)) :
    r.register id v.handle =
      (((r'.modifyVariant v.handle fun v => { v with registered := true }).sendOptions id v).carryOutAll
        "resolving pending reference" id v.handle (resolvingCalls v)).modifyVariant v.handle
        fun v => { v with pending := [] } := by
  have hfind := hs.variant? ⟨p, hp, hv⟩
  rw [addingCall] at hr
  unfold register
  simp only [hp, hfind, hreg, Bool.false_eq_true, if_false, hr, carryOutAll, resolvingCalls,
    List.foldl_map]

theorem makes_register (hs : r.store.Sound r.nextHandle) (hv : r.store.Has id v) :
    Makes r (r.register id v.handle) := by
  cases hreg : v.registered with
  | true =>
      rw [register_of_registered hs hv hreg]
      exact Makes.refl
  | false =>
      obtain ⟨p, hp, hmem⟩ := hv
      have hadd : Makes r (r.carryOut "adding project" id v.handle (addingCall p v)) := Makes.refl.call rfl
      obtain ⟨⟨r', taken⟩, ha⟩ : ∃ result, r.attempt "adding project" id v.handle (addingCall p v) = result :=
        ⟨_, rfl⟩
      rw [carryOut, ha] at hadd
      cases taken with
      | false =>
          rw [register_of_refused hs hp hmem hreg ha]
          exact hadd
      | true =>
          rw [register_of_taken hs hp hmem hreg ha]
          exact (((hadd.store _).sendOptions id v).carryOutAll _ id v.handle (resolvingCalls_outer v)).store _

theorem register_store (hs : r.store.Sound r.nextHandle) (hv : r.store.Has id v) :
    Steady r (r.register id v.handle) ∧
      ((r.register id v.handle).store = r.store ∨
        (v.registered = false ∧
          (r.register id v.handle).store = r.store.modifyVariant v.handle Variant.settle)) := by
  cases hreg : v.registered with
  | true =>
      rw [register_of_registered hs hv hreg]
      exact ⟨⟨rfl, rfl, rfl⟩, Or.inl rfl⟩
  | false =>
      obtain ⟨p, hp, hmem⟩ := hv
      have hcall := r.perform_untouched (addingCall p v)
      rcases r.attempt_cases "adding project" id v.handle (addingCall p v) with ⟨ha, -⟩ | ⟨fault, -, ha⟩
      · have hsent := sendOptions_untouched
          ((r.perform (addingCall p v)).1.modifyVariant v.handle fun v => { v with registered := true }) id v
        have hall := hsent.trans
          (carryOutAll_untouched _ "resolving pending reference" id v.handle (resolvingCalls v))
        rw [register_of_taken hs hp hmem hreg ha]
        refine ⟨⟨hall.nextHandle.trans hcall.nextHandle, hall.sourceExtension.trans hcall.sourceExtension,
          hall.visiting.trans hcall.visiting⟩, Or.inr ⟨rfl, ?_⟩⟩
        rw [modifyVariant_store, hall.store, modifyVariant_store, hcall.store]
        exact modifyVariant_modifyVariant r.store v.handle _ fun _ => rfl
      · rw [register_of_refused hs hp hmem hreg ha]
        exact ⟨⟨hcall.nextHandle, hcall.sourceExtension, hcall.visiting⟩, Or.inl hcall.store⟩

theorem sound_settle (hs : r.store.Sound r.nextHandle) (h : Handle) :
    (r.store.modifyVariant h Variant.settle).Sound r.nextHandle :=
  hs.image (image_modify _ h fun _ => rfl) (hs.keeps h fun _ => ⟨rfl, rfl, fun hv => hv⟩)

theorem linked_settle (hs : r.store.Sound r.nextHandle) (hl : r.store.Linked) (h : Handle) :
    (r.store.modifyVariant h Variant.settle).Linked :=
  hl.modify (fun _ => rfl) (hs.keeps h fun _ => ⟨rfl, rfl, fun hv => hv⟩) (fun _ _ => rfl) (fun _ _ => rfl)
    (fun _ _ => List.nodup_nil) (fun _ _ _ => rfl) (fun _ _ h => nomatch h)

/-! ### References to other projects -/

/-- A variant without the edge back to a project, unless the project has another reference to it. -/
def cutBack (path : String) (others : Bool) (t : Variant) : Variant :=
  if others then t else { t with dependees := t.dependees.erase path }

/-- What withdrawing a reference leaves of its target. -/
def withdrawn (h : Handle) (path : String) (others : Bool) (t : Variant) : Variant :=
  cutBack path others (t.removePending h)

@[simp] theorem cutBack_content (path : String) (others : Bool) (t : Variant) :
    (cutBack path others t).content = t.content := by
  cases others <;> rfl

@[simp] theorem withdrawn_content (h : Handle) (path : String) (others : Bool) (t : Variant) :
    (withdrawn h path others t).content = t.content :=
  cutBack_content path others (t.removePending h)

theorem withdrawn_pending (h : Handle) (path : String) (others : Bool) (t : Variant) :
    (withdrawn h path others t).pending = t.pending.erase h := by
  cases others <;> rfl

theorem withdrawn_dependees (h : Handle) (path : String) (others : Bool) (t : Variant) :
    (withdrawn h path others t).dependees = if others then t.dependees else t.dependees.erase path := by
  cases others <;> rfl

/-- Nothing waits for a registered target, so nothing is withdrawn from its list. -/
theorem withdrawn_of_settled {t : Variant} (ht : t.pending = []) (h : Handle) (path : String)
    (others : Bool) :
    withdrawn h path others t = cutBack path others t := by
  have hnone : t.removePending h = t := by
    obtain ⟨⟩ := t
    subst ht
    rfl
  rw [withdrawn, hnone]

theorem refersTo_withoutRef (hs : r.store.Sound r.nextHandle) (hl : r.store.Linked) {i : Nat} {w : Variant}
    (hv : r.store.Has id v) {path : String} {t : Handle} (hedge : v.projectRefs.get? path = some t)
    (hw : r.store.Has i w) (x : Handle) :
    (changed v.handle (Variant.withoutRef path) w).RefersTo x ↔
      w.RefersTo x ∧ ¬(w.handle = v.handle ∧ x ∈ [t]) := by
  by_cases hh : w.handle = v.handle
  · obtain ⟨rfl, rfl⟩ := hs.handle_inj hw hv hh
    rw [changed_self, List.mem_singleton]
    constructor
    · rintro ⟨p, hp⟩
      simp only [Variant.withoutRef, Table.get?_erase] at hp
      split at hp
      · cases hp
      · rename_i hne
        exact ⟨⟨p, hp⟩, fun h => hne (hl.path_unique hs hw (h.2 ▸ hp) hedge)⟩
    · rintro ⟨⟨p, hp⟩, hne⟩
      refine ⟨p, ?_⟩
      simp only [Variant.withoutRef, Table.get?_erase]
      rw [if_neg]
      · exact hp
      · rintro rfl
        exact hne ⟨rfl, Option.some.inj (hp.symm.trans hedge)⟩
  · rw [changed_of_ne hh]
    exact ⟨fun h => ⟨h, fun h' => hh h'.1⟩, fun h => h.1⟩

theorem keeps_withoutRef (hs : r.store.Sound r.nextHandle) (h : Handle) (path : String) :
    r.store.Keeps (changed h (Variant.withoutRef path)) :=
  hs.keeps h fun _ => ⟨rfl, rfl, fun hv => ⟨hv.1, hv.2.1, Table.keys_erase_nodup hv.2.2.1 path, hv.2.2.2⟩⟩

theorem dropProject_eq {h t : Handle} {path : String} {p : Project} {target : Variant}
    (hp : (r.store.modifyVariant h (Variant.withoutRef path)).project? id = some p)
    (ht : (r.store.modifyVariant h (Variant.withoutRef path)).variant? t = some target) :
    dropProject id h r (path, t) =
      let r₁ := r.modifyVariant h (Variant.withoutRef path)
      let r₂ := if target.registered then
          r₁.carryOut "removing project reference" id h (.removeProjectReference h t)
        else r₁.modifyVariant t (·.removePending h)
      if p.references t none then r₂
      else r₂.modifyVariant t fun u => { u with dependees := u.dependees.erase p.path } := by
  have hp' : (r.modifyVariant h (Variant.withoutRef path)).store.project? id = some p := hp
  have ht' : (r.modifyVariant h (Variant.withoutRef path)).store.variant? t = some target := ht
  unfold dropProject
  unfold Variant.withoutRef at hp' ht' ⊢
  simp only [hp', ht']

theorem dropProject_store {h t : Handle} {path : String} {p : Project} {target : Variant}
    (hp : (r.store.modifyVariant h (Variant.withoutRef path)).project? id = some p)
    (ht : (r.store.modifyVariant h (Variant.withoutRef path)).variant? t = some target) :
    (dropProject id h r (path, t)).store =
      (r.store.modifyVariant h (Variant.withoutRef path)).modifyVariant t
        (if target.registered then cutBack p.path (p.references t none)
          else withdrawn h p.path (p.references t none)) := by
  rw [dropProject_eq hp ht]
  cases target.registered <;> cases p.references t none
  · exact modifyVariant_modifyVariant _ t _ fun _ => rfl
  · rfl
  · simp only [if_true, Bool.false_eq_true, if_false, modifyVariant_store, carryOut_store]
    rfl
  · simp only [if_true, carryOut_store, modifyVariant_store]
    exact (modifyVariant_id _ t fun _ => rfl).symm

theorem variant?_withoutRef (hs : r.store.Sound r.nextHandle) {j : Nat} {u : Variant}
    (hu : r.store.Has j u) (h : Handle) (path : String) :
    (r.store.modifyVariant h (Variant.withoutRef path)).variant? u.handle =
      some (changed h (Variant.withoutRef path) u) := by
  have hkeep : ∀ w, (Variant.withoutRef path w).handle = w.handle := fun _ => rfl
  have hi := image_modify r.store h hkeep
  have hfind := (hs.image hi (keeps_withoutRef hs h path)).variant? (hi.has_image hu)
  rwa [(keeps_withoutRef hs h path).handle hu] at hfind

theorem registered_withoutRef (h : Handle) (path : String) (u : Variant) :
    (changed h (Variant.withoutRef path) u).registered = u.registered := by
  unfold changed
  split <;> rfl

/-- Dropping a reference takes it from its variant and withdraws it at its target. -/
theorem dropProject_image (hs : r.store.Sound r.nextHandle) (hl : r.store.Linked) (hv : r.store.Has id v)
    {path q : String} {t : Handle} (hq : r.store.path? id = some q)
    (hedge : v.projectRefs.get? path = some t) :
    ∃ others : Bool,
      (others = true ↔ ∃ w, r.store.Has id w ∧ w.handle ≠ v.handle ∧ w.RefersTo t) ∧
      Image r.store (dropProject id v.handle r (path, t)).store fun w =>
        changed t (withdrawn v.handle q others) (changed v.handle (Variant.withoutRef path) w) := by
  have hkeep : ∀ w, (Variant.withoutRef path w).handle = w.handle := fun _ => rfl
  have hi := image_modify r.store v.handle hkeep
  have hs₁ := hs.image hi (keeps_withoutRef hs v.handle path)
  obtain ⟨j, ⟨u, hu, rfl⟩, -⟩ := hl.target hv hedge
  have hfind := variant?_withoutRef hs hu v.handle path
  have hreg := registered_withoutRef v.handle path u
  obtain ⟨p, hp, hpq⟩ := Option.map_eq_some_iff.1 ((hi.path id).trans hq)
  have hothers : p.references u.handle none = true ↔
      ∃ w, r.store.Has id w ∧ w.handle ≠ v.handle ∧ w.RefersTo u.handle := by
    rw [references_iff hs₁ hp]
    constructor
    · rintro ⟨x, hx, -, hr⟩
      obtain ⟨w, hw, rfl⟩ := (hi.has id x).1 hx
      have hr' := (refersTo_withoutRef hs hl hv hedge hw _).1 hr
      exact ⟨w, hw, fun hh => hr'.2 ⟨hh, List.mem_singleton_self _⟩, hr'.1⟩
    · rintro ⟨w, hw, hne, hr⟩
      exact ⟨_, hi.has_image hw, nofun,
        (refersTo_withoutRef hs hl hv hedge hw _).2 ⟨hr, fun h => hne h.1⟩⟩
  refine ⟨p.references u.handle none, hothers, ?_⟩
  subst hpq
  rw [dropProject_store hp hfind, hreg]
  have hcut : ∀ t, ((if u.registered then cutBack p.path (p.references u.handle none)
      else withdrawn v.handle p.path (p.references u.handle none)) t).handle = t.handle := by
    intro t
    split
    · exact Variant.handle_of_content (cutBack_content ..)
    · exact Variant.handle_of_content (withdrawn_content ..)
  refine (hi.modify u.handle hcut).congr fun {i w} hw => ?_
  cases hu' : u.registered with
  | false => rfl
  | true =>
      by_cases hh : w.handle = u.handle
      · -- the target itself
        obtain ⟨-, rfl⟩ := hs.handle_inj hw hu hh
        have hpend : (changed v.handle (Variant.withoutRef path) w).pending = [] := by
          have hsettled := hl.settled hw hu'
          unfold changed
          split <;> exact hsettled
        have hh' := (keeps_withoutRef hs v.handle path).handle hw
        rw [changed_of_eq hh', changed_of_eq hh', withdrawn_of_settled hpend]
        rfl
      · have hh' : (changed v.handle (Variant.withoutRef path) w).handle ≠ u.handle := by
          rw [(keeps_withoutRef hs v.handle path).handle hw]
          exact hh
        rw [changed_of_ne hh', changed_of_ne hh']

/-- What dropping a reference makes of a variant. -/
def unlinked (h : Handle) (q : String) (others : Bool) (path : String) (t : Handle) (w : Variant) : Variant :=
  changed t (withdrawn h q others) (changed h (Variant.withoutRef path) w)

theorem unlinked_content (h : Handle) (q : String) (others : Bool) (path : String) (t : Handle)
    (w : Variant) :
    (unlinked h q others path t w).content = (changed h (Variant.withoutRef path) w).content :=
  changed_content t (withdrawn_content h q others) _

/-- Dropping a reference changes one variant, and keeps the graph sound and linked. -/
theorem dropProject_effect (hs : r.store.Sound r.nextHandle) (hl : r.store.Linked) (hv : r.store.Has id v)
    {path : String} {t : Handle} (hedge : v.projectRefs.get? path = some t) :
    Alters r.store (dropProject id v.handle r (path, t)).store v.handle (Variant.withoutRef path) ∧
      (dropProject id v.handle r (path, t)).store.Sound r.nextHandle ∧
      (dropProject id v.handle r (path, t)).store.Linked := by
  obtain ⟨q, hq⟩ := hv.path
  obtain ⟨others, hothers, hi⟩ := dropProject_image hs hl hv hq hedge
  change Image r.store _ (unlinked v.handle q others path t) at hi
  have hc : ∀ {i w}, r.store.Has i w → (unlinked v.handle q others path t w).content =
      (changed v.handle (Variant.withoutRef path) w).content := fun _ => unlinked_content ..
  have hkeeps := (keeps_withoutRef hs v.handle path).of_content hc
  have hrefs : ∀ {i w}, r.store.Has i w → (unlinked v.handle q others path t w).projectRefs =
      (changed v.handle (Variant.withoutRef path) w).projectRefs :=
    fun hw => Variant.projectRefs_of_content (hc hw)
  have hh : ∀ {i w}, r.store.Has i w → (changed v.handle (Variant.withoutRef path) w).handle = w.handle :=
    fun hw => (keeps_withoutRef hs v.handle path).handle hw
  have hstatus : ∀ w, (changed v.handle (Variant.withoutRef path) w).registered = w.registered ∧
      (changed v.handle (Variant.withoutRef path) w).pending = w.pending ∧
      (changed v.handle (Variant.withoutRef path) w).dependees = w.dependees := by
    intro w
    unfold changed
    split <;> exact ⟨rfl, rfl, rfl⟩
  refine ⟨⟨_, hi, hc⟩, hs.image hi hkeeps,
    Linked.withdraw hs hl hi hkeeps hv hq [t] ?_ ?_ ?_ ?_ ?_ ?_⟩
  · intro i w hw p x hp
    rw [hrefs hw] at hp
    by_cases hwv : w.handle = v.handle
    · rw [changed_of_eq hwv] at hp
      simp only [Variant.withoutRef, Table.get?_erase] at hp
      split at hp
      · cases hp
      · exact hp
    · rwa [changed_of_ne hwv] at hp
  · intro i w hw x
    rw [← refersTo_withoutRef hs hl hv hedge hw x, Variant.RefersTo, hrefs hw]
    rfl
  · intro i w hw
    exact (Variant.registered_of_content (hc hw)).trans (hstatus w).1
  · intro i w hw
    rw [unlinked]
    by_cases hwt : w.handle = t
    · rw [if_pos (List.mem_singleton.2 hwt), changed_of_eq ((hh hw).trans hwt), withdrawn_pending,
        (hstatus w).2.1]
    · rw [if_neg fun h => hwt (List.mem_singleton.1 h), changed_of_ne (by rwa [hh hw]), (hstatus w).2.1]
  · intro i w hw hkept
    rw [unlinked]
    by_cases hwt : w.handle = t
    · have hyes : others = true := by
        rcases hkept with hkept | hkept
        · exact absurd (List.mem_singleton.2 hwt) hkept
        · exact hothers.2 (hwt ▸ hkept)
      rw [changed_of_eq ((hh hw).trans hwt), withdrawn_dependees, hyes, if_pos rfl, (hstatus w).2.2]
    · rw [changed_of_ne (by rwa [hh hw]), (hstatus w).2.2]
  · intro i w hw hwt hnone
    rw [List.mem_singleton] at hwt
    have hno : others = false := by
      rw [← Bool.not_eq_true, hothers, ← hwt]
      exact hnone
    rw [unlinked, changed_of_eq ((hh hw).trans hwt), withdrawn_dependees, hno, (hstatus w).2.2]
    rfl

/-- What recording a reference makes of a variant, the list of waiting variants apart. -/
def linked (id : Nat) (h : Handle) (q path : String) (t : Handle) (w : Variant) : Variant :=
  changed h (Variant.withRef path t) (changed t (Variant.withBack q id) w)

theorem linked_image (r : Reconciler) (id : Nat) (h : Handle) (q path : String) (t : Handle) :
    Image r.store ((r.store.modifyVariant t (Variant.withBack q id)).modifyVariant h (Variant.withRef path t))
      (linked id h q path t) := by
  have hback : ∀ w, (Variant.withBack q id w).handle = w.handle := fun _ => rfl
  have href : ∀ w, (Variant.withRef path t w).handle = w.handle := fun _ => rfl
  exact (image_modify r.store t hback).modify h href

theorem linked_fields (id : Nat) (h : Handle) (q path : String) (t : Handle) (w : Variant) :
    (linked id h q path t w).content = (changed h (Variant.withRef path t) w).content ∧
      (linked id h q path t w).pending = w.pending ∧
      (linked id h q path t w).dependees = if w.handle = t then w.dependees.put q id else w.dependees := by
  have hback : (changed t (Variant.withBack q id) w).handle = w.handle := by
    unfold changed
    split <;> rfl
  have hfields : (changed t (Variant.withBack q id) w).content = w.content ∧
      (changed t (Variant.withBack q id) w).pending = w.pending ∧
      (changed t (Variant.withBack q id) w).dependees =
        if w.handle = t then w.dependees.put q id else w.dependees := by
    by_cases ht : w.handle = t
    · rw [changed_of_eq ht, if_pos ht]
      exact ⟨rfl, rfl, rfl⟩
    · rw [changed_of_ne ht, if_neg ht]
      exact ⟨rfl, rfl, rfl⟩
  by_cases hh : w.handle = h
  · rw [linked, changed_of_eq (hback.trans hh), changed_of_eq hh, ← hfields.2.1, ← hfields.2.2]
    exact ⟨congrArg (Variant.withRef path t) hfields.1, rfl, rfl⟩
  · rw [linked, changed_of_ne (by rwa [hback]), changed_of_ne hh]
    exact hfields

theorem keeps_withRef (hs : r.store.Sound r.nextHandle) (h : Handle) (path : String) (t : Handle) :
    r.store.Keeps (changed h (Variant.withRef path t)) :=
  hs.keeps h fun _ => ⟨rfl, rfl, fun hv => ⟨hv.1, hv.2.1, Table.keys_put_nodup hv.2.2.1 path t, hv.2.2.2⟩⟩

theorem keeps_linked (hs : r.store.Sound r.nextHandle) (h : Handle) (q path : String) (t : Handle) :
    r.store.Keeps (linked id h q path t) :=
  (keeps_withRef hs h path t).of_content fun _ => (linked_fields ..).1

theorem link_eq (hs : r.store.Sound r.nextHandle) (h : Handle) (p : Project) {j : Nat} {u : Variant}
    (hu : r.store.Has j u) (path : String) :
    link id h r p path u.handle =
      let r₂ := (r.modifyVariant u.handle (Variant.withBack p.path id)).modifyVariant h
        (Variant.withRef path u.handle)
      if u.registered then
        r₂.carryOut "adding project reference" id h (.addProjectReference h u.handle)
      else r₂.modifyVariant u.handle (·.addPending h) := by
  have hi := linked_image r id h p.path path u.handle
  have hk : r.store.Keeps (linked id h p.path path u.handle) := keeps_linked hs h p.path path u.handle
  have hfind := (hs.image hi hk).variant? (hi.has_image hu)
  rw [hk.handle hu] at hfind
  have hreg : (linked id h p.path path u.handle u).registered = u.registered := by
    rw [Variant.registered_of_content (linked_fields ..).1]
    unfold changed
    split <;> rfl
  have hfind' : ((r.modifyVariant u.handle (Variant.withBack p.path id)).modifyVariant h
      (Variant.withRef path u.handle)).store.variant? u.handle =
        some (linked id h p.path path u.handle u) := hfind
  unfold link
  unfold Variant.withBack Variant.withRef at hfind' ⊢
  simp only [hfind', Option.map_some, Option.getD_some, hreg]
  cases u.registered <;> rfl

/-- What waiting for a target makes of it. -/
def awaited (registered : Bool) (h : Handle) (t : Variant) : Variant :=
  if registered then t else t.addPending h

theorem awaited_fields (registered : Bool) (h : Handle) (t : Variant) :
    (awaited registered h t).content = t.content ∧ (awaited registered h t).dependees = t.dependees := by
  cases registered with
  | true => exact ⟨rfl, rfl⟩
  | false =>
      unfold awaited Variant.addPending
      split
      · exact ⟨rfl, rfl⟩
      · split <;> exact ⟨rfl, rfl⟩

theorem link_image (hs : r.store.Sound r.nextHandle) (h : Handle) (p : Project) {j : Nat} {u : Variant}
    (hu : r.store.Has j u) (path : String) :
    Image r.store (link id h r p path u.handle).store fun w =>
      changed u.handle (awaited u.registered h) (linked id h p.path path u.handle w) := by
  have hstore : (link id h r p path u.handle).store =
      ((r.store.modifyVariant u.handle (Variant.withBack p.path id)).modifyVariant h
        (Variant.withRef path u.handle)).modifyVariant u.handle (awaited u.registered h) := by
    rw [link_eq hs h p hu path]
    cases u.registered with
    | false => rfl
    | true =>
        simp only [if_true, carryOut_store, modifyVariant_store]
        exact (modifyVariant_id _ u.handle fun _ => rfl).symm
  rw [hstore]
  exact (linked_image r id h p.path path u.handle).modify u.handle fun t =>
    Variant.handle_of_content (awaited_fields _ _ t).1

/-- Recording a reference changes one variant, and keeps the graph sound and linked. -/
theorem link_effect (hs : r.store.Sound r.nextHandle) (hl : r.store.Linked) {p : Project}
    (hq : r.store.path? id = some p.path) (hv : r.store.Has id v) {j : Nat} {u : Variant} {path : String}
    (hu : r.store.Has j u) (hj : r.store.path? j = some path) (hnew : v.projectRefs.get? path = none) :
    Alters r.store (link id v.handle r p path u.handle).store v.handle (Variant.withRef path u.handle) ∧
      (link id v.handle r p path u.handle).store.Sound r.nextHandle ∧
      (link id v.handle r p path u.handle).store.Linked := by
  have hi : Image r.store (link id v.handle r p path u.handle).store _ := link_image hs v.handle p hu path
  have hl₂ := linked_fields id v.handle p.path path u.handle
  have hc : ∀ w, (changed u.handle (awaited u.registered v.handle)
      (linked id v.handle p.path path u.handle w)).content =
        (changed v.handle (Variant.withRef path u.handle) w).content :=
    fun w => (changed_content u.handle (fun t => (awaited_fields _ _ t).1) _).trans (hl₂ w).1
  have hkeeps := (keeps_withRef hs v.handle path u.handle).of_content fun _ => hc _
  have hh : ∀ {i w}, r.store.Has i w → (linked id v.handle p.path path u.handle w).handle = w.handle :=
    fun hw => (keeps_linked hs v.handle p.path path u.handle).handle hw
  have hpend : ∀ {i w}, r.store.Has i w → (changed u.handle (awaited u.registered v.handle)
      (linked id v.handle p.path path u.handle w)).pending =
        if w.handle = u.handle ∧ u.registered = false then (w.addPending v.handle).pending
        else w.pending := by
    intro i w hw
    by_cases hwu : w.handle = u.handle
    · rw [changed_of_eq ((hh hw).trans hwu)]
      cases u.registered with
      | true => simpa [awaited] using (hl₂ w).2.1
      | false => simp [awaited, hwu, Variant.addPending_pending, (hl₂ w).2.1]
    · rw [changed_of_ne (by rwa [hh hw]), if_neg fun h => hwu h.1, (hl₂ w).2.1]
  refine ⟨⟨_, hi, fun _ => hc _⟩, hs.image hi hkeeps,
    Linked.link hs hl hi hkeeps hv hq ⟨u, hu, rfl⟩ hj hnew ?_ ?_ ?_ ?_ ?_⟩
  · intro i w hw x
    rw [Variant.projectRefs_of_content (hc w)]
    by_cases hwv : w.handle = v.handle
    · rw [changed_of_eq hwv]
      simp [Variant.withRef, hwv]
    · rw [changed_of_ne hwv]
      simp [hwv]
  · intro i w hw
    rw [Variant.registered_of_content (hc w)]
    unfold changed
    split <;> rfl
  · intro i w hw hreg
    rw [hpend hw, if_neg]
    rintro ⟨hwu, hur⟩
    rw [(hs.handle_inj hw hu hwu).2, hur] at hreg
    cases hreg
  · intro i w hw hreg
    rw [hpend hw]
    by_cases hwu : w.handle = u.handle
    · have hur : u.registered = false := (hs.handle_inj hw hu hwu).2 ▸ hreg
      rw [if_pos ⟨hwu, hur⟩]
      refine ⟨Variant.nodup_pending_addPending (hl.nodup hw) v.handle, fun k => ?_⟩
      rw [Variant.mem_pending_addPending]
      simp [hwu]
    · rw [if_neg fun h => hwu h.1]
      exact ⟨hl.nodup hw, fun k => by simp [hwu]⟩
  · intro i w hw x
    have hdeps : (changed u.handle (awaited u.registered v.handle)
        (linked id v.handle p.path path u.handle w)).dependees =
          (linked id v.handle p.path path u.handle w).dependees := by
      unfold changed
      split
      · exact (awaited_fields ..).2
      · rfl
    rw [hdeps, (hl₂ w).2.2]
    by_cases hwu : w.handle = u.handle
    · simp [hwu]
    · simp [hwu]

end Reconciler

end CompilationBridge.Graph
