import CompilationBridge.Proofs.Graph.Effects

/-! Teardown of a framework. The variant withdraws its own references and is emptied; the variants that
refer to it wait for it from then on. It is forgotten only if nothing refers to it, and this keeps the
graph sound and linked. -/

namespace CompilationBridge.Graph.Reconciler

open Store

variable {r : Reconciler} {id : Nat} {v : Variant}

/-- The graph when a variant has withdrawn its references and has been emptied. -/
def emptied (s : Store) (p : Project) (v : Variant) : Store :=
  (v.projectRefs.values.foldl (withdrawEdge p.path p v.handle) s).modifyVariant v.handle Variant.reset

/-- The handles of the variants with a reference to a variant under a path. -/
def referrers (s : Store) (path : String) (h : Handle) : List Handle :=
  (s.variants.filter (·.projectRefs.get? path = some h)).map (·.handle)

/-- The graph when a variant has been torn down, before it may be forgotten. -/
def tornDown (s : Store) (p : Project) (v : Variant) : Store :=
  (emptied s p v).modifyVariant v.handle fun w =>
    (referrers (emptied s p v) p.path v.handle).foldl Variant.addPending w

/-- The reconciler when a variant has been taken out of the workspace and torn down. -/
def afterTeardown (r : Reconciler) (id : Nat) (p : Project) (v : Variant) : Reconciler :=
  { { r with store := v.projectRefs.values.foldl (withdrawEdge p.path p v.handle) r.store }.carryOut
      "removing project" id v.handle (.removeProject v.handle) with
    store := tornDown r.store p v }

theorem teardown_eq (hs : r.store.Sound r.nextHandle) {p : Project} (hp : r.store.project? id = some p)
    (hv : r.store.Has id v) {w : Variant} (hw : (tornDown r.store p v).variant? v.handle = some w) :
    r.teardown id v.handle =
      if w.dependees.isEmpty && w.pending.isEmpty then
        { r.afterTeardown id p v with store := (tornDown r.store p v).removeVariant v.handle }
      else r.afterTeardown id p v := by
  have hfind := hs.variant? hv
  unfold teardown
  simp only [hp, hfind, modifyVariant, carryOut_store]
  unfold tornDown emptied referrers Variant.reset at hw
  simp only [hw]
  rfl

/-! ### Withdrawing all references -/

/-- A variant without references to other projects. -/
def noRefs (w : Variant) : Variant :=
  { w with projectRefs := .empty }

/-- The graph when a variant has withdrawn its references. -/
def withdrawnAll (s : Store) (p : Project) (v : Variant) : Store :=
  (v.projectRefs.values.foldl (withdrawEdge p.path p v.handle) s).modifyVariant v.handle noRefs

/-- What withdrawing the references of a variant makes of another one. -/
def leftBy (p : Project) (v w : Variant) : Variant :=
  if w.handle ∈ v.projectRefs.values then
    withdrawn v.handle p.path (p.references w.handle (some v.handle)) w
  else w

theorem leftBy_content (p : Project) (v w : Variant) : (leftBy p v w).content = w.content := by
  unfold leftBy
  split
  · exact withdrawn_content ..
  · rfl

theorem foldl_withdrawEdge_image (hs : r.store.Sound r.nextHandle) (hl : r.store.Linked)
    (hv : r.store.Has id v) (p : Project) :
    Image r.store (v.projectRefs.values.foldl (withdrawEdge p.path p v.handle) r.store) (leftBy p v) :=
  image_foldl_modify r.store (fun t => withdrawn v.handle p.path (p.references t (some v.handle)))
    (fun _ w => Variant.handle_of_content (withdrawn_content v.handle p.path _ w)) (hl.values_nodup hs hv)

theorem keeps_noRefs (hs : r.store.Sound r.nextHandle) (h : Handle) : r.store.Keeps (changed h noRefs) :=
  hs.keeps h fun _ => ⟨rfl, rfl, fun hv => ⟨hv.1, hv.2.1, List.nodup_nil, hv.2.2.2⟩⟩

theorem withdrawnAll_effect (hs : r.store.Sound r.nextHandle) (hl : r.store.Linked) {p : Project}
    (hp : r.store.project? id = some p) (hv : r.store.Has id v) :
    ∃ g, Image r.store (withdrawnAll r.store p v) g ∧ r.store.Keeps g ∧
      (∀ {i w}, r.store.Has i w → (g w).content = (changed v.handle noRefs w).content) ∧
      (∀ {i w}, r.store.Has i w → w.pending = [] → (g w).pending = []) ∧
      (withdrawnAll r.store p v).Linked := by
  have hq : r.store.path? id = some p.path := by rw [path?, hp, Option.map_some]
  have hkeep : ∀ w, (noRefs w).handle = w.handle := fun _ => rfl
  have hi := (foldl_withdrawEdge_image hs hl hv p).modify v.handle hkeep
  have hleft : ∀ w, (leftBy p v w).handle = w.handle :=
    fun w => Variant.handle_of_content (leftBy_content p v w)
  have hc : ∀ w, (changed v.handle noRefs (leftBy p v w)).content = (changed v.handle noRefs w).content := by
    intro w
    by_cases hw : w.handle = v.handle
    · rw [changed_of_eq hw, changed_of_eq ((hleft w).trans hw)]
      exact congrArg noRefs (leftBy_content p v w)
    · rw [changed_of_ne hw, changed_of_ne (by rwa [hleft]), leftBy_content]
  have hkeeps := (keeps_noRefs hs v.handle).of_content fun _ => hc _
  have hpend : ∀ w, (changed v.handle noRefs (leftBy p v w)).pending =
      if w.handle ∈ v.projectRefs.values then w.pending.erase v.handle else w.pending := by
    intro w
    have hno : (changed v.handle noRefs (leftBy p v w)).pending = (leftBy p v w).pending := by
      unfold changed
      split <;> rfl
    rw [hno, leftBy]
    split
    · exact withdrawn_pending ..
    · rfl
  have hdeps : ∀ w, (changed v.handle noRefs (leftBy p v w)).dependees = (leftBy p v w).dependees := by
    intro w
    unfold changed
    split <;> rfl
  have hothers : ∀ t, (p.references t (some v.handle) = true ↔
      ∃ w, r.store.Has id w ∧ w.handle ≠ v.handle ∧ w.RefersTo t) := by
    intro t
    rw [references_iff hs hp]
    simp only [ne_eq, Option.some.injEq]
  refine ⟨_, hi, hkeeps, fun _ => hc _, fun {i w} _ hw => ?_, Linked.withdraw hs hl hi hkeeps hv hq
    v.projectRefs.values ?_ ?_ ?_ (fun _ => hpend _) ?_ ?_⟩
  · rw [hpend, hw, List.erase_nil, ite_self]
  · intro i w hw path t hpath
    rw [Variant.projectRefs_of_content (hc w)] at hpath
    by_cases hwv : w.handle = v.handle
    · rw [changed_of_eq hwv] at hpath
      cases hpath
    · rwa [changed_of_ne hwv] at hpath
  · intro i w hw t
    rw [Variant.RefersTo, Variant.projectRefs_of_content (hc w)]
    by_cases hwv : w.handle = v.handle
    · rw [changed_of_eq hwv]
      constructor
      · rintro ⟨path, hpath⟩
        cases hpath
      · rintro ⟨hr, hnot⟩
        refine absurd ⟨hwv, ?_⟩ hnot
        rw [hs.mem_values hv, ← (hs.handle_inj hw hv hwv).2]
        exact hr
    · rw [changed_of_ne hwv]
      exact ⟨fun h => ⟨h, fun h' => hwv h'.1⟩, fun h => h.1⟩
  · intro i w hw
    rw [Variant.registered_of_content (hc w)]
    unfold changed
    split <;> rfl
  · intro i w hw hkept
    rw [hdeps, leftBy]
    split
    · rename_i hmem
      rw [withdrawn_dependees, if_pos]
      rcases hkept with hkept | hkept
      · exact absurd hmem hkept
      · exact (hothers _).2 hkept
    · rfl
  · intro i w hw hmem hnone
    rw [hdeps, leftBy, if_pos hmem, withdrawn_dependees, if_neg]
    rw [hothers]
    exact hnone

/-! ### Waiting for the framework to come back -/

theorem mem_referrers {s : Store} {next : Nat} (hs : s.Sound next) (hl : s.Linked) {w : Variant}
    (hw : s.Has id w) {path : String} (hpath : s.path? id = some path) (k : Handle) :
    k ∈ referrers s path w.handle ↔ ∃ a u, s.Has a u ∧ u.handle = k ∧ u.RefersTo w.handle := by
  simp only [referrers, List.mem_map, List.mem_filter, decide_eq_true_eq, mem_variants]
  constructor
  · rintro ⟨u, ⟨⟨a, hu⟩, hr⟩, hk⟩
    exact ⟨a, u, hu, hk, path, hr⟩
  · rintro ⟨a, u, hu, hk, q, hq⟩
    -- a reference stands under the path of the project that owns its target
    obtain ⟨j, ⟨x, hx, hxw⟩, hj⟩ := hl.target hu hq
    obtain ⟨rfl, -⟩ := hs.handle_inj hx hw hxw
    rw [hpath, Option.some.injEq] at hj
    exact ⟨u, ⟨⟨a, hu⟩, hj ▸ hq⟩, hk⟩

theorem emptied_eq (s : Store) (p : Project) (v : Variant) :
    emptied s p v = (withdrawnAll s p v).modifyVariant v.handle Variant.reset := by
  have hkeep : ∀ w : Variant, (noRefs w).handle = w.handle := fun _ => rfl
  rw [withdrawnAll, modifyVariant_modifyVariant _ v.handle _ hkeep]
  rfl

theorem tornDown_eq (s : Store) (p : Project) (v : Variant) :
    tornDown s p v = (withdrawnAll s p v).modifyVariant v.handle fun w =>
      (referrers (emptied s p v) p.path v.handle).foldl Variant.addPending w.reset := by
  rw [tornDown, emptied_eq]
  exact modifyVariant_modifyVariant _ v.handle _ fun _ => rfl

theorem addPending_foldl (waiting : List Handle) (w : Variant) :
    (waiting.foldl Variant.addPending w).content = w.content ∧
      (waiting.foldl Variant.addPending w).dependees = w.dependees ∧
      (w.pending.Nodup → (waiting.foldl Variant.addPending w).pending.Nodup) ∧
      ∀ k, (k ∈ (waiting.foldl Variant.addPending w).pending ↔ k ∈ w.pending ∨ k ∈ waiting) := by
  induction waiting generalizing w with
  | nil => exact ⟨rfl, rfl, fun h => h, fun k => by simp⟩
  | cons h rest ih =>
      have hfields := awaited_fields false h w
      obtain ⟨hc, hd, hn, hm⟩ := ih (w.addPending h)
      refine ⟨hc.trans hfields.1, hd.trans hfields.2,
        fun hw => hn (Variant.nodup_pending_addPending hw h), fun k => ?_⟩
      rw [List.foldl_cons, hm, Variant.mem_pending_addPending, List.mem_cons, or_assoc]

/-- Tearing a variant down empties it, and keeps the graph sound and linked. -/
theorem tornDown_effect (hs : r.store.Sound r.nextHandle) (hl : r.store.Linked) {p : Project}
    (hp : r.store.project? id = some p) (hv : r.store.Has id v) (hreg : v.registered = true) :
    Alters r.store (tornDown r.store p v) v.handle Variant.reset ∧
      (tornDown r.store p v).Sound r.nextHandle ∧ (tornDown r.store p v).Linked := by
  obtain ⟨g, hi, hkeeps, hc, hpend, hl₁⟩ := withdrawnAll_effect hs hl hp hv
  have hs₁ := hs.image hi hkeeps
  have hq : (withdrawnAll r.store p v).path? id = some p.path := by
    rw [hi.path, path?, hp, Option.map_some]
  have hv₁ := hi.has_image hv
  have hh₁ := hkeeps.handle hv
  have hempty : (g v).projectRefs = .empty := by
    rw [Variant.projectRefs_of_content (hc hv), changed_self]
    rfl
  -- the variant itself is the only one with its handle
  have hself : ∀ {i w}, (withdrawnAll r.store p v).Has i w → w.handle = v.handle → w = g v :=
    fun hw hh => (hs₁.handle_inj hw hv₁ (hh.trans hh₁.symm)).2
  have hwaiting : ∀ k, k ∈ referrers (emptied r.store p v) p.path v.handle ↔
      ∃ a u, (withdrawnAll r.store p v).Has a u ∧ u.handle = k ∧ u.RefersTo v.handle := by
    intro k
    have hmem := mem_referrers hs₁ hl₁ hv₁ hq k
    rw [hh₁] at hmem
    rw [← hmem]
    simp only [referrers, List.mem_map, List.mem_filter, decide_eq_true_eq, mem_variants, emptied_eq,
      has_modifyVariant]
    constructor
    · rintro ⟨_, ⟨⟨a, u, hu, rfl⟩, hr⟩, hk⟩
      by_cases hh : u.handle = v.handle
      · rw [changed_of_eq hh] at hr
        cases hr
      · rw [changed_of_ne hh] at hr hk
        exact ⟨u, ⟨⟨a, hu⟩, hr⟩, hk⟩
    · rintro ⟨u, ⟨⟨a, hu⟩, hr⟩, hk⟩
      have hne : u.handle ≠ v.handle := by
        intro hh
        rw [hself hu hh, hempty] at hr
        cases hr
      exact ⟨u, ⟨⟨a, u, hu, (changed_of_ne hne).symm⟩, hr⟩, hk⟩
  have hfold := fun w : Variant => addPending_foldl (referrers (emptied r.store p v) p.path v.handle) w.reset
  have hkeeps₁ : (withdrawnAll r.store p v).Keeps (changed v.handle fun w =>
      (referrers (emptied r.store p v) p.path v.handle).foldl Variant.addPending w.reset) :=
    hs₁.keeps v.handle fun w => by
      rw [Variant.handle_of_content (hfold w).1, Variant.framework_of_content (hfold w).1]
      exact ⟨rfl, rfl, fun _ => Variant.tidy_of_content (hfold w).1
        ⟨List.nodup_nil, List.nodup_nil, List.nodup_nil, List.nodup_nil⟩⟩
  have hkeep : ∀ w : Variant, ((referrers (emptied r.store p v) p.path v.handle).foldl Variant.addPending
      w.reset).handle = w.handle := by
    intro w
    rw [Variant.handle_of_content (hfold w).1]
    rfl
  rw [tornDown_eq]
  refine ⟨⟨_, hi.modify v.handle hkeep, fun {i w} hw => ?_⟩, hs₁.image (image_modify _ _ hkeep) hkeeps₁,
    hl₁.modify hkeep hkeeps₁ ?_ ?_ ?_ ?_ ?_⟩
  · by_cases hh : w.handle = v.handle
    · rw [changed_of_eq ((hkeeps.handle hw).trans hh), (hfold _).1, changed_of_eq hh]
      have hcw := hc hw
      rw [changed_of_eq hh] at hcw
      exact congrArg Variant.reset hcw
    · rw [changed_of_ne (by rwa [hkeeps.handle hw]), hc hw, changed_of_ne hh, changed_of_ne hh]
  · intro i w hw hh
    rw [Variant.projectRefs_of_content (hfold w).1, hself hw hh, hempty]
    rfl
  · intro i w hw hh
    exact (hfold w).2.1
  · intro i w hw hh
    have hn : w.pending.Nodup := hl₁.nodup hw
    exact (hfold w).2.2.1 hn
  · intro i w hw hh hr
    rw [Variant.registered_of_content (hfold w).1] at hr
    cases hr
  · intro i w hw hh _ k
    rw [(hfold w).2.2.2, hwaiting]
    have hnone : w.reset.pending = [] := by
      rw [hself hw hh]
      exact hpend hv (hl.settled hv hreg)
    rw [hnone]
    simp

/-! ### Forgetting -/

/-- **What a teardown does to the graph.** The variant stays, emptied, unless nothing refers to it. -/
theorem teardown_effect (hs : r.store.Sound r.nextHandle) (hl : r.store.Linked) {p : Project}
    (hp : r.store.project? id = some p) (hv : r.store.Has id v) (hreg : v.registered = true) :
    r.teardown id v.handle = r.afterTeardown id p v ∨
      (r.teardown id v.handle =
        { r.afterTeardown id p v with store := (tornDown r.store p v).removeVariant v.handle } ∧
        (∀ {i w}, (tornDown r.store p v).Has i w → ¬w.RefersTo v.handle) ∧
        ((tornDown r.store p v).removeVariant v.handle).Linked) := by
  obtain ⟨ha, hs₁, hl₁⟩ := tornDown_effect hs hl hp hv hreg
  obtain ⟨w, hw, hc⟩ := ha.has hv
  rw [changed_self] at hc
  have hh : w.handle = v.handle := by
    rw [Variant.handle_of_content hc]
    rfl
  have hfind : (tornDown r.store p v).variant? v.handle = some w := hh ▸ hs₁.variant? hw
  rw [teardown_eq hs hp hv hfind]
  split
  · rename_i hnone
    rw [Bool.and_eq_true, List.isEmpty_iff] at hnone
    have hunreg : w.registered = false := Variant.registered_of_content hc
    have hin : ∀ {i u}, (tornDown r.store p v).Has i u → ¬u.RefersTo v.handle := by
      intro i u hu hr
      have hmem := (hl₁.waiting hw hunreg u.handle).2 ⟨i, u, hu, rfl, hh ▸ hr⟩
      rw [hnone.2] at hmem
      cases hmem
    refine Or.inr ⟨rfl, hin, hl₁.removeVariant hin fun {i u} hu huh t => ?_⟩
    rw [(hs₁.handle_inj hu hw (huh.trans hh.symm)).2]
    rintro ⟨path, hpath⟩
    rw [Variant.projectRefs_of_content hc] at hpath
    cases hpath
  · exact Or.inl rfl

end CompilationBridge.Graph.Reconciler
