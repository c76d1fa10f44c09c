import CompilationBridge.Proofs.Graph.Mirror

/-! The workspace mirrors the graph in every run in which no call is made to fail. A reference to another
project is in the workspace as long as both its ends are registered: it comes with the reference or, if
the target was not registered then, with the registration of the target, and it goes with the reference
or with either end. -/

namespace CompilationBridge.Graph

open Store

theorem Store.live_iff {s : Store} {next : Nat} (hs : s.Sound next) {j : Nat} {u : Variant} (hu : s.Has j u) :
    s.Live u.handle ↔ u.registered = true := by
  constructor
  · rintro ⟨i, v, hv, hh, hreg⟩
    rwa [(hs.handle_inj hv hu hh).2] at hreg
  · exact fun hreg => ⟨j, u, hu, rfl, hreg⟩

/-- A workspace project with one more reference. -/
def addRef (t : Handle) (e : Workspace.Entry) : Workspace.Entry :=
  { e with references := if t ∈ e.references then e.references else e.references ++ [t] }

theorem mem_addRef {t t' : Handle} {e : Workspace.Entry} :
    t' ∈ (addRef t e).references ↔ t' ∈ e.references ∨ t' = t := by
  unfold addRef
  dsimp only
  split
  · rename_i hmem
    exact ⟨Or.inl, fun h => h.elim (fun h => h) fun h => h ▸ hmem⟩
  · rw [List.mem_append, List.mem_singleton]

theorem perform_addProjectReference {w : Workspace} {h t : Handle} {e e' : Workspace.Entry}
    (he : w.projects.get? h = some e) (ht : w.projects.get? t = some e') :
    w.perform (.addProjectReference h t) = .ok ⟨w.projects.put h (addRef t e)⟩ := by
  have hthere : w.projects.contains t = true := (Table.contains_iff _ _).2 ⟨e', ht⟩
  simp only [Workspace.perform, Workspace.update, he, hthere]
  rfl

theorem perform_removeProjectReference {w : Workspace} {h : Handle} {e : Workspace.Entry}
    (he : w.projects.get? h = some e) (t : Handle) :
    w.perform (.removeProjectReference h t) =
      .ok ⟨w.projects.put h { e with references := e.references.filter (· ≠ t) }⟩ := by
  simp only [Workspace.perform, Workspace.update, he]
  rfl

namespace Reconciler

variable {r r' : Reconciler} {id : Nat} {h : Handle} {v : Variant}

/-! ### References to other projects -/

theorem refersTo_erased (hr : r.WellFormed) (hv : r.store.Has id v) {path : String} {t : Handle}
    (hedge : v.projectRefs.get? path = some t) (x : Handle) :
    (Variant.withoutRef path v).RefersTo x ↔ v.RefersTo x ∧ x ≠ t := by
  have hrefs := refersTo_withoutRef hr.sound hr.linked hv hedge hv x
  rw [changed_self] at hrefs
  rw [hrefs, List.mem_singleton]
  exact and_congr_right fun _ => not_congr (and_iff_right rfl)

theorem dropProject_workspace (hr : r.Mirrored) (hv : r.store.Has id v) {j : Nat} {u : Variant}
    (hu : r.store.Has j u) (path : String) {e : Workspace.Entry}
    (he : r.workspace.projects.get? v.handle = some e) :
    Served r (dropProject id v.handle r (path, u.handle)) ∧
      ∀ k, (dropProject id v.handle r (path, u.handle)).workspace.projects.get? k =
        if k = v.handle then
          some (if u.registered then { e with references := e.references.filter (· ≠ u.handle) } else e)
        else r.workspace.projects.get? k := by
  obtain ⟨q, hq⟩ := hv.path
  obtain ⟨p, hp, -⟩ := Option.map_eq_some_iff.1
    ((path?_modifyVariant r.store v.handle (Variant.withoutRef path) id).trans hq)
  have hcalm : (r.modifyVariant v.handle (Variant.withoutRef path)).Calm := hr.calm
  rw [dropProject_eq hp (variant?_withoutRef hr.sound hu v.handle path), registered_withoutRef]
  dsimp only
  cases u.registered with
  | true =>
      rw [if_pos rfl, carryOut_of_calm hcalm (perform_removeProjectReference he u.handle)]
      cases p.references u.handle none <;> exact ⟨served_call rfl rfl, fun k => Table.get?_put ..⟩
  | false =>
      cases p.references u.handle none <;> exact ⟨⟨rfl, fun _ hc => Or.inl hc⟩, get?_self he⟩

theorem Mirroring.dropProject (hr : Mirroring id h r) (hv : r.store.Has id v) (hh : v.handle = h)
    {path : String} {t : Handle} (hedge : v.projectRefs.get? path = some t) :
    Mirroring id h (dropProject id h r (path, t)) := by
  obtain ⟨hr, v', hv', hh', hreg⟩ := hr
  obtain ⟨-, rfl⟩ := hr.sound.handle_inj hv' hv (hh'.trans hh.symm)
  subst hh
  obtain ⟨e, he, hs⟩ := hr.mirror.shown hv hreg
  obtain ⟨j, ⟨u, hu, rfl⟩, -⟩ := hr.linked.target hv hedge
  have hrefs := refersTo_erased hr.toWellFormed hv hedge
  have htable : ∀ slot, Slot.table slot (Variant.withoutRef path v') = slot.table v' := by
    intro slot
    cases slot <;> rfl
  have hshows : Shows r.store.Live (Variant.withoutRef path v')
      (if u.registered then { e with references := e.references.filter (· ≠ u.handle) } else e) := by
    cases hur : u.registered with
    | true =>
        refine hs.of_tables htable rfl rfl rfl rfl hs.compilation hs.parse fun x => ?_
        rw [if_pos rfl, List.mem_filter, hs.reference, hrefs, and_right_comm, decide_eq_true_eq]
    | false =>
        refine hs.of_tables htable rfl rfl rfl rfl hs.compilation hs.parse fun x => ?_
        -- a target that is not registered was not in the workspace project
        have hne : r.store.Live x → x ≠ u.handle := by
          rintro hlive rfl
          rw [live_iff hr.sound hu, hur] at hlive
          cases hlive
        rw [if_neg Bool.false_ne_true, hs.reference, hrefs]
        exact ⟨fun hx => ⟨⟨hx.1, hne hx.2⟩, hx.2⟩, fun hx => ⟨hx.1.1, hx.2⟩⟩
  obtain ⟨ha, hs', hl'⟩ := dropProject_effect hr.sound hr.linked hv hedge
  obtain ⟨hserved, hw⟩ := dropProject_workspace hr hv hu path he
  have hnext : (Reconciler.dropProject id v'.handle r (path, u.handle)).nextHandle = r.nextHandle :=
    (makes_dropProject ..).steady.nextHandle
  exact hr.update hv hreg ⟨hnext.symm ▸ hs', hl'⟩ hserved ha (fun _ => ⟨rfl, rfl⟩)
    (Nat.le_of_eq hnext.symm) hw hshows (hnext.symm ▸ (hr.mirror.distinct hv).of_tables htable)

theorem link_workspace (hr : r.Mirrored) (p : Project) {j : Nat} {u : Variant} (hu : r.store.Has j u)
    (path : String) {e : Workspace.Entry} (he : r.workspace.projects.get? h = some e) :
    Served r (link id h r p path u.handle) ∧
      ∀ k, (link id h r p path u.handle).workspace.projects.get? k =
        if k = h then some (if u.registered then addRef u.handle e else e)
        else r.workspace.projects.get? k := by
  have hcalm : ((r.modifyVariant u.handle (Variant.withBack p.path id)).modifyVariant h
      (Variant.withRef path u.handle)).Calm := hr.calm
  rw [link_eq hr.sound h p hu path]
  dsimp only
  cases hur : u.registered with
  | true =>
      obtain ⟨e', he', -⟩ := hr.mirror.shown hu hur
      rw [if_pos rfl, carryOut_of_calm hcalm (perform_addProjectReference he he')]
      exact ⟨served_call rfl rfl, fun k => Table.get?_put ..⟩
  | false => exact ⟨⟨rfl, fun _ hc => Or.inl hc⟩, get?_self he⟩

theorem refersTo_withRef {path : String} (hnew : v.projectRefs.get? path = none) (t x : Handle) :
    (Variant.withRef path t v).RefersTo x ↔ v.RefersTo x ∨ x = t := by
  constructor
  · rintro ⟨key, hkey⟩
    rw [Variant.withRef, Table.get?_put] at hkey
    split at hkey
    · exact Or.inr (Option.some.inj hkey).symm
    · exact Or.inl ⟨key, hkey⟩
  · rintro (⟨key, hkey⟩ | rfl)
    · refine ⟨key, ?_⟩
      rw [Variant.withRef, Table.get?_put, if_neg]
      · exact hkey
      · rintro rfl
        rw [hnew] at hkey
        cases hkey
    · exact ⟨path, by rw [Variant.withRef, Table.get?_put, if_pos rfl]⟩

theorem Mirroring.link (hr : Mirroring id h r) {p : Project} (hq : r.store.path? id = some p.path)
    (hv : r.store.Has id v) (hh : v.handle = h) {path : String} (hnew : v.projectRefs.get? path = none)
    {j : Nat} {u : Variant} (hu : r.store.Has j u) (hj : r.store.path? j = some path) :
    Mirroring id h (link id h r p path u.handle) := by
  obtain ⟨hr, v', hv', hh', hreg⟩ := hr
  obtain ⟨-, rfl⟩ := hr.sound.handle_inj hv' hv (hh'.trans hh.symm)
  subst hh
  obtain ⟨e, he, hs⟩ := hr.mirror.shown hv hreg
  have hrefs := refersTo_withRef hnew u.handle
  have htable : ∀ slot, Slot.table slot (Variant.withRef path u.handle v') = slot.table v' := by
    intro slot
    cases slot <;> rfl
  have hlive := live_iff hr.sound hu
  have hshows : Shows r.store.Live (Variant.withRef path u.handle v')
      (if u.registered then addRef u.handle e else e) := by
    cases hur : u.registered with
    | true =>
        refine hs.of_tables htable rfl rfl rfl rfl hs.compilation hs.parse fun x => ?_
        have hx : x = u.handle → r.store.Live x := by
          rintro rfl
          exact hlive.2 hur
        rw [if_pos rfl, mem_addRef, hs.reference, hrefs, or_and_right, and_iff_left_of_imp hx]
    | false =>
        refine hs.of_tables htable rfl rfl rfl rfl hs.compilation hs.parse fun x => ?_
        rw [if_neg Bool.false_ne_true, hs.reference, hrefs, or_and_right, or_iff_left]
        rintro ⟨rfl, hx⟩
        rw [hlive, hur] at hx
        cases hx
  obtain ⟨ha, hs', hl'⟩ := link_effect hr.sound hr.linked hq hv hu hj hnew
  obtain ⟨hserved, hw⟩ := link_workspace hr p hu path he
  have hnext : (Reconciler.link id v'.handle r p path u.handle).nextHandle = r.nextHandle :=
    (makes_link ..).steady.nextHandle
  exact hr.update hv hreg ⟨hnext.symm ▸ hs', hl'⟩ hserved ha (fun _ => ⟨rfl, rfl⟩)
    (Nat.le_of_eq hnext.symm) hw hshows (hnext.symm ▸ (hr.mirror.distinct hv).of_tables htable)

/-! ### Registration -/

end Reconciler

theorem Variant.Idle.table {v : Variant} (hv : v.Idle) (slot : Slot) : slot.table v = .empty := by
  rw [← Slot.table_of_content hv slot]
  cases slot <;> rfl

theorem Variant.Idle.fields {v : Variant} (hv : v.Idle) :
    v.projectRefs = .empty ∧ v.compilation = none ∧ v.parse = none := by
  have heq := Variant.eq_of_content hv.symm
  rw [heq]
  exact ⟨rfl, rfl, rfl⟩

theorem Variant.Idle.not_refersTo {v : Variant} (hv : v.Idle) (t : Handle) : ¬v.RefersTo t := by
  rintro ⟨path, hpath⟩
  rw [hv.fields.1] at hpath
  cases hpath

theorem Store.live_settle {s : Store} {id : Nat} {v : Variant} (hv : s.Has id v) (k : Handle) :
    (s.modifyVariant v.handle Variant.settle).Live k ↔ s.Live k ∨ k = v.handle := by
  constructor
  · rintro ⟨i, w, hw, rfl, hreg⟩
    obtain ⟨u, hu, rfl⟩ := has_modifyVariant.1 hw
    by_cases hh : u.handle = v.handle
    · rw [changed_of_eq hh]
      exact Or.inr hh
    · rw [changed_of_ne hh] at hreg ⊢
      exact Or.inl ⟨i, u, hu, rfl, hreg⟩
  · rintro (⟨i, u, hu, rfl, hreg⟩ | rfl)
    · have hkept : (changed v.handle Variant.settle u).handle = u.handle ∧
          (changed v.handle Variant.settle u).registered = true := by
        unfold changed
        split
        · exact ⟨rfl, rfl⟩
        · exact ⟨rfl, hreg⟩
      exact ⟨i, _, has_modifyVariant.2 ⟨u, hu, rfl⟩, hkept⟩
    · exact ⟨id, v.settle, hv.modify _, rfl, rfl⟩

/-- A variant is registered: its project comes to the workspace with nothing in it, and each variant that
waited for it gets its reference. -/
theorem Mirror.settle {s : Store} {next : Nat} {w w' : Workspace} (hm : Mirror s next w) (hs : s.Sound next)
    (hl : s.Linked) {id : Nat} {v : Variant} (hv : s.Has id v) (hreg : v.registered = false)
    {info : Workspace.ProjectInfo} (hinfo : info.handle = v.handle)
    (hw : ∀ k, w'.projects.get? k = if k = v.handle then some { info := info }
      else (w.projects.get? k).map fun e => if k ∈ v.pending then addRef v.handle e else e) :
    Mirror (s.modifyVariant v.handle Variant.settle) next w' := by
  have hidle := hm.idle hv hreg
  have htable : ∀ slot, Slot.table slot v.settle = .empty := by
    intro slot
    rw [← hidle.table slot]
    cases slot <;> rfl
  have hwaiting : ∀ {i u}, s.Has i u → (u.handle ∈ v.pending ↔ u.RefersTo v.handle) := by
    intro i u hu
    rw [hl.waiting hv hreg]
    constructor
    · rintro ⟨a, x, hx, hxu, hr⟩
      rwa [← (hs.handle_inj hx hu hxu).2]
    · exact fun hr => ⟨i, u, hu, rfl, hr⟩
  refine ⟨?_, ?_, ?_, ?_⟩
  · intro i x hx hxreg
    obtain ⟨u, hu, rfl⟩ := has_modifyVariant.1 hx
    by_cases hh : u.handle = v.handle
    · -- the variant itself
      rw [(hs.handle_inj hu hv hh).2, changed_self]
      refine ⟨{ info := info }, ?_, ⟨hinfo, ?_, ?_, ?_, ?_, ?_, ?_⟩⟩
      · rw [hw]
        exact if_pos rfl
      · intro slot key ref hkey
        rw [htable] at hkey
        cases hkey
      · intro ref m hget
        cases hget
      · intro ref path hget
        cases hget
      · exact hidle.fields.2.1.symm
      · exact hidle.fields.2.2.symm
      · intro t
        refine ⟨fun ht => ?_, fun ht => absurd ht.1 (hidle.not_refersTo t)⟩
        cases ht
    · rw [changed_of_ne hh] at hxreg ⊢
      obtain ⟨e, he, hshows⟩ := hm.shown hu hxreg
      refine ⟨if u.handle ∈ v.pending then addRef v.handle e else e, ?_, ?_⟩
      · rw [hw, if_neg hh, he, Option.map_some]
      · have hrefs : ∀ t, t ∈ (if u.handle ∈ v.pending then addRef v.handle e else e).references ↔
            u.RefersTo t ∧ (s.modifyVariant v.handle Variant.settle).Live t := by
          intro t
          rw [live_settle hv, and_or_left, ← hshows.reference]
          split
          · rename_i hmem
            rw [mem_addRef]
            refine or_congr_right (iff_and_self.2 ?_)
            rintro rfl
            exact (hwaiting hu).1 hmem
          · rename_i hmem
            refine (or_iff_left ?_).symm
            rintro ⟨hr, rfl⟩
            exact hmem ((hwaiting hu).2 hr)
        split at hrefs
        · rw [if_pos ‹_›]
          exact hshows.of_tables (fun _ => rfl) rfl rfl rfl rfl hshows.compilation hshows.parse hrefs
        · rw [if_neg ‹_›]
          exact hshows.of_tables (fun _ => rfl) rfl rfl rfl rfl hshows.compilation hshows.parse hrefs
  · intro k e he
    rw [live_settle hv]
    rw [hw] at he
    split at he
    · exact Or.inr ‹_›
    · obtain ⟨e₀, he₀, -⟩ := Option.map_eq_some_iff.1 he
      exact Or.inl (hm.live he₀)
  · intro i x hx hxreg
    obtain ⟨u, hu, rfl⟩ := has_modifyVariant.1 hx
    by_cases hh : u.handle = v.handle
    · rw [changed_of_eq hh] at hxreg
      cases hxreg
    · rw [changed_of_ne hh] at hxreg ⊢
      exact hm.idle hu hxreg
  · intro i x hx
    obtain ⟨u, hu, rfl⟩ := has_modifyVariant.1 hx
    refine (hm.distinct hu).of_tables fun slot => ?_
    unfold changed
    split
    · cases slot <;> rfl
    · rfl

namespace Reconciler

variable {r r' : Reconciler} {id : Nat} {h : Handle} {v : Variant}

theorem sendOptions_of_none (r : Reconciler) (id : Nat) (hc : v.compilation = none) (hp : v.parse = none) :
    r.sendOptions id v = r := by
  unfold sendOptions
  rw [hc, hp]

/-- Resolving the references of variants that waited. -/
theorem carryOutAll_resolve (hcalm : r.Calm) {t : Handle} {e : Workspace.Entry}
    (ht : r.workspace.projects.get? t = some e) {waiting : List Handle} (hn : waiting.Nodup)
    (hall : ∀ k ∈ waiting, ∃ e, r.workspace.projects.get? k = some e) (action : String) (id : Nat)
    (h : Handle) :
    let r' := r.carryOutAll action id h (waiting.map fun k => .addProjectReference k t)
    Served r r' ∧ ∀ k, r'.workspace.projects.get? k =
      (r.workspace.projects.get? k).map fun e => if k ∈ waiting then addRef t e else e := by
  induction waiting generalizing r e with
  | nil =>
      refine ⟨Served.refl r, fun k => ?_⟩
      simp only [List.not_mem_nil, if_false, Option.map_id']
      rfl
  | cons k₀ rest ih =>
      rw [List.nodup_cons] at hn
      obtain ⟨e₀, he₀⟩ := hall k₀ List.mem_cons_self
      have hfirst := carryOut_of_calm hcalm (perform_addProjectReference he₀ ht) action id h
      have hget : ∀ k, (r.after (.addProjectReference k₀ t)
          ⟨r.workspace.projects.put k₀ (addRef t e₀)⟩).workspace.projects.get? k =
            if k = k₀ then some (addRef t e₀) else r.workspace.projects.get? k :=
        fun k => Table.get?_put ..
      have ht₁ : ∃ e', (r.after (.addProjectReference k₀ t)
          ⟨r.workspace.projects.put k₀ (addRef t e₀)⟩).workspace.projects.get? t = some e' := by
        rw [hget]
        split
        · exact ⟨_, rfl⟩
        · exact ⟨e, ht⟩
      obtain ⟨e₁, ht₁⟩ := ht₁
      have hcalm₁ : (r.after (.addProjectReference k₀ t)
          ⟨r.workspace.projects.put k₀ (addRef t e₀)⟩).Calm := hcalm
      obtain ⟨hserved, hrest⟩ := ih hcalm₁ ht₁ hn.2 fun k hk => by
        rw [hget]
        split
        · exact ⟨_, rfl⟩
        · exact hall k (List.mem_cons_of_mem _ hk)
      rw [← hfirst] at hserved hrest
      refine ⟨(hfirst ▸ (served_call rfl rfl : Served r (r.after (.addProjectReference k₀ t)
        ⟨r.workspace.projects.put k₀ (addRef t e₀)⟩))).trans hserved, fun k => (hrest k).trans ?_⟩
      rw [hfirst, hget]
      by_cases hk : k = k₀
      · subst hk
        simp [hn.1, he₀]
      · simp [hk]

theorem Mirrored.register_eq (hr : r.Mirrored) {p : Project} (hp : r.store.project? id = some p)
    (hmem : v ∈ p.variants) (hreg : v.registered = false) :
    Served r (r.register id v.handle) ∧
      (r.register id v.handle).store = r.store.modifyVariant v.handle Variant.settle ∧
      ∀ k, (r.register id v.handle).workspace.projects.get? k =
        if k = v.handle then some { info := v.framework.projectInfo v.handle p.name p.path }
        else (r.workspace.projects.get? k).map fun e =>
          if k ∈ v.pending then addRef v.handle e else e := by
  have hv : r.store.Has id v := ⟨p, hp, hmem⟩
  have hidle := hr.mirror.idle hv hreg
  have hout : r.workspace.projects.get? v.handle = none := by
    rw [Option.eq_none_iff_forall_ne_some]
    intro e he
    have hlive := hr.mirror.live he
    rw [live_iff hr.sound hv, hreg] at hlive
    cases hlive
  -- those that wait refer to the variant, so they are registered
  have hwaiting : ∀ k ∈ v.pending, k ≠ v.handle ∧ ∃ e, r.workspace.projects.get? k = some e := by
    intro k hk
    obtain ⟨a, u, hu, rfl, hrefers⟩ := (hr.linked.waiting hv hreg k).1 hk
    have hureg : u.registered = true := by
      rw [← Bool.not_eq_false]
      exact fun hunreg => (hr.mirror.idle hu hunreg).not_refersTo _ hrefers
    refine ⟨fun hh => ?_, (hr.mirror.shown hu hureg).imp fun _ he => he.1⟩
    rw [(hr.sound.handle_inj hu hv hh).2, hreg] at hureg
    cases hureg
  have hcall : r.workspace.perform (addingCall p v) = .ok ⟨r.workspace.projects.put v.handle
      { info := v.framework.projectInfo v.handle p.name p.path }⟩ := by
    have hnot : r.workspace.projects.contains v.handle = false := (Table.contains_eq_false _ _).2 hout
    simp only [addingCall, Workspace.perform, Framework.projectInfo, hnot]
    rfl
  have htaken := attempt_of_calm hr.calm hcall "adding project" id v.handle
  have heq := register_of_taken hr.sound hp hmem hreg htaken
  rw [sendOptions_of_none _ _ hidle.fields.2.1 hidle.fields.2.2] at heq
  generalize hr₁ : (r.after (addingCall p v) ⟨r.workspace.projects.put v.handle
    { info := v.framework.projectInfo v.handle p.name p.path }⟩).modifyVariant v.handle
      (fun v => { v with registered := true }) = r₁ at heq
  have hget : ∀ k, r₁.workspace.projects.get? k = if k = v.handle then
      some { info := v.framework.projectInfo v.handle p.name p.path }
      else r.workspace.projects.get? k := by
    intro k
    rw [← hr₁]
    exact Table.get?_put ..
  have hserved₁ : Served r r₁ := by
    rw [← hr₁]
    exact served_call rfl rfl
  have hself : r₁.workspace.projects.get? v.handle =
      some { info := v.framework.projectInfo v.handle p.name p.path } := by
    rw [hget, if_pos rfl]
  obtain ⟨hserved, hw⟩ := carryOutAll_resolve (hserved₁.outages.trans hr.calm) hself (hr.linked.nodup hv)
    (fun k hk => by rw [hget, if_neg (hwaiting k hk).1]; exact (hwaiting k hk).2)
    "resolving pending reference" id v.handle
  refine ⟨?_, ?_, fun k => ?_⟩
  · rw [heq]
    exact hserved₁.trans ⟨hserved.outages, hserved.calls⟩
  · rw [heq, modifyVariant_store, carryOutAll_store, ← hr₁]
    exact modifyVariant_modifyVariant r.store v.handle _ fun _ => rfl
  · rw [heq]
    refine (hw k).trans ?_
    rw [hget]
    by_cases hk : k = v.handle
    · rw [if_pos hk, if_pos hk, Option.map_some, if_neg]
      intro hmem
      exact (hwaiting k hmem).1 hk
    · rw [if_neg hk, if_neg hk]

theorem Mirrored.register (hr : r.Mirrored) (hv : r.store.Has id v) :
    Mirroring id v.handle (r.register id v.handle) := by
  cases hreg : v.registered with
  | true =>
      rw [register_of_registered hr.sound hv hreg]
      exact ⟨hr, v, hv, rfl, hreg⟩
  | false =>
      have hwf := (hr.toWellFormed.register hv).1
      obtain ⟨p, hp, hmem⟩ := hv
      have hv : r.store.Has id v := ⟨p, hp, hmem⟩
      obtain ⟨hserved, hstore, hw⟩ := hr.register_eq hp hmem hreg
      have hnext : (r.register id v.handle).nextHandle = r.nextHandle :=
        (register_store hr.sound hv).1.nextHandle
      refine ⟨hr.serve hwf hserved ?_, ?_⟩
      · rw [hstore, hnext]
        exact hr.mirror.settle hr.sound hr.linked hv hreg rfl hw
      · rw [hstore]
        exact ⟨v.settle, hv.modify _, rfl, rfl⟩

/-! ### Teardown -/

end Reconciler

theorem Store.live_reset {s s' : Store} {h : Handle} (ha : Alters s s' h Variant.reset) (k : Handle) :
    s'.Live k ↔ s.Live k ∧ k ≠ h := by
  constructor
  · rintro ⟨i, w, hw, rfl, hreg⟩
    obtain ⟨u, hu, hc⟩ := ha.of_has hw
    by_cases hh : u.handle = h
    · rw [changed_of_eq hh] at hc
      rw [Variant.registered_of_content hc] at hreg
      cases hreg
    · rw [changed_of_ne hh] at hc
      rw [Variant.handle_of_content hc]
      rw [Variant.registered_of_content hc] at hreg
      exact ⟨⟨i, u, hu, rfl, hreg⟩, hh⟩
  · rintro ⟨⟨i, u, hu, rfl, hreg⟩, hh⟩
    obtain ⟨w, hw, hc⟩ := ha.has hu
    rw [changed_of_ne hh] at hc
    exact ⟨i, w, hw, Variant.handle_of_content hc, (Variant.registered_of_content hc).trans hreg⟩

/-- A variant is torn down: its project goes from the workspace, and the references to it with it. -/
theorem Mirror.reset {s s' : Store} {next : Nat} {w w' : Workspace} (hm : Mirror s next w)
    {h : Handle} (ha : Alters s s' h Variant.reset)
    (hw : ∀ k, w'.projects.get? k = if k = h then none
      else (w.projects.get? k).map fun e =>
        { e with references := e.references.filter (· ≠ h) }) : Mirror s' next w' := by
  have hlive := live_reset ha
  refine ⟨?_, ?_, ?_, ?_⟩
  · intro i x hx hreg
    obtain ⟨u, hu, hc⟩ := ha.of_has hx
    by_cases hh : u.handle = h
    · rw [changed_of_eq hh] at hc
      rw [Variant.registered_of_content hc] at hreg
      cases hreg
    · rw [changed_of_ne hh] at hc
      rw [Variant.registered_of_content hc] at hreg
      obtain ⟨e, he, hshows⟩ := hm.shown hu hreg
      have hshows' : Shows s'.Live u { e with references := e.references.filter (· ≠ h) } := by
        refine hshows.of_tables (fun _ => rfl) rfl rfl rfl rfl hshows.compilation hshows.parse fun t => ?_
        rw [List.mem_filter, hshows.reference, hlive, decide_eq_true_eq, and_assoc]
      refine ⟨_, ?_, hshows'.of_content hc⟩
      rw [Variant.handle_of_content hc, hw, if_neg hh, he, Option.map_some]
  · intro k e he
    rw [hw] at he
    split at he
    · cases he
    · rename_i hk
      obtain ⟨e₀, he₀, -⟩ := Option.map_eq_some_iff.1 he
      exact (hlive k).2 ⟨hm.live he₀, hk⟩
  · intro i x hx hreg
    obtain ⟨u, hu, hc⟩ := ha.of_has hx
    by_cases hh : u.handle = h
    · rw [changed_of_eq hh] at hc
      have hidle : u.reset.Idle := rfl
      exact hidle.of_content hc
    · rw [changed_of_ne hh] at hc
      rw [Variant.registered_of_content hc] at hreg
      exact (hm.idle hu hreg).of_content hc
  · intro i x hx
    obtain ⟨u, hu, hc⟩ := ha.of_has hx
    by_cases hh : u.handle = h
    · rw [changed_of_eq hh] at hc
      have htable : ∀ slot, Slot.table slot u.reset = .empty := by
        intro slot
        cases slot <;> rfl
      have hempty : u.reset.Distinct next := by
        refine ⟨fun {slot} _ _ _ _ hk _ => ?_, fun {slot} _ _ hk => ?_⟩ <;>
          · rw [htable slot] at hk
            cases hk
      exact hempty.of_content hc
    · rw [changed_of_ne hh] at hc
      exact (hm.distinct hu).of_content hc

/-- A variant that is not registered can go from the graph. -/
theorem Mirror.remove {s : Store} {next : Nat} {w : Workspace} (hm : Mirror s next w) {h : Handle}
    (hun : ∀ {i u}, s.Has i u → u.handle = h → u.registered = false) : Mirror (s.removeVariant h) next w := by
  have hlive : ∀ k, s.Live k ↔ (s.removeVariant h).Live k := by
    intro k
    constructor
    · rintro ⟨i, u, hu, rfl, hreg⟩
      refine ⟨i, u, has_removeVariant.2 ⟨hu, fun hh => ?_⟩, rfl, hreg⟩
      rw [hun hu hh] at hreg
      cases hreg
    · rintro ⟨i, u, hu, hh, hreg⟩
      exact ⟨i, u, (has_removeVariant.1 hu).1, hh, hreg⟩
  refine ⟨fun hv hreg => ?_, fun he => (hlive _).1 (hm.live he),
    fun hv => hm.idle (has_removeVariant.1 hv).1, fun hv => hm.distinct (has_removeVariant.1 hv).1⟩
  obtain ⟨e, he, hshows⟩ := hm.shown (has_removeVariant.1 hv).1 hreg
  exact ⟨e, he, hshows.of_live hlive⟩

namespace Reconciler

variable {r r' : Reconciler} {id : Nat} {h : Handle} {v : Variant}

theorem afterTeardown_workspace (hr : r.Mirrored) (hv : r.store.Has id v) (hreg : v.registered = true)
    (p : Project) :
    Served r (r.afterTeardown id p v) ∧
      ∀ k, (r.afterTeardown id p v).workspace.projects.get? k = if k = v.handle then none
        else (r.workspace.projects.get? k).map fun e =>
          { e with references := e.references.filter (· ≠ v.handle) } := by
  obtain ⟨e, he, -⟩ := hr.mirror.shown hv hreg
  have hthere : r.workspace.projects.contains v.handle = true := (Table.contains_iff _ _).2 ⟨e, he⟩
  have hcall : r.workspace.perform (.removeProject v.handle) =
      .ok ⟨(r.workspace.projects.erase v.handle).map fun e =>
        { e with references := e.references.filter (· ≠ v.handle) }⟩ := by
    simp only [Workspace.perform, hthere, if_true]
  have hcalm : Calm { r with store :=
      v.projectRefs.values.foldl (withdrawEdge p.path p v.handle) r.store } := hr.calm
  unfold afterTeardown
  rw [carryOut_of_calm hcalm hcall]
  refine ⟨served_call rfl rfl, fun k => ?_⟩
  change ((r.workspace.projects.erase v.handle).map _).get? k = _
  rw [Table.get?_map, Table.get?_erase]
  split <;> rfl

theorem Mirrored.teardown (hr : r.Mirrored) (hv : r.store.Has id v) (hreg : v.registered = true) :
    (r.teardown id v.handle).Mirrored := by
  have hwf := hr.toWellFormed.teardown hv hreg
  obtain ⟨p, hp, hmem⟩ := hv
  have hv : r.store.Has id v := ⟨p, hp, hmem⟩
  obtain ⟨ha, hs, -⟩ := tornDown_effect hr.sound hr.linked hp hv hreg
  obtain ⟨hserved, hw⟩ := afterTeardown_workspace hr hv hreg p
  have hnext : (r.afterTeardown id p v).nextHandle = r.nextHandle := (carryOut_untouched ..).nextHandle
  have hm : Mirror (tornDown r.store p v) (r.afterTeardown id p v).nextHandle
      (r.afterTeardown id p v).workspace := by
    rw [hnext]
    exact hr.mirror.reset ha hw
  rcases teardown_effect hr.sound hr.linked hp hv hreg with he | ⟨he, -, -⟩ <;> rw [he] at hwf ⊢
  · exact hr.serve hwf hserved hm
  · refine hr.serve hwf ⟨hserved.outages, hserved.calls⟩ (hm.remove fun {i u} hu hh => ?_)
    obtain ⟨x, hx, hc⟩ := ha.of_has hu
    have hxh : x.handle = v.handle := by
      rw [← hh, Variant.handle_of_content hc]
      unfold changed
      split <;> rfl
    rw [changed_of_eq hxh] at hc
    exact Variant.registered_of_content hc

/-! ### Every run -/

end Reconciler

theorem Mirror.of_has {s s' : Store} {next : Nat} {w : Workspace} (hm : Mirror s next w)
    (hhas : ∀ {i v}, s'.Has i v ↔ s.Has i v) : Mirror s' next w := by
  have hlive : ∀ k, s.Live k ↔ s'.Live k := fun k => (live_congr hhas k).symm
  refine ⟨fun hv hreg => ?_, fun he => (hlive _).1 (hm.live he), fun hv => hm.idle (hhas.1 hv),
    fun hv => hm.distinct (hhas.1 hv)⟩
  obtain ⟨e, he, hshows⟩ := hm.shown (hhas.1 hv) hreg
  exact ⟨e, he, hshows.of_live hlive⟩

/-- A new variant has nothing recorded. -/
theorem Mirror.addVariant {s : Store} {next : Nat} {w : Workspace} (hm : Mirror s next w) {id : Nat}
    {q : String} (hid : s.path? id = some q) (framework : Framework) :
    Mirror (s.addVariant id { framework := framework, handle := ⟨next⟩ }) (next + 1) w := by
  have hhas : ∀ {i x}, (s.addVariant id { framework := framework, handle := ⟨next⟩ }).Has i x ↔
      s.Has i x ∨ (i = id ∧ x = { framework := framework, handle := ⟨next⟩ }) := has_addVariant ⟨q, hid⟩
  have hlive : ∀ k, s.Live k ↔ (s.addVariant id { framework := framework, handle := ⟨next⟩ }).Live k :=
    fun k => (live_addVariant hid framework ⟨next⟩ k).symm
  refine ⟨?_, fun he => (hlive _).1 (hm.live he), ?_, ?_⟩
  · intro i v hv hreg
    rcases hhas.1 hv with hv | ⟨-, rfl⟩
    · obtain ⟨e, he, hshows⟩ := hm.shown hv hreg
      exact ⟨e, he, hshows.of_live hlive⟩
    · cases hreg
  · intro i v hv hreg
    rcases hhas.1 hv with hv | ⟨-, rfl⟩
    · exact hm.idle hv hreg
    · exact rfl
  · intro i v hv
    rcases hhas.1 hv with hv | ⟨-, rfl⟩
    · exact (hm.distinct hv).mono (Nat.le_succ next)
    · have hempty : ∀ slot, Slot.table slot { framework := framework, handle := ⟨next⟩ } = .empty := by
        intro slot
        cases slot <;> rfl
      refine ⟨fun {slot} _ _ _ _ hk _ => ?_, fun {slot} _ _ hk => ?_⟩ <;>
        · rw [hempty slot] at hk
          cases hk

namespace Reconciler

variable {r r' : Reconciler} {id : Nat} {h : Handle} {v : Variant}

theorem Mirrored.relabel (hr : r.Mirrored) (hv : r.store.Has id v) {framework : Framework}
    (hn : v.framework.name = framework.name) :
    (r.modifyVariant v.handle fun v => { v with framework := framework }).Mirrored := by
  have hplain := plain_relabel hr.sound hv hn
  have htable : ∀ slot v, Slot.table slot { v with framework := framework } = slot.table v := by
    intro slot v
    cases slot <;> rfl
  refine hr.serve (hr.toWellFormed.plain hplain rfl (Nat.le_refl _)) ⟨rfl, fun _ hc => Or.inl hc⟩
    (hr.mirror.of_alters (alters_modify r.store v.handle hplain.handle) (fun _ => ⟨rfl, rfl⟩)
      (Nat.le_refl _) (fun _ _ => rfl) ?_ (fun he => ⟨_, he⟩) ?_ ?_)
  · intro i u e _ _ _ he hs
    exact ⟨e, he, hs.of_tables (fun slot => htable slot u) rfl rfl rfl rfl hs.compilation hs.parse
      hs.reference⟩
  · intro i u _ _ _ hidle
    exact congrArg (fun u : Variant => { u with framework := framework }) hidle
  · intro i u _ _ hd
    exact hd.of_tables fun slot => htable slot u

theorem Mirrored.track (hr : r.Mirrored) (path : String) :
    Mirrored { r with store := (r.store.track path).1 } :=
  hr.serve (wellFormed_maintained.track path hr.toWellFormed) ⟨rfl, fun _ hc => Or.inl hc⟩
    (hr.mirror.of_has has_track)

theorem Mirrored.create (hr : r.Mirrored) {j : Nat} {q : String} {framework : Framework}
    (hj : r.store.path? j = some q) (hnew : ∀ {v}, r.store.Has j v → v.framework.name ≠ framework.name) :
    (r.created j framework).Mirrored :=
  hr.serve (wellFormed_maintained.create hr.toWellFormed hj hnew) ⟨rfl, fun _ hc => Or.inl hc⟩
    (hr.mirror.addVariant hj _)

theorem mirrored_maintained : Maintained Mirrored Mirroring where
  wellFormed hr := hr.toWellFormed
  quiet _ _ hr := ⟨⟨hr.sound, hr.linked⟩, hr.mirror, hr.calm, hr.clean⟩
  track path hr := hr.track path
  visit _ hr := ⟨⟨hr.sound, hr.linked⟩, hr.mirror, hr.calm, hr.clean⟩
  describe id info hr := hr.serve (wellFormed_maintained.describe id info hr.toWellFormed)
    ⟨rfl, fun _ hc => Or.inl hc⟩ (hr.mirror.of_has has_describeIn)
  create hr hj hnew := hr.create hj hnew
  relabel hr hv hn := hr.relabel hv hn
  teardown hr hv hreg := hr.teardown hv hreg
  register hr hv := hr.register hv
  done hr := hr.1
  entries slot _ _ := {
    wellFormed := fun hr => hr.1.toWellFormed
    owns := fun hr => hr.2.imp fun _ hv => ⟨hv.1, hv.2.1⟩
    drop := fun hr hv hh hkey => hr.dropEntry hv hh hkey
    add := fun item hr => hr.addEntry slot item }
  edges _ _ := {
    wellFormed := fun hr => hr.1.toWellFormed
    owns := fun hr => hr.2.imp fun _ hv => ⟨hv.1, hv.2.1⟩
    dropProject := fun hr hv hh hedge => hr.dropProject hv hh hedge
    track := fun path hr => ⟨hr.1.track path, hr.2.imp fun _ hv => ⟨has_track.2 hv.1, hv.2⟩⟩
    create := fun hr hj hnew => ⟨hr.1.create hj hnew,
      hr.2.imp fun _ hv => ⟨(has_addVariant ⟨_, hj⟩).2 (Or.inl hv.1), hv.2⟩⟩
    link := fun hr hq hv hh hnew hu hj => hr.link hq hv hh hnew hu hj }
  setOptions options hr := hr.setOptions options
  markLoaded hr := hr.markLoaded

theorem mirrored_new (extension : String) : (new extension).Mirrored := by
  have hnone : ∀ {i v}, ¬(new extension).store.Has i v := not_has_empty
  exact {
    wellFormed_of_empty (r := new extension) rfl with
    mirror := ⟨fun hv => absurd hv hnone, (fun he => nomatch he), fun hv => absurd hv hnone,
      fun hv => absurd hv hnone⟩
    calm := rfl
    clean := fun c hc => absurd hc List.not_mem_nil }

theorem mirrored_run (extension : String) (steps : List Step) : ((new extension).run steps).Mirrored :=
  mirrored_maintained.run (mirrored_new extension) steps

/-- **The workspace mirrors the graph in every run without outages.** Its projects are exactly the
registered variants. A project has exactly the metadata references and documents that its variant has
recorded, under the recorded paths and names, the options that the variant has stored, and a reference to
another project exactly if the variant has one and its target is registered. No workspace call has
failed. A reference, whenever it was recorded, is in the workspace while its target is registered. -/
theorem workspace_mirrors_graph (extension : String) (steps : List Step) :
    let r := (new extension).run steps
    (∀ h, r.workspace.projects.contains h = true ↔
      ∃ i v, r.store.Has i v ∧ v.handle = h ∧ v.registered = true) ∧
    (∀ i v e, r.store.Has i v → v.registered = true → r.workspace.projects.get? v.handle = some e →
      (∀ ref, e.metadata.contains ref = true ↔
        (∃ path, v.fileRefs.get? path = some ref) ∨ ∃ name, v.rawRefs.get? name = some ref) ∧
      (∀ path ref, v.fileRefs.get? path = some ref →
        e.metadata.get? ref = some { handle := ref, path := path }) ∧
      (∀ name ref, v.rawRefs.get? name = some ref →
        ∃ bytes, e.metadata.get? ref = some { handle := ref, name := name, bytes := bytes }) ∧
      (∀ doc path, e.documents.get? doc = some path ↔ v.documents.get? path = some doc) ∧
      e.compilation = v.compilation ∧ e.parse = v.parse ∧
      ∀ t, t ∈ e.references ↔ (∃ path, v.projectRefs.get? path = some t) ∧
        ∃ j u, r.store.Has j u ∧ u.handle = t ∧ u.registered = true) ∧
    (∀ c ∈ r.calls, c.2 = none) ∧
    ∀ i v path j u, r.store.Has i v → v.projectRefs.get? path = some u.handle → r.store.Has j u →
      u.registered = true →
      ∃ e, r.workspace.projects.get? v.handle = some e ∧ u.handle ∈ e.references := by
  intro r
  have hr : r.Mirrored := mirrored_run extension steps
  refine ⟨fun h => ?_, fun i v e hv hreg he => ?_, hr.clean, fun i v path j u hv hpath hu hreg => ?_⟩
  · rw [Table.contains_iff]
    constructor
    · rintro ⟨e, he⟩
      exact hr.mirror.live he
    · rintro ⟨i, v, hv, rfl, hreg⟩
      exact (hr.mirror.shown hv hreg).imp fun _ he => he.1
  · obtain ⟨e', he', hs⟩ := hr.mirror.shown hv hreg
    obtain rfl : e' = e := Option.some.inj (he'.symm.trans he)
    refine ⟨fun ref => ?_, fun path ref hkey => hs.shown .file path ref hkey,
      fun name ref hkey => hs.shown .raw name ref hkey, fun doc path => ?_, hs.compilation, hs.parse,
      hs.reference⟩
    · rw [Table.contains_iff]
      constructor
      · rintro ⟨m, hm⟩
        obtain ⟨slot, key, hne, hkey⟩ := hs.metadata ref m hm
        cases slot with
        | file => exact Or.inl ⟨key, hkey⟩
        | raw => exact Or.inr ⟨key, hkey⟩
        | document => exact absurd rfl hne
      · rintro (⟨path, hkey⟩ | ⟨name, hkey⟩)
        · exact ⟨_, hs.shown .file path ref hkey⟩
        · obtain ⟨bytes, hm⟩ := hs.shown .raw name ref hkey
          exact ⟨_, hm⟩
    · constructor
      · intro hdoc
        obtain ⟨key, hkey⟩ := hs.document doc path hdoc
        have hshown : e'.documents.get? doc = some key := hs.shown .document key doc hkey
        rw [hdoc, Option.some.injEq] at hshown
        exact hshown ▸ hkey
      · exact fun hkey => hs.shown .document path doc hkey
  · have hvreg : v.registered = true := by
      rw [← Bool.not_eq_false]
      exact fun hunreg => (hr.mirror.idle hv hunreg).not_refersTo _ ⟨path, hpath⟩
    obtain ⟨e, he, hs⟩ := hr.mirror.shown hv hvreg
    exact ⟨e, he, (hs.reference u.handle).2 ⟨⟨path, hpath⟩, j, u, hu, rfl, hreg⟩⟩

end Reconciler

end CompilationBridge.Graph
