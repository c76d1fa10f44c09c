import CompilationBridge.Proofs.Graph.Diffs
import CompilationBridge.Proofs.Graph.MirrorRuns

/-! What a message changes of the references of a variant to other projects, call by call. A reference that is
dropped or new takes a call only if its target is registered: for any other target it is the entry in the list
of those that wait that changes, and nobody else's. References that are exactly the wanted ones are left
alone. -/

namespace CompilationBridge.Graph

/-- A variant with other references. -/
def Variant.withRefs (refs : Table String Handle) (v : Variant) : Variant :=
  { v with projectRefs := refs }

theorem Variant.handle_of_withRefs {v w : Variant} {refs : Table String Handle}
    (hc : w.content = (v.withRefs refs).content) : w.handle = v.handle := by
  rw [Variant.eq_of_content hc]
  rfl

theorem Variant.projectRefs_of_withRefs {v w : Variant} {refs : Table String Handle}
    (hc : w.content = (v.withRefs refs).content) : w.projectRefs = refs := by
  rw [Variant.eq_of_content hc]
  rfl

namespace Store

variable {s s' s'' : Store} {h : Handle}

/-- Whether a handle names a registered variant. -/
def isLive (s : Store) (t : Handle) : Bool :=
  s.variants.any fun u => u.handle = t && u.registered

theorem isLive_iff (s : Store) (t : Handle) : s.isLive t = true ↔ s.Live t :=
  (live_iff_any s t).symm

theorem isLive_congr (hlive : ∀ k, s'.Live k ↔ s.Live k) (t : Handle) : s'.isLive t = s.isLive t := by
  rw [Bool.eq_iff_iff, isLive_iff, isLive_iff, hlive]

theorem isLive_eq {next : Nat} (hs : s.Sound next) {j : Nat} {u : Variant} (hu : s.Has j u) :
    s.isLive u.handle = u.registered := by
  rw [Bool.eq_iff_iff, isLive_iff, live_iff hs hu]

/-- What stays of the graph when the references of a variant change: which variants are registered, and all
of the other variants but what is recorded at them. A variant that is new refers to nothing. -/
structure Around (h : Handle) (s s' : Store) : Prop where
  live : ∀ k, s'.Live k ↔ s.Live k
  others : ∀ {i w}, s.Has i w → w.handle ≠ h → ∃ w', s'.Has i w' ∧ w'.content = w.content
  of_others : ∀ {i w'}, s'.Has i w' → w'.handle ≠ h →
    (∃ w, s.Has i w ∧ w'.content = w.content) ∨ ∀ t, ¬w'.RefersTo t

theorem Around.refl (h : Handle) (s : Store) : Around h s s :=
  ⟨fun _ => Iff.rfl, fun hw _ => ⟨_, hw, rfl⟩, fun hw _ => Or.inl ⟨_, hw, rfl⟩⟩

theorem Around.trans (ha : Around h s s') (ha' : Around h s' s'') : Around h s s'' where
  live k := (ha'.live k).trans (ha.live k)
  others hw hne := by
    obtain ⟨w', hw', hc⟩ := ha.others hw hne
    obtain ⟨w'', hw'', hc'⟩ := ha'.others hw' (by rwa [Variant.handle_of_content hc])
    exact ⟨w'', hw'', hc'.trans hc⟩
  of_others hw hne := by
    obtain ⟨w', hw', hc⟩ | hnone := ha'.of_others hw hne
    · rw [Variant.handle_of_content hc] at hne
      obtain ⟨w, hw, hc'⟩ | hnone := ha.of_others hw' hne
      · exact Or.inl ⟨w, hw, hc.trans hc'⟩
      · refine Or.inr fun t ht => hnone t ?_
        rwa [Variant.RefersTo, ← Variant.projectRefs_of_content hc]
    · exact Or.inr hnone

theorem Alters.around {f : Variant → Variant} (ha : Alters s s' h f)
    (hf : ∀ v, (f v).handle = v.handle ∧ (f v).registered = v.registered) : Around h s s' where
  live := Live.of_alters ha hf
  others hw hne := by
    obtain ⟨w', hw', hc⟩ := ha.has hw
    rw [changed_of_ne hne] at hc
    exact ⟨w', hw', hc⟩
  of_others {i w'} hw' hne := by
    obtain ⟨w, hw, hc⟩ := ha.of_has hw'
    have hh : (changed h f w).handle = w.handle := by
      unfold changed
      split
      · exact (hf w).1
      · rfl
    rw [Variant.handle_of_content hc, hh] at hne
    rw [changed_of_ne hne] at hc
    exact Or.inl ⟨w, hw, hc⟩

theorem around_track (h : Handle) (s : Store) (path : String) : Around h s (s.track path).1 where
  live := live_congr has_track
  others hw _ := ⟨_, has_track.2 hw, rfl⟩
  of_others hw _ := Or.inl ⟨_, has_track.1 hw, rfl⟩

theorem around_addVariant (h : Handle) {id : Nat} {q : String} (hid : s.path? id = some q)
    (framework : Framework) (k : Handle) :
    Around h s (s.addVariant id { framework := framework, handle := k }) where
  live := live_addVariant hid framework k
  others hw _ := ⟨_, (has_addVariant ⟨q, hid⟩).2 (Or.inl hw), rfl⟩
  of_others hw _ := by
    rcases (has_addVariant ⟨q, hid⟩).1 hw with hw | ⟨-, rfl⟩
    · exact Or.inl ⟨_, hw, rfl⟩
    · exact Or.inr fun t ⟨_, ht⟩ => nomatch ht

/-- A variant waits for another to be registered. -/
def Waits (s : Store) (k t : Handle) : Prop :=
  ∃ j u, s.Has j u ∧ u.handle = t ∧ k ∈ u.pending

/-- What a variant waits for is not registered and is referenced by it. -/
theorem Waits.referrer (hl : s.Linked) {k t : Handle} (hw : s.Waits k t) :
    (∃ j u, s.Has j u ∧ u.handle = t ∧ u.registered = false) ∧
      ∃ i v, s.Has i v ∧ v.handle = k ∧ v.RefersTo t := by
  obtain ⟨j, u, hu, rfl, hmem⟩ := hw
  have hreg : u.registered = false := by
    by_contra hreg
    rw [hl.settled hu (by simpa using hreg)] at hmem
    cases hmem
  exact ⟨⟨j, u, hu, rfl, hreg⟩, (hl.waiting hu hreg _).1 hmem⟩

/-- A variant waits for those that it references and that are not registered. -/
theorem waits_iff {next : Nat} (hs : s.Sound next) (hl : s.Linked) {i : Nat} {v : Variant} (hv : s.Has i v)
    (t : Handle) : s.Waits v.handle t ↔ v.RefersTo t ∧ ¬s.Live t := by
  constructor
  · intro hw
    obtain ⟨⟨j, u, hu, rfl, hreg⟩, a, w, hw, hh, hrefs⟩ := hw.referrer hl
    rw [(hs.handle_inj hw hv hh).2] at hrefs
    rw [live_iff hs hu, hreg]
    exact ⟨hrefs, nofun⟩
  · rintro ⟨⟨path, hpath⟩, hlive⟩
    obtain ⟨j, ⟨u, hu, rfl⟩, -⟩ := hl.target hv hpath
    rw [live_iff hs hu, Bool.not_eq_true] at hlive
    exact ⟨j, u, hu, rfl, (hl.waiting hu hlive _).2 ⟨i, v, hv, rfl, path, hpath⟩⟩

/-- The other variants wait for what they waited for. -/
theorem Around.waits {next next' : Nat} (ha : Around h s s') (hs : s.Sound next) (hl : s.Linked)
    (hs' : s'.Sound next') (hl' : s'.Linked) {k : Handle} (hk : k ≠ h) (t : Handle) :
    s'.Waits k t ↔ s.Waits k t := by
  constructor
  · intro hw
    obtain ⟨-, i, v', hv', rfl, hrefs⟩ := hw.referrer hl'
    obtain ⟨v, hv, hc⟩ | hnone := ha.of_others hv' hk
    · rw [waits_iff hs' hl' hv', ha.live] at hw
      rw [Variant.handle_of_content hc, waits_iff hs hl hv]
      rwa [Variant.RefersTo, Variant.projectRefs_of_content hc] at hw
    · exact absurd hrefs (hnone t)
  · intro hw
    obtain ⟨-, i, v, hv, rfl, -⟩ := hw.referrer hl
    obtain ⟨v', hv', hc⟩ := ha.others hv hk
    rw [waits_iff hs hl hv, ← ha.live] at hw
    rw [← Variant.handle_of_content hc, waits_iff hs' hl' hv']
    rwa [Variant.RefersTo, Variant.projectRefs_of_content hc]

end Store

namespace Reconciler

open Store

variable {r r' r'' : Reconciler} {id : Nat} {h : Handle} {v : Variant}

/-- The calls that bring the references of a variant from one table to another. They are about the registered
targets only. -/
def edgeCalls (s : Store) (h : Handle) (old now : Table String Handle) : List Workspace.Call :=
  (((old.without now).filter fun e => s.isLive e.2).map fun e => .removeProjectReference h e.2) ++
    ((now.without old).filter fun e => s.isLive e.2).map fun e => .addProjectReference h e.2

/-- A variant is given other references, and all else stays but what is recorded at their targets. -/
structure Rewires (id : Nat) (v : Variant) (refs : Table String Handle) (r r' : Reconciler) : Prop where
  wellFormed : r'.WellFormed
  around : Around v.handle r.store r'.store
  self : ∃ w, r'.store.Has id w ∧ w.content = (v.withRefs refs).content

theorem Rewires.refl (hr : r.WellFormed) (hv : r.store.Has id v) : Rewires id v v.projectRefs r r :=
  ⟨hr, Around.refl v.handle r.store, v, hv, rfl⟩

theorem Rewires.trans {refs refs' : Table String Handle} {w : Variant} (h : Rewires id v refs r r')
    (hw : w.content = (v.withRefs refs).content) (h' : Rewires id w refs' r' r'') :
    Rewires id v refs' r r'' where
  wellFormed := h'.wellFormed
  around := by
    exact h.around.trans (Variant.handle_of_withRefs hw ▸ h'.around)
  self := by
    obtain ⟨u, hu, hc⟩ := h'.self
    refine ⟨u, hu, hc.trans ?_⟩
    rw [Variant.eq_of_content hw]
    rfl

theorem rewires_dropProject (hr : r.WellFormed) (hv : r.store.Has id v) {path : String} {t : Handle}
    (hedge : v.projectRefs.get? path = some t) :
    Rewires id v (v.projectRefs.erase path) r (dropProject id v.handle r (path, t)) := by
  obtain ⟨ha, hs, hl⟩ := dropProject_effect hr.sound hr.linked hv hedge
  obtain ⟨w, hw, hc⟩ := ha.has hv
  rw [changed_self] at hc
  refine ⟨⟨?_, hl⟩, ha.around fun _ => ⟨rfl, rfl⟩, w, hw, hc⟩
  rw [(makes_dropProject ..).steady.nextHandle]
  exact hs

/-- Dropping a reference takes a call if its target is registered. -/
theorem dropProject_asks (hr : r.WellFormed) (hv : r.store.Has id v) {path : String} {t : Handle}
    (hedge : v.projectRefs.get? path = some t)
    (hsmooth : Smooth r (dropProject id v.handle r (path, t))) :
    Asks r (dropProject id v.handle r (path, t))
      (if r.store.isLive t then [.removeProjectReference v.handle t] else []) := by
  obtain ⟨j, ⟨u, hu, rfl⟩, -⟩ := hr.linked.target hv hedge
  obtain ⟨q, hq⟩ := hv.path
  obtain ⟨p, hp, -⟩ := Option.map_eq_some_iff.1
    ((path?_modifyVariant r.store v.handle (Variant.withoutRef path) id).trans hq)
  rw [dropProject_eq hp (variant?_withoutRef hr.sound hu v.handle path), registered_withoutRef] at hsmooth ⊢
  rw [isLive_eq hr.sound hu]
  dsimp only at hsmooth ⊢
  let r₁ := r.modifyVariant v.handle (Variant.withoutRef path)
  cases hreg : u.registered with
  | false =>
      simp only [Bool.false_eq_true, if_false]
      split <;> exact asks_of_calls rfl
  | true =>
      simp only [hreg, if_true] at hsmooth ⊢
      have hcall : Smooth r₁ (r₁.carryOut "removing project reference" id v.handle
          (.removeProjectReference v.handle u.handle)) := by
        split at hsmooth <;> exact hsmooth
      split <;> exact asks_of_carryOut hcall

/-- Dropping several references. -/
theorem foldl_dropProject_of_smooth {gone : List (String × Handle)} (hr : r.WellFormed)
    (hv : r.store.Has id v) (hh : v.handle = h) (hn : (gone.map (·.1)).Nodup)
    (hgone : ∀ e ∈ gone, v.projectRefs.get? e.1 = some e.2)
    (hsmooth : Smooth r (gone.foldl (dropProject id h) r)) :
    Rewires id v ⟨v.projectRefs.entries.filter fun e => e.1 ∉ gone.map (·.1)⟩ r
        (gone.foldl (dropProject id h) r) ∧
      Asks r (gone.foldl (dropProject id h) r)
        ((gone.filter fun e => r.store.isLive e.2).map fun e => .removeProjectReference h e.2) := by
  induction gone generalizing r v with
  | nil =>
      refine ⟨?_, asks_of_calls rfl⟩
      simpa using Rewires.refl hr hv
  | cons e rest ih =>
      subst hh
      rw [List.map_cons, List.nodup_cons] at hn
      have hedge := hgone e List.mem_cons_self
      obtain ⟨hfirst, hrest⟩ := hsmooth.split (precedes_dropProject id v.handle r e)
        (precedes_foldl (fun r => r) (precedes_dropProject id v.handle) rest _)
      have hone := rewires_dropProject hr hv hedge
      obtain ⟨v₁, hv₁, hc₁⟩ := hone.self
      have hrefs₁ := Variant.projectRefs_of_withRefs hc₁
      have hgone₁ : ∀ e' ∈ rest, v₁.projectRefs.get? e'.1 = some e'.2 := by
        intro e' he'
        have hne : e'.1 ≠ e.1 := fun heq => hn.1 (heq ▸ List.mem_map.2 ⟨e', he', rfl⟩)
        rw [hrefs₁, Table.get?_erase, if_neg hne]
        exact hgone e' (List.mem_cons_of_mem e he')
      obtain ⟨hothers, hasked⟩ :=
        ih hone.wellFormed hv₁ (Variant.handle_of_withRefs hc₁) hn.2 hgone₁ hrest
      refine ⟨?_, ?_⟩
      · have hentries : (⟨v.projectRefs.entries.filter fun x => x.1 ∉ (e :: rest).map (·.1)⟩ :
            Table String Handle) = ⟨v₁.projectRefs.entries.filter fun x => x.1 ∉ rest.map (·.1)⟩ := by
          rw [hrefs₁, Table.erase, List.filter_filter]
          congr 1
          refine List.filter_congr fun x _ => ?_
          by_cases hx : x.1 = e.1 <;> simp [hx]
        rw [hentries]
        exact hone.trans hc₁ hothers
      · have hcalls := (dropProject_asks hr hv hedge hfirst).trans hasked
        simp only [isLive_congr hone.around.live] at hcalls
        rw [List.filter_cons]
        split
        · rename_i hlive
          rwa [if_pos hlive] at hcalls
        · rename_i hlive
          rwa [if_neg hlive] at hcalls

/-- Recording a reference takes a call if its target is registered. -/
theorem link_asks (hs : r.store.Sound r.nextHandle) {p : Project} {j : Nat} {u : Variant}
    (hu : r.store.Has j u) {path : String} (hsmooth : Smooth r (link id h r p path u.handle)) :
    Asks r (link id h r p path u.handle)
      (if r.store.isLive u.handle then [.addProjectReference h u.handle] else []) := by
  rw [link_eq hs h p hu path] at hsmooth ⊢
  rw [isLive_eq hs hu]
  cases hreg : u.registered with
  | false => exact asks_of_calls rfl
  | true =>
      simp only [hreg, if_true] at hsmooth ⊢
      let r₁ := (r.modifyVariant u.handle (Variant.withBack p.path id)).modifyVariant h
        (Variant.withRef path u.handle)
      have hcall : Smooth r₁ (r₁.carryOut "adding project reference" id h
        (.addProjectReference h u.handle)) := hsmooth
      exact asks_of_carryOut hcall

/-- Finding or making the target of a reference. -/
theorem rewires_variantFor (hr : r.WellFormed) (hv : r.store.Has id v) {j : Nat} {q : String}
    (hj : r.store.path? j = some q) (framework : Framework) :
    Rewires id v v.projectRefs r (r.variantFor j framework).1 ∧
      (r.variantFor j framework).1.store.Has id v ∧
      ∃ u, (r.variantFor j framework).1.store.Has j u ∧ (r.variantFor j framework).2 = u.handle := by
  obtain ⟨⟨hr₁, -⟩, -, hkeep, u, hu, -, hh⟩ :=
    (edgeUpdates_updating id v.handle).variantFor ⟨hr, v, hv, rfl⟩ hj framework
  have haround : Around v.handle r.store (r.variantFor j framework).1.store := by
    rcases r.variantFor_cases hj framework with ⟨_, _, _, he⟩ | ⟨_, he⟩ <;> rw [he]
    · exact Around.refl v.handle r.store
    · exact around_addVariant v.handle hj framework _
  exact ⟨⟨hr₁, haround, v, hkeep hv, rfl⟩, hkeep hv, u, hu, hh⟩

/-- Adding a reference to a project under a path that is new. -/
theorem addProject_of_smooth {state : Reconciler × List ProjectRef} (hr : state.1.WellFormed)
    (hv : state.1.store.Has id v) {edge : String × Framework} (hclean : Path.clean edge.1 = edge.1)
    (hnew : v.projectRefs.get? edge.1 = none)
    (hsmooth : Smooth state.1 (addProject id v.handle state edge).1) :
    ∃ target, Rewires id v (v.projectRefs.put edge.1 target) state.1 (addProject id v.handle state edge).1 ∧
      Asks state.1 (addProject id v.handle state edge).1
        (if (addProject id v.handle state edge).1.store.isLive target then
          [.addProjectReference v.handle target] else []) := by
  obtain ⟨r, added⟩ := state
  obtain ⟨path, framework⟩ := edge
  obtain ⟨p, hp, hmem⟩ := hv
  have hv : r.store.Has id v := ⟨p, hp, hmem⟩
  have hthere : ¬v.projectRefs.contains path = true := by
    rw [Bool.not_eq_true]
    exact (Table.contains_eq_false _ _).2 hnew
  unfold addProject at hsmooth ⊢
  simp only [hp, hr.sound.variant? hv, if_neg hthere] at hsmooth ⊢
  -- the project is tracked, its variant is found or made, and the reference is recorded at both ends
  let r₁ : Reconciler := { r with store := (r.store.track path).1 }
  let j := (r.store.track path).2.1.contextId
  have hr₁ : r₁.WellFormed := ⟨hr.sound.track path, hr.linked.track path⟩
  have hv₁ : r₁.store.Has id v := has_track.2 hv
  have htracked : Rewires id v v.projectRefs r r₁ :=
    ⟨hr₁, around_track v.handle r.store path, v, hv₁, rfl⟩
  have hself := path?_track_self r.store path
  rw [hclean] at hself
  obtain ⟨hmade, hv₂, u, hu, htarget⟩ := rewires_variantFor hr₁ hv₁ hself framework
  have hpath : (r₁.variantFor j framework).1.store.path? j = some path :=
    (path?_congr (headings_variantFor r₁ j framework) j).trans hself
  have hq : (r₁.variantFor j framework).1.store.path? id = some p.path := by
    have hid : r.store.path? id = some p.path := by rw [path?, hp, Option.map_some]
    exact (path?_congr (headings_variantFor r₁ j framework) id).trans ((extends_track r.store path).path hid)
  have hr₂ := hmade.wellFormed
  obtain ⟨ha, hs, hl⟩ := link_effect hr₂.sound hr₂.linked hq hv₂ hu hpath hnew
  obtain ⟨w, hw, hc⟩ := ha.has hv₂
  rw [changed_self] at hc
  have hlinked : Rewires id v (v.projectRefs.put path u.handle) (r₁.variantFor j framework).1
      (link id v.handle (r₁.variantFor j framework).1 p path u.handle) := by
    refine ⟨⟨?_, hl⟩, ha.around fun _ => ⟨rfl, rfl⟩, w, hw, hc⟩
    rw [(makes_link ..).steady.nextHandle]
    exact hs
  rw [htarget] at hsmooth ⊢
  have hcalls : Asks r (r₁.variantFor j framework).1 [] := by
    refine asks_of_calls ?_
    unfold variantFor
    split <;> rfl
  have hlink : Smooth (r₁.variantFor j framework).1
      (link id v.handle (r₁.variantFor j framework).1 p path u.handle) :=
    (hsmooth.split (r₁.precedes_variantFor j framework) (makes_link ..).precedes).2
  refine ⟨u.handle, (htracked.trans rfl hmade).trans rfl hlinked, ?_⟩
  rw [isLive_congr hlinked.around.live]
  exact hcalls.trans (link_asks hr₂.sound hu hlink)

theorem addProject_of_contained (hs : r.store.Sound r.nextHandle) (hv : r.store.Has id v)
    {edge : String × Framework} (hthere : v.projectRefs.contains edge.1 = true) (added : List ProjectRef) :
    addProject id v.handle (r, added) edge = (r, added) := by
  have hfind := hs.variant? hv
  obtain ⟨p, hp, -⟩ := hv
  unfold addProject
  simp only [hp, hfind, hthere, if_true]

/-- Adding the wanted references that are not there. -/
theorem foldl_addProject_of_smooth {edges : List (String × Framework)} {state : Reconciler × List ProjectRef}
    (hr : state.1.WellFormed) (hv : state.1.store.Has id v) (hh : v.handle = h)
    (hclean : ∀ e ∈ edges, Path.clean e.1 = e.1)
    (hsmooth : Smooth state.1 (edges.foldl (addProject id h) state).1) :
    ∃ added : List (String × Handle),
      Rewires id v ⟨v.projectRefs.entries ++ added⟩ state.1 (edges.foldl (addProject id h) state).1 ∧
      Asks state.1 (edges.foldl (addProject id h) state).1
        ((added.filter fun e => (edges.foldl (addProject id h) state).1.store.isLive e.2).map
          fun e => .addProjectReference h e.2) ∧
      (added.map (·.1)).Nodup ∧ ∀ key, key ∈ added.map (·.1) ↔
        key ∈ edges.map (·.1) ∧ v.projectRefs.contains key = false := by
  induction edges generalizing state v with
  | nil =>
      refine ⟨[], ?_, asks_of_calls rfl, List.nodup_nil, fun key => by simp⟩
      simpa using Rewires.refl hr hv
  | cons e rest ih =>
      subst hh
      have hclean₁ := hclean e List.mem_cons_self
      have hclean' : ∀ e' ∈ rest, Path.clean e'.1 = e'.1 := fun e' he' => hclean e' (List.mem_cons_of_mem e he')
      obtain ⟨hfirst, hrest⟩ := hsmooth.split (precedes_addProject id v.handle state e)
        (precedes_foldl Prod.fst (precedes_addProject id v.handle) rest _)
      cases hthere : v.projectRefs.contains e.1 with
      | true =>
          have hskip : addProject id v.handle state e = state := addProject_of_contained hr.sound hv hthere state.2
          rw [List.foldl_cons, hskip]
          rw [List.foldl_cons, hskip] at hrest
          obtain ⟨added, hrewires, hasked, hn, hkeys⟩ := ih hr hv rfl hclean' hrest
          refine ⟨added, hrewires, hasked, hn, fun key => ?_⟩
          rw [hkeys, List.map_cons, List.mem_cons]
          refine and_congr_left fun hkey => (or_iff_right fun heq => ?_).symm
          rw [heq, hthere] at hkey
          cases hkey
      | false =>
          have hnew := (Table.contains_eq_false _ _).1 hthere
          obtain ⟨target, hone, hcall⟩ := addProject_of_smooth hr hv hclean₁ hnew hfirst
          obtain ⟨v₁, hv₁, hc₁⟩ := hone.self
          have hrefs₁ := Variant.projectRefs_of_withRefs hc₁
          obtain ⟨added, hrewires, hasked, hn, hkeys⟩ :=
            ih hone.wellFormed hv₁ (Variant.handle_of_withRefs hc₁) hclean' hrest
          rw [hrefs₁] at hrewires hkeys
          have hput : ∀ key, (v.projectRefs.put e.1 target).contains key = false ↔
              key ≠ e.1 ∧ v.projectRefs.contains key = false := by
            intro key
            rw [Table.contains_eq_false, Table.contains_eq_false, Table.get?_put]
            split <;> simp [*]
          refine ⟨(e.1, target) :: added, ?_, ?_, ?_, fun key => ?_⟩
          · rw [Table.entries_put_of_new hthere, List.append_assoc] at hrewires
            exact hone.trans hc₁ hrewires
          · have hcalls := hcall.trans hasked
            rw [← isLive_congr hrewires.around.live] at hcalls
            rw [List.foldl_cons, List.filter_cons]
            split
            · rename_i hlive
              rwa [if_pos hlive] at hcalls
            · rename_i hlive
              rwa [if_neg hlive] at hcalls
          · rw [List.map_cons, List.nodup_cons]
            exact ⟨fun hmem => ((hput e.1).1 ((hkeys e.1).1 hmem).2).1 rfl, hn⟩
          · rw [List.map_cons, List.mem_cons, hkeys, hput, List.map_cons, List.mem_cons]
            by_cases heq : key = e.1
            · simp [heq, hthere]
            · simp [heq]

/-- **The references of a variant after a message.** Exactly the wanted paths are there, and the calls are those
for the references that were dropped and for those that are new, as far as their targets are registered. -/
theorem setProjects_exact (hr : r.WellFormed) (hv : r.store.Has id v) (hh : v.handle = h)
    {wanted : Table String Framework} (hkeys : wanted.keys.Nodup)
    (hclean : ∀ {key framework}, wanted.get? key = some framework → Path.clean key = key)
    (hsmooth : Smooth r (setProjects id h r wanted).1) :
    ∃ now, Table.Follows (fun key => wanted.contains key = true) v.projectRefs now ∧
      Rewires id v now r (setProjects id h r wanted).1 ∧
      Asks r (setProjects id h r wanted).1
        (edgeCalls (setProjects id h r wanted).1.store h v.projectRefs now) := by
  subst hh
  have ht := hr.sound.keys hv
  have hclean' : ∀ e ∈ wanted.entries, Path.clean e.1 = e.1 :=
    fun e he => hclean ((Table.mem_entries hkeys e.1 e.2).1 he)
  rw [setProjects_eq hr.sound hv] at hsmooth ⊢
  let gone := v.projectRefs.entries.filter (!wanted.contains ·.1)
  let r₁ := gone.foldl (dropProject id v.handle) r
  have hdrops : Precedes r r₁ := precedes_foldl (fun r => r) (precedes_dropProject id v.handle) _ r
  obtain ⟨hdrop, hadd⟩ := hsmooth.split hdrops
    (precedes_foldl Prod.fst (precedes_addProject id v.handle) wanted.entries (_, []))
  obtain ⟨hdropped, hremoved⟩ := foldl_dropProject_of_smooth hr hv rfl (nodup_filter_entries ht _)
    (fun e he => (Table.mem_entries ht e.1 e.2).1 (List.mem_filter.1 he).1) hdrop
  rw [Table.restrict_of_dropped v.projectRefs wanted.contains] at hdropped
  obtain ⟨v₁, hv₁, hc₁⟩ := hdropped.self
  have hrefs₁ := Variant.projectRefs_of_withRefs hc₁
  have hr₁ : (r₁, ([] : List String)).1.WellFormed := hdropped.wellFormed
  obtain ⟨added, hadded, hasked, hn, hnew⟩ :=
    foldl_addProject_of_smooth hr₁ hv₁ (Variant.handle_of_withRefs hc₁) hclean' hadd
  rw [hrefs₁] at hadded hnew
  have hkeys' : ∀ key, key ∈ added.map (·.1) ↔
      wanted.contains key = true ∧ v.projectRefs.contains key = false := by
    intro key
    rw [hnew, Table.contains_iff_mem_keys]
    refine and_congr_right fun hwanted => ?_
    rw [Table.contains_restrict ((Table.contains_iff_mem_keys wanted key).2 hwanted)]
  obtain ⟨hfollows, hgone, hcame⟩ := Table.follows_revised ht hn hkeys'
  refine ⟨v.projectRefs.revised wanted.contains added, hfollows, hdropped.trans hc₁ hadded, ?_⟩
  rw [edgeCalls, hgone, hcame]
  have hlive : ∀ t, ((wanted.entries.foldl (addProject id v.handle) (r₁, [])).1.store).isLive t =
      r.store.isLive t := isLive_congr (hdropped.trans hc₁ hadded).around.live
  simp only [r₁, gone] at hlive hasked
  simp only [hlive] at hasked ⊢
  exact hremoved.trans hasked

/-- References that are exactly the wanted ones are left alone. -/
theorem setProjects_of_wanted (hs : r.store.Sound r.nextHandle) (hv : r.store.Has id v) (hh : v.handle = h)
    {wanted : Table String Framework}
    (hkeys : ∀ key, v.projectRefs.contains key = true ↔ wanted.contains key = true) :
    setProjects id h r wanted = (r, []) := by
  subst hh
  have hthere : ∀ {α : Type} {t : Table String α} {e : String × α}, e ∈ t.entries → t.contains e.1 = true :=
    fun he => (Table.contains_iff_mem_keys _ _).2 (List.mem_map.2 ⟨_, he, rfl⟩)
  have hnone : v.projectRefs.entries.filter (!wanted.contains ·.1) = [] := by
    refine List.filter_eq_nil_iff.2 fun e he => ?_
    simp [(hkeys e.1).1 (hthere he)]
  rw [setProjects_eq hs hv, hnone, List.foldl_nil]
  refine List.foldlRecOn wanted.entries _ (motive := fun state => state = (r, [])) rfl
    fun state hstate e he => ?_
  rw [hstate, addProject_of_contained hs hv ((hkeys e.1).2 (hthere he))]

end Reconciler

end CompilationBridge.Graph
