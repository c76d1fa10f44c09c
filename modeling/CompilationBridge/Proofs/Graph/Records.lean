import CompilationBridge.Proofs.Graph.MirrorRuns

/-! What variants have recorded, carried through the operations. A property of variants by project is
kept by an operation that changes one variant if it is kept at that variant; a new variant has nothing
recorded, so it has the property where nothing is expected. The update of a variant can then be followed
table by table while all other variants stay as they are. -/

namespace CompilationBridge.Graph

open Store

/-- Every variant has a property, and where a project has no registered variant of a framework, nothing
is expected of one. -/
structure Records (holds : Nat → Variant → Prop) (silent : Nat → String → Prop) (s : Store) : Prop where
  variant : ∀ {i v}, s.Has i v → holds i v
  quiet : ∀ i f, (∀ {v}, s.Has i v → v.framework.name = f → v.registered = false) → silent i f

section

variable {holds holds' : Nat → Variant → Prop} {silent silent' : Nat → String → Prop} {s s' : Store}

theorem Records.of_has (hr : Records holds silent s) (hhas : ∀ {i v}, s'.Has i v ↔ s.Has i v) :
    Records holds silent s' :=
  ⟨fun hv => hr.variant (hhas.1 hv), fun i f hf => hr.quiet i f fun hv => hf (hhas.2 hv)⟩

/-- A change of one variant that does not unregister it. -/
theorem Records.of_alters (hr : Records holds silent s) {h : Handle} {f : Variant → Variant}
    (ha : Alters s s' h f)
    (hcontent : ∀ {i v w}, w.content = v.content → holds' i v → holds' i w)
    (hf : ∀ {i v}, s.Has i v → v.handle = h → (f v).framework.name = v.framework.name ∧
      (v.registered = true → (f v).registered = true))
    (hself : ∀ {i v}, s.Has i v → v.handle = h → holds i v → holds' i (f v))
    (hother : ∀ {i v}, s.Has i v → v.handle ≠ h → holds i v → holds' i v) :
    Records holds' silent s' := by
  refine ⟨fun {i w} hw => ?_, fun i name hnone => hr.quiet i name fun {v} hv hname => ?_⟩
  · obtain ⟨v, hv, hc⟩ := ha.of_has hw
    by_cases hh : v.handle = h
    · rw [changed_of_eq hh] at hc
      exact hcontent hc (hself hv hh (hr.variant hv))
    · rw [changed_of_ne hh] at hc
      exact hcontent hc (hother hv hh (hr.variant hv))
  · obtain ⟨w, hw, hc⟩ := ha.has hv
    rw [← Bool.not_eq_true]
    intro hreg
    by_cases hh : v.handle = h
    · rw [changed_of_eq hh] at hc
      have hfalse := hnone hw (by rw [Variant.framework_of_content hc, (hf hv hh).1, hname])
      rw [Variant.registered_of_content hc, (hf hv hh).2 hreg] at hfalse
      cases hfalse
    · rw [changed_of_ne hh] at hc
      have hfalse := hnone hw (by rw [Variant.framework_of_content hc, hname])
      rw [Variant.registered_of_content hc, hreg] at hfalse
      cases hfalse

theorem Records.addVariant (hr : Records holds silent s) {id : Nat} {q : String}
    (hid : s.path? id = some q) {framework : Framework} {h : Handle}
    (hnew : ∀ {v}, s.Has id v → v.framework.name ≠ framework.name)
    (hfresh : silent id framework.name → holds id { framework := framework, handle := h }) :
    Records holds silent (s.addVariant id { framework := framework, handle := h }) := by
  refine ⟨fun {i v} hv => ?_, fun i f hnone => hr.quiet i f fun hv =>
    hnone ((has_addVariant ⟨q, hid⟩).2 (Or.inl hv))⟩
  rcases (has_addVariant ⟨q, hid⟩).1 hv with hv | ⟨rfl, rfl⟩
  · exact hr.variant hv
  · exact hfresh (hr.quiet i framework.name fun hv hname => absurd hname (hnew hv))

end

namespace Reconciler

variable {r : Reconciler} {id : Nat} {h : Handle} {v : Variant}

/-! ### One variant apart -/

/-- What is expected of variants by project and name, with an expectation of its own for one of them. -/
def apart (id : Nat) (name : String) (own : Variant → Prop) (holds : Nat → Variant → Prop) (i : Nat)
    (v : Variant) : Prop :=
  if i = id ∧ v.framework.name = name then own v else holds i v

/-- Nothing is expected, and of another variant. -/
def apartSilent (id : Nat) (name : String) (silent : Nat → String → Prop) (i : Nat) (f : String) : Prop :=
  silent i f ∧ ¬(i = id ∧ f = name)

/-- The reconciler while the variant of a name is updated, with what is known of it and of the others. -/
structure Following (id : Nat) (h : Handle) (name : String) (own : Variant → Prop)
    (holds : Nat → Variant → Prop) (silent : Nat → String → Prop) (r : Reconciler) : Prop where
  mirroring : Mirroring id h r
  named : ∀ {v}, r.store.Has id v → v.handle = h → v.framework.name = name
  records : Records (apart id name own holds) (apartSilent id name silent) r.store

/-- Expectations do not depend on edges back, on registration or on what a framework of the same name is
called otherwise, and a variant with nothing recorded meets them where nothing is expected. -/
structure Expectation (holds : Nat → Variant → Prop) (silent : Nat → String → Prop) : Prop where
  content : ∀ {i v w}, w.content = v.content → holds i v → holds i w
  fresh : ∀ {i framework h}, silent i framework.name → holds i { framework := framework, handle := h }
  settle : ∀ {i v}, holds i v → holds i v.settle
  relabel : ∀ {i v} {framework : Framework}, v.framework.name = framework.name → holds i v →
    holds i { v with framework := framework }

section

variable {name : String} {own own' : Variant → Prop} {holds : Nat → Variant → Prop}
  {silent : Nat → String → Prop}

theorem apart_content (he : Expectation holds silent)
    (hown : ∀ {v w : Variant}, w.content = v.content → own v → own w) {i : Nat} {v w : Variant}
    (hc : w.content = v.content) (hv : apart id name own holds i v) : apart id name own holds i w := by
  unfold apart at hv ⊢
  rw [Variant.framework_of_content hc]
  split
  · rename_i hself
    rw [if_pos hself] at hv
    exact hown hc hv
  · rename_i hself
    rw [if_neg hself] at hv
    exact he.content hc hv

theorem Following.known (hr : Following id h name own holds silent r) (hv : r.store.Has id v)
    (hh : v.handle = h) : own v := by
  have hown := hr.records.variant hv
  rwa [apart, if_pos ⟨rfl, hr.named hv hh⟩] at hown

/-- A change of the followed variant. -/
theorem Following.alter (hr : Following id h name own holds silent r) (he : Expectation holds silent)
    (hown : ∀ {v w : Variant}, w.content = v.content → own' v → own' w) {r' : Reconciler}
    (hr' : Mirroring id h r') {f : Variant → Variant} (ha : Alters r.store r'.store h f)
    (hf : ∀ v, (f v).handle = v.handle ∧ (f v).framework.name = v.framework.name ∧
      (f v).registered = v.registered)
    (hself : ∀ {v}, r.store.Has id v → v.handle = h → own v → own' (f v)) :
    Following id h name own' holds silent r' where
  mirroring := hr'
  named hw hh := by
    obtain ⟨v, hv, hc⟩ := ha.of_has hw
    have hvh : v.handle = h := by
      rw [← hh, Variant.handle_of_content hc, changed]
      split
      · rw [(hf v).1]
      · rfl
    rw [changed_of_eq hvh] at hc
    rw [Variant.framework_of_content hc, (hf v).2.1, hr.named hv hvh]
  records := by
    obtain ⟨v₀, hv₀, hh₀, -⟩ := hr.mirroring.2
    have hs := hr.mirroring.1.sound
    refine hr.records.of_alters ha (apart_content he hown) (fun {i v} _ _ => ⟨(hf v).2.1, fun h => ?_⟩) ?_ ?_
    · rw [(hf v).2.2, h]
    · intro i v hv hh hQ
      obtain ⟨rfl, -⟩ := hs.handle_inj hv hv₀ (hh.trans hh₀.symm)
      rw [apart, (hf v).2.1, if_pos ⟨rfl, hr.named hv hh⟩]
      exact hself hv hh (hr.known hv hh)
    · intro i v hv hh hQ
      have hnot : ¬(i = id ∧ v.framework.name = name) := by
        rintro ⟨rfl, hn⟩
        exact hh (hs.name_inj hv hv₀ (hn.trans (hr.named hv₀ hh₀).symm) ▸ hh₀)
      rw [apart, if_neg hnot] at hQ ⊢
      exact hQ

/-- More is known of the followed variant. -/
theorem Following.know (hr : Following id h name own holds silent r)
    (hown : ∀ {v}, r.store.Has id v → v.handle = h → own v → own' v) :
    Following id h name own' holds silent r where
  mirroring := hr.mirroring
  named := hr.named
  records := by
    obtain ⟨v₀, hv₀, hh₀, -⟩ := hr.mirroring.2
    refine ⟨fun {i v} hv => ?_, hr.records.quiet⟩
    have hQ := hr.records.variant hv
    unfold apart at hQ ⊢
    split
    · rename_i hself
      obtain ⟨rfl, hn⟩ := hself
      obtain rfl := hr.mirroring.1.sound.name_inj hv hv₀ (hn.trans (hr.named hv₀ hh₀).symm)
      rw [if_pos ⟨rfl, hn⟩] at hQ
      exact hown hv hh₀ hQ
    · rename_i hself
      rwa [if_neg hself] at hQ

/-- Updates of a table of the followed variant, where what is known of it is about something else. -/
theorem following_entries (slot : Slot) (he : Expectation holds silent)
    (hown : ∀ {v w : Variant}, w.content = v.content → own v → own w)
    (hfree : ∀ f v, own v → own (slot.update f v)) :
    EntryUpdates slot id h (Following id h name own holds silent) where
  wellFormed hr := hr.mirroring.1.toWellFormed
  owns hr := hr.mirroring.2.imp fun _ hv => ⟨hv.1, hv.2.1⟩
  drop {r v key ref} hr hv hh hkey := by
    have ha : Alters r.store (dropEntry slot id h r (key, ref)).store h (slot.update (·.erase key)) := by
      rw [dropEntry_store]
      exact alters_modify r.store h fun v => slot.update_handle _ v
    refine hr.alter he hown (hr.mirroring.dropEntry hv hh hkey) ha (fun v => ?_) fun _ _ hv => hfree _ _ hv
    exact ⟨slot.update_handle _ v, by rw [slot.update_framework], slot.update_registered _ v⟩
  add {r} item hr := by
    obtain ⟨v, hv, rfl, hreg⟩ := hr.mirroring.2
    have hr' := hr.mirroring.addEntry slot item
    rw [addEntry_eq hr.mirroring.1.sound hv] at hr' ⊢
    split
    · exact hr
    · rename_i hnew
      rw [if_neg hnew] at hr'
      obtain ⟨e, -, -, htaken⟩ := hr.mirroring.1.offered_eq hv hreg slot item
      rw [htaken, if_pos rfl] at hr' ⊢
      refine hr.alter he hown hr' (alters_modify r.store v.handle fun v => slot.update_handle _ v)
        (fun v => ?_) fun _ _ hv => hfree _ _ hv
      exact ⟨slot.update_handle _ v, by rw [slot.update_framework], slot.update_registered _ v⟩

/-- Updates of the references of the followed variant to other projects. -/
theorem following_edges (he : Expectation holds silent)
    (hown : ∀ {v w : Variant}, w.content = v.content → own v → own w)
    (hfree : ∀ refs v, own v → own { v with projectRefs := refs }) :
    EdgeUpdates id h (Following id h name own holds silent) where
  wellFormed hr := hr.mirroring.1.toWellFormed
  owns hr := hr.mirroring.2.imp fun _ hv => ⟨hv.1, hv.2.1⟩
  dropProject {r v path target} hr hv hh hedge := by
    subst hh
    obtain ⟨ha, -, -⟩ :=
      dropProject_effect hr.mirroring.1.sound hr.mirroring.1.linked hv hedge
    exact hr.alter he hown (hr.mirroring.dropProject hv rfl hedge) ha (fun _ => ⟨rfl, rfl, rfl⟩)
      fun _ _ hv => hfree _ _ hv
  track path hr := {
    mirroring := (mirrored_maintained.edges id h).track path hr.mirroring
    named := fun hv => hr.named (has_track.1 hv)
    records := hr.records.of_has has_track }
  create {r j q framework} hr hj hnew := {
    mirroring := (mirrored_maintained.edges id h).create hr.mirroring hj hnew
    named := by
      intro w hw hh
      rcases (has_addVariant ⟨q, hj⟩).1 hw with hw | ⟨rfl, rfl⟩
      · exact hr.named hw hh
      · obtain ⟨v, hv, hvh, -⟩ := hr.mirroring.2
        have hlt := hr.mirroring.1.sound.handle_lt hv
        rw [hvh, ← hh] at hlt
        exact absurd hlt (Nat.lt_irrefl _)
    records := hr.records.addVariant hj hnew fun hsilent => by
      rw [apart, if_neg hsilent.2]
      exact he.fresh hsilent.1 }
  link {r p v j u path} hr hq hv hh hnew hu hj := by
    subst hh
    obtain ⟨ha, -, -⟩ :=
      link_effect hr.mirroring.1.sound hr.mirroring.1.linked hq hv hu hj hnew
    exact hr.alter he hown (hr.mirroring.link hq hv rfl hnew hu hj) ha (fun _ => ⟨rfl, rfl, rfl⟩)
      fun _ _ hv => hfree _ _ hv

/-! ### Before and after an update -/

theorem records_variantFor (he : Expectation holds silent) (hr : Records holds silent r.store) {q : String}
    (hid : r.store.path? id = some q) (framework : Framework) :
    Records holds silent (r.variantFor id framework).1.store := by
  rcases r.variantFor_cases hid framework with ⟨v, -, -, heq⟩ | ⟨hnew, heq⟩ <;> rw [heq]
  · exact hr
  · exact hr.addVariant hid hnew he.fresh

theorem records_register (he : Expectation holds silent) (hr : Records holds silent r.store)
    (hwf : r.WellFormed) (hv : r.store.Has id v) :
    Records holds silent (r.register id v.handle).store := by
  obtain ⟨-, heq | ⟨-, heq⟩⟩ := register_store hwf.sound hv <;> rw [heq]
  · exact hr
  · have hkeep : ∀ v, (Variant.settle v).handle = v.handle := fun _ => rfl
    exact hr.of_alters (alters_modify r.store v.handle hkeep) he.content (fun _ _ => ⟨rfl, fun _ => rfl⟩)
      (fun _ _ hv => he.settle hv) fun _ _ hv => hv

/-- Beginning to follow a registered variant. -/
theorem follow (hm : Mirroring id h r) (hr : Records holds silent r.store)
    (hnamed : ∀ {v}, r.store.Has id v → v.handle = h → v.framework.name = name)
    (hown : ∀ {v}, r.store.Has id v → v.handle = h → holds id v → own v) :
    Following id h name own holds silent r where
  mirroring := hm
  named := hnamed
  records := by
    obtain ⟨v₀, hv₀, hh₀, hreg₀⟩ := hm.2
    refine ⟨fun {i v} hv => ?_, fun i f hnone => ⟨hr.quiet i f hnone, ?_⟩⟩
    · unfold apart
      split
      · rename_i hself
        obtain ⟨rfl, hn⟩ := hself
        obtain rfl := hm.1.sound.name_inj hv hv₀ (hn.trans (hnamed hv₀ hh₀).symm)
        exact hown hv hh₀ (hr.variant hv)
      · exact hr.variant hv
    · rintro ⟨rfl, rfl⟩
      have hfalse := hnone hv₀ (hnamed hv₀ hh₀)
      rw [hreg₀] at hfalse
      cases hfalse

/-- The variant that a message of its project is about is followed from then on. -/
theorem follow_ownVariant (he : Expectation holds silent) (hm : r.Mirrored)
    (hr : Records holds silent r.store) {q : String} (hid : r.store.path? id = some q) (framework : Framework)
    (hown : ∀ {v}, v.framework.name = framework.name → holds id v → own v) :
    Following id (r.ownVariant id framework).2 framework.name own holds silent
      (r.ownVariant id framework).1 := by
  obtain ⟨hm₁, v, hv, hname, hh⟩ := mirrored_maintained.variantFor hm hid framework
  have hr₁ := records_variantFor he hr hid framework
  have heq : r.ownVariant id framework = ((r.variantFor id framework).1.register id v.handle, v.handle) := by
    rw [← hh]
    rfl
  rw [heq]
  have hm₂ := hm₁.register hv
  have hr₂ := records_register he hr₁ hm₁.toWellFormed hv
  have hnamed : ∀ {w}, ((r.variantFor id framework).1.register id v.handle).store.Has id w →
      w.handle = v.handle → w.framework.name = framework.name := by
    intro w hw hwh
    obtain ⟨u, hu, huh, hun⟩ := (hm₁.toWellFormed.register hv).2.has hv
    rw [(hm₂.1.sound.handle_inj hw hu (hwh.trans huh.symm)).2, hun, hname]
  exact follow hm₂ hr₂ hnamed fun hw hwh => hown (hnamed hw hwh)

/-- After an update, with new expectations of which only those of the followed variant differ. -/
theorem Following.done {holds' : Nat → Variant → Prop} {silent' : Nat → String → Prop}
    (hr : Following id h name own holds silent r)
    (hown : ∀ {v}, v.framework.name = name → own v → holds' id v)
    (hholds : ∀ {i v}, ¬(i = id ∧ v.framework.name = name) → holds i v → holds' i v)
    (hsilent : ∀ {i f}, ¬(i = id ∧ f = name) → silent i f → silent' i f) :
    Records holds' silent' r.store := by
  refine ⟨fun {i v} hv => ?_, fun i f hnone => ?_⟩
  · have hQ := hr.records.variant hv
    by_cases hself : i = id ∧ v.framework.name = name
    · rw [apart, if_pos hself] at hQ
      rw [hself.1]
      exact hown hself.2 hQ
    · rw [apart, if_neg hself] at hQ
      exact hholds hself hQ
  · obtain ⟨hs, hself⟩ := hr.records.quiet i f hnone
    exact hsilent hself hs

theorem records_listFramework (he : Expectation holds silent) (hm : r.Mirrored)
    (hr : Records holds silent r.store) {q : String} (hid : r.store.path? id = some q)
    (framework : Framework) : Records holds silent (listFramework id r framework).store := by
  obtain ⟨hm₁, v, hv, hname, hh⟩ := mirrored_maintained.variantFor hm hid framework
  have hr₁ := records_variantFor he hr hid framework
  have hlist : listFramework id r framework = ((r.variantFor id framework).1.modifyVariant v.handle
      fun v => { v with framework := framework }).register id v.handle := by
    rw [← hh]
    rfl
  have hkeep : ∀ v : Variant, { v with framework := framework }.handle = v.handle := fun _ => rfl
  have hself : ∀ {i w}, (r.variantFor id framework).1.store.Has i w → w.handle = v.handle →
      w.framework.name = framework.name := by
    intro i w hw hwh
    rw [(hm₁.sound.handle_inj hw hv hwh).2, hname]
  have hr₂ : Records holds silent ((r.variantFor id framework).1.store.modifyVariant v.handle
      fun v => { v with framework := framework }) :=
    hr₁.of_alters (alters_modify _ v.handle hkeep) he.content
      (fun hw hwh => ⟨(hself hw hwh).symm, fun hreg => hreg⟩)
      (fun hw hwh hQ => he.relabel (hself hw hwh) hQ) fun _ _ hQ => hQ
  have hv₁ := hv.modify fun v => { v with framework := framework }
  have hr₃ := records_register he hr₂ (hm₁.relabel hv hname).toWellFormed hv₁
  rw [hlist]
  exact hr₃

end

end Reconciler

end CompilationBridge.Graph
