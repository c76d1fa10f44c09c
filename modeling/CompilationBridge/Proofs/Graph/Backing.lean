import CompilationBridge.Proofs.Graph.MirrorRuns

/-! The workspace backs what the graph records, whichever calls fail. A variant counts as registered, and
an entry is recorded, only once the workspace has taken it; before the workspace gives one up, or together
with this, the record goes. A call that fails leaves the workspace as it was, so the workspace may hold
more than the graph says, and never less. -/

namespace CompilationBridge

/-! ### What calls retain -/

/-- One workspace has the projects of another, each with the same metadata references and documents. -/
def Workspace.Retains (w w' : Workspace) : Prop :=
  ∀ k e, w.projects.get? k = some e →
    ∃ e', w'.projects.get? k = some e' ∧ e'.metadata = e.metadata ∧ e'.documents = e.documents

namespace Workspace.Retains

theorem refl (w : Workspace) : Retains w w :=
  fun _ e he => ⟨e, he, rfl, rfl⟩

theorem trans {w w' w'' : Workspace} (h : Retains w w') (h' : Retains w' w'') : Retains w w'' := by
  intro k e he
  obtain ⟨e', he', hm, hd⟩ := h k e he
  obtain ⟨e'', he'', hm', hd'⟩ := h' k e' he'
  exact ⟨e'', he'', hm'.trans hm, hd'.trans hd⟩

theorem put {w : Workspace} {h : Handle} {e' : Entry}
    (hput : ∀ e, w.projects.get? h = some e → e'.metadata = e.metadata ∧ e'.documents = e.documents) :
    Retains w ⟨w.projects.put h e'⟩ := by
  intro k e he
  by_cases hk : k = h
  · subst hk
    exact ⟨e', by rw [Table.get?_put, if_pos rfl], hput e he⟩
  · exact ⟨e, by rw [Table.get?_put, if_neg hk, he], rfl, rfl⟩

end Workspace.Retains

/-- A change of a project that succeeds. -/
theorem Workspace.update_eq_ok {w w' : Workspace} {h : Handle} {change : Entry → Except Fault Entry}
    (hw : w.update h change = .ok w') :
    ∃ e e', w.projects.get? h = some e ∧ change e = .ok e' ∧ w' = ⟨w.projects.put h e'⟩ := by
  unfold update at hw
  split at hw
  · cases hw
  · rename_i e he
    cases hc : change e with
    | error fault =>
        rw [hc] at hw
        cases hw
    | ok e' =>
        rw [hc] at hw
        exact ⟨e, e', he, hc, (Except.ok.inj hw).symm⟩

/-- A change of a project that leaves its metadata references and documents alone. -/
theorem Workspace.retains_update {w w' : Workspace} {h : Handle} {change : Entry → Except Fault Entry}
    (hchange : ∀ {e e'}, change e = .ok e' → e'.metadata = e.metadata ∧ e'.documents = e.documents)
    (hw : w.update h change = .ok w') : Retains w w' := by
  obtain ⟨e, e', he, hc, rfl⟩ := update_eq_ok hw
  refine Retains.put fun e₀ he₀ => ?_
  obtain rfl : e = e₀ := Option.some.inj (he.symm.trans he₀)
  exact hchange hc

namespace Graph

open Store

namespace Reconciler

variable {r : Reconciler}

/-- A call that adds a project, or is about its references to other projects or its options. -/
theorem retains_perform {call : Workspace.Call} (hcall : call.method.isOuter = true) {w w' : Workspace}
    (hw : w.perform call = .ok w') : w.Retains w' := by
  cases call with
  | addProject info =>
      rw [Workspace.perform] at hw
      split at hw
      · cases hw
      · rename_i hnew
        obtain rfl := Except.ok.inj hw
        refine Workspace.Retains.put fun e he => ?_
        exact absurd ((Table.contains_iff _ _).2 ⟨e, he⟩) hnew
  | addProjectReference project target =>
      refine Workspace.retains_update (fun {e e'} hc => ?_) hw
      split at hc
      · obtain rfl := Except.ok.inj hc
        exact ⟨rfl, rfl⟩
      · cases hc
  | removeProjectReference project target | setCompilationOptions project options
  | setParseOptions project options =>
      refine Workspace.retains_update (fun {e e'} hc => ?_) hw
      obtain rfl := Except.ok.inj hc
      exact ⟨rfl, rfl⟩
  | _ => cases hcall

/-- The operations without documents and metadata references retain every project. -/
theorem Makes.retains {r' : Reconciler} (h : Makes r r') : r.workspace.Retains r'.workspace := by
  induction h with
  | refl => exact Workspace.Retains.refl _
  | store s _ ih => exact ih
  | call _ hc ih =>
      refine ih.trans ?_
      rcases carryOut_workspace .. with hw | hw
      · exact retains_perform hc hw
      · rw [hw]
        exact Workspace.Retains.refl _

end Reconciler

/-! ### Backing -/

/-- What the graph records is in the workspace, and no two records stand for the same thing. -/
structure Backed (s : Store) (next : Nat) (w : Workspace) : Prop where
  registered : ∀ {i v}, s.Has i v → v.registered = true → ∃ e, w.projects.get? v.handle = some e
  shown : ∀ {i v}, s.Has i v → ∀ (slot : Slot) {key ref}, (slot.table v).get? key = some ref →
    ∃ e, w.projects.get? v.handle = some e ∧ slot.Shown e key ref
  distinct : ∀ {i v}, s.Has i v → v.Distinct next
  apart : ∀ {i j u v} {slot slot' : Slot} {key key' ref}, s.Has i u → s.Has j v →
    (slot.table u).get? key = some ref → (slot'.table v).get? key' = some ref → u.handle = v.handle

section

variable {s s' : Store} {next next' : Nat} {w w' : Workspace}

theorem Backed.of_has (hb : Backed s next w) (hhas : ∀ {i v}, s'.Has i v → s.Has i v) :
    Backed s' next w where
  registered hv := hb.registered (hhas hv)
  shown hv := hb.shown (hhas hv)
  distinct hv := hb.distinct (hhas hv)
  apart hu hv := hb.apart (hhas hu) (hhas hv)

/-- The workspace may come to hold more. -/
theorem Backed.retain (hb : Backed s next w) (hw : w.Retains w') : Backed s next w' where
  registered hv hreg := by
    obtain ⟨e, he⟩ := hb.registered hv hreg
    obtain ⟨e', he', -⟩ := hw _ _ he
    exact ⟨e', he'⟩
  shown hv slot _ _ hkey := by
    obtain ⟨e, he, hs⟩ := hb.shown hv slot hkey
    obtain ⟨e', he', hm, hd⟩ := hw _ _ he
    exact ⟨e', he', hs.congr hm hd⟩
  distinct := hb.distinct
  apart := hb.apart

theorem Backed.mono (hb : Backed s next w) (hnext : next ≤ next') : Backed s next' w :=
  { hb with distinct := fun hv => (hb.distinct hv).mono hnext }

/-- A change of one variant that records nothing new. -/
theorem Backed.of_alters (hb : Backed s next w) {h : Handle} {f : Variant → Variant} (ha : Alters s s' h f)
    (hf : ∀ v, (f v).handle = v.handle)
    (hreg : ∀ {i v}, s.Has i v → v.handle = h → (f v).registered = true →
      ∃ e, w.projects.get? h = some e)
    (htable : ∀ {slot key ref v}, (Slot.table slot (f v)).get? key = some ref →
      (slot.table v).get? key = some ref) : Backed s' next w := by
  -- an entry of a variant afterwards is one of the variant that it comes from
  have hold : ∀ {i x}, s'.Has i x → ∃ v, s.Has i v ∧ x.handle = v.handle ∧
      (x.registered = true → ∃ e, w.projects.get? v.handle = some e) ∧
      ∀ {slot key ref}, (Slot.table slot x).get? key = some ref → (slot.table v).get? key = some ref := by
    intro i x hx
    obtain ⟨v, hv, hc⟩ := ha.of_has hx
    refine ⟨v, hv, ?_⟩
    by_cases hh : v.handle = h
    · rw [changed_of_eq hh] at hc
      refine ⟨(Variant.handle_of_content hc).trans (hf v), fun hr => ?_, fun {slot key ref} hkey => ?_⟩
      · rw [Variant.registered_of_content hc] at hr
        exact hh ▸ hreg hv hh hr
      · rw [Slot.table_of_content hc slot] at hkey
        exact htable hkey
    · rw [changed_of_ne hh] at hc
      refine ⟨Variant.handle_of_content hc, fun hr => ?_, fun {slot key ref} hkey => ?_⟩
      · exact hb.registered hv ((Variant.registered_of_content hc).symm.trans hr)
      · rwa [Slot.table_of_content hc slot] at hkey
  constructor
  · intro i x hx hr
    obtain ⟨v, -, hh, hin, -⟩ := hold hx
    exact hh ▸ hin hr
  · intro i x hx slot key ref hkey
    obtain ⟨v, hv, hh, -, hentry⟩ := hold hx
    exact hh ▸ hb.shown hv slot (hentry hkey)
  · intro i x hx
    obtain ⟨v, hv, -, -, hentry⟩ := hold hx
    exact ⟨fun hk hk' => (hb.distinct hv).inj (hentry hk) (hentry hk'),
      fun hk => (hb.distinct hv).lt (hentry hk)⟩
  · intro i j x y slot slot' key key' ref hx hy hk hk'
    obtain ⟨u, hu, hhu, -, hentry⟩ := hold hx
    obtain ⟨v, hv, hhv, -, hentry'⟩ := hold hy
    rw [hhu, hhv]
    exact hb.apart hu hv (hentry hk) (hentry' hk')

/-- A project goes from the workspace once its variant has nothing recorded. -/
theorem Backed.withdraw (hb : Backed s next w) {h : Handle}
    (hidle : ∀ {i v}, s.Has i v → v.handle = h → v.registered = false ∧
      ∀ slot : Slot, slot.table v = .empty)
    (hw : ∀ {k e}, k ≠ h → w.projects.get? k = some e →
      ∃ e', w'.projects.get? k = some e' ∧ e'.metadata = e.metadata ∧ e'.documents = e.documents) :
    Backed s next w' where
  registered {i v} hv hreg := by
    have hne : v.handle ≠ h := fun hh => by
      rw [(hidle hv hh).1] at hreg
      cases hreg
    obtain ⟨e, he⟩ := hb.registered hv hreg
    obtain ⟨e', he', -⟩ := hw hne he
    exact ⟨e', he'⟩
  shown {i v} hv slot key ref hkey := by
    have hne : v.handle ≠ h := fun hh => by
      rw [(hidle hv hh).2 slot] at hkey
      cases hkey
    obtain ⟨e, he, hs⟩ := hb.shown hv slot hkey
    obtain ⟨e', he', hm, hd⟩ := hw hne he
    exact ⟨e', he', hs.congr hm hd⟩
  distinct := hb.distinct
  apart := hb.apart

theorem Backed.addVariant (hb : Backed s next w) {id : Nat} {q : String} (hid : s.path? id = some q)
    (framework : Framework) :
    Backed (s.addVariant id { framework := framework, handle := ⟨next⟩ }) (next + 1) w := by
  have hhas : ∀ {i x}, (s.addVariant id { framework := framework, handle := ⟨next⟩ }).Has i x →
      s.Has i x ∨ (x.registered = false ∧ ∀ slot : Slot, slot.table x = .empty) := by
    intro i x hx
    rcases (has_addVariant ⟨q, hid⟩).1 hx with hx | ⟨-, rfl⟩
    · exact Or.inl hx
    · exact Or.inr ⟨rfl, fun slot => by cases slot <;> rfl⟩
  -- a variant with an entry is an old one
  have hold : ∀ {i x} {slot : Slot} {key ref},
      (s.addVariant id { framework := framework, handle := ⟨next⟩ }).Has i x →
      (slot.table x).get? key = some ref → s.Has i x := by
    intro i x slot key ref hx hkey
    rcases hhas hx with hx | ⟨-, hempty⟩
    · exact hx
    · rw [hempty slot] at hkey
      cases hkey
  constructor
  · intro i x hx hreg
    rcases hhas hx with hx | ⟨hunreg, -⟩
    · exact hb.registered hx hreg
    · rw [hunreg] at hreg
      cases hreg
  · intro i x hx slot key ref hkey
    exact hb.shown (hold hx hkey) slot hkey
  · intro i x hx
    exact ⟨fun hk hk' => (hb.distinct (hold hx hk)).inj hk hk',
      fun hk => Nat.lt_succ_of_lt ((hb.distinct (hold hx hk)).lt hk)⟩
  · intro i j x y slot slot' key key' ref hx hy hk hk'
    exact hb.apart (hold hx hk) (hold hy hk') hk hk'

/-- What stands for an entry that is no longer recorded goes from the workspace. -/
theorem Backed.discard (hb : Backed s next w) {h ref : Handle} {e : Workspace.Entry}
    (he : w.projects.get? h = some e) (slot : Slot)
    (hgone : ∀ {i v} {slot' : Slot} {key}, s.Has i v → v.handle = h →
      (slot'.table v).get? key ≠ some ref) :
    Backed s next ⟨w.projects.put h (slot.dropFrom ref e)⟩ where
  registered {i v} hv hreg := by
    rw [Table.get?_put]
    split
    · exact ⟨_, rfl⟩
    · exact hb.registered hv hreg
  shown {i v} hv slot' key ref' hkey := by
    obtain ⟨e₀, he₀, hs⟩ := hb.shown hv slot' hkey
    rw [Table.get?_put]
    split
    · rename_i hh
      obtain rfl : e₀ = e := Option.some.inj (he₀.symm.trans (hh ▸ he))
      refine ⟨_, rfl, Slot.shown_dropFrom ?_ hs⟩
      rintro rfl
      exact hgone hv hh hkey
    · exact ⟨e₀, he₀, hs⟩
  distinct := hb.distinct
  apart := hb.apart

/-- An entry is recorded under a fresh handle once the workspace has taken it. -/
theorem Backed.record (hb : Backed s next w) {h : Handle} {e : Workspace.Entry}
    (he : w.projects.get? h = some e) {slot : Slot} {item : Slot.Item}
    (hnew : ∀ {i v}, s.Has i v → v.handle = h → (slot.table v).get? item.key = none) :
    Backed (s.modifyVariant h (slot.update (·.put item.key ⟨next⟩))) (next + 1)
      ⟨w.projects.put h (slot.addTo ⟨next⟩ item e)⟩ := by
  have hkeep : ∀ v, (changed h (slot.update (·.put item.key ⟨next⟩)) v).handle = v.handle := by
    intro v
    unfold changed
    split
    · exact slot.update_handle _ v
    · rfl
  -- an entry afterwards is the new one or was there before
  have hentry : ∀ {i v} {slot' : Slot} {key ref}, s.Has i v →
      (slot'.table (changed h (slot.update (·.put item.key ⟨next⟩)) v)).get? key = some ref →
      ((slot'.table v).get? key = some ref ∧ ref ≠ ⟨next⟩) ∨
        (v.handle = h ∧ slot' = slot ∧ key = item.key ∧ ref = ⟨next⟩) := by
    intro i v slot' key ref hv hkey
    by_cases hh : v.handle = h
    · rw [changed_of_eq hh] at hkey
      exact ((Slot.get?_table_put (hb.distinct hv) (hnew hv hh)).1 hkey).imp_right fun hself => ⟨hh, hself⟩
    · rw [changed_of_ne hh] at hkey
      refine Or.inl ⟨hkey, ?_⟩
      rintro rfl
      exact Nat.lt_irrefl next ((hb.distinct hv).lt hkey)
  constructor
  · intro i x hx hreg
    obtain ⟨v, hv, rfl⟩ := has_modifyVariant.1 hx
    rw [hkeep, Table.get?_put]
    split
    · exact ⟨_, rfl⟩
    · rename_i hh
      rw [changed_of_ne hh] at hreg
      exact hb.registered hv hreg
  · intro i x hx slot' key ref hkey
    obtain ⟨v, hv, rfl⟩ := has_modifyVariant.1 hx
    rw [hkeep, Table.get?_put]
    rcases hentry hv hkey with ⟨hold, hne⟩ | ⟨hh, rfl, rfl, rfl⟩
    · obtain ⟨e₀, he₀, hs⟩ := hb.shown hv slot' hold
      split
      · rename_i hh
        obtain rfl : e₀ = e := Option.some.inj (he₀.symm.trans (hh ▸ he))
        exact ⟨_, rfl, Slot.shown_addTo item hne hs⟩
      · exact ⟨e₀, he₀, hs⟩
    · rw [if_pos hh]
      exact ⟨_, rfl, slot'.shown_addTo_self ⟨next⟩ item e⟩
  · intro i x hx
    obtain ⟨v, hv, rfl⟩ := has_modifyVariant.1 hx
    by_cases hh : v.handle = h
    · rw [changed_of_eq hh]
      exact (hb.distinct hv).add (hnew hv hh)
    · rw [changed_of_ne hh]
      exact (hb.distinct hv).mono (Nat.le_succ next)
  · intro i j x y slot' slot'' key key' ref hx hy hk hk'
    obtain ⟨u, hu, rfl⟩ := has_modifyVariant.1 hx
    obtain ⟨v, hv, rfl⟩ := has_modifyVariant.1 hy
    rw [hkeep, hkeep]
    rcases hentry hu hk with ⟨hold, hne⟩ | ⟨hh, -, -, hr⟩ <;>
      rcases hentry hv hk' with ⟨hold', hne'⟩ | ⟨hh', -, -, hr'⟩
    · exact hb.apart hu hv hold hold'
    · exact absurd hr' hne
    · exact absurd hr hne'
    · exact hh.trans hh'.symm

end

namespace Reconciler

variable {r r' : Reconciler} {id : Nat} {h : Handle} {v : Variant}

/-! ### The operations -/

/-- A reconciler whose workspace backs its graph. -/
structure Upheld (r : Reconciler) : Prop extends r.WellFormed where
  backed : Backed r.store r.nextHandle r.workspace

/-- A reconciler whose workspace backs its graph while one variant is updated. -/
def Upholding (id : Nat) (h : Handle) (r : Reconciler) : Prop :=
  r.Upheld ∧ r.store.Owns id h

theorem Upholding.updating (hr : Upholding id h r) : Updating id h r :=
  ⟨hr.1.toWellFormed, hr.2⟩

theorem Updating.upholding (hr : Updating id h r) (hb : Backed r.store r.nextHandle r.workspace) :
    Upholding id h r :=
  ⟨⟨hr.1, hb⟩, hr.2⟩

theorem removeCall_eq_ok {w w' : Workspace} {h ref : Handle} (slot : Slot)
    (hw : w.perform (slot.removeCall h ref) = .ok w') :
    ∃ e, w.projects.get? h = some e ∧ w' = ⟨w.projects.put h (slot.dropFrom ref e)⟩ := by
  cases slot <;>
  · obtain ⟨e, e', he, hc, rfl⟩ := Workspace.update_eq_ok hw
    split at hc
    · exact ⟨e, he, by rw [← Except.ok.inj hc]; rfl⟩
    · cases hc

theorem addCall_eq_ok {w w' : Workspace} {h ref : Handle} (slot : Slot) {item : Slot.Item}
    (hw : w.perform (slot.addCall h ref item) = .ok w') :
    ∃ e, w.projects.get? h = some e ∧ w' = ⟨w.projects.put h (slot.addTo ref item e)⟩ := by
  cases slot <;>
  · obtain ⟨e, e', he, hc, rfl⟩ := Workspace.update_eq_ok hw
    exact ⟨e, he, by rw [← Except.ok.inj hc]; rfl⟩

theorem Upholding.dropEntry (hr : Upholding id h r) (hv : r.store.Has id v) (hh : v.handle = h)
    {slot : Slot} {key : String} {ref : Handle} (hkey : (slot.table v).get? key = some ref) :
    Upholding id h (dropEntry slot id h r (key, ref)) := by
  refine ((entryUpdates_updating slot id h).drop hr.updating hv hh hkey).upholding ?_
  have hb := hr.1.backed
  have hself : ∀ {i w}, r.store.Has i w → w.handle = h → w = v :=
    fun hw hwh => (hr.1.sound.handle_inj hw hv (hwh.trans hh.symm)).2
  have ha : Alters r.store (r.store.modifyVariant h (slot.update (·.erase key))) h (slot.update (·.erase key)) :=
    alters_modify r.store h fun v => slot.update_handle _ v
  have hstore : Backed (r.store.modifyVariant h (slot.update (·.erase key))) r.nextHandle r.workspace := by
    refine hb.of_alters ha (fun v => slot.update_handle _ v) ?_ ?_
    · intro i w hw hwh hreg
      rw [slot.update_registered] at hreg
      exact hwh ▸ hb.registered hw hreg
    · intro slot' key' ref' w hkey'
      by_cases hs : slot' = slot
      · subst hs
        rw [slot'.table_update_self, Table.get?_erase] at hkey'
        split at hkey'
        · cases hkey'
        · exact hkey'
      · rwa [Slot.table_update_of_ne _ _ hs] at hkey'
  rw [dropEntry_store, (dropEntry_steady ..).nextHandle]
  rcases r.carryOut_workspace slot.removal id h (slot.removeCall h ref) with hw | hw
  · obtain ⟨e, he, hw'⟩ := removeCall_eq_ok slot hw
    change Backed _ _ (r.carryOut slot.removal id h (slot.removeCall h ref)).workspace
    rw [hw']
    refine hstore.discard he slot fun {i x slot' key'} hx hxh hkey' => ?_
    obtain ⟨w, hw, rfl⟩ := has_modifyVariant.1 hx
    by_cases hwh : w.handle = h
    · rw [changed_of_eq hwh, hself hw hwh] at hkey'
      exact ((Slot.get?_table_erase (hb.distinct hv) hkey).1 hkey').2 rfl
    · rw [changed_of_ne hwh] at hxh
      exact hwh hxh
  · change Backed _ _ (r.carryOut slot.removal id h (slot.removeCall h ref)).workspace
    rw [hw]
    exact hstore

theorem Upholding.addEntry (hr : Upholding id h r) (slot : Slot) (item : Slot.Item) :
    Upholding id h (addEntry slot id h r item) := by
  refine ((entryUpdates_updating slot id h).add item hr.updating).upholding ?_
  obtain ⟨hr, v, hv, rfl⟩ := hr
  rw [addEntry_eq hr.sound hv]
  split
  · exact hr.backed
  · rename_i hthere
    have hnone := (Table.contains_eq_false _ _).1 (Bool.eq_false_iff.2 hthere)
    have hstore : (offered slot id v.handle r item).1.store = r.store := offered_store ..
    have hnext : (offered slot id v.handle r item).1.nextHandle = r.nextHandle + 1 := offered_nextHandle ..
    rcases r.issued.attempt_workspace slot.addition id v.handle (slot.addCall v.handle ⟨r.nextHandle⟩ item)
      with ⟨htaken, hw⟩ | ⟨hrefused, hw⟩
    · have htaken : (offered slot id v.handle r item).2 = true := htaken
      obtain ⟨e, he, hw'⟩ := addCall_eq_ok slot hw
      have hw' : (offered slot id v.handle r item).1.workspace =
          ⟨r.workspace.projects.put v.handle (slot.addTo ⟨r.nextHandle⟩ item e)⟩ := hw'
      rw [if_pos htaken, modifyVariant_store, hstore]
      change Backed _ (offered slot id v.handle r item).1.nextHandle
        (offered slot id v.handle r item).1.workspace
      rw [hnext, hw']
      refine hr.backed.record he fun {i u} hu huh => ?_
      rw [(hr.sound.handle_inj hu hv huh).2]
      exact hnone
    · have hrefused : (offered slot id v.handle r item).2 = false := hrefused
      have hw : (offered slot id v.handle r item).1.workspace = r.workspace := hw
      rw [hrefused, if_neg Bool.false_ne_true, hstore, hnext, hw]
      exact hr.backed.mono (Nat.le_succ _)

theorem Upheld.register (hr : r.Upheld) (hv : r.store.Has id v) :
    Upholding id v.handle (r.register id v.handle) := by
  refine (wellFormed_maintained.register hr.toWellFormed hv).upholding ?_
  cases hreg : v.registered with
  | true =>
      rw [register_of_registered hr.sound hv hreg]
      exact hr.backed
  | false =>
      obtain ⟨p, hp, hmem⟩ := hv
      have hcall := r.attempt_untouched "adding project" id v.handle (addingCall p v)
      have hback := r.attempt_workspace "adding project" id v.handle (addingCall p v)
      obtain ⟨⟨r', taken⟩, ha⟩ : ∃ result, r.attempt "adding project" id v.handle (addingCall p v) = result :=
        ⟨_, rfl⟩
      rw [ha] at hcall hback
      cases taken with
      | false =>
          rw [register_of_refused hr.sound hp hmem hreg ha, hcall.store, hcall.nextHandle]
          rcases hback with ⟨htrue, -⟩ | ⟨-, hw⟩
          · cases htrue
          · rw [hw]
            exact hr.backed
      | true =>
          rcases hback with ⟨-, hw⟩ | ⟨hfalse, -⟩
          · have hin : ∃ e, r'.workspace.projects.get? v.handle = some e := by
              rw [addingCall, Workspace.perform] at hw
              split at hw
              · cases hw
              · rw [← Except.ok.inj hw]
                exact ⟨_, (Table.get?_put ..).trans (if_pos rfl)⟩
            have hsteady := (register_store hr.sound ⟨p, hp, hmem⟩).1
            have heq := register_of_taken hr.sound hp hmem hreg ha
            have hmade : Makes r' (r.register id v.handle) := by
              rw [heq]
              exact (((Makes.refl.store _).sendOptions id v).carryOutAll _ id v.handle
                (resolvingCalls_outer v)).store _
            have hstore : (r.register id v.handle).store = r.store.modifyVariant v.handle Variant.settle := by
              rw [heq, modifyVariant_store, carryOutAll_store, sendOptions_store, modifyVariant_store,
                hcall.store]
              exact modifyVariant_modifyVariant r.store v.handle _ fun _ => rfl
            rw [hstore, hsteady.nextHandle]
            have hkeep : ∀ v, (Variant.settle v).handle = v.handle := fun _ => rfl
            have htable : ∀ (slot : Slot) (v : Variant), slot.table v.settle = slot.table v := by
              intro slot v
              cases slot <;> rfl
            refine Backed.retain ?_ hmade.retains
            refine (hr.backed.retain (retains_perform rfl hw)).of_alters
              (alters_modify r.store v.handle hkeep) hkeep (fun _ _ _ => hin) ?_
            intro slot key ref u hkey
            rwa [htable] at hkey
          · cases hfalse

theorem Upheld.teardown (hr : r.Upheld) (hv : r.store.Has id v) (hreg : v.registered = true) :
    (r.teardown id v.handle).Upheld := by
  refine ⟨hr.toWellFormed.teardown hv hreg, ?_⟩
  obtain ⟨p, hp, hmem⟩ := hv
  have hv : r.store.Has id v := ⟨p, hp, hmem⟩
  obtain ⟨ha, hs, -⟩ := tornDown_effect hr.sound hr.linked hp hv hreg
  have htable : ∀ (slot : Slot) (v : Variant), slot.table v.reset = .empty := by
    intro slot v
    cases slot <;> rfl
  have hkeep : ∀ v, (Variant.reset v).handle = v.handle := fun _ => rfl
  have hreset : Backed (tornDown r.store p v) r.nextHandle r.workspace := by
    refine hr.backed.of_alters ha hkeep (fun _ _ hreg => nomatch hreg) fun {slot key ref u} hkey => ?_
    rw [htable] at hkey
    cases hkey
  have hidle : ∀ {i u}, (tornDown r.store p v).Has i u → u.handle = v.handle → u.registered = false ∧
      ∀ slot : Slot, slot.table u = .empty := by
    intro i u hu hh
    obtain ⟨x, hx, hc⟩ := ha.of_has hu
    have hxh : x.handle = v.handle := by
      rw [← hh, Variant.handle_of_content hc]
      unfold changed
      split <;> rfl
    rw [changed_of_eq hxh] at hc
    exact ⟨Variant.registered_of_content hc, fun slot => (Slot.table_of_content hc slot).trans (htable slot x)⟩
  have hafter : Backed (tornDown r.store p v) r.nextHandle (r.afterTeardown id p v).workspace := by
    rcases carryOut_workspace
      { r with store := v.projectRefs.values.foldl (withdrawEdge p.path p v.handle) r.store }
      "removing project" id v.handle (.removeProject v.handle) with hw | hw
    · refine hreset.withdraw hidle fun {k e} hk he => ?_
      have hw : r.workspace.perform (.removeProject v.handle) = .ok (r.afterTeardown id p v).workspace := hw
      rw [Workspace.perform] at hw
      split at hw
      · rw [← Except.ok.inj hw]
        refine ⟨{ e with references := e.references.filter (· ≠ v.handle) }, ?_, rfl, rfl⟩
        rw [Table.get?_map, Table.get?_erase, if_neg hk, he, Option.map_some]
      · cases hw
    · have hw : (r.afterTeardown id p v).workspace = r.workspace := hw
      rw [hw]
      exact hreset
  have hnext : (r.afterTeardown id p v).nextHandle = r.nextHandle := (carryOut_untouched ..).nextHandle
  rcases teardown_effect hr.sound hr.linked hp hv hreg with he | ⟨he, -, -⟩ <;> rw [he]
  · exact hnext.symm ▸ hafter
  · exact hnext.symm ▸ hafter.of_has fun hu => (has_removeVariant.1 hu).1

/-- A change of a variant that leaves its tables alone, and nothing of the workspace. -/
theorem Upheld.alter (hr : r.Upheld) {f : Variant → Variant} (ha : Alters r.store r'.store h f)
    (hf : ∀ v, (f v).handle = v.handle ∧ (f v).registered = v.registered)
    (htable : ∀ (slot : Slot) v, slot.table (f v) = slot.table v)
    (hnext : r'.nextHandle = r.nextHandle) (hw : r.workspace.Retains r'.workspace) :
    Backed r'.store r'.nextHandle r'.workspace := by
  rw [hnext]
  refine Backed.retain (hr.backed.of_alters ha (fun v => (hf v).1) (fun hv hh hreg => ?_) ?_) hw
  · rw [(hf _).2] at hreg
    exact hh ▸ hr.backed.registered hv hreg
  · intro slot key ref v hkey
    rwa [htable] at hkey

/-! ### Every run -/

theorem upheld_maintained : Maintained Upheld Upholding where
  wellFormed hr := hr.toWellFormed
  quiet _ _ hr := ⟨⟨hr.sound, hr.linked⟩, hr.backed⟩
  track path hr := ⟨wellFormed_maintained.track path hr.toWellFormed, hr.backed.of_has has_track.1⟩
  visit _ hr := ⟨⟨hr.sound, hr.linked⟩, hr.backed⟩
  describe id info hr := ⟨wellFormed_maintained.describe id info hr.toWellFormed,
    hr.backed.of_has has_describeIn.1⟩
  create hr hj hnew := ⟨wellFormed_maintained.create hr.toWellFormed hj hnew, hr.backed.addVariant hj _⟩
  relabel hr hv hn := by
    have hplain := plain_relabel hr.sound hv hn
    exact ⟨hr.toWellFormed.plain hplain rfl (Nat.le_refl _), hr.alter (alters_modify _ _ hplain.handle)
      (fun _ => ⟨rfl, rfl⟩) (fun slot v => by cases slot <;> rfl) rfl (Workspace.Retains.refl _)⟩
  teardown hr hv hreg := hr.teardown hv hreg
  register hr hv := hr.register hv
  done hr := hr.1
  entries slot id h := {
    wellFormed := fun hr => hr.1.toWellFormed
    owns := fun hr => hr.2
    drop := fun hr hv hh hkey => hr.dropEntry hv hh hkey
    add := fun item hr => hr.addEntry slot item }
  edges id h := {
    wellFormed := fun hr => hr.1.toWellFormed
    owns := fun hr => hr.2
    dropProject := fun hr hv hh hedge => by
      refine ((edgeUpdates_updating id h).dropProject hr.updating hv hh hedge).upholding ?_
      subst hh
      obtain ⟨ha, -, -⟩ := dropProject_effect hr.1.sound hr.1.linked hv hedge
      exact hr.1.alter ha (fun _ => ⟨rfl, rfl⟩) (fun slot v => by cases slot <;> rfl)
        (makes_dropProject ..).steady.nextHandle (makes_dropProject ..).retains
    track := fun path hr => ((edgeUpdates_updating id h).track path hr.updating).upholding
      (hr.1.backed.of_has has_track.1)
    create := fun hr hj hnew => ((edgeUpdates_updating id h).create hr.updating hj hnew).upholding
      (hr.1.backed.addVariant hj _)
    link := fun hr hq hv hh hnew hu hj => by
      refine ((edgeUpdates_updating id h).link hr.updating hq hv hh hnew hu hj).upholding ?_
      subst hh
      obtain ⟨ha, -, -⟩ := link_effect hr.1.sound hr.1.linked hq hv hu hj hnew
      exact hr.1.alter ha (fun _ => ⟨rfl, rfl⟩) (fun slot v => by cases slot <;> rfl)
        (makes_link ..).steady.nextHandle (makes_link ..).retains }
  setOptions {r id h} options hr := by
    refine (wellFormed_maintained.setOptions options hr.updating).upholding ?_
    refine hr.1.alter (h := h) (f := withOptions options) ?_ (fun _ => ⟨rfl, rfl⟩)
      (fun slot v => by cases slot <;> rfl) (makes_setOptions ..).steady.nextHandle (makes_setOptions ..).retains
    rw [setOptions_store]
    exact alters_modify r.store h fun _ => rfl
  markLoaded {r id h} hr := (wellFormed_maintained.markLoaded hr.updating).upholding
    (hr.1.alter (alters_modify r.store h fun _ => rfl) (fun _ => ⟨rfl, rfl⟩)
      (fun slot v => by cases slot <;> rfl) rfl (Workspace.Retains.refl _))

theorem upheld_run (extension : String) (outages : Outages Workspace.Method) (steps : List Step) :
    ((facing extension outages).run steps).Upheld := by
  have hnone : ∀ {i v}, ¬(facing extension outages).store.Has i v := not_has_empty
  refine upheld_maintained.run ⟨wellFormed_of_empty rfl, ?_⟩ steps
  exact ⟨fun hv => absurd hv hnone, fun hv => absurd hv hnone, fun hv => absurd hv hnone,
    fun hv => absurd hv hnone⟩

/-- **The graph never claims more than the workspace has**, whichever workspace calls fail. A registered
variant has its project in the workspace. Each document, file reference and raw reference that a variant
has recorded is in the workspace project of the variant, under the recorded handle and with the recorded
path or name. No two records, of any variants and tables, share a handle. -/
theorem workspace_backs_records (extension : String) (outages : Outages Workspace.Method)
    (steps : List Step) :
    let r := (facing extension outages).run steps
    (∀ i v, r.store.Has i v → v.registered = true → r.workspace.projects.contains v.handle = true) ∧
    (∀ i v, r.store.Has i v →
      (∀ path ref, v.documents.get? path = some ref →
        ∃ e, r.workspace.projects.get? v.handle = some e ∧ e.documents.get? ref = some path) ∧
      (∀ path ref, v.fileRefs.get? path = some ref →
        ∃ e, r.workspace.projects.get? v.handle = some e ∧
          e.metadata.get? ref = some { handle := ref, path := path }) ∧
      ∀ name ref, v.rawRefs.get? name = some ref →
        ∃ e bytes, r.workspace.projects.get? v.handle = some e ∧
          e.metadata.get? ref = some { handle := ref, name := name, bytes := bytes }) ∧
    ∀ i j u v (slot slot' : Slot) key key' ref, r.store.Has i u → r.store.Has j v →
      (slot.table u).get? key = some ref → (slot'.table v).get? key' = some ref →
      i = j ∧ u = v ∧ slot = slot' ∧ key = key' := by
  intro r
  have hr : r.Upheld := upheld_run extension outages steps
  refine ⟨?_, ?_, ?_⟩
  · intro i v hv hreg
    exact (Table.contains_iff _ _).2 (hr.backed.registered hv hreg)
  · intro i v hv
    refine ⟨?_, ?_, ?_⟩
    · intro path ref hkey
      exact hr.backed.shown hv .document hkey
    · intro path ref hkey
      exact hr.backed.shown hv .file hkey
    · intro name ref hkey
      obtain ⟨e, he, bytes, hm⟩ := hr.backed.shown hv .raw hkey
      exact ⟨e, bytes, he, hm⟩
  · intro i j u v slot slot' key key' ref hu hv hk hk'
    obtain ⟨rfl, rfl⟩ := hr.sound.handle_inj hu hv (hr.backed.apart hu hv hk hk')
    obtain ⟨rfl, rfl⟩ := (hr.backed.distinct hu).inj hk hk'
    exact ⟨rfl, rfl, rfl, rfl⟩

end Reconciler

end Graph

end CompilationBridge

