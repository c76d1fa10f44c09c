import CompilationBridge.Proofs.Graph.Teardown

/-! Induction over the updates of one variant. A message brings a table of a variant to a list of items,
or its references to those that are wanted, by single changes: what each change keeps, the update keeps.
A change comes with what is known where it is made, so that an entry is dropped only if it is there and
a reference added only if it is not. -/

namespace CompilationBridge.Graph

/-! ### Tables of a variant -/

namespace Slot

variable (slot : Slot) (f : Table String Handle → Table String Handle) (v : Variant)

@[simp] theorem table_update_self : slot.table (slot.update f v) = f (slot.table v) := by
  cases slot <;> rfl

theorem table_update_of_ne {slot slot' : Slot} (h : slot ≠ slot') :
    slot.table (slot'.update f v) = slot.table v := by
  cases slot <;> cases slot' <;> simp_all [table, update]

@[simp] theorem update_handle : (slot.update f v).handle = v.handle := by
  cases slot <;> rfl

@[simp] theorem update_framework : (slot.update f v).framework = v.framework := by
  cases slot <;> rfl

@[simp] theorem update_registered : (slot.update f v).registered = v.registered := by
  cases slot <;> rfl

@[simp] theorem update_loaded : (slot.update f v).loaded = v.loaded := by
  cases slot <;> rfl

@[simp] theorem update_projectRefs : (slot.update f v).projectRefs = v.projectRefs := by
  cases slot <;> rfl

@[simp] theorem update_dependees : (slot.update f v).dependees = v.dependees := by
  cases slot <;> rfl

@[simp] theorem update_pending : (slot.update f v).pending = v.pending := by
  cases slot <;> rfl

@[simp] theorem update_compilation : (slot.update f v).compilation = v.compilation := by
  cases slot <;> rfl

@[simp] theorem update_parse : (slot.update f v).parse = v.parse := by
  cases slot <;> rfl

theorem tidy_update {v : Variant} (hv : v.Tidy) (hf : ∀ t, t.keys.Nodup → (f t).keys.Nodup) :
    (slot.update f v).Tidy := by
  obtain ⟨hfile, hraw, hproject, hdoc⟩ := hv
  cases slot with
  | file => exact ⟨hf _ hfile, hraw, hproject, hdoc⟩
  | raw => exact ⟨hfile, hf _ hraw, hproject, hdoc⟩
  | document => exact ⟨hfile, hraw, hproject, hf _ hdoc⟩

theorem nodup_keys_table {v : Variant} (hv : v.Tidy) : (slot.table v).keys.Nodup := by
  cases slot with
  | file => exact hv.1
  | raw => exact hv.2.1
  | document => exact hv.2.2.2

end Slot

/-! ### Changes apart from edges -/

namespace Store

/-- A change of a variant that has nothing to do with its edges. -/
structure Plain (s : Store) (h : Handle) (f : Variant → Variant) : Prop where
  handle : ∀ v, (f v).handle = v.handle
  name : ∀ {i v}, s.Has i v → v.handle = h → (f v).framework.name = v.framework.name
  tidy : ∀ v, v.Tidy → (f v).Tidy
  projectRefs : ∀ v, (f v).projectRefs = v.projectRefs
  dependees : ∀ v, (f v).dependees = v.dependees
  registered : ∀ v, (f v).registered = v.registered
  pending : ∀ v, (f v).pending = v.pending

theorem Sound.plain {s : Store} {next : Nat} (hs : s.Sound next) {h : Handle} {f : Variant → Variant}
    (hf : s.Plain h f) : (s.modifyVariant h f).Sound next :=
  hs.image (image_modify s h hf.handle)
    (hs.keeps_changed fun hv hh => ⟨hf.handle _, hf.name hv hh, hf.tidy _ (hs.tidy hv)⟩)

theorem Linked.plain {s : Store} {next : Nat} (hs : s.Sound next) (hl : s.Linked) {h : Handle}
    {f : Variant → Variant} (hf : s.Plain h f) : (s.modifyVariant h f).Linked := by
  have hkeeps : s.Keeps (changed h f) :=
    hs.keeps_changed fun hv hh => ⟨hf.handle _, hf.name hv hh, hf.tidy _ (hs.tidy hv)⟩
  refine hl.modify hf.handle hkeeps (fun _ _ => hf.projectRefs _) (fun _ _ => hf.dependees _) ?_ ?_ ?_
  · intro i v hv _
    rw [hf.pending]
    exact hl.nodup hv
  · intro i v hv _ hreg
    rw [hf.registered] at hreg
    rw [hf.pending, hl.settled hv hreg]
  · intro i v hv hh hreg k
    rw [hf.registered] at hreg
    rw [hf.pending, hl.waiting hv hreg, hh]

theorem plain_update (s : Store) (slot : Slot) (h : Handle)
    {f : Table String Handle → Table String Handle} (hf : ∀ t, t.keys.Nodup → (f t).keys.Nodup) :
    s.Plain h (slot.update f) where
  handle v := slot.update_handle f v
  name _ _ := by rw [slot.update_framework]
  tidy _ hv := slot.tidy_update f hv hf
  projectRefs v := slot.update_projectRefs f v
  dependees v := slot.update_dependees f v
  registered v := slot.update_registered f v
  pending v := slot.update_pending f v

end Store

namespace Reconciler

open Store

variable {r : Reconciler} {id : Nat} {h : Handle} {v : Variant} {W : Reconciler → Prop}

/-- The graph is sound and linked, with fresh handles ahead. -/
structure WellFormed (r : Reconciler) : Prop where
  sound : r.store.Sound r.nextHandle
  linked : r.store.Linked

theorem WellFormed.of_eq {r r' : Reconciler} (hr : r.WellFormed) (hs : r'.store = r.store)
    (hn : r'.nextHandle = r.nextHandle) : r'.WellFormed where
  sound := by rw [hs, hn]; exact hr.sound
  linked := by rw [hs]; exact hr.linked

theorem WellFormed.plain {r r' : Reconciler} (hr : r.WellFormed) {f : Variant → Variant}
    (hf : r.store.Plain h f) (hs : r'.store = r.store.modifyVariant h f)
    (hn : r.nextHandle ≤ r'.nextHandle) : r'.WellFormed where
  sound := by rw [hs]; exact (hr.sound.plain hf).mono hn
  linked := by rw [hs]; exact hr.linked.plain hr.sound hf

/-! ### Single changes -/

theorem dropEntry_store (slot : Slot) (id : Nat) (h : Handle) (r : Reconciler) (entry : String × Handle) :
    (dropEntry slot id h r entry).store =
      r.store.modifyVariant h (slot.update (·.erase entry.1)) := by
  rw [dropEntry, modifyVariant_store, carryOut_store]

theorem dropEntry_steady (slot : Slot) (id : Nat) (h : Handle) (r : Reconciler) (entry : String × Handle) :
    Steady r (dropEntry slot id h r entry) :=
  have hcall := r.carryOut_untouched slot.removal id h (slot.removeCall h entry.2)
  ⟨hcall.nextHandle, hcall.sourceExtension, hcall.visiting⟩

theorem setOptions_store (id : Nat) (h : Handle) (r : Reconciler) (options : CompilerOptions) :
    (setOptions id h r options).store = r.store.modifyVariant h fun v =>
      { v with compilation := some options.compilation, parse := some options.parse } := by
  unfold setOptions
  dsimp only
  split
  · split
    · exact sendOptions_store ..
    · rfl
  · rfl

/-- The reconciler with one handle more given out. -/
def issued (r : Reconciler) : Reconciler :=
  { r with nextHandle := r.nextHandle + 1 }

/-- Asking the workspace to take an item under a new handle. -/
def offered (slot : Slot) (id : Nat) (h : Handle) (r : Reconciler) (item : Slot.Item) : Reconciler × Bool :=
  r.issued.attempt slot.addition id h (slot.addCall h ⟨r.nextHandle⟩ item)

theorem addEntry_eq (hs : r.store.Sound r.nextHandle) (hv : r.store.Has id v) (slot : Slot)
    (item : Slot.Item) :
    addEntry slot id v.handle r item =
      if (slot.table v).contains item.key then r
      else if (offered slot id v.handle r item).2 then
        (offered slot id v.handle r item).1.modifyVariant v.handle
          (slot.update (·.put item.key ⟨r.nextHandle⟩))
      else (offered slot id v.handle r item).1 := by
  unfold addEntry
  simp only [hs.variant? hv]
  split
  · rfl
  · obtain ⟨⟨r', taken⟩, hoffered⟩ : ∃ result, offered slot id v.handle r item = result := ⟨_, rfl⟩
    rw [hoffered]
    unfold offered issued at hoffered
    simp only [fresh, hoffered]
    cases taken <;> rfl

theorem offered_store (slot : Slot) (id : Nat) (h : Handle) (r : Reconciler) (item : Slot.Item) :
    (offered slot id h r item).1.store = r.store :=
  (attempt_untouched ..).store

theorem offered_nextHandle (slot : Slot) (id : Nat) (h : Handle) (r : Reconciler) (item : Slot.Item) :
    (offered slot id h r item).1.nextHandle = r.nextHandle + 1 :=
  (attempt_untouched ..).nextHandle

/-- What a change of a variant leaves as the variant of its handle. -/
theorem eq_of_modified {s : Store} {next : Nat} (hs : s.Sound next) (hv : s.Has id v) {f : Variant → Variant}
    (hf : ∀ v, (f v).handle = v.handle) {w : Variant} (hw : (s.modifyVariant v.handle f).Has id w)
    (hh : w.handle = v.handle) : w = f v := by
  obtain ⟨u, hu, rfl⟩ := has_modifyVariant.1 hw
  have huv : u.handle = v.handle := by
    unfold changed at hh
    split at hh
    · rwa [hf] at hh
    · exact hh
  rw [changed_of_eq huv, (hs.handle_inj hu hv huv).2]

/-! ### Tables -/

/-- A property that single changes of a table of a variant keep. -/
structure EntryUpdates (slot : Slot) (id : Nat) (h : Handle) (W : Reconciler → Prop) : Prop where
  wellFormed : ∀ {r}, W r → r.WellFormed
  owns : ∀ {r}, W r → r.store.Owns id h
  drop : ∀ {r v key ref}, W r → r.store.Has id v → v.handle = h →
    (slot.table v).get? key = some ref → W (dropEntry slot id h r (key, ref))
  add : ∀ {r} item, W r → W (addEntry slot id h r item)

/-- Dropping entries of a table one by one, where each is there. -/
theorem foldl_drop {tab : Variant → Table String Handle} {drop : Reconciler → String × Handle → Reconciler}
    (howns : ∀ {r}, W r → r.store.Owns id h)
    (hdrop : ∀ {r v e}, W r → r.store.Has id v → v.handle = h → (tab v).get? e.1 = some e.2 →
      W (drop r e) ∧ ∀ {w}, (drop r e).store.Has id w → w.handle = h → tab w = (tab v).erase e.1)
    {gone : List (String × Handle)} (hn : (gone.map (·.1)).Nodup) (hr : W r) (hv : r.store.Has id v)
    (hh : v.handle = h) (hgone : ∀ e ∈ gone, (tab v).get? e.1 = some e.2) :
    W (gone.foldl drop r) ∧ ∃ w, (gone.foldl drop r).store.Has id w ∧ w.handle = h ∧
      ∀ key, (tab w).get? key = if key ∈ gone.map (·.1) then none else (tab v).get? key := by
  induction gone generalizing r v with
  | nil => exact ⟨hr, v, hv, hh, fun key => by simp⟩
  | cons e rest ih =>
      rw [List.map_cons, List.nodup_cons] at hn
      obtain ⟨hr₁, htab⟩ := hdrop hr hv hh (hgone e List.mem_cons_self)
      obtain ⟨v₁, hv₁, hh₁⟩ := howns hr₁
      have hrest : ∀ e' ∈ rest, (tab v₁).get? e'.1 = some e'.2 := by
        intro e' he'
        have hne : e'.1 ≠ e.1 := fun heq => hn.1 (heq ▸ List.mem_map.2 ⟨e', he', rfl⟩)
        rw [htab hv₁ hh₁, Table.get?_erase, if_neg hne]
        exact hgone e' (List.mem_cons_of_mem e he')
      obtain ⟨hW, w, hw, hwh, hget⟩ := ih hn.2 hr₁ hv₁ hh₁ hrest
      refine ⟨hW, w, hw, hwh, fun key => ?_⟩
      rw [hget, htab hv₁ hh₁, Table.get?_erase]
      by_cases hkey : key = e.1
      · rw [if_pos hkey, ite_self, if_pos (hkey ▸ List.mem_cons_self)]
      · have hiff : key ∈ (e :: rest).map (·.1) ↔ key ∈ rest.map (·.1) := by
          rw [List.map_cons, List.mem_cons, or_iff_right hkey]
        rw [if_neg hkey, if_congr hiff rfl rfl]

theorem nodup_filter_entries {t : Table String Handle} (ht : t.keys.Nodup) (keep : String × Handle → Bool) :
    ((t.entries.filter keep).map (·.1)).Nodup :=
  List.Nodup.sublist (List.filter_sublist.map _) ht

/-- The entries of a table that a list of items leaves out. -/
def unlisted (t : Table String Handle) (items : List Slot.Item) : List (String × Handle) :=
  t.entries.filter fun e => !items.any (·.key = e.1)

theorem mem_unlisted {t : Table String Handle} (ht : t.keys.Nodup) {items : List Slot.Item}
    {e : String × Handle} :
    e ∈ unlisted t items ↔ t.get? e.1 = some e.2 ∧ ¬∃ item ∈ items, item.key = e.1 := by
  simp only [unlisted, List.mem_filter, Bool.not_eq_true', Table.mem_entries ht]
  rw [← Bool.not_eq_true, List.any_eq_true]
  simp only [decide_eq_true_eq]

theorem setEntries_eq (hs : r.store.Sound r.nextHandle) (hv : r.store.Has id v) (slot : Slot)
    (items : List Slot.Item) :
    setEntries slot id v.handle r items =
      items.foldl (addEntry slot id v.handle)
        ((unlisted (slot.table v) items).foldl (dropEntry slot id v.handle) r) := by
  unfold setEntries
  simp only [hs.variant? hv, Option.map_some, Option.getD_some]
  rfl

/-- Dropping the entries that are not listed. -/
theorem foldl_drop_unlisted {slot : Slot} (hwf : ∀ {r}, W r → r.WellFormed)
    (howns : ∀ {r}, W r → r.store.Owns id h)
    (hdrop : ∀ {r v key ref}, W r → r.store.Has id v → v.handle = h →
      (slot.table v).get? key = some ref → W (dropEntry slot id h r (key, ref)))
    (hr : W r) (hv : r.store.Has id v) (hh : v.handle = h) (items : List Slot.Item) :
    W ((unlisted (slot.table v) items).foldl (dropEntry slot id h) r) ∧
      ∃ w, ((unlisted (slot.table v) items).foldl (dropEntry slot id h) r).store.Has id w ∧
        w.handle = h ∧ ∀ key, (slot.table w).get? key =
          if ∃ item ∈ items, item.key = key then (slot.table v).get? key else none := by
  have hkeys : (slot.table v).keys.Nodup := slot.nodup_keys_table ((hwf hr).sound.tidy hv)
  have hstep : ∀ {r v} {e : String × Handle}, W r → r.store.Has id v → v.handle = h →
      (slot.table v).get? e.1 = some e.2 → W (dropEntry slot id h r e) ∧
        ∀ {w}, (dropEntry slot id h r e).store.Has id w → w.handle = h →
          slot.table w = (slot.table v).erase e.1 := by
    intro r v e hr hv hh he
    refine ⟨hdrop hr hv hh he, fun {w} hw hwh => ?_⟩
    subst hh
    rw [dropEntry_store] at hw
    rw [eq_of_modified (hwf hr).sound hv (fun v => slot.update_handle _ v) hw hwh,
      slot.table_update_self]
  obtain ⟨hW', w, hw, hwh, hget⟩ := foldl_drop howns hstep (nodup_filter_entries hkeys _) hr hv hh
    fun e he => ((mem_unlisted hkeys).1 he).1
  refine ⟨hW', w, hw, hwh, fun key => ?_⟩
  rw [hget key]
  by_cases hlisted : ∃ item ∈ items, item.key = key
  · rw [if_pos hlisted, if_neg]
    intro hmem
    obtain ⟨e, he, rfl⟩ := List.mem_map.1 hmem
    exact ((mem_unlisted hkeys).1 he).2 hlisted
  · rw [if_neg hlisted]
    cases hkey : (slot.table v).get? key with
    | none => exact ite_self none
    | some ref =>
        have hmem : (key, ref) ∈ unlisted (slot.table v) items := (mem_unlisted hkeys).2 ⟨hkey, hlisted⟩
        exact if_pos (List.mem_map.2 ⟨_, hmem, rfl⟩)

theorem EntryUpdates.drop_unlisted {slot : Slot} (hW : EntryUpdates slot id h W) (hr : W r)
    (hv : r.store.Has id v) (hh : v.handle = h) (items : List Slot.Item) :
    W ((unlisted (slot.table v) items).foldl (dropEntry slot id h) r) ∧
      ∃ w, ((unlisted (slot.table v) items).foldl (dropEntry slot id h) r).store.Has id w ∧
        w.handle = h ∧ ∀ key, (slot.table w).get? key =
          if ∃ item ∈ items, item.key = key then (slot.table v).get? key else none :=
  foldl_drop_unlisted hW.wellFormed hW.owns hW.drop hr hv hh items

theorem EntryUpdates.setEntries {slot : Slot} (hW : EntryUpdates slot id h W) (hr : W r)
    (items : List Slot.Item) : W (setEntries slot id h r items) := by
  obtain ⟨v, hv, rfl⟩ := hW.owns hr
  rw [setEntries_eq (hW.wellFormed hr).sound hv]
  exact List.foldlRecOn items _ (hW.drop_unlisted hr hv rfl items).1 fun _ h item _ => hW.add item h

/-- Where the workspace takes every item, the table has the listed keys in the end. -/
theorem EntryUpdates.setEntries_keys {slot : Slot} (hW : EntryUpdates slot id h W)
    (htaken : ∀ {r v} item, W r → r.store.Has id v → v.handle = h → (slot.table v).get? item.key = none →
      (offered slot id h r item).2 = true) (hr : W r) (items : List Slot.Item) :
    ∃ w, (Reconciler.setEntries slot id h r items).store.Has id w ∧ w.handle = h ∧
      ∀ key, (slot.table w).contains key = true ↔ ∃ item ∈ items, item.key = key := by
  have hadd : ∀ (l : List Slot.Item) {r v}, W r → r.store.Has id v → v.handle = h →
      ∃ w, (l.foldl (addEntry slot id h) r).store.Has id w ∧ w.handle = h ∧ ∀ key,
        (slot.table w).contains key = true ↔
          (slot.table v).contains key = true ∨ ∃ item ∈ l, item.key = key := by
    intro l
    induction l with
    | nil => exact fun {r v} _ hv hh => ⟨v, hv, hh, fun key => by simp⟩
    | cons item rest ih =>
        intro r v hr hv hh
        obtain ⟨v₁, hv₁, hh₁⟩ := hW.owns (hW.add item hr)
        -- the key of the item is there afterwards, and no other key has come
        have hkeys : ∀ key, (slot.table v₁).contains key = true ↔
            (slot.table v).contains key = true ∨ item.key = key := by
          intro key
          have hv₁' := hv₁
          subst hh
          rw [addEntry_eq (hW.wellFormed hr).sound hv] at hv₁'
          split at hv₁'
          · rename_i hthere
            rw [((hW.wellFormed hr).sound.handle_inj hv₁' hv hh₁).2]
            exact ⟨Or.inl, fun hkey => hkey.elim (fun h => h) fun h => h ▸ hthere⟩
          · rename_i hnew
            have hnone := (Table.contains_eq_false _ _).1 (Bool.eq_false_iff.2 hnew)
            rw [if_pos (htaken item hr hv rfl hnone), modifyVariant_store, offered_store] at hv₁'
            rw [eq_of_modified (hW.wellFormed hr).sound hv (fun v => slot.update_handle _ v) hv₁' hh₁,
              slot.table_update_self, Table.contains_eq_isSome, Table.get?_put,
              Table.contains_eq_isSome]
            by_cases hkey : key = item.key
            · simp [hkey]
            · simp [hkey, Ne.symm hkey]
        obtain ⟨w, hw, hwh, hget⟩ := ih (hW.add item hr) hv₁ hh₁
        refine ⟨w, hw, hwh, fun key => ?_⟩
        rw [hget, hkeys, or_assoc, List.exists_mem_cons_iff]
  obtain ⟨v, hv, rfl⟩ := hW.owns hr
  obtain ⟨hr₁, v₁, hv₁, hh₁, hget⟩ := hW.drop_unlisted hr hv rfl items
  obtain ⟨w, hw, hwh, hkeys⟩ := hadd items hr₁ hv₁ hh₁
  rw [setEntries_eq (hW.wellFormed hr).sound hv]
  refine ⟨w, hw, hwh, fun key => ?_⟩
  rw [hkeys, or_iff_right_iff_imp, Table.contains_eq_isSome, hget]
  intro hkey
  split at hkey
  · assumption
  · cases hkey

/-! ### References to other projects -/

/-- A property that single changes of the references of a variant to other projects keep. -/
structure EdgeUpdates (id : Nat) (h : Handle) (W : Reconciler → Prop) : Prop where
  wellFormed : ∀ {r}, W r → r.WellFormed
  owns : ∀ {r}, W r → r.store.Owns id h
  dropProject : ∀ {r v path target}, W r → r.store.Has id v → v.handle = h →
    v.projectRefs.get? path = some target → W (dropProject id h r (path, target))
  track : ∀ {r} path, W r → W { r with store := (r.store.track path).1 }
  create : ∀ {r j q framework}, W r → r.store.path? j = some q →
    (∀ {v}, r.store.Has j v → v.framework.name ≠ framework.name) → W (r.created j framework)
  link : ∀ {r} {p : Project} {v j u path}, W r → r.store.path? id = some p.path → r.store.Has id v →
    v.handle = h → v.projectRefs.get? path = none → r.store.Has j u → r.store.path? j = some path →
    W (link id h r p path u.handle)

end Reconciler

namespace Store

/-- One store has the projects and variants of another, under the same paths, handles and names. -/
structure Extends (s s' : Store) : Prop where
  path : ∀ {i q}, s.path? i = some q → s'.path? i = some q
  has : ∀ {i v}, s.Has i v →
    ∃ w, s'.Has i w ∧ w.handle = v.handle ∧ w.framework.name = v.framework.name

theorem Extends.refl (s : Store) : Extends s s :=
  ⟨fun h => h, fun {_ v} hv => ⟨v, hv, rfl, rfl⟩⟩

theorem Extends.trans {s s' s'' : Store} (h : Extends s s') (h' : Extends s' s'') : Extends s s'' where
  path hq := h'.path (h.path hq)
  has hv := by
    obtain ⟨w, hw, hh, hn⟩ := h.has hv
    obtain ⟨u, hu, hh', hn'⟩ := h'.has hw
    exact ⟨u, hu, hh'.trans hh, hn'.trans hn⟩

theorem Alters.extends {s s' : Store} {h : Handle} {f : Variant → Variant} (ha : Alters s s' h f)
    (hf : ∀ v, (f v).handle = v.handle ∧ (f v).framework = v.framework) : Extends s s' where
  path hq := (ha.path? _).trans hq
  has {i v} hv := by
    obtain ⟨w, hw, hc⟩ := ha.has hv
    refine ⟨w, hw, ?_, ?_⟩
    · rw [Variant.handle_of_content hc, changed]
      split
      · exact (hf v).1
      · rfl
    · rw [Variant.framework_of_content hc, changed]
      split
      · rw [(hf v).2]
      · rfl

theorem extends_track (s : Store) (path : String) : Extends s (s.track path).1 where
  path hq := path?_track.2 (Or.inl hq)
  has {_ v} hv := ⟨v, has_track.2 hv, rfl, rfl⟩

theorem extends_addVariant {s : Store} {id : Nat} {q : String} (hid : s.path? id = some q) (v : Variant) :
    Extends s (s.addVariant id v) where
  path hq := (path?_addVariant ..).trans hq
  has {_ w} hw := ⟨w, (has_addVariant ⟨q, hid⟩).2 (Or.inl hw), rfl, rfl⟩

/-- A variant references the variant of a framework of the project at a path. -/
def Targets (s : Store) (v : Variant) (path : String) (framework : Framework) : Prop :=
  ∃ j u, s.Has j u ∧ s.path? j = some path ∧ u.framework.name = framework.name ∧
    v.projectRefs.get? path = some u.handle

theorem Targets.extends {s s' : Store} {v w : Variant} {path : String} {framework : Framework}
    (ht : s.Targets v path framework) (he : Extends s s')
    (hw : w.projectRefs.get? path = v.projectRefs.get? path) : s'.Targets w path framework := by
  obtain ⟨j, u, hu, hj, hn, hget⟩ := ht
  obtain ⟨u', hu', hh', hn'⟩ := he.has hu
  exact ⟨j, u', hu', he.path hj, hn'.trans hn, by rw [hw, hget, hh']⟩

end Store

namespace Reconciler

open Store

variable {r : Reconciler} {id : Nat} {h : Handle} {v : Variant} {W : Reconciler → Prop}

/-- The variant of a project for a framework, as the target of a reference. -/
theorem EdgeUpdates.variantFor (hW : EdgeUpdates id h W) (hr : W r) {j : Nat} {q : String}
    (hj : r.store.path? j = some q) (framework : Framework) :
    W (r.variantFor j framework).1 ∧ Extends r.store (r.variantFor j framework).1.store ∧
      (∀ {i v}, r.store.Has i v → (r.variantFor j framework).1.store.Has i v) ∧
      ∃ u, (r.variantFor j framework).1.store.Has j u ∧ u.framework.name = framework.name ∧
        (r.variantFor j framework).2 = u.handle := by
  rcases r.variantFor_cases hj framework with ⟨u, hu, hn, he⟩ | ⟨hnew, he⟩ <;> rw [he]
  · exact ⟨hr, Extends.refl _, fun hv => hv, u, hu, hn, rfl⟩
  · refine ⟨hW.create hr hj hnew, extends_addVariant hj _, fun hv => ?_,
      { framework := framework, handle := ⟨r.nextHandle⟩ }, ?_, rfl, rfl⟩
    · exact (has_addVariant ⟨q, hj⟩).2 (Or.inl hv)
    · exact (has_addVariant ⟨q, hj⟩).2 (Or.inr ⟨rfl, rfl⟩)

/-- Adding a reference: nothing is done if the variant has one under the path. -/
theorem EdgeUpdates.addProject (hW : EdgeUpdates id h W) {state : Reconciler × List ProjectRef}
    (hr : W state.1) (hv : state.1.store.Has id v) (hh : v.handle = h) {edge : String × Framework}
    (hclean : Path.clean edge.1 = edge.1) :
    W (addProject id h state edge).1 ∧ Extends state.1.store (addProject id h state edge).1.store ∧
      ∃ w, (addProject id h state edge).1.store.Has id w ∧ w.handle = h ∧
        (∀ key, key ≠ edge.1 ∨ v.projectRefs.get? key ≠ none →
          w.projectRefs.get? key = v.projectRefs.get? key) ∧
        (v.projectRefs.get? edge.1 = none →
          (addProject id h state edge).1.store.Targets w edge.1 edge.2) := by
  obtain ⟨r, added⟩ := state
  obtain ⟨path, framework⟩ := edge
  subst hh
  obtain ⟨p, hp, hmem⟩ := hv
  have hv : r.store.Has id v := ⟨p, hp, hmem⟩
  unfold Reconciler.addProject
  simp only [hp, (hW.wellFormed hr).sound.variant? hv]
  split
  · rename_i hthere
    refine ⟨hr, Extends.refl _, v, hv, rfl, fun _ _ => rfl, fun hnone => ?_⟩
    obtain ⟨t, ht⟩ := (Table.contains_iff _ _).1 hthere
    rw [hnone] at ht
    cases ht
  · rename_i hnew
    have hnone := (Table.contains_eq_false _ _).1 (Bool.eq_false_iff.2 hnew)
    have hself := path?_track_self r.store path
    rw [hclean] at hself
    obtain ⟨hr₂, hext, hkeep, u, hu, hname, htarget⟩ :=
      hW.variantFor (hW.track path hr) hself framework
    have hext₂ := (extends_track r.store path).trans hext
    have hv₂ := hkeep (has_track.2 hv)
    have hq := hext₂.path (show r.store.path? id = some p.path by rw [path?, hp, Option.map_some])
    have hj := hext.path hself
    rw [htarget]
    obtain ⟨ha, -, -⟩ :=
      link_effect (hW.wellFormed hr₂).sound (hW.wellFormed hr₂).linked hq hv₂ hu hj hnone
    have hext₃ := ha.extends fun _ => ⟨rfl, rfl⟩
    obtain ⟨w, hw, hc⟩ := ha.has hv₂
    rw [changed_self] at hc
    have hrefs : ∀ key, w.projectRefs.get? key =
        if key = path then some u.handle else v.projectRefs.get? key := by
      intro key
      rw [Variant.projectRefs_of_content hc]
      exact Table.get?_put ..
    have hwh : w.handle = v.handle := by
      rw [Variant.handle_of_content hc]
      rfl
    refine ⟨hW.link hr₂ hq hv₂ rfl hnone hu hj, hext₂.trans hext₃, w, hw, hwh, fun key hkey => ?_,
      fun _ => ?_⟩
    · rw [hrefs, if_neg]
      rintro rfl
      exact hkey.elim (fun h => h rfl) fun h => h hnone
    · obtain ⟨u', hu', hh', hn'⟩ := hext₃.has hu
      exact ⟨_, u', hu', hext₃.path hj, hn'.trans hname, by rw [hrefs, if_pos rfl, hh']⟩

/-- Adding the wanted references one by one. -/
theorem EdgeUpdates.foldl_addProject (hW : EdgeUpdates id h W) {edges : List (String × Framework)}
    (hn : (edges.map (·.1)).Nodup) (hclean : ∀ e ∈ edges, Path.clean e.1 = e.1)
    (state : Reconciler × List ProjectRef) (hr : W state.1) (hv : state.1.store.Has id v)
    (hh : v.handle = h) :
    W (edges.foldl (Reconciler.addProject id h) state).1 ∧
      Extends state.1.store (edges.foldl (Reconciler.addProject id h) state).1.store ∧
      ∃ w, (edges.foldl (Reconciler.addProject id h) state).1.store.Has id w ∧ w.handle = h ∧
        (∀ key, key ∉ edges.map (·.1) ∨ v.projectRefs.get? key ≠ none →
          w.projectRefs.get? key = v.projectRefs.get? key) ∧
        ∀ e ∈ edges, v.projectRefs.get? e.1 = none →
          (edges.foldl (Reconciler.addProject id h) state).1.store.Targets w e.1 e.2 := by
  induction edges generalizing state v with
  | nil => exact ⟨hr, Extends.refl _, v, hv, hh, fun _ _ => rfl, fun e he => nomatch he⟩
  | cons e rest ih =>
      rw [List.map_cons, List.nodup_cons] at hn
      obtain ⟨hr₁, hext₁, v₁, hv₁, hh₁, hsame₁, htarget₁⟩ :=
        hW.addProject hr hv hh (hclean e List.mem_cons_self)
      obtain ⟨hr₂, hext₂, w, hw, hwh, hsame₂, htarget₂⟩ :=
        ih hn.2 (fun e' he' => hclean e' (List.mem_cons_of_mem e he')) _ hr₁ hv₁ hh₁
      refine ⟨hr₂, hext₁.trans hext₂, w, hw, hwh, fun key hkey => ?_, fun e' he' hnone => ?_⟩
      · have hsame : v₁.projectRefs.get? key = v.projectRefs.get? key := by
          refine hsame₁ key (hkey.imp_left fun hnot heq => hnot ?_)
          rw [heq]
          exact List.mem_cons_self
        refine (hsame₂ key ?_).trans hsame
        rw [hsame]
        exact hkey.imp_left fun hnot hmem => hnot (List.mem_cons_of_mem _ hmem)
      · rcases List.mem_cons.1 he' with rfl | hmem
        · exact (htarget₁ hnone).extends hext₂ (hsame₂ _ (Or.inl hn.1))
        · have hne : e'.1 ≠ e.1 := fun heq => hn.1 (heq ▸ List.mem_map.2 ⟨e', hmem, rfl⟩)
          exact htarget₂ e' hmem ((hsame₁ e'.1 (Or.inl hne)).trans hnone)

theorem setProjects_eq (hs : r.store.Sound r.nextHandle) (hv : r.store.Has id v)
    (wanted : Table String Framework) :
    setProjects id v.handle r wanted =
      wanted.entries.foldl (Reconciler.addProject id v.handle)
        ((v.projectRefs.entries.filter (!wanted.contains ·.1)).foldl
          (Reconciler.dropProject id v.handle) r, []) := by
  unfold setProjects
  simp only [hs.variant? hv, Option.map_some, Option.getD_some]

/-- Dropping the references that are not wanted. -/
theorem EdgeUpdates.drop_unwanted (hW : EdgeUpdates id h W) (hr : W r) (hv : r.store.Has id v)
    (hh : v.handle = h) (wanted : Table String Framework) :
    let dropped := (v.projectRefs.entries.filter (!wanted.contains ·.1)).foldl
      (Reconciler.dropProject id h) r
    (W dropped ∧ Extends r.store dropped.store) ∧ ∃ w, dropped.store.Has id w ∧ w.handle = h ∧
      ∀ key, w.projectRefs.get? key =
        if wanted.contains key then v.projectRefs.get? key else none := by
  have hkeys := (hW.wellFormed hr).sound.keys hv
  have howns : ∀ {r'}, W r' ∧ Extends r.store r'.store → r'.store.Owns id h := fun hr' => hW.owns hr'.1
  have hstep : ∀ {r' v} {e : String × Handle}, W r' ∧ Extends r.store r'.store → r'.store.Has id v →
      v.handle = h → v.projectRefs.get? e.1 = some e.2 →
      (W (Reconciler.dropProject id h r' e) ∧ Extends r.store (Reconciler.dropProject id h r' e).store) ∧
        ∀ {w}, (Reconciler.dropProject id h r' e).store.Has id w → w.handle = h →
          w.projectRefs = v.projectRefs.erase e.1 := by
    rintro r' v e ⟨hr', hext⟩ hv hh he
    subst hh
    have hwf := hW.wellFormed hr'
    obtain ⟨ha, hs', -⟩ := dropProject_effect hwf.sound hwf.linked hv he
    refine ⟨⟨hW.dropProject hr' hv rfl he, hext.trans (ha.extends fun _ => ⟨rfl, rfl⟩)⟩, fun {w} hw hwh => ?_⟩
    obtain ⟨u, hu, hc⟩ := ha.has hv
    rw [changed_self] at hc
    have huh : u.handle = v.handle := by
      rw [Variant.handle_of_content hc]
      rfl
    rw [(hs'.handle_inj hw hu (hwh.trans huh.symm)).2, Variant.projectRefs_of_content hc]
    rfl
  have hgone : ∀ e ∈ v.projectRefs.entries.filter (!wanted.contains ·.1),
      v.projectRefs.get? e.1 = some e.2 :=
    fun e he => (Table.mem_entries hkeys e.1 e.2).1 (List.mem_filter.1 he).1
  obtain ⟨hW', w, hw, hwh, hget⟩ :=
    foldl_drop howns hstep (nodup_filter_entries hkeys _) ⟨hr, Extends.refl _⟩ hv hh hgone
  refine ⟨hW', w, hw, hwh, fun key => ?_⟩
  rw [hget key]
  by_cases hwanted : wanted.contains key = true
  · rw [if_pos hwanted, if_neg]
    intro hmem
    obtain ⟨e, he, rfl⟩ := List.mem_map.1 hmem
    simp [hwanted] at he
  · rw [if_neg hwanted]
    cases hkey : v.projectRefs.get? key with
    | none => exact ite_self none
    | some t =>
        have hmem : (key, t) ∈ v.projectRefs.entries.filter (!wanted.contains ·.1) :=
          List.mem_filter.2 ⟨(Table.mem_entries hkeys key t).2 hkey, by simpa using hwanted⟩
        exact if_pos (List.mem_map.2 ⟨_, hmem, rfl⟩)

/-- **The references of a variant after an update.** Exactly the wanted paths are left; a path that was
there keeps its target, and a new one has the variant of the wanted framework for its target. -/
theorem EdgeUpdates.setProjects (hW : EdgeUpdates id h W) (hr : W r) (hv : r.store.Has id v)
    (hh : v.handle = h) {wanted : Table String Framework} (hkeys : wanted.keys.Nodup)
    (hclean : ∀ {key framework}, wanted.get? key = some framework → Path.clean key = key) :
    W (setProjects id h r wanted).1 ∧ Extends r.store (setProjects id h r wanted).1.store ∧
      ∃ w, (setProjects id h r wanted).1.store.Has id w ∧ w.handle = h ∧
        (∀ key, wanted.get? key = none → w.projectRefs.get? key = none) ∧
        ∀ key framework, wanted.get? key = some framework →
          (v.projectRefs.get? key ≠ none → w.projectRefs.get? key = v.projectRefs.get? key) ∧
          (v.projectRefs.get? key = none →
            (setProjects id h r wanted).1.store.Targets w key framework) := by
  subst hh
  obtain ⟨⟨hr₁, hext₁⟩, v₁, hv₁, hh₁, hget₁⟩ := hW.drop_unwanted hr hv rfl wanted
  have hclean' : ∀ e ∈ wanted.entries, Path.clean e.1 = e.1 :=
    fun e he => hclean ((Table.mem_entries hkeys e.1 e.2).1 he)
  rw [setProjects_eq (hW.wellFormed hr).sound hv]
  obtain ⟨hr₂, hext₂, w, hw, hwh, hsame, htarget⟩ := hW.foldl_addProject hkeys hclean' (_, []) hr₁ hv₁ hh₁
  refine ⟨hr₂, hext₁.trans hext₂, w, hw, hwh, fun key hnone => ?_, fun key framework hkey => ?_⟩
  · have hout : key ∉ wanted.entries.map (·.1) := by
      intro hmem
      obtain ⟨f, hf⟩ := (Table.mem_keys wanted key).1 hmem
      rw [hnone] at hf
      cases hf
    rw [hsame key (Or.inl hout), hget₁, (Table.contains_eq_false _ _).2 hnone]
    rfl
  · have hin : v₁.projectRefs.get? key = v.projectRefs.get? key := by
      rw [hget₁, (Table.contains_iff _ _).2 ⟨framework, hkey⟩, if_pos rfl]
    refine ⟨fun hold => ?_, fun hnone => ?_⟩
    · rw [hsame key (Or.inr (hin ▸ hold)), hin]
    · exact htarget (key, framework) ((Table.mem_entries hkeys _ _).2 hkey) (hin.trans hnone)

theorem contains_targets (refs : References) (key : String) :
    (targets refs).contains key = true ↔ ∃ p ∈ refs.projects.getD [], Path.clean p.path = key := by
  rw [Table.contains_eq_isSome, targets, Table.get?_ofList, Option.isSome_map, List.find?_isSome]
  simp

theorem targets_nodup (refs : References) : (targets refs).keys.Nodup :=
  Table.keys_ofList_nodup _

theorem targets_clean {refs : References} {key : String} {framework : Framework}
    (h : (targets refs).get? key = some framework) : Path.clean key = key := by
  rw [targets, Table.get?_ofList] at h
  obtain ⟨e, he, -⟩ := Option.map_eq_some_iff.1 h
  have hkey : e.1 = key := by simpa using List.find?_some he
  obtain ⟨p, -, rfl⟩ := List.mem_map.1 (List.mem_reverse.1 (List.mem_of_find?_eq_some he))
  rw [← hkey, Path.clean_clean]

/-! ### Messages about one variant -/

theorem setReferences_keeps (hfile : EntryUpdates .file id h W) (hraw : EntryUpdates .raw id h W)
    (hedge : EdgeUpdates id h W) (hr : W r) (refs : References) : W (setReferences id h r refs).1 := by
  have hr₂ := hraw.setEntries (hfile.setEntries hr (Slot.plain (refs.files.getD [])))
    (Slot.withBytes (refs.raws.getD .empty))
  obtain ⟨v, hv, hh⟩ := hedge.owns hr₂
  exact (hedge.setProjects hr₂ hv hh (targets_nodup refs) targets_clean).1

theorem setSources_keeps (hdoc : EntryUpdates .document id h W)
    (hloaded : ∀ {r}, W r → W (r.modifyVariant h fun v => { v with loaded := true })) (hr : W r)
    (sources : Sources) : W (setSources id h r sources) :=
  hloaded (hdoc.setEntries hr _)

end Reconciler

end CompilationBridge.Graph
