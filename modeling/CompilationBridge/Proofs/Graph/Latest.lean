import CompilationBridge.Proofs.Graph.Records

/-! Variants after the latest messages about them. What a variant should have recorded is given by the
latest message of each kind; a message brings the parts that it is about to what it says, and leaves the
other parts of its variant, and all other variants, as they are. -/

namespace CompilationBridge.Graph

open Store

/-- The latest messages about a variant. -/
structure Latest where
  references : Option References := none
  options : Option CompilerOptions := none
  sources : Option Sources := none

namespace Latest

/-- What a table is to have an entry for, given the ending of source files. -/
def items (l : Latest) (ending : String) : Slot → List Slot.Item
  | .file => Slot.plain ((l.references.bind (·.files)).getD [])
  | .raw => Slot.withBytes ((l.references.bind (·.raws)).getD .empty)
  | .document => Slot.plain (((l.sources.bind (·.files)).getD []).filter
      fun file => ending.toList.isSuffixOf (Text.lower file).toList)

/-- The projects that are to be referenced, with their frameworks. -/
def wanted (l : Latest) : Table String Framework :=
  (l.references.map Reconciler.targets).getD .empty

theorem listed_file (l : Latest) (ending key : String) :
    (∃ item ∈ l.items ending .file, item.key = key) ↔ ∃ m ∈ l.references, key ∈ m.files.getD [] := by
  cases hl : l.references <;> simp [items, Slot.plain, hl]

theorem listed_raw (l : Latest) (ending key : String) :
    (∃ item ∈ l.items ending .raw, item.key = key) ↔
      ∃ m ∈ l.references, key ∈ (m.raws.getD .empty).keys := by
  cases hl : l.references <;> simp [items, Slot.withBytes, Table.keys, Table.empty, hl]

theorem listed_document (l : Latest) (ending key : String) :
    (∃ item ∈ l.items ending .document, item.key = key) ↔
      ∃ m ∈ l.sources, key ∈ m.files.getD [] ∧ ending.toList <:+ (Text.lower key).toList := by
  cases hl : l.sources <;> simp [items, Slot.plain, hl]

theorem contains_wanted (l : Latest) (key : String) :
    l.wanted.contains key = true ↔
      ∃ m ∈ l.references, ∃ p ∈ m.projects.getD [], Path.clean p.path = key := by
  cases hl : l.references with
  | none => simp [wanted, Table.contains, Table.empty, hl]
  | some refs => simpa [wanted, hl] using Reconciler.contains_targets refs key

end Latest

/-- The parts of a variant that messages set. -/
inductive Part where
  | entries (slot : Slot)
  | projects
  | options
  | loaded
deriving DecidableEq

/-- A part of a variant is what the latest messages say. -/
def Part.Shown (ending : String) (l : Latest) (v : Variant) : Part → Prop
  | .entries slot => ∀ key, (slot.table v).contains key = true ↔ ∃ item ∈ l.items ending slot, item.key = key
  | .projects => ∀ key, v.projectRefs.contains key = l.wanted.contains key
  | .options => v.compilation = l.options.map (·.compilation) ∧ v.parse = l.options.map (·.parse)
  | .loaded => v.loaded = l.sources.isSome

/-- Some parts of a variant are what the latest messages say. -/
def Reflects (ending : String) (l : Latest) (known : Part → Prop) (v : Variant) : Prop :=
  ∀ part, known part → part.Shown ending l v

section

variable {ending : String} {l l' : Latest} {known : Part → Prop} {v w : Variant}

theorem Reflects.of_content (hv : Reflects ending l known v) (hc : w.content = v.content) :
    Reflects ending l known w := by
  have hw := Variant.eq_of_content hc
  intro part hpart
  have hshown := hv part hpart
  cases part with
  | entries slot =>
      intro key
      rw [Slot.table_of_content hc slot]
      exact hshown key
  | projects =>
      intro key
      rw [hw]
      exact hshown key
  | options =>
      rw [hw]
      exact hshown
  | loaded =>
      rw [hw]
      exact hshown

/-- A change of a variant that leaves the known parts alone. -/
theorem Reflects.frame (hv : Reflects ending l known v)
    (htable : ∀ slot, known (.entries slot) → slot.table w = slot.table v)
    (hprojects : known .projects → w.projectRefs = v.projectRefs)
    (hoptions : known .options → w.compilation = v.compilation ∧ w.parse = v.parse)
    (hloaded : known .loaded → w.loaded = v.loaded) : Reflects ending l known w := by
  intro part hpart
  have hshown := hv part hpart
  cases part with
  | entries slot =>
      intro key
      rw [htable slot hpart]
      exact hshown key
  | projects =>
      intro key
      rw [hprojects hpart]
      exact hshown key
  | options =>
      obtain ⟨hc, hp⟩ := hoptions hpart
      exact ⟨hc.trans hshown.1, hp.trans hshown.2⟩
  | loaded => exact (hloaded hpart).trans hshown

theorem Reflects.mem_table (hv : Reflects ending l known v) {slot : Slot} (hslot : known (.entries slot))
    (key : String) :
    (∃ ref, (slot.table v).get? key = some ref) ↔ ∃ item ∈ l.items ending slot, item.key = key :=
  (Table.contains_iff _ _).symm.trans (hv (.entries slot) hslot key)

/-- A variant with nothing recorded is what no messages say. -/
theorem Variant.Idle.reflects (hv : v.Idle) : Reflects ending {} known v := by
  have heq := Variant.eq_of_content hv.symm
  intro part _
  cases part with
  | entries slot =>
      intro key
      rw [hv.table]
      cases slot <;> simp [Latest.items, Slot.plain, Slot.withBytes, Table.contains, Table.empty]
  | projects =>
      intro key
      rw [heq]
      rfl
  | options =>
      rw [heq]
      exact ⟨rfl, rfl⟩
  | loaded =>
      rw [heq]
      rfl

end

namespace Reconciler

variable {r : Reconciler} {id : Nat} {h : Handle} {v : Variant} {name ending : String} {l : Latest}
  {known : Part → Prop} {holds : Nat → Variant → Prop} {silent : Nat → String → Prop}

/-! ### Updates of a followed variant -/

/-- A table of the followed variant is brought to what the latest messages say. -/
theorem Following.setEntries (hr : Following id h name (Reflects ending l known) holds silent r)
    (he : Expectation holds silent) {slot : Slot} (hfree : ¬known (.entries slot)) :
    Following id h name (Reflects ending l fun part => known part ∨ part = .entries slot) holds silent
      (setEntries slot id h r (l.items ending slot)) := by
  have hupdates : EntryUpdates slot id h (Following id h name (Reflects ending l known) holds silent) := by
    refine following_entries slot he (fun hc hv => hv.of_content hc) fun f v hv => hv.frame ?_
      (fun _ => slot.update_projectRefs f v)
      (fun _ => ⟨slot.update_compilation f v, slot.update_parse f v⟩) fun _ => slot.update_loaded f v
    intro slot' hknown
    refine Slot.table_update_of_ne f v ?_
    rintro rfl
    exact hfree hknown
  have htaken : ∀ {r v} item, Following id h name (Reflects ending l known) holds silent r →
      r.store.Has id v → v.handle = h → (slot.table v).get? item.key = none →
      (offered slot id h r item).2 = true := by
    intro r v item hr hv hh _
    obtain ⟨w, hw, hwh, hreg⟩ := hr.mirroring.2
    obtain ⟨e, -, -, heq⟩ := hr.mirroring.1.offered_eq hw hreg slot item
    rw [← hwh, heq]
  obtain ⟨w, hw, hwh, hkeys⟩ := hupdates.setEntries_keys htaken hr (l.items ending slot)
  have hr' := hupdates.setEntries hr (l.items ending slot)
  refine hr'.know fun {v} hv hh hown part hpart => ?_
  rcases hpart with hpart | rfl
  · exact hown part hpart
  · intro key
    rw [(hr'.mirroring.1.sound.handle_inj hv hw (hh.trans hwh.symm)).2]
    exact hkeys key

/-- The references of the followed variant to other projects are brought to the wanted ones. -/
theorem Following.setProjects (hr : Following id h name (Reflects ending l known) holds silent r)
    (he : Expectation holds silent) (hfree : ¬known .projects) {refs : References}
    (hl : l.references = some refs) :
    Following id h name (Reflects ending l fun part => known part ∨ part = .projects) holds silent
      (setProjects id h r (targets refs)).1 := by
  have hupdates : EdgeUpdates id h (Following id h name (Reflects ending l known) holds silent) := by
    refine following_edges he (fun hc hv => hv.of_content hc) fun refs v hv =>
      hv.frame (fun slot _ => ?_) (fun hknown => absurd hknown hfree) (fun _ => ⟨rfl, rfl⟩) fun _ => rfl
    cases slot <;> rfl
  obtain ⟨v, hv, hh, -⟩ := hr.mirroring.2
  obtain ⟨hr', -, w, hw, hwh, hout, hin⟩ :=
    hupdates.setProjects hr hv hh (targets_nodup refs) targets_clean
  have hwanted : l.wanted = targets refs := by
    rw [Latest.wanted, hl, Option.map_some, Option.getD_some]
  refine hr'.know fun {x} hx hxh hown part hpart => ?_
  rcases hpart with hpart | rfl
  · exact hown part hpart
  · intro key
    rw [(hr'.mirroring.1.sound.handle_inj hx hw (hxh.trans hwh.symm)).2, hwanted]
    cases hkey : (targets refs).get? key with
    | none => rw [(Table.contains_eq_false _ _).2 hkey, (Table.contains_eq_false _ _).2 (hout key hkey)]
    | some framework =>
        rw [(Table.contains_iff _ _).2 ⟨framework, hkey⟩, Table.contains_iff]
        cases hold : v.projectRefs.get? key with
        | none =>
            obtain ⟨j, u, -, -, -, hget⟩ := (hin key framework hkey).2 hold
            exact ⟨u.handle, hget⟩
        | some t =>
            have hsome : v.projectRefs.get? key ≠ none := by rw [hold]; exact nofun
            exact ⟨t, ((hin key framework hkey).1 hsome).trans hold⟩

theorem Following.setOptions (hr : Following id h name (Reflects ending l known) holds silent r)
    (he : Expectation holds silent) (hfree : ¬known .options) {options : CompilerOptions}
    (hl : l.options = some options) :
    Following id h name (Reflects ending l fun part => known part ∨ part = .options) holds silent
      (setOptions id h r options) := by
  have ha : Alters r.store (Reconciler.setOptions id h r options).store h (withOptions options) := by
    rw [setOptions_store]
    exact alters_modify r.store h fun _ => rfl
  refine hr.alter he (fun hc hv => hv.of_content hc) (hr.mirroring.setOptions options) ha
    (fun _ => ⟨rfl, rfl, rfl⟩) fun {v} _ _ hown => ?_
  have hframe : Reflects ending l known (withOptions options v) := by
    refine hown.frame (fun slot _ => ?_) (fun _ => rfl) (fun hknown => absurd hknown hfree) fun _ => rfl
    cases slot <;> rfl
  intro part hpart
  rcases hpart with hpart | rfl
  · exact hframe part hpart
  · rw [Part.Shown, hl]
    exact ⟨rfl, rfl⟩

theorem Following.markLoaded (hr : Following id h name (Reflects ending l known) holds silent r)
    (he : Expectation holds silent) (hfree : ¬known .loaded) {sources : Sources}
    (hl : l.sources = some sources) :
    Following id h name (Reflects ending l fun part => known part ∨ part = .loaded) holds silent
      (r.modifyVariant h fun v => { v with loaded := true }) := by
  have hkeep : ∀ v : Variant, { v with loaded := true }.handle = v.handle := fun _ => rfl
  refine hr.alter he (fun hc hv => hv.of_content hc) hr.mirroring.markLoaded
    (alters_modify r.store h hkeep) (fun _ => ⟨rfl, rfl, rfl⟩) fun {v} _ _ hown => ?_
  have hframe : Reflects ending l known { v with loaded := true } := by
    refine hown.frame (fun slot _ => ?_) (fun _ => rfl) (fun _ => ⟨rfl, rfl⟩)
      fun hknown => absurd hknown hfree
    cases slot <;> rfl
  intro part hpart
  rcases hpart with hpart | rfl
  · exact hframe part hpart
  · rw [Part.Shown, hl]
    rfl

end Reconciler

end CompilationBridge.Graph
