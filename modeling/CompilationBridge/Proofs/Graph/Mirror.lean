import CompilationBridge.Proofs.Graph.Symmetry

/-! The workspace mirrors the graph. Where no call fails, the workspace has exactly the registered
variants as projects, each with the references, documents and options that its variant has recorded, and
with the references to other projects whose targets are registered. The graph keeps its side of this:
a variant that is not registered has nothing recorded, and no handle stands for two entries. -/

namespace CompilationBridge.Graph

/-! ### Entries of the workspace -/

/-- What the workspace has for an entry of a table. -/
def Slot.Shown (slot : Slot) (e : Workspace.Entry) (key : String) (ref : Handle) : Prop :=
  match slot with
  | .file => e.metadata.get? ref = some { handle := ref, path := key }
  | .raw => ∃ bytes, e.metadata.get? ref = some { handle := ref, name := key, bytes := bytes }
  | .document => e.documents.get? ref = some key

/-- A workspace project shows what a variant has recorded, given which variants are registered. -/
structure Shows (live : Handle → Prop) (v : Variant) (e : Workspace.Entry) : Prop where
  handle : e.info.handle = v.handle
  shown : ∀ slot key ref, (Slot.table slot v).get? key = some ref → slot.Shown e key ref
  metadata : ∀ ref m, e.metadata.get? ref = some m →
    ∃ slot key, slot ≠ .document ∧ (Slot.table slot v).get? key = some ref
  document : ∀ ref path, e.documents.get? ref = some path →
    ∃ key, (Slot.document.table v).get? key = some ref
  compilation : e.compilation = v.compilation
  parse : e.parse = v.parse
  reference : ∀ t, t ∈ e.references ↔ v.RefersTo t ∧ live t

/-- The entries of a variant have handles of their own, none from `next` on. -/
structure Variant.Distinct (v : Variant) (next : Nat) : Prop where
  inj : ∀ {slot slot' : Slot} {key key' ref}, (slot.table v).get? key = some ref →
    (slot'.table v).get? key' = some ref → slot = slot' ∧ key = key'
  lt : ∀ {slot : Slot} {key ref}, (slot.table v).get? key = some ref → ref.value < next

/-- A variant with nothing recorded but its name and what others recorded at it. -/
def Variant.Idle (v : Variant) : Prop :=
  v.reset.content = v.content

/-- A handle names a registered variant. -/
def Store.Live (s : Store) (h : Handle) : Prop :=
  ∃ i v, s.Has i v ∧ v.handle = h ∧ v.registered = true

/-- The workspace has what the graph says. -/
structure Mirror (s : Store) (next : Nat) (w : Workspace) : Prop where
  shown : ∀ {i v}, s.Has i v → v.registered = true →
    ∃ e, w.projects.get? v.handle = some e ∧ Shows s.Live v e
  live : ∀ {h e}, w.projects.get? h = some e → s.Live h
  idle : ∀ {i v}, s.Has i v → v.registered = false → v.Idle
  distinct : ∀ {i v}, s.Has i v → v.Distinct next

theorem Slot.table_of_content {v w : Variant} (hc : w.content = v.content) (slot : Slot) :
    slot.table w = slot.table v := by
  rw [Variant.eq_of_content hc]
  cases slot <;> rfl

theorem Slot.Shown.congr {slot : Slot} {e e' : Workspace.Entry} {key : String} {ref : Handle}
    (h : slot.Shown e key ref) (hm : e'.metadata = e.metadata) (hd : e'.documents = e.documents) :
    slot.Shown e' key ref := by
  cases slot <;> simpa only [Shown, hm, hd] using h

/-- A change that leaves the tables alone, on both sides. -/
theorem Shows.of_tables {live live' : Handle → Prop} {v w : Variant} {e e' : Workspace.Entry}
    (hs : Shows live v e) (ht : ∀ slot, Slot.table slot w = Slot.table slot v)
    (hh : w.handle = v.handle) (hinfo : e'.info = e.info) (hm : e'.metadata = e.metadata)
    (hd : e'.documents = e.documents) (hcompilation : e'.compilation = w.compilation)
    (hparse : e'.parse = w.parse) (hrefs : ∀ t, t ∈ e'.references ↔ w.RefersTo t ∧ live' t) :
    Shows live' w e' where
  handle := by rw [hinfo, hh, hs.handle]
  shown slot key ref hkey := (hs.shown slot key ref (ht slot ▸ hkey)).congr hm hd
  metadata ref m hget := by
    obtain ⟨slot, key, hne, hkey⟩ := hs.metadata ref m (hm ▸ hget)
    exact ⟨slot, key, hne, (ht slot).symm ▸ hkey⟩
  document ref path hget := by
    obtain ⟨key, hkey⟩ := hs.document ref path (hd ▸ hget)
    exact ⟨key, (ht .document).symm ▸ hkey⟩
  compilation := hcompilation
  parse := hparse
  reference := hrefs

theorem Shows.of_content {live : Handle → Prop} {v w : Variant} {e : Workspace.Entry} (hs : Shows live v e)
    (hc : w.content = v.content) : Shows live w e := by
  have hw := Variant.eq_of_content hc
  refine hs.of_tables (Slot.table_of_content hc) (Variant.handle_of_content hc) rfl rfl rfl ?_ ?_ ?_
  · rw [hw, hs.compilation]
  · rw [hw, hs.parse]
  · rw [hw]
    exact hs.reference

theorem Shows.of_live {live live' : Handle → Prop} {v : Variant} {e : Workspace.Entry} (hs : Shows live v e)
    (hl : ∀ h, live h ↔ live' h) : Shows live' v e :=
  { hs with reference := fun t => (hs.reference t).trans (and_congr_right fun _ => hl t) }

theorem Variant.Distinct.of_tables {v w : Variant} {next : Nat} (hv : v.Distinct next)
    (ht : ∀ slot, Slot.table slot w = Slot.table slot v) : w.Distinct next where
  inj {slot slot'} _ _ _ hk hk' := hv.inj (ht slot ▸ hk) (ht slot' ▸ hk')
  lt {slot} _ _ hk := hv.lt (ht slot ▸ hk)

theorem Variant.Distinct.of_content {v w : Variant} {next : Nat} (hv : v.Distinct next)
    (hc : w.content = v.content) : w.Distinct next :=
  hv.of_tables (Slot.table_of_content hc)

theorem Variant.Distinct.mono {v : Variant} {next next' : Nat} (hv : v.Distinct next) (h : next ≤ next') :
    v.Distinct next' :=
  ⟨hv.inj, fun hk => Nat.lt_of_lt_of_le (hv.lt hk) h⟩

theorem Variant.Idle.of_content {v w : Variant} (hv : v.Idle) (hc : w.content = v.content) : w.Idle := by
  rw [Idle, ← hc] at hv
  rw [Idle, ← hv, Variant.eq_of_content hc]
  rfl

namespace Store

theorem live_iff_any (s : Store) (h : Handle) :
    s.Live h ↔ (s.variants.any fun u => u.handle = h && u.registered) = true := by
  simp only [List.any_eq_true, Bool.and_eq_true, decide_eq_true_eq]
  constructor
  · rintro ⟨i, v, hv, hh, hreg⟩
    exact ⟨v, mem_variants.2 ⟨i, hv⟩, hh, hreg⟩
  · rintro ⟨v, hv, hh, hreg⟩
    obtain ⟨i, hv⟩ := mem_variants.1 hv
    exact ⟨i, v, hv, hh, hreg⟩

theorem live_congr {s s' : Store} (hhas : ∀ {i v}, s'.Has i v ↔ s.Has i v) (k : Handle) :
    s'.Live k ↔ s.Live k :=
  exists_congr fun _ => exists_congr fun _ => and_congr_left fun _ => hhas

/-- A new variant is not registered. -/
theorem live_addVariant {s : Store} {id : Nat} {q : String} (hid : s.path? id = some q)
    (framework : Framework) (h k : Handle) :
    (s.addVariant id { framework := framework, handle := h }).Live k ↔ s.Live k := by
  have hhas : ∀ {i x}, (s.addVariant id { framework := framework, handle := h }).Has i x ↔
      s.Has i x ∨ (i = id ∧ x = { framework := framework, handle := h }) := has_addVariant ⟨q, hid⟩
  constructor
  · rintro ⟨i, v, hv, hh, hreg⟩
    rcases hhas.1 hv with hv | ⟨-, rfl⟩
    · exact ⟨i, v, hv, hh, hreg⟩
    · cases hreg
  · rintro ⟨i, v, hv, hh, hreg⟩
    exact ⟨i, v, hhas.2 (Or.inl hv), hh, hreg⟩

theorem Live.of_alters {s s' : Store} {h : Handle} {f : Variant → Variant} (ha : Alters s s' h f)
    (hf : ∀ v, (f v).handle = v.handle ∧ (f v).registered = v.registered) (k : Handle) :
    s'.Live k ↔ s.Live k := by
  have hsame : ∀ v, (changed h f v).handle = v.handle ∧ (changed h f v).registered = v.registered := by
    intro v
    unfold changed
    split
    · exact hf v
    · exact ⟨rfl, rfl⟩
  constructor
  · rintro ⟨i, w, hw, rfl, hreg⟩
    obtain ⟨v, hv, hc⟩ := ha.of_has hw
    refine ⟨i, v, hv, ?_, ?_⟩
    · rw [Variant.handle_of_content hc, (hsame v).1]
    · rw [← (hsame v).2, ← Variant.registered_of_content hc, hreg]
  · rintro ⟨i, v, hv, rfl, hreg⟩
    obtain ⟨w, hw, hc⟩ := ha.has hv
    refine ⟨i, w, hw, ?_, ?_⟩
    · rw [Variant.handle_of_content hc, (hsame v).1]
    · rw [Variant.registered_of_content hc, (hsame v).2, hreg]

end Store

open Store

/-- A change of one variant, with the workspace changed at most at its project. -/
theorem Mirror.of_alters {s s' : Store} {next next' : Nat} {w w' : Workspace} (hm : Mirror s next w)
    {h : Handle} {f : Variant → Variant} (ha : Alters s s' h f)
    (hf : ∀ v, (f v).handle = v.handle ∧ (f v).registered = v.registered) (hnext : next ≤ next')
    (hother : ∀ k, k ≠ h → w'.projects.get? k = w.projects.get? k)
    (hshown : ∀ {i v e}, s.Has i v → v.handle = h → v.registered = true → w.projects.get? h = some e →
      Shows s.Live v e → ∃ e', w'.projects.get? h = some e' ∧ Shows s.Live (f v) e')
    (hlive : ∀ {e'}, w'.projects.get? h = some e' → ∃ e, w.projects.get? h = some e)
    (hidle : ∀ {i v}, s.Has i v → v.handle = h → v.registered = false → v.Idle → (f v).Idle)
    (hdistinct : ∀ {i v}, s.Has i v → v.handle = h → v.Distinct next → (f v).Distinct next') :
    Mirror s' next' w' := by
  have hl := Live.of_alters ha hf
  refine ⟨?_, ?_, ?_, ?_⟩
  · intro i x hx hreg
    obtain ⟨v, hv, hc⟩ := ha.of_has hx
    by_cases hh : v.handle = h
    · rw [changed_of_eq hh] at hc
      have hreg' : v.registered = true := by
        rw [← (hf v).2, ← Variant.registered_of_content hc, hreg]
      obtain ⟨e, he, hs⟩ := hm.shown hv hreg'
      obtain ⟨e', he', hs'⟩ := hshown hv hh hreg' (hh ▸ he) hs
      refine ⟨e', ?_, (hs'.of_content hc).of_live fun k => (hl k).symm⟩
      rw [Variant.handle_of_content hc, (hf v).1, hh, he']
    · rw [changed_of_ne hh] at hc
      obtain ⟨e, he, hs⟩ := hm.shown hv ((Variant.registered_of_content hc).symm.trans hreg)
      refine ⟨e, ?_, (hs.of_content hc).of_live fun k => (hl k).symm⟩
      rw [Variant.handle_of_content hc, hother _ hh, he]
  · intro k e he
    rw [hl]
    by_cases hk : k = h
    · subst hk
      obtain ⟨e₀, he₀⟩ := hlive he
      exact hm.live he₀
    · rw [hother k hk] at he
      exact hm.live he
  · intro i x hx hreg
    obtain ⟨v, hv, hc⟩ := ha.of_has hx
    by_cases hh : v.handle = h
    · rw [changed_of_eq hh] at hc
      have hreg' : v.registered = false := by
        rw [← (hf v).2, ← Variant.registered_of_content hc, hreg]
      exact (hidle hv hh hreg' (hm.idle hv hreg')).of_content hc
    · rw [changed_of_ne hh] at hc
      exact (hm.idle hv ((Variant.registered_of_content hc).symm.trans hreg)).of_content hc
  · intro i x hx
    obtain ⟨v, hv, hc⟩ := ha.of_has hx
    by_cases hh : v.handle = h
    · rw [changed_of_eq hh] at hc
      exact (hdistinct hv hh (hm.distinct hv)).of_content hc
    · rw [changed_of_ne hh] at hc
      exact ((hm.distinct hv).mono hnext).of_content hc

/-! ### Entries dropped and added -/

namespace Slot

/-- A workspace project without what stands for an entry. -/
def dropFrom (slot : Slot) (ref : Handle) (e : Workspace.Entry) : Workspace.Entry :=
  match slot with
  | .file | .raw => { e with metadata := e.metadata.erase ref }
  | .document => { e with documents := e.documents.erase ref }

/-- A workspace project with what stands for a new entry. -/
def addTo (slot : Slot) (ref : Handle) (item : Item) (e : Workspace.Entry) : Workspace.Entry :=
  match slot with
  | .file => { e with metadata := e.metadata.put ref { handle := ref, path := item.key } }
  | .raw =>
    { e with metadata := e.metadata.put ref { handle := ref, name := item.key, bytes := item.bytes } }
  | .document => { e with documents := e.documents.put ref item.key }

theorem perform_removeCall {w : Workspace} {h ref : Handle} {e : Workspace.Entry} {key : String}
    (he : w.projects.get? h = some e) (slot : Slot) (hshown : slot.Shown e key ref) :
    w.perform (slot.removeCall h ref) = .ok ⟨w.projects.put h (slot.dropFrom ref e)⟩ := by
  have hmeta : ∀ {m}, e.metadata.get? ref = some m → e.metadata.contains ref = true :=
    fun hm => (Table.contains_iff _ _).2 ⟨_, hm⟩
  cases slot with
  | file =>
      simp only [removeCall, Workspace.perform, Workspace.update, he, hmeta hshown]
      rfl
  | raw =>
      obtain ⟨bytes, hbytes⟩ := hshown
      simp only [removeCall, Workspace.perform, Workspace.update, he, hmeta hbytes]
      rfl
  | document =>
      have hdoc : e.documents.contains ref = true := (Table.contains_iff _ _).2 ⟨_, hshown⟩
      simp only [removeCall, Workspace.perform, Workspace.update, he, hdoc]
      rfl

theorem perform_addCall {w : Workspace} {h : Handle} {e : Workspace.Entry} (he : w.projects.get? h = some e)
    (slot : Slot) (ref : Handle) (item : Item) :
    w.perform (slot.addCall h ref item) = .ok ⟨w.projects.put h (slot.addTo ref item e)⟩ := by
  cases slot <;> simp only [addCall, Workspace.perform, Workspace.update, he] <;> rfl

theorem shown_dropFrom {slot slot' : Slot} {e : Workspace.Entry} {key : String} {ref ref' : Handle}
    (hne : ref' ≠ ref) (h : slot'.Shown e key ref') : slot'.Shown (slot.dropFrom ref e) key ref' := by
  cases slot <;> cases slot' <;> simpa [Shown, dropFrom, hne] using h

theorem shown_addTo {slot slot' : Slot} {e : Workspace.Entry} {key : String} {ref ref' : Handle} (item : Item)
    (hne : ref' ≠ ref) (h : slot'.Shown e key ref') : slot'.Shown (slot.addTo ref item e) key ref' := by
  cases slot <;> cases slot' <;> simpa [Shown, addTo, hne] using h

theorem shown_addTo_self (slot : Slot) (ref : Handle) (item : Item) (e : Workspace.Entry) :
    slot.Shown (slot.addTo ref item e) item.key ref := by
  cases slot <;> simp [Shown, addTo]

theorem metadata_dropFrom {slot : Slot} {e : Workspace.Entry} {ref ref' : Handle}
    {m : Workspace.MetadataReference} (h : (slot.dropFrom ref e).metadata.get? ref' = some m) :
    e.metadata.get? ref' = some m ∧ (slot ≠ .document → ref' ≠ ref) := by
  cases slot with
  | file =>
      rw [dropFrom, Table.get?_erase] at h
      split at h
      · cases h
      · exact ⟨h, fun _ => ‹_›⟩
  | raw =>
      rw [dropFrom, Table.get?_erase] at h
      split at h
      · cases h
      · exact ⟨h, fun _ => ‹_›⟩
  | document => exact ⟨h, fun hne => absurd rfl hne⟩

theorem documents_dropFrom {slot : Slot} {e : Workspace.Entry} {ref ref' : Handle} {path : String}
    (h : (slot.dropFrom ref e).documents.get? ref' = some path) :
    e.documents.get? ref' = some path ∧ (slot = .document → ref' ≠ ref) := by
  cases slot with
  | file => exact ⟨h, nofun⟩
  | raw => exact ⟨h, nofun⟩
  | document =>
      rw [dropFrom, Table.get?_erase] at h
      split at h
      · cases h
      · exact ⟨h, fun _ => ‹_›⟩

theorem metadata_addTo {slot : Slot} {e : Workspace.Entry} {ref ref' : Handle} {item : Item}
    {m : Workspace.MetadataReference} (h : (slot.addTo ref item e).metadata.get? ref' = some m) :
    e.metadata.get? ref' = some m ∨ (slot ≠ .document ∧ ref' = ref) := by
  cases slot with
  | file =>
      rw [addTo, Table.get?_put] at h
      split at h
      · exact Or.inr ⟨by decide, ‹_›⟩
      · exact Or.inl h
  | raw =>
      rw [addTo, Table.get?_put] at h
      split at h
      · exact Or.inr ⟨by decide, ‹_›⟩
      · exact Or.inl h
  | document => exact Or.inl h

theorem documents_addTo {slot : Slot} {e : Workspace.Entry} {ref ref' : Handle} {item : Item}
    {path : String} (h : (slot.addTo ref item e).documents.get? ref' = some path) :
    e.documents.get? ref' = some path ∨ (slot = .document ∧ ref' = ref) := by
  cases slot with
  | file => exact Or.inl h
  | raw => exact Or.inl h
  | document =>
      rw [addTo, Table.get?_put] at h
      split at h
      · exact Or.inr ⟨rfl, ‹_›⟩
      · exact Or.inl h

theorem dropFrom_frame (slot : Slot) (ref : Handle) (e : Workspace.Entry) :
    (slot.dropFrom ref e).info = e.info ∧ (slot.dropFrom ref e).compilation = e.compilation ∧
      (slot.dropFrom ref e).parse = e.parse ∧ (slot.dropFrom ref e).references = e.references := by
  cases slot <;> exact ⟨rfl, rfl, rfl, rfl⟩

theorem addTo_frame (slot : Slot) (ref : Handle) (item : Item) (e : Workspace.Entry) :
    (slot.addTo ref item e).info = e.info ∧ (slot.addTo ref item e).compilation = e.compilation ∧
      (slot.addTo ref item e).parse = e.parse ∧ (slot.addTo ref item e).references = e.references := by
  cases slot <;> exact ⟨rfl, rfl, rfl, rfl⟩

/-- An entry that is left after one was dropped was there before, under another handle. -/
theorem get?_table_erase {slot slot' : Slot} {v : Variant} {next : Nat} (hd : v.Distinct next)
    {key key' : String} {ref ref' : Handle} (hkey : (slot.table v).get? key = some ref) :
    (slot'.table (slot.update (·.erase key) v)).get? key' = some ref' ↔
      (slot'.table v).get? key' = some ref' ∧ ref' ≠ ref := by
  by_cases hs : slot' = slot
  · subst hs
    rw [table_update_self, Table.get?_erase]
    by_cases hk : key' = key
    · subst hk
      rw [if_pos rfl, hkey]
      constructor
      · intro h
        cases h
      · rintro ⟨h, hne⟩
        exact absurd (Option.some.inj h).symm hne
    · rw [if_neg hk]
      exact ⟨fun h => ⟨h, fun heq => hk (hd.inj h (heq ▸ hkey)).2⟩, fun h => h.1⟩
  · rw [table_update_of_ne _ _ hs]
    exact ⟨fun h => ⟨h, fun heq => hs (hd.inj h (heq ▸ hkey)).1⟩, fun h => h.1⟩

/-- An entry that is there after one was added is the new one or was there before. -/
theorem get?_table_put {slot slot' : Slot} {v : Variant} {next : Nat} (hd : v.Distinct next)
    {key key' : String} {ref' : Handle} (hkey : (slot.table v).get? key = none) :
    (slot'.table (slot.update (·.put key ⟨next⟩) v)).get? key' = some ref' ↔
      ((slot'.table v).get? key' = some ref' ∧ ref' ≠ ⟨next⟩) ∨
        (slot' = slot ∧ key' = key ∧ ref' = ⟨next⟩) := by
  have hold : (slot'.table v).get? key' = some ref' → ref' ≠ ⟨next⟩ := by
    rintro h rfl
    exact Nat.lt_irrefl next (hd.lt h)
  by_cases hs : slot' = slot
  · subst hs
    rw [table_update_self, Table.get?_put]
    by_cases hk : key' = key
    · subst hk
      rw [if_pos rfl, hkey]
      simp [eq_comm]
    · rw [if_neg hk]
      exact ⟨fun h => Or.inl ⟨h, hold h⟩, fun h => h.elim (fun h => h.1) fun h => absurd h.2.1 hk⟩
  · rw [table_update_of_ne _ _ hs]
    exact ⟨fun h => Or.inl ⟨h, hold h⟩, fun h => h.elim (fun h => h.1) fun h => absurd h.1 hs⟩

end Slot

theorem Variant.Distinct.drop {v : Variant} {next : Nat} (hd : v.Distinct next) {slot : Slot} {key : String}
    {ref : Handle} (hkey : (slot.table v).get? key = some ref) :
    (slot.update (·.erase key) v).Distinct next where
  inj h h' := hd.inj ((Slot.get?_table_erase hd hkey).1 h).1 ((Slot.get?_table_erase hd hkey).1 h').1
  lt h := hd.lt ((Slot.get?_table_erase hd hkey).1 h).1

theorem Variant.Distinct.add {v : Variant} {next : Nat} (hd : v.Distinct next) {slot : Slot} {key : String}
    (hkey : (slot.table v).get? key = none) :
    (slot.update (·.put key ⟨next⟩) v).Distinct (next + 1) where
  inj h h' := by
    rcases (Slot.get?_table_put hd hkey).1 h with ⟨h, hne⟩ | ⟨rfl, rfl, rfl⟩ <;>
      rcases (Slot.get?_table_put hd hkey).1 h' with ⟨h', hne'⟩ | ⟨rfl, rfl, hr⟩
    · exact hd.inj h h'
    · exact absurd hr hne
    · exact absurd rfl hne'
    · exact ⟨rfl, rfl⟩
  lt h := by
    rcases (Slot.get?_table_put hd hkey).1 h with ⟨h, -⟩ | ⟨-, -, rfl⟩
    · exact Nat.lt_succ_of_lt (hd.lt h)
    · exact Nat.lt_succ_self next

section

variable {live : Handle → Prop} {v : Variant} {e : Workspace.Entry} {next : Nat} {slot : Slot}

theorem Shows.drop (hs : Shows live v e) (hd : v.Distinct next) {key : String} {ref : Handle}
    (hkey : (slot.table v).get? key = some ref) :
    Shows live (slot.update (·.erase key) v) (slot.dropFrom ref e) := by
  obtain ⟨hinfo, hcompilation, hparse, hrefs⟩ := slot.dropFrom_frame ref e
  refine ⟨?_, fun slot' key' ref' hkey' => ?_, fun ref' m hm => ?_, fun ref' path hpath => ?_, ?_, ?_, ?_⟩
  · rw [hinfo, slot.update_handle, hs.handle]
  · obtain ⟨hkey', hne⟩ := (Slot.get?_table_erase hd hkey).1 hkey'
    exact Slot.shown_dropFrom hne (hs.shown slot' key' ref' hkey')
  · obtain ⟨hm, hne⟩ := Slot.metadata_dropFrom hm
    obtain ⟨slot', key', hdoc, hkey'⟩ := hs.metadata ref' m hm
    refine ⟨slot', key', hdoc, (Slot.get?_table_erase hd hkey).2 ⟨hkey', ?_⟩⟩
    rintro rfl
    obtain ⟨rfl, -⟩ := hd.inj hkey' hkey
    exact hne hdoc rfl
  · obtain ⟨hpath, hne⟩ := Slot.documents_dropFrom hpath
    obtain ⟨key', hkey'⟩ := hs.document ref' path hpath
    refine ⟨key', (Slot.get?_table_erase hd hkey).2 ⟨hkey', ?_⟩⟩
    rintro rfl
    obtain ⟨hdoc, -⟩ := hd.inj hkey' hkey
    exact hne hdoc.symm rfl
  · rw [hcompilation, slot.update_compilation, hs.compilation]
  · rw [hparse, slot.update_parse, hs.parse]
  · simp only [hrefs, Variant.RefersTo, slot.update_projectRefs]
    exact hs.reference

theorem Shows.add (hs : Shows live v e) (hd : v.Distinct next) {item : Slot.Item}
    (hkey : (slot.table v).get? item.key = none) :
    Shows live (slot.update (·.put item.key ⟨next⟩) v) (slot.addTo ⟨next⟩ item e) := by
  obtain ⟨hinfo, hcompilation, hparse, hrefs⟩ := slot.addTo_frame ⟨next⟩ item e
  have hnew : (slot.table (slot.update (·.put item.key ⟨next⟩) v)).get? item.key = some ⟨next⟩ :=
    (Slot.get?_table_put hd hkey).2 (Or.inr ⟨rfl, rfl, rfl⟩)
  have hold : ∀ {slot' : Slot} {key' ref'}, (slot'.table v).get? key' = some ref' →
      (slot'.table (slot.update (·.put item.key ⟨next⟩) v)).get? key' = some ref' := by
    intro slot' key' ref' hkey'
    refine (Slot.get?_table_put hd hkey).2 (Or.inl ⟨hkey', ?_⟩)
    rintro rfl
    exact Nat.lt_irrefl next (hd.lt hkey')
  refine ⟨?_, fun slot' key' ref' hkey' => ?_, fun ref' m hm => ?_, fun ref' path hpath => ?_, ?_, ?_, ?_⟩
  · rw [hinfo, slot.update_handle, hs.handle]
  · rcases (Slot.get?_table_put hd hkey).1 hkey' with ⟨hkey', hne⟩ | ⟨rfl, rfl, rfl⟩
    · exact Slot.shown_addTo item hne (hs.shown slot' key' ref' hkey')
    · exact slot'.shown_addTo_self ⟨next⟩ item e
  · rcases Slot.metadata_addTo hm with hm | ⟨hdoc, rfl⟩
    · obtain ⟨slot', key', hdoc, hkey'⟩ := hs.metadata ref' m hm
      exact ⟨slot', key', hdoc, hold hkey'⟩
    · exact ⟨slot, item.key, hdoc, hnew⟩
  · rcases Slot.documents_addTo hpath with hpath | ⟨rfl, rfl⟩
    · obtain ⟨key', hkey'⟩ := hs.document ref' path hpath
      exact ⟨key', hold hkey'⟩
    · exact ⟨item.key, hnew⟩
  · rw [hcompilation, slot.update_compilation, hs.compilation]
  · rw [hparse, slot.update_parse, hs.parse]
  · simp only [hrefs, Variant.RefersTo, slot.update_projectRefs]
    exact hs.reference

end

/-! ### Operations on one variant -/

namespace Reconciler

variable {r r' : Reconciler} {id : Nat} {h : Handle} {v : Variant}

/-- A reconciler of which no workspace call has failed or is due to fail, and whose workspace mirrors its
graph. -/
structure Mirrored (r : Reconciler) : Prop extends r.WellFormed where
  mirror : Mirror r.store r.nextHandle r.workspace
  calm : r.Calm
  clean : ∀ c ∈ r.calls, c.2 = none

/-- A reconciler that mirrors while one registered variant is updated. -/
def Mirroring (id : Nat) (h : Handle) (r : Reconciler) : Prop :=
  r.Mirrored ∧ Registers r.store id h

/-- From one state to another no call failed. -/
structure Served (r r' : Reconciler) : Prop where
  outages : r'.outages = r.outages
  calls : ∀ c ∈ r'.calls, c ∈ r.calls ∨ c.2 = none

theorem Served.refl (r : Reconciler) : Served r r :=
  ⟨rfl, fun _ hc => Or.inl hc⟩

theorem Served.trans {r r' r'' : Reconciler} (h : Served r r') (h' : Served r' r'') : Served r r'' :=
  ⟨h'.outages.trans h.outages, fun c hc => (h'.calls c hc).elim (h.calls c) Or.inr⟩

theorem served_call {call : Workspace.Call} (ho : r'.outages = r.outages)
    (hc : r'.calls = r.calls ++ [(call, none)]) : Served r r' := by
  refine ⟨ho, fun c hmem => ?_⟩
  rw [hc] at hmem
  rcases List.mem_append.1 hmem with hmem | hmem
  · exact Or.inl hmem
  · rw [List.mem_singleton.1 hmem]
    exact Or.inr rfl

theorem Mirrored.serve (hr : r.Mirrored) (hwf : r'.WellFormed) (hserved : Served r r')
    (hm : Mirror r'.store r'.nextHandle r'.workspace) : r'.Mirrored :=
  { hwf with
    mirror := hm
    calm := hserved.outages.trans hr.calm
    clean := fun c hc => (hserved.calls c hc).elim (hr.clean c) fun h => h }

theorem Registers.of_alters {s s' : Store} {k : Handle} {f : Variant → Variant} (ha : Alters s s' k f)
    (hf : ∀ v, (f v).handle = v.handle ∧ (f v).registered = v.registered) (ho : Registers s id h) :
    Registers s' id h := by
  obtain ⟨v, hv, rfl, hreg⟩ := ho
  obtain ⟨w, hw, hc⟩ := ha.has hv
  refine ⟨w, hw, ?_, ?_⟩
  · rw [Variant.handle_of_content hc, changed]
    split
    · exact (hf v).1
    · rfl
  · rw [Variant.registered_of_content hc, changed]
    split
    · rw [(hf v).2, hreg]
    · exact hreg

/-- An update of a registered variant together with its workspace project. -/
theorem Mirrored.update (hr : r.Mirrored) (hv : r.store.Has id v) (hreg : v.registered = true)
    (hwf : r'.WellFormed) (hserved : Served r r') {f : Variant → Variant}
    (ha : Alters r.store r'.store v.handle f)
    (hf : ∀ v, (f v).handle = v.handle ∧ (f v).registered = v.registered)
    (hnext : r.nextHandle ≤ r'.nextHandle) {e' : Workspace.Entry}
    (hw : ∀ k, r'.workspace.projects.get? k =
      if k = v.handle then some e' else r.workspace.projects.get? k)
    (hshown : Shows r.store.Live (f v) e') (hdistinct : (f v).Distinct r'.nextHandle) :
    Mirroring id v.handle r' := by
  have hself : ∀ {i w}, r.store.Has i w → w.handle = v.handle → w = v :=
    fun hw hh => (hr.sound.handle_inj hw hv hh).2
  refine ⟨hr.serve hwf hserved (hr.mirror.of_alters ha hf hnext ?_ ?_ ?_ ?_ ?_), Registers.of_alters ha hf
    ⟨v, hv, rfl, hreg⟩⟩
  · intro k hk
    rw [hw, if_neg hk]
  · intro i w e hwv hh _ _ _
    rw [hself hwv hh, hw, if_pos rfl]
    exact ⟨e', rfl, hshown⟩
  · intro e₀ _
    obtain ⟨e, he, -⟩ := hr.mirror.shown hv hreg
    exact ⟨e, he⟩
  · intro i w hwv hh hunreg _
    rw [hself hwv hh, hreg] at hunreg
    cases hunreg
  · intro i w hwv hh _
    rw [hself hwv hh]
    exact hdistinct

/-- The workspace gives an entry of a registered variant up. -/
theorem Mirrored.dropEntry_eq (hr : r.Mirrored) (hv : r.store.Has id v) (hreg : v.registered = true)
    {slot : Slot} {key : String} {ref : Handle} (hkey : (slot.table v).get? key = some ref) :
    ∃ e, r.workspace.projects.get? v.handle = some e ∧ Shows r.store.Live v e ∧
      dropEntry slot id v.handle r (key, ref) =
        (r.after (slot.removeCall v.handle ref)
          ⟨r.workspace.projects.put v.handle (slot.dropFrom ref e)⟩).modifyVariant v.handle
            (slot.update (·.erase key)) := by
  obtain ⟨e, he, hs⟩ := hr.mirror.shown hv hreg
  have hcall := slot.perform_removeCall he (hs.shown slot key ref hkey)
  exact ⟨e, he, hs, by rw [Reconciler.dropEntry, carryOut_of_calm hr.calm hcall]⟩

theorem Mirroring.dropEntry (hr : Mirroring id h r) (hv : r.store.Has id v) (hh : v.handle = h)
    {slot : Slot} {key : String} {ref : Handle} (hkey : (slot.table v).get? key = some ref) :
    Mirroring id h (dropEntry slot id h r (key, ref)) := by
  obtain ⟨hr, v', hv', hh', hreg⟩ := hr
  obtain ⟨-, rfl⟩ := hr.sound.handle_inj hv' hv (hh'.trans hh.symm)
  subst hh
  obtain ⟨e, he, hs, heq⟩ := hr.dropEntry_eq hv hreg hkey
  have hd := hr.mirror.distinct hv
  have hwf := (hr.toWellFormed.dropEntry slot id v'.handle (key, ref)).1
  rw [heq] at hwf ⊢
  exact hr.update hv hreg hwf (served_call rfl rfl)
    (alters_modify r.store v'.handle fun v => slot.update_handle _ v)
    (fun v => ⟨slot.update_handle _ v, slot.update_registered _ v⟩) (Nat.le_refl _)
    (fun k => Table.get?_put ..) (hs.drop hd hkey) (hd.drop hkey)

/-- The workspace takes an item for a registered variant. -/
theorem Mirrored.offered_eq (hr : r.Mirrored) (hv : r.store.Has id v) (hreg : v.registered = true)
    (slot : Slot) (item : Slot.Item) :
    ∃ e, r.workspace.projects.get? v.handle = some e ∧ Shows r.store.Live v e ∧
      offered slot id v.handle r item =
        (r.issued.after (slot.addCall v.handle ⟨r.nextHandle⟩ item)
          ⟨r.workspace.projects.put v.handle (slot.addTo ⟨r.nextHandle⟩ item e)⟩, true) := by
  obtain ⟨e, he, hs⟩ := hr.mirror.shown hv hreg
  have hcalm : r.issued.Calm := hr.calm
  have he' : r.issued.workspace.projects.get? v.handle = some e := he
  exact ⟨e, he, hs, attempt_of_calm hcalm (slot.perform_addCall he' ⟨r.nextHandle⟩ item) _ _ _⟩

theorem Mirroring.addEntry (hr : Mirroring id h r) (slot : Slot) (item : Slot.Item) :
    Mirroring id h (addEntry slot id h r item) := by
  obtain ⟨hr, v, hv, rfl, hreg⟩ := hr
  have hwf := (hr.toWellFormed.addEntry hv slot item).1
  rw [addEntry_eq hr.sound hv] at hwf ⊢
  split
  · exact ⟨hr, v, hv, rfl, hreg⟩
  · rename_i hnew
    have hkey := (Table.contains_eq_false _ _).1 (Bool.eq_false_iff.2 hnew)
    obtain ⟨e, he, hs, htaken⟩ := hr.offered_eq hv hreg slot item
    have hd := hr.mirror.distinct hv
    rw [if_neg hnew] at hwf
    rw [htaken, if_pos rfl] at hwf ⊢
    exact hr.update hv hreg hwf (served_call rfl rfl)
      (alters_modify r.store v.handle fun v => slot.update_handle _ v)
      (fun v => ⟨slot.update_handle _ v, slot.update_registered _ v⟩) (Nat.le_succ _)
      (fun k => Table.get?_put ..) (hs.add hd hkey) (hd.add hkey)

theorem get?_self {w : Workspace} {h : Handle} {e : Workspace.Entry} (he : w.projects.get? h = some e)
    (k : Handle) : w.projects.get? k = if k = h then some e else w.projects.get? k := by
  split
  · rename_i hk
    rw [hk, he]
  · rfl

theorem Mirroring.markLoaded (hr : Mirroring id h r) :
    Mirroring id h (r.modifyVariant h fun v => { v with loaded := true }) := by
  obtain ⟨hr, v, hv, rfl, hreg⟩ := hr
  obtain ⟨e, he, hs⟩ := hr.mirror.shown hv hreg
  have hd := hr.mirror.distinct hv
  have hplain := plain_loaded r.store v.handle
  have htable : ∀ slot, Slot.table slot { v with loaded := true } = slot.table v := by
    intro slot
    cases slot <;> rfl
  have hshows : Shows r.store.Live { v with loaded := true } e :=
    hs.of_tables htable rfl rfl rfl rfl hs.compilation hs.parse hs.reference
  exact hr.update hv hreg (hr.toWellFormed.plain hplain rfl (Nat.le_refl _)) ⟨rfl, fun _ hc => Or.inl hc⟩
    (alters_modify r.store v.handle hplain.handle) (fun _ => ⟨rfl, rfl⟩) (Nat.le_refl _) (get?_self he)
    hshows (hd.of_tables htable)

/-- A variant with the options of a message. -/
def withOptions (options : CompilerOptions) (v : Variant) : Variant :=
  { v with compilation := some options.compilation, parse := some options.parse }

theorem setOptions_eq (hr : r.Mirrored) (hv : r.store.Has id v) (hreg : v.registered = true)
    {e : Workspace.Entry} (he : r.workspace.projects.get? v.handle = some e) (options : CompilerOptions) :
    let w := r.workspace.projects.put v.handle { e with compilation := some options.compilation }
    Reconciler.setOptions id v.handle r options =
      ((r.modifyVariant v.handle (withOptions options)).after
        (.setCompilationOptions v.handle options.compilation) ⟨w⟩).after
        (.setParseOptions v.handle options.parse) ⟨w.put v.handle
          { e with compilation := some options.compilation, parse := some options.parse }⟩ := by
  intro w
  have hplain := plain_options r.store v.handle options
  have hfind : (r.modifyVariant v.handle (withOptions options)).store.variant? v.handle =
      some (withOptions options v) :=
    (hr.sound.plain hplain).variant? (hv.modify (withOptions options))
  have hcalm : (r.modifyVariant v.handle (withOptions options)).Calm := hr.calm
  have hfirst : (r.modifyVariant v.handle (withOptions options)).workspace.perform
      (.setCompilationOptions v.handle options.compilation) = .ok ⟨w⟩ := by
    change r.workspace.perform _ = _
    simp only [Workspace.perform, Workspace.update, he]
    rfl
  have hsecond : (((r.modifyVariant v.handle (withOptions options)).after
      (.setCompilationOptions v.handle options.compilation) ⟨w⟩)).workspace.perform
      (.setParseOptions v.handle options.parse) = .ok ⟨w.put v.handle
        { e with compilation := some options.compilation, parse := some options.parse }⟩ := by
    have hget : w.get? v.handle = some { e with compilation := some options.compilation } := by
      rw [Table.get?_put, if_pos rfl]
    change Workspace.perform ⟨w⟩ _ = _
    simp only [Workspace.perform, Workspace.update, hget]
    rfl
  have hcalm₁ : ((r.modifyVariant v.handle (withOptions options)).after
      (.setCompilationOptions v.handle options.compilation) ⟨w⟩).Calm := hr.calm
  unfold withOptions at hfind
  unfold Reconciler.setOptions
  simp only [hfind, hreg, if_true, sendOptions]
  change (carryOut (carryOut (r.modifyVariant v.handle (withOptions options)) _ _ _ _) _ _ _ _) = _
  rw [carryOut_of_calm hcalm hfirst, carryOut_of_calm hcalm₁ hsecond]

theorem Mirroring.setOptions (hr : Mirroring id h r) (options : CompilerOptions) :
    Mirroring id h (setOptions id h r options) := by
  obtain ⟨hr, v, hv, rfl, hreg⟩ := hr
  obtain ⟨e, he, hs⟩ := hr.mirror.shown hv hreg
  have hd := hr.mirror.distinct hv
  have hplain := plain_options r.store v.handle options
  have hwf := hr.toWellFormed.plain hplain (setOptions_store id ..)
    (Nat.le_of_eq (makes_setOptions ..).steady.nextHandle.symm)
  have htable : ∀ slot, Slot.table slot (withOptions options v) = slot.table v := by
    intro slot
    cases slot <;> rfl
  have hshows : Shows r.store.Live (withOptions options v)
      { e with compilation := some options.compilation, parse := some options.parse } :=
    hs.of_tables htable rfl rfl rfl rfl rfl rfl hs.reference
  rw [setOptions_eq hr hv hreg he] at hwf ⊢
  have hfirst : Served r ((r.modifyVariant v.handle (withOptions options)).after
      (.setCompilationOptions v.handle options.compilation)
      ⟨r.workspace.projects.put v.handle { e with compilation := some options.compilation }⟩) :=
    served_call rfl rfl
  refine hr.update hv hreg hwf (hfirst.trans (served_call rfl rfl))
    (alters_modify r.store v.handle hplain.handle)
    (fun _ => ⟨rfl, rfl⟩) (Nat.le_refl _) (fun k => ?_) hshows (hd.of_tables htable)
  change ((r.workspace.projects.put v.handle _).put v.handle _).get? k = _
  rw [Table.get?_put, Table.get?_put]
  split <;> rfl

end Reconciler

end CompilationBridge.Graph
