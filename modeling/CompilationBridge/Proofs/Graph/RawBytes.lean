import CompilationBridge.Proofs.Graph.Backing

/-! The bytes of raw references. A message lists the raw references of a variant by name, each with its
bytes. Raw references are told apart by their names alone: a name that stays keeps the bytes that it came
with, also where the message gives others. So the workspace has the bytes of the message exactly if each
listed name was not there before, or was there with the same bytes. -/

namespace CompilationBridge.Graph

variable {v : Variant} {e : Workspace.Entry} {next : Nat} {name : String}

/-- The bytes that a workspace project has for the raw reference of a variant under a name. -/
def Variant.bytesIn (v : Variant) (e : Workspace.Entry) (name : String) : Option (Option Text.Bytes) :=
  (v.rawRefs.get? name).bind fun ref => (e.metadata.get? ref).map (·.bytes)

theorem Variant.bytesIn_eq_some {bytes : Option Text.Bytes} : v.bytesIn e name = some bytes ↔
    ∃ ref, (Slot.raw.table v).get? name = some ref ∧ ∃ m, e.metadata.get? ref = some m ∧ m.bytes = bytes := by
  simp only [bytesIn, Option.bind_eq_some_iff, Option.map_eq_some_iff]
  rfl

namespace Slot

theorem get?_dropFrom (slot : Slot) (e : Workspace.Entry) {ref ref' : Handle} (hne : ref' ≠ ref) :
    (slot.dropFrom ref e).metadata.get? ref' = e.metadata.get? ref' := by
  cases slot <;> simp [dropFrom, hne]

theorem get?_addTo (slot : Slot) (e : Workspace.Entry) (item : Item) {ref ref' : Handle} (hne : ref' ≠ ref) :
    (slot.addTo ref item e).metadata.get? ref' = e.metadata.get? ref' := by
  cases slot <;> simp [addTo, hne]

end Slot

/-- A dropped entry takes the bytes of its name along if it is that of a raw reference. -/
theorem Variant.Distinct.bytesIn_drop (hd : v.Distinct next) {slot : Slot} {key : String} {ref : Handle}
    (hkey : (slot.table v).get? key = some ref) (name : String) :
    (slot.update (·.erase key) v).bytesIn (slot.dropFrom ref e) name =
      if slot = .raw ∧ name = key then none else v.bytesIn e name := by
  refine Option.ext fun bytes => ?_
  rw [Variant.bytesIn_eq_some]
  split
  · rename_i hself
    obtain ⟨rfl, rfl⟩ := hself
    simp only [reduceCtorEq, iff_false]
    rintro ⟨ref', hget, -⟩
    obtain ⟨hget, hne⟩ := (Slot.get?_table_erase hd hkey).1 hget
    exact hne (Option.some_inj.1 (hget.symm.trans hkey))
  · rename_i hself
    rw [Variant.bytesIn_eq_some]
    refine exists_congr fun ref' => ?_
    rw [Slot.get?_table_erase hd hkey, and_assoc]
    refine and_congr_right fun hget => ?_
    have hne : ref' ≠ ref := by
      rintro rfl
      obtain ⟨hslot, hname⟩ := hd.inj hget hkey
      exact hself ⟨hslot.symm, hname⟩
    rw [and_iff_right hne, slot.get?_dropFrom e hne]

/-- A new entry brings its bytes if it is that of a raw reference. -/
theorem Variant.Distinct.bytesIn_add (hd : v.Distinct next) {slot : Slot} {item : Slot.Item}
    (hkey : (slot.table v).get? item.key = none) (name : String) :
    (slot.update (·.put item.key ⟨next⟩) v).bytesIn (slot.addTo ⟨next⟩ item e) name =
      if slot = .raw ∧ name = item.key then some item.bytes else v.bytesIn e name := by
  refine Option.ext fun bytes => ?_
  rw [Variant.bytesIn_eq_some]
  simp only [Slot.get?_table_put hd hkey]
  split
  · rename_i hself
    obtain ⟨rfl, rfl⟩ := hself
    rw [Option.some_inj]
    constructor
    · rintro ⟨ref, ⟨hget, -⟩ | ⟨-, -, rfl⟩, m, hm, rfl⟩
      · rw [hkey] at hget
        cases hget
      · simp only [Slot.addTo, Table.get?_put, if_true, Option.some_inj] at hm
        rw [← hm]
    · rintro rfl
      exact ⟨⟨next⟩, Or.inr ⟨rfl, rfl, rfl⟩, _, by rw [Slot.addTo, Table.get?_put, if_pos rfl], rfl⟩
  · rename_i hself
    rw [Variant.bytesIn_eq_some]
    refine exists_congr fun ref => ?_
    have hother : ¬(Slot.raw = slot ∧ name = item.key ∧ ref = ⟨next⟩) := fun h => hself ⟨h.1.symm, h.2.1⟩
    rw [or_iff_left hother, and_assoc]
    refine and_congr_right fun hget => ?_
    have hne : ref ≠ ⟨next⟩ := by
      rintro rfl
      exact Nat.lt_irrefl next (hd.lt hget)
    rw [and_iff_right hne, slot.get?_addTo e item hne]

/-- A raw reference has bytes in the workspace project that shows the variant. -/
theorem Shows.bytesIn_eq_none {live : Handle → Prop} (hs : Shows live v e) (name : String) :
    v.bytesIn e name = none ↔ (Slot.raw.table v).get? name = none := by
  cases hget : (Slot.raw.table v).get? name with
  | none =>
      have hget' : v.rawRefs.get? name = none := hget
      simp [Variant.bytesIn, hget']
  | some ref =>
      obtain ⟨bytes, hm⟩ := hs.shown .raw name ref hget
      have hbytes : v.bytesIn e name = some bytes := Variant.bytesIn_eq_some.2 ⟨ref, hget, _, hm, rfl⟩
      simp [hbytes]

namespace Reconciler

open Store

variable {r r' : Reconciler} {id : Nat} {h : Handle} {framework : String}
  {bytes : String → Option (Option Text.Bytes)}

/-! ### While the variant is updated -/

/-- The registered variant of a framework is being updated, and the workspace has these bytes for its raw
references. -/
structure Holding (id : Nat) (h : Handle) (framework : String) (bytes : String → Option (Option Text.Bytes))
    (r : Reconciler) : Prop where
  mirroring : Mirroring id h r
  named : ∀ {v}, r.store.Has id v → v.handle = h → v.framework.name = framework
  held : ∀ {v e}, r.store.Has id v → v.handle = h → r.workspace.projects.get? h = some e →
    ∀ name, v.bytesIn e name = bytes name

theorem Holding.congr {bytes' : String → Option (Option Text.Bytes)} (hr : Holding id h framework bytes r)
    (heq : ∀ name, bytes name = bytes' name) : Holding id h framework bytes' r :=
  ⟨hr.mirroring, hr.named, fun hv hh he name => (hr.held hv hh he name).trans (heq name)⟩

theorem Holding.dropEntry {v : Variant} {slot : Slot} {key : String} {ref : Handle}
    (hr : Holding id h framework bytes r) (hv : r.store.Has id v) (hh : v.handle = h)
    (hkey : (slot.table v).get? key = some ref) :
    Holding id h framework (fun name => if slot = .raw ∧ name = key then none else bytes name)
      (dropEntry slot id h r (key, ref)) := by
  have hafter := hr.mirroring.dropEntry hv hh hkey
  obtain ⟨hm, v', hv', hh', hreg⟩ := hr.mirroring
  obtain ⟨-, rfl⟩ := hm.sound.handle_inj hv' hv (hh'.trans hh.symm)
  subst hh
  obtain ⟨e, he, -, heq⟩ := hm.dropEntry_eq hv hreg hkey
  have hself : ∀ {w}, (Reconciler.dropEntry slot id v'.handle r (key, ref)).store.Has id w →
      w.handle = v'.handle → w = slot.update (·.erase key) v' := by
    intro w hw hwh
    rw [dropEntry_store] at hw
    exact eq_of_modified hm.sound hv (fun v => slot.update_handle _ v) hw hwh
  refine ⟨hafter, fun hw hwh => ?_, fun {w e'} hw hwh he' name => ?_⟩
  · rw [hself hw hwh, slot.update_framework, hr.named hv rfl]
  · rw [heq] at he'
    have he' : (r.workspace.projects.put v'.handle (slot.dropFrom ref e)).get? v'.handle = some e' := he'
    rw [Table.get?_put, if_pos rfl, Option.some_inj] at he'
    rw [hself hw hwh, ← he', (hm.mirror.distinct hv).bytesIn_drop hkey, hr.held hv rfl he]

theorem Holding.addEntry (hr : Holding id h framework bytes r) (slot : Slot) (item : Slot.Item) :
    Holding id h framework (fun name => if slot = .raw ∧ name = item.key then
      some ((bytes name).getD item.bytes) else bytes name) (addEntry slot id h r item) := by
  have hafter := hr.mirroring.addEntry slot item
  obtain ⟨hm, v, hv, rfl, hreg⟩ := hr.mirroring
  obtain ⟨e, he, hs, htaken⟩ := hm.offered_eq hv hreg slot item
  have hheld := hr.held hv rfl he
  rw [addEntry_eq hm.sound hv] at hafter ⊢
  split at hafter
  · rename_i hthere
    rw [if_pos hthere]
    refine hr.congr fun name => ?_
    split
    · rename_i hself
      obtain ⟨rfl, rfl⟩ := hself
      obtain ⟨ref, hget⟩ := (Table.contains_iff _ _).1 hthere
      have hsome : bytes item.key ≠ none := by
        rw [← hheld, Ne, hs.bytesIn_eq_none, hget]
        exact Option.some_ne_none ref
      obtain ⟨b, hb⟩ := Option.ne_none_iff_exists'.1 hsome
      rw [hb, Option.getD_some]
    · rfl
  · rename_i hnew
    have hkey := (Table.contains_eq_false _ _).1 (Bool.eq_false_iff.2 hnew)
    rw [if_neg hnew]
    rw [htaken, if_pos rfl] at hafter ⊢
    have hself : ∀ {w}, (r.store.modifyVariant v.handle (slot.update (·.put item.key ⟨r.nextHandle⟩))).Has id w →
        w.handle = v.handle → w = slot.update (·.put item.key ⟨r.nextHandle⟩) v :=
      fun hw hwh => eq_of_modified hm.sound hv (fun v => slot.update_handle _ v) hw hwh
    refine ⟨hafter, fun hw hwh => ?_, fun {w e'} hw hwh he' name => ?_⟩
    · rw [hself hw hwh, slot.update_framework, hr.named hv rfl]
    · have he' : (r.workspace.projects.put v.handle (slot.addTo ⟨r.nextHandle⟩ item e)).get? v.handle =
          some e' := he'
      rw [Table.get?_put, if_pos rfl, Option.some_inj] at he'
      rw [hself hw hwh, ← he', (hm.mirror.distinct hv).bytesIn_add hkey, hheld]
      split
      · rename_i hraw
        obtain ⟨rfl, rfl⟩ := hraw
        have hnone : bytes item.key = none := by rw [← hheld, hs.bytesIn_eq_none, hkey]
        rw [hnone, Option.getD_none]
      · rfl

/-- A change that leaves the raw references alone, on both sides. -/
theorem Holding.keep (hr : Holding id h framework bytes r) (hr' : Mirroring id h r')
    (hhas : ∀ {w}, r'.store.Has id w → w.handle = h →
      ∃ v, r.store.Has id v ∧ v.handle = h ∧ w.framework = v.framework ∧ w.rawRefs = v.rawRefs)
    (hw : r.workspace.Retains r'.workspace) : Holding id h framework bytes r' := by
  refine ⟨hr', fun hw' hwh => ?_, fun {w e'} hw' hwh he' name => ?_⟩
  · obtain ⟨v, hv, hh, hf, -⟩ := hhas hw' hwh
    rw [hf, hr.named hv hh]
  · obtain ⟨v, hv, hh, -, hraw⟩ := hhas hw' hwh
    obtain ⟨hm, v', hv', hh', hreg⟩ := hr.mirroring
    obtain ⟨e, he, -⟩ := hm.mirror.shown hv' hreg
    rw [hh'] at he
    obtain ⟨e'', he'', hmeta, -⟩ := hw h e he
    obtain rfl : e'' = e' := Option.some_inj.1 (he''.symm.trans he')
    rw [← hr.held hv hh he name, Variant.bytesIn, Variant.bytesIn, hraw, hmeta]

theorem Alters.rawRefs {s s' : Store} {k : Handle} {f : Variant → Variant} (ha : Alters s s' k f)
    (hf : ∀ v, (f v).handle = v.handle ∧ (f v).framework = v.framework ∧ (f v).rawRefs = v.rawRefs)
    {w : Variant} (hw : s'.Has id w) (hwh : w.handle = h) :
    ∃ v, s.Has id v ∧ v.handle = h ∧ w.framework = v.framework ∧ w.rawRefs = v.rawRefs := by
  obtain ⟨v, hv, hc⟩ := ha.of_has hw
  have hsame : (changed k f v).handle = v.handle ∧ (changed k f v).framework = v.framework ∧
      (changed k f v).rawRefs = v.rawRefs := by
    unfold changed
    split
    · exact hf v
    · exact ⟨rfl, rfl, rfl⟩
  have htable : w.rawRefs = (changed k f v).rawRefs := Slot.table_of_content hc .raw
  exact ⟨v, hv, by rw [← hsame.1, ← Variant.handle_of_content hc, hwh],
    by rw [Variant.framework_of_content hc, hsame.2.1], by rw [htable, hsame.2.2]⟩

theorem edgeUpdates_holding (id : Nat) (h : Handle) (framework : String)
    (bytes : String → Option (Option Text.Bytes)) : EdgeUpdates id h (Holding id h framework bytes) where
  wellFormed hr := hr.mirroring.1.toWellFormed
  owns hr := (mirrored_maintained.edges id h).owns hr.mirroring
  dropProject hr hv hh hedge := by
    refine hr.keep (hr.mirroring.dropProject hv hh hedge) ?_ (makes_dropProject ..).retains
    subst hh
    obtain ⟨ha, -, -⟩ := dropProject_effect hr.mirroring.1.sound hr.mirroring.1.linked hv hedge
    exact Alters.rawRefs ha fun _ => ⟨rfl, rfl, rfl⟩
  track path hr := hr.keep ((mirrored_maintained.edges id h).track path hr.mirroring)
    (fun {w} hw hwh => ⟨w, has_track.1 hw, hwh, rfl, rfl⟩) (Workspace.Retains.refl _)
  create {r j q f} hr hj hnew := by
    refine hr.keep ((mirrored_maintained.edges id h).create hr.mirroring hj hnew) ?_ (Workspace.Retains.refl _)
    intro w hw hwh
    rcases (has_addVariant ⟨q, hj⟩).1 hw with hw | ⟨-, rfl⟩
    · exact ⟨w, hw, hwh, rfl, rfl⟩
    · obtain ⟨v, hv, hh, -⟩ := hr.mirroring.2
      have hlt := hr.mirroring.1.sound.handle_lt hv
      rw [hh, ← hwh] at hlt
      exact absurd hlt (Nat.lt_irrefl _)
  link hr hq hv hh hnew hu hj := by
    refine hr.keep (hr.mirroring.link hq hv hh hnew hu hj) ?_ (makes_link ..).retains
    subst hh
    obtain ⟨ha, -, -⟩ := link_effect hr.mirroring.1.sound hr.mirroring.1.linked hq hv hu hj hnew
    exact Alters.rawRefs ha fun _ => ⟨rfl, rfl, rfl⟩

theorem entryUpdates_holding (id : Nat) (h : Handle) (framework : String)
    (bytes : String → Option (Option Text.Bytes)) :
    EntryUpdates .file id h (Holding id h framework bytes) where
  wellFormed hr := hr.mirroring.1.toWellFormed
  owns hr := (mirrored_maintained.edges id h).owns hr.mirroring
  drop hr hv hh hkey := (hr.dropEntry hv hh hkey).congr fun _ => if_neg nofun
  add item hr := (hr.addEntry .file item).congr fun _ => if_neg nofun

/-- The names that have no bytes are those that the variant has no raw reference for. -/
theorem Holding.eq_none_iff {v : Variant} (hr : Holding id h framework bytes r) (hv : r.store.Has id v)
    (hh : v.handle = h) (name : String) : bytes name = none ↔ (Slot.raw.table v).get? name = none := by
  obtain ⟨hm, v', hv', hh', hreg⟩ := hr.mirroring
  obtain ⟨-, rfl⟩ := hm.sound.handle_inj hv' hv (hh'.trans hh.symm)
  obtain ⟨e, he, hs⟩ := hm.mirror.shown hv hreg
  rw [← hr.held hv hh (hh ▸ he), hs.bytesIn_eq_none]

/-- The names that a message leaves out lose their bytes. -/
theorem Holding.drop_unlisted {v : Variant} (hr : Holding id h framework bytes r) (hv : r.store.Has id v)
    (hh : v.handle = h) (items : List Slot.Item) :
    Holding id h framework (fun name => if ∃ item ∈ items, item.key = name then bytes name else none)
      ((unlisted (Slot.raw.table v) items).foldl (Reconciler.dropEntry .raw id h) r) := by
  -- while names are dropped, those that are left keep their bytes
  let W := fun r => ∃ left, Holding id h framework left r ∧
    ∀ name, left name = none ∨ left name = bytes name
  have hdrop : ∀ {r v key ref}, W r → r.store.Has id v → v.handle = h →
      (Slot.raw.table v).get? key = some ref → W (Reconciler.dropEntry .raw id h r (key, ref)) := by
    rintro r v key ref ⟨left, hr, hleft⟩ hv hh hkey
    refine ⟨_, hr.dropEntry hv hh hkey, fun name => ?_⟩
    split
    · exact Or.inl rfl
    · exact hleft name
  obtain ⟨⟨left, hleft, hor⟩, w, hw, hwh, hget⟩ := foldl_drop_unlisted (W := W)
    (fun ⟨_, hr, _⟩ => hr.mirroring.1.toWellFormed)
    (fun ⟨left, hr, _⟩ => (entryUpdates_holding id h framework left).owns hr) hdrop
    ⟨bytes, hr, fun _ => Or.inr rfl⟩ hv hh items
  refine hleft.congr fun name => ?_
  have hnone := hleft.eq_none_iff hw hwh name
  rw [hget] at hnone
  split
  · rename_i hlisted
    rw [if_pos hlisted, ← hr.eq_none_iff hv hh] at hnone
    rcases hor name with hname | hname
    · rw [hname, hnone.1 hname]
    · exact hname
  · rename_i hlisted
    exact hnone.2 (if_neg hlisted)

/-- A name that is there keeps its bytes; another one gets those of the first item of the name. -/
theorem Holding.foldl_add (hr : Holding id h framework bytes r) (items : List Slot.Item) :
    Holding id h framework (fun name => (bytes name).or ((items.find? (·.key = name)).map (·.bytes)))
      (items.foldl (Reconciler.addEntry .raw id h) r) := by
  induction items generalizing r bytes with
  | nil => exact hr.congr fun name => by simp
  | cons item rest ih =>
      refine (ih (hr.addEntry .raw item)).congr fun name => ?_
      by_cases hname : name = item.key
      · cases hb : bytes name <;> simp [hname]
      · simp [hname, Ne.symm hname]

theorem find?_withBytes (given : Table String (Option Text.Bytes)) (name : String) :
    ((Slot.withBytes given).find? (·.key = name)).map (·.bytes) = given.get? name := by
  rw [Slot.withBytes, List.find?_map, Option.map_map]
  rfl

theorem exists_withBytes {given : Table String (Option Text.Bytes)} {name : String} :
    (∃ item ∈ Slot.withBytes given, item.key = name) ↔ given.get? name ≠ none := by
  rw [← find?_withBytes, Ne, Option.map_eq_none_iff, List.find?_eq_none]
  simp

/-- **The bytes after an update.** Exactly the given names have bytes: those that they had, or else the
given ones. -/
theorem Holding.setEntries (hr : Holding id h framework bytes r) (given : Table String (Option Text.Bytes)) :
    Holding id h framework (fun name => (given.get? name).map fun b => (bytes name).getD b)
      (setEntries .raw id h r (Slot.withBytes given)) := by
  obtain ⟨v, hv, rfl⟩ := (entryUpdates_holding id h framework bytes).owns hr
  rw [setEntries_eq hr.mirroring.1.sound hv]
  refine ((hr.drop_unlisted hv rfl _).foldl_add _).congr fun name => ?_
  rw [find?_withBytes, if_congr exists_withBytes rfl rfl]
  cases hgiven : given.get? name with
  | none => simp
  | some b => cases hb : bytes name <;> simp

theorem Holding.setReferences (hr : Holding id h framework bytes r) (refs : References) :
    Holding id h framework
      (fun name => ((refs.raws.getD .empty).get? name).map fun b => (bytes name).getD b)
      (setReferences id h r refs).1 := by
  have hr₁ := ((entryUpdates_holding id h framework bytes).setEntries hr
    (Slot.plain (refs.files.getD []))).setEntries (refs.raws.getD .empty)
  have hedges := edgeUpdates_holding id h framework
    fun name => ((refs.raws.getD .empty).get? name).map fun b => (bytes name).getD b
  obtain ⟨v, hv, hh⟩ := hedges.owns hr₁
  exact (hedges.setProjects hr₁ hv hh (targets_nodup refs) targets_clean).1

/-! ### What the workspace has -/

/-- The raw references that the workspace has for the variant of a framework: the metadata references that
are not those of its files. -/
def rawReferences (r : Reconciler) (id : Nat) (framework : String) : List Workspace.MetadataReference :=
  match (r.store.project? id).bind (·.variant? framework) with
  | none => []
  | some v =>
    match r.workspace.projects.get? v.handle with
    | none => []
    | some e => (e.metadata.keys.filter (· ∉ v.fileRefs.values)).filterMap e.metadata.get?

/-- The bytes that the workspace has for the variant of a framework under a name. -/
def rawBytes? (r : Reconciler) (id : Nat) (framework name : String) : Option (Option Text.Bytes) :=
  ((r.rawReferences id framework).find? (·.name = name)).map (·.bytes)

theorem rawReferences_of_has (hr : r.WellFormed) {v : Variant} (hv : r.store.Has id v) :
    r.rawReferences id v.framework.name = match r.workspace.projects.get? v.handle with
      | none => []
      | some e => (e.metadata.keys.filter (· ∉ v.fileRefs.values)).filterMap e.metadata.get? := by
  obtain ⟨p, hp, hmem⟩ := hv
  rw [rawReferences, hp, Option.bind_some, variant?_of_mem hr.sound hp hmem]

theorem Mirrored.mem_rawReferences (hr : r.Mirrored) {v : Variant} (hv : r.store.Has id v)
    (hreg : v.registered = true) {e : Workspace.Entry} (he : r.workspace.projects.get? v.handle = some e)
    {x : Workspace.MetadataReference} :
    x ∈ r.rawReferences id v.framework.name ↔
      ∃ ref, (Slot.raw.table v).get? x.name = some ref ∧ e.metadata.get? ref = some x := by
  obtain ⟨e', he', hs⟩ := hr.mirror.shown hv hreg
  obtain rfl : e = e' := Option.some_inj.1 (he.symm.trans he')
  have hfiles : ∀ ref, ref ∈ v.fileRefs.values ↔ ∃ path, (Slot.file.table v).get? path = some ref :=
    Table.mem_values (Slot.file.nodup_keys_table (hr.sound.tidy hv))
  rw [rawReferences_of_has hr.toWellFormed hv, he]
  simp only [List.mem_filterMap, List.mem_filter, decide_eq_true_eq]
  constructor
  · rintro ⟨ref, ⟨-, hnot⟩, hx⟩
    obtain ⟨slot, key, hslot, hkey⟩ := hs.metadata ref x hx
    cases slot with
    | file => exact absurd ((hfiles ref).2 ⟨key, hkey⟩) hnot
    | raw =>
        obtain ⟨bytes, hshown⟩ := hs.shown .raw key ref hkey
        rw [hx, Option.some_inj] at hshown
        subst hshown
        exact ⟨ref, hkey, hx⟩
    | document => exact absurd rfl hslot
  · rintro ⟨ref, hkey, hx⟩
    refine ⟨ref, ⟨(Table.mem_keys _ _).2 ⟨x, hx⟩, fun hfile => ?_⟩, hx⟩
    obtain ⟨path, hpath⟩ := (hfiles ref).1 hfile
    cases ((hr.mirror.distinct hv).inj hpath hkey).1

theorem Mirrored.rawBytes?_eq (hr : r.Mirrored) {v : Variant} (hv : r.store.Has id v)
    (hreg : v.registered = true) {e : Workspace.Entry} (he : r.workspace.projects.get? v.handle = some e)
    (name : String) : r.rawBytes? id v.framework.name name = v.bytesIn e name := by
  refine Option.ext fun bytes => ?_
  rw [Variant.bytesIn_eq_some, rawBytes?, Option.map_eq_some_iff]
  constructor
  · rintro ⟨x, hfind, rfl⟩
    have hname : x.name = name := by simpa using List.find?_some hfind
    obtain ⟨ref, hget, hx⟩ := (hr.mem_rawReferences hv hreg he).1 (List.mem_of_find?_eq_some hfind)
    exact ⟨ref, hname ▸ hget, x, hx, rfl⟩
  · rintro ⟨ref, hget, x, hx, rfl⟩
    obtain ⟨e', he', hs⟩ := hr.mirror.shown hv hreg
    obtain rfl : e = e' := Option.some_inj.1 (he.symm.trans he')
    have hxname : x.name = name := by
      obtain ⟨bytes, hshown⟩ := hs.shown .raw name ref hget
      rw [hx, Option.some_inj] at hshown
      rw [hshown]
    have hmem : x ∈ r.rawReferences id v.framework.name :=
      (hr.mem_rawReferences hv hreg he).2 ⟨ref, hxname ▸ hget, hx⟩
    have hsome : ((r.rawReferences id v.framework.name).find? (·.name = name)).isSome :=
      List.find?_isSome.2 ⟨x, hmem, by simpa using hxname⟩
    obtain ⟨y, hy⟩ := Option.isSome_iff_exists.1 hsome
    -- the first reference of the name is the only one
    have hyname : y.name = name := by simpa using List.find?_some hy
    obtain ⟨ref', hget', hy'⟩ := (hr.mem_rawReferences hv hreg he).1 (List.mem_of_find?_eq_some hy)
    rw [hyname, hget, Option.some_inj] at hget'
    rw [← hget', hx, Option.some_inj] at hy'
    exact ⟨y, hy, by rw [hy']⟩

/-- Only a registered variant has raw references in the workspace. -/
theorem Mirrored.of_mem_rawReferences (hr : r.Mirrored) {x : Workspace.MetadataReference}
    (hx : x ∈ r.rawReferences id framework) : ∃ v e, r.store.Has id v ∧ v.framework.name = framework ∧
      v.registered = true ∧ r.workspace.projects.get? v.handle = some e := by
  unfold rawReferences at hx
  split at hx
  · cases hx
  · rename_i v hfind
    obtain ⟨p, hp, hvariant⟩ := Option.bind_eq_some_iff.1 hfind
    have hv : r.store.Has id v := ⟨p, hp, List.mem_of_find?_eq_some hvariant⟩
    split at hx
    · cases hx
    · rename_i e he
      obtain ⟨j, w, hw, hwh, hreg⟩ := hr.mirror.live he
      rw [(hr.sound.handle_inj hw hv hwh).2] at hreg
      exact ⟨v, e, hv, by simpa using List.find?_some hvariant, hreg, he⟩

theorem Mirrored.rawBytes?_eq_none (hr : r.Mirrored)
    (hunreg : ∀ {v}, r.store.Has id v → v.framework.name = framework → v.registered = false) (name : String) :
    r.rawBytes? id framework name = none := by
  have hempty : r.rawReferences id framework = [] := by
    refine List.eq_nil_iff_forall_not_mem.2 fun x hx => ?_
    obtain ⟨v, e, hv, hname, hreg, -⟩ := hr.of_mem_rawReferences hx
    rw [hunreg hv hname] at hreg
    cases hreg
  rw [rawBytes?, hempty]
  rfl

theorem Mirrored.rawBytes?_eq_some (hr : r.Mirrored) {name : String} {b : Option Text.Bytes} :
    r.rawBytes? id framework name = some b ↔
      ∃ x ∈ r.rawReferences id framework, x.name = name ∧ x.bytes = b := by
  constructor
  · intro hb
    obtain ⟨x, hfind, rfl⟩ := Option.map_eq_some_iff.1 hb
    exact ⟨x, List.mem_of_find?_eq_some hfind, by simpa using List.find?_some hfind, rfl⟩
  · rintro ⟨x, hx, rfl, rfl⟩
    obtain ⟨v, e, hv, rfl, hreg, he⟩ := hr.of_mem_rawReferences hx
    obtain ⟨ref, hget, hmeta⟩ := (hr.mem_rawReferences hv hreg he).1 hx
    rw [hr.rawBytes?_eq hv hreg he, Variant.bytesIn_eq_some]
    exact ⟨ref, hget, x, hmeta, rfl⟩

/-! ### A message about references -/

theorem register_rawRefs (hr : r.Mirrored) {v : Variant} (hv : r.store.Has id v)
    (hunreg : v.registered = false) {w : Variant} (hw : (r.register id v.handle).store.Has id w)
    (hwh : w.handle = v.handle) : w.framework = v.framework ∧ w.rawRefs = .empty := by
  have hidle : v.rawRefs = .empty := (Slot.table_of_content (hr.mirror.idle hv hunreg) .raw).symm
  obtain ⟨-, he | ⟨-, he⟩⟩ := register_store hr.sound hv <;> rw [he] at hw
  · obtain ⟨-, rfl⟩ := hr.sound.handle_inj hw hv hwh
    exact ⟨rfl, hidle⟩
  · obtain rfl := eq_of_modified (f := Variant.settle) hr.sound hv (fun _ => rfl) hw hwh
    exact ⟨rfl, hidle⟩

/-- A variant that a message registers has no raw references yet. -/
theorem holding_register (hr : r.Mirrored) {v : Variant} (hv : r.store.Has id v)
    (hunreg : v.registered = false) :
    Holding id v.handle v.framework.name (fun _ => none) (r.register id v.handle) where
  mirroring := mirrored_maintained.register hr hv
  named hw hwh := by rw [(register_rawRefs hr hv hunreg hw hwh).1]
  held hw hwh _ name := by rw [Variant.bytesIn, (register_rawRefs hr hv hunreg hw hwh).2]; rfl

/-- The variant that a message is about starts with the bytes that it had. -/
theorem holding_ownVariant (hr : r.Mirrored) {q : String} (hid : r.store.path? id = some q)
    (framework : Framework) :
    Holding id (r.ownVariant id framework).2 framework.name (r.rawBytes? id framework.name)
      (r.ownVariant id framework).1 := by
  have heq : r.ownVariant id framework =
      ((r.variantFor id framework).1.register id (r.variantFor id framework).2,
        (r.variantFor id framework).2) := rfl
  rw [heq]
  rcases r.variantFor_cases hid framework with ⟨v, hv, hn, he⟩ | ⟨hnew, he⟩ <;> rw [he]
  · cases hreg : v.registered with
    | true =>
        refine ⟨mirrored_maintained.register hr hv, fun hw hwh => ?_, fun hw hwh he' name => ?_⟩
        all_goals
          rw [register_of_registered hr.sound hv hreg] at hw
          obtain ⟨-, rfl⟩ := hr.sound.handle_inj hw hv hwh
        · exact hn
        · rw [register_of_registered hr.sound hv hreg] at he'
          rw [← hn, hr.rawBytes?_eq hv hreg he']
    | false =>
        rw [← hn]
        refine (holding_register hr hv hreg).congr fun name => (hr.rawBytes?_eq_none ?_ name).symm
        intro w hw hname
        rw [hr.sound.name_inj hw hv hname, hreg]
  · have hv : (r.created id framework).store.Has id { framework := framework, handle := ⟨r.nextHandle⟩ } :=
      (has_addVariant ⟨q, hid⟩).2 (Or.inr ⟨rfl, rfl⟩)
    refine (holding_register (hr.create hid hnew) hv rfl).congr fun name => (hr.rawBytes?_eq_none ?_ name).symm
    exact fun hw hname => absurd hname (hnew hw)

/-- **The bytes that a message leaves.** The given names have the bytes that they had before the message,
or else the given ones; no other name has any. -/
theorem Mirrored.applyReferences_rawBytes? (hr : r.Mirrored) {q : String} (hid : r.store.path? id = some q)
    (refs : References) (name : String) :
    (r.applyReferences id refs).1.rawBytes? id refs.framework.name name =
      ((refs.raws.getD .empty).get? name).map fun b => (r.rawBytes? id refs.framework.name name).getD b := by
  have hafter := (holding_ownVariant hr hid refs.framework).setReferences refs
  change (setReferences id (r.ownVariant id refs.framework).2 (r.ownVariant id refs.framework).1 refs).1.rawBytes?
    id refs.framework.name name = _
  obtain ⟨hm, w, hw, hwh, hreg⟩ := hafter.mirroring
  obtain ⟨e, he, -⟩ := hm.mirror.shown hw hreg
  rw [← hafter.held hw hwh (hwh ▸ he), ← hafter.named hw hwh, hm.rawBytes?_eq hw hreg he]

/-- **When raw references have the bytes that their message gives.** After a message about the references
of a variant, in any run without outages, the names that the message lists are there and no others; a name
that was there before has its old bytes and another one those of the message. So each raw reference has the
bytes that the message gives for its name exactly if before the message each listed name was not there or
had the same bytes. -/
theorem raw_bytes_follow_iff (extension : String) (steps : List Step) (m : Message) {before : Store}
    {id : Nat} {refs : References}
    (hd : ((new extension).run steps).delivery? m = some ⟨before, id, .references refs⟩) :
    let r := (new extension).run steps
    let r' := (r.apply m).1
    let framework := refs.framework.name
    let given := refs.raws.getD .empty
    (∀ name, r'.rawBytes? id framework name =
      (given.get? name).map fun b => (r.rawBytes? id framework name).getD b) ∧
    ((∀ x ∈ r'.rawReferences id framework, given.get? x.name = some x.bytes) ↔
      ∀ name b, given.get? name = some b →
        r.rawBytes? id framework name = none ∨ r.rawBytes? id framework name = some b) := by
  intro r r' framework given
  have hr : r.Mirrored := mirrored_run extension steps
  have hr' : r'.Mirrored := mirrored_maintained.apply hr m
  obtain ⟨-, p, hp, heq⟩ := apply_of_delivered hd
  have hid : (r.countMessage m.type).store.path? id = some p.path := by
    change (r.store.project? id).map _ = _
    rw [hp, Option.map_some]
  have hafter : r' = ((r.countMessage m.type).applyReferences id refs).1 := heq
  have hcount : (r.countMessage m.type).Mirrored := mirrored_maintained.quiet _ r.logs hr
  have hbytes : ∀ name, r'.rawBytes? id framework name =
      (given.get? name).map fun b => (r.rawBytes? id framework name).getD b := by
    intro name
    rw [hafter]
    exact hcount.applyReferences_rawBytes? hid refs name
  refine ⟨hbytes, fun hfollow name b hgiven => ?_, fun hold x hx => ?_⟩
  · have hb := hbytes name
    rw [hgiven, Option.map_some] at hb
    obtain ⟨x, hx, rfl, hxb⟩ := hr'.rawBytes?_eq_some.1 hb
    have hsame := hfollow x hx
    rw [hgiven, Option.some_inj] at hsame
    cases hwas : r.rawBytes? id framework x.name with
    | none => exact Or.inl rfl
    | some b' =>
        rw [hwas, Option.getD_some, ← hsame] at hxb
        exact Or.inr (congrArg some hxb.symm)
  · have hb := hbytes x.name
    rw [hr'.rawBytes?_eq_some.2 ⟨x, hx, rfl, rfl⟩] at hb
    obtain ⟨b, hgiven, hxb⟩ := Option.map_eq_some_iff.1 hb.symm
    rw [hgiven, ← hxb]
    rcases hold x.name b hgiven with hnone | hsome
    · rw [hnone, Option.getD_none]
    · rw [hsome, Option.getD_some]

/-- A message about the raw references of the first project, each with its bytes in base 64. -/
def rawMessage (contents : String) : Message where
  type := "References"
  contextId := 1
  payload := some ("\x7b\"RawReferences\":\x7b" ++ contents ++ "\x7d\x7d")

theorem raw_bytes_follow_second_message :
    let r := (new ".cs").run [.track "/app", .apply (rawMessage "\"a\":\"AQ==\"")]
    let r' := (r.apply (rawMessage "\"a\":\"AQ==\",\"b\":\"Ag==\"")).1
    let given : Table String (Option Text.Bytes) := ⟨[("a", some [1]), ("b", some [2])]⟩
    ∀ x ∈ r'.rawReferences 1 "", given.get? x.name = some x.bytes := by
  intro r r' given
  have hd : r.delivery? (rawMessage "\"a\":\"AQ==\",\"b\":\"Ag==\"") =
      some ⟨r.store, 1, .references { raws := some given }⟩ := by
    decide +kernel
  have hold : r.rawBytes? 1 "" "a" = some (some [1]) ∧ r.rawBytes? 1 "" "b" = none := by
    decide +kernel
  refine (raw_bytes_follow_iff ".cs" _ _ hd).2.2 fun name b hgiven => ?_
  rcases List.mem_cons.1 (Table.mem_entries (t := given) (by decide) name b |>.2 hgiven) with h | h
  · cases h
    exact Or.inr hold.1
  · cases List.mem_singleton.1 h
    exact Or.inl hold.2

/-- A name that stays keeps its bytes: the second message gives others, and the workspace still has the
first ones. -/
theorem kept_name_keeps_bytes :
    let r := (new ".cs").run [.track "/app", .apply (rawMessage "\"a\":\"AQ==\"")]
    let r' := (r.apply (rawMessage "\"a\":\"Ag==\"")).1
    r.delivery? (rawMessage "\"a\":\"Ag==\"") =
        some ⟨r.store, 1, .references { raws := some ⟨[("a", some [2])]⟩ }⟩ ∧
      r'.rawReferences 1 "" = [{ handle := ⟨2⟩, name := "a", bytes := some [1] }] := by
  decide +kernel

end Reconciler

end CompilationBridge.Graph
