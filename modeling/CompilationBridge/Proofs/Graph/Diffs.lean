import CompilationBridge.Proofs.Graph.Successes

/-! What a message changes of a table, call by call. Where no call fails, a table of a variant is brought to
the listed keys by one call for each key that is dropped and one for each key that is new; a key that stays
keeps its handle. A table that has exactly the listed keys is left alone. -/

namespace CompilationBridge

namespace Table

variable {κ α β : Type} [DecidableEq κ]

/-- The entries of a table whose keys another table does not have. -/
def without (t : Table κ α) (u : Table κ β) : List (κ × α) :=
  t.entries.filter fun e => !u.contains e.1

/-- A table after an update, like the one before it, has each of its keys once. It has exactly the listed keys,
and those that were there before have what they had. -/
structure Follows (listed : κ → Prop) (old now : Table κ α) : Prop where
  distinct : old.keys.Nodup
  nodup : now.keys.Nodup
  keys : ∀ k, now.contains k = true ↔ listed k
  kept : ∀ k, listed k → old.contains k = true → now.get? k = old.get? k

theorem Follows.congr {listed listed' : κ → Prop} {old now : Table κ α} (h : Follows listed old now)
    (hlisted : ∀ k, listed k ↔ listed' k) : Follows listed' old now where
  distinct := h.distinct
  nodup := h.nodup
  keys k := (h.keys k).trans (hlisted k)
  kept k hk := h.kept k ((hlisted k).2 hk)

/-- The listed entries of a table. -/
def restrict (t : Table κ α) (listed : κ → Bool) : Table κ α :=
  ⟨t.entries.filter fun e => listed e.1⟩

/-- A table with the entries dropped that are not listed and new ones added at the end. -/
def revised (t : Table κ α) (listed : κ → Bool) (added : List (κ × α)) : Table κ α :=
  ⟨(t.restrict listed).entries ++ added⟩

variable {t : Table κ α} {listed : κ → Bool} {added : List (κ × α)}

theorem contains_iff_mem_keys (t : Table κ α) (k : κ) : t.contains k = true ↔ k ∈ t.keys := by
  rw [contains_iff, mem_keys]

omit [DecidableEq κ] in
theorem keys_restrict (t : Table κ α) (listed : κ → Bool) :
    (t.restrict listed).keys = t.keys.filter listed := by
  rw [restrict, keys, keys, List.filter_map]
  rfl

theorem contains_restrict {k : κ} (hk : listed k = true) : (t.restrict listed).contains k = t.contains k := by
  rw [Bool.eq_iff_iff, contains_iff_mem_keys, contains_iff_mem_keys, keys_restrict, List.mem_filter,
    and_iff_left hk]

/-- What is left of a table when each entry is dropped that is not listed. -/
theorem restrict_of_dropped (t : Table κ α) (listed : κ → Bool) :
    ⟨t.entries.filter fun e => e.1 ∉ (t.entries.filter fun e => !listed e.1).map (·.1)⟩ =
      t.restrict listed := by
  refine congrArg mk (List.filter_congr fun e he => ?_)
  rw [Bool.eq_iff_iff, decide_eq_true_eq]
  constructor
  · intro hnot
    by_contra hun
    exact hnot (List.mem_map.2 ⟨e, List.mem_filter.2 ⟨he, by simpa using hun⟩, rfl⟩)
  · intro hlisted hmem
    obtain ⟨e', he', heq⟩ := List.mem_map.1 hmem
    have hun := (List.mem_filter.1 he').2
    rw [heq, hlisted] at hun
    cases hun

omit [DecidableEq κ] in
theorem keys_revised (t : Table κ α) (listed : κ → Bool) (added : List (κ × α)) :
    (t.revised listed added).keys = t.keys.filter listed ++ added.map (·.1) := by
  rw [← keys_restrict, keys, revised, List.map_append]
  rfl

theorem entries_put_of_new {k : κ} (hk : t.contains k = false) (a : α) :
    (t.put k a).entries = t.entries ++ [(k, a)] := by
  obtain ⟨entries⟩ := t
  simp only [contains, put] at hk ⊢
  induction entries with
  | nil => rfl
  | cons e rest ih =>
      rw [List.any_cons, Bool.or_eq_false_iff, decide_eq_false_iff_not] at hk
      rw [putEntry, if_neg hk.1, ih hk.2, List.cons_append]

/-- Where the added keys are those that are listed and were not there, the update is as it should be, and what
is dropped and added can be read off the two tables. -/
theorem follows_revised (ht : t.keys.Nodup) (hn : (added.map (·.1)).Nodup)
    (hadded : ∀ k, k ∈ added.map (·.1) ↔ listed k = true ∧ t.contains k = false) :
    Follows (fun k => listed k = true) t (t.revised listed added) ∧
      t.without (t.revised listed added) = t.entries.filter (fun e => !listed e.1) ∧
      (t.revised listed added).without t = added := by
  have hkeys : ∀ k, (t.revised listed added).contains k = true ↔ listed k = true := by
    intro k
    rw [contains_iff_mem_keys, keys_revised, List.mem_append, List.mem_filter, hadded,
      ← contains_iff_mem_keys]
    cases t.contains k <;> simp
  have hthere : ∀ e ∈ t.entries, t.contains e.1 = true := fun e he =>
    (contains_iff_mem_keys t e.1).2 (List.mem_map.2 ⟨e, he, rfl⟩)
  have hnew : ∀ e ∈ added, t.contains e.1 = false := fun e he =>
    ((hadded e.1).1 (List.mem_map.2 ⟨e, he, rfl⟩)).2
  have hnodup : (t.revised listed added).keys.Nodup := by
    rw [keys_revised, List.nodup_append]
    refine ⟨ht.filter listed, hn, fun k hk k' hk' heq => ?_⟩
    have hold := (contains_iff_mem_keys t k).2 (List.mem_filter.1 hk).1
    rw [heq, ((hadded k').1 hk').2] at hold
    cases hold
  refine ⟨⟨ht, hnodup, hkeys, fun k hk hold => ?_⟩, ?_, ?_⟩
  · obtain ⟨a, ha⟩ := (contains_iff t k).1 hold
    rw [ha, ← mem_entries hnodup]
    exact List.mem_append_left _ (List.mem_filter.2 ⟨(mem_entries ht k a).2 ha, hk⟩)
  · refine List.filter_congr fun e _ => ?_
    rw [Bool.eq_iff_iff.2 (hkeys e.1)]
  · rw [without, revised, restrict, List.filter_append, List.filter_filter, List.filter_eq_nil_iff.2, List.nil_append,
      List.filter_eq_self]
    · intro e he
      rw [hnew e he]
      rfl
    · intro e he
      simp [hthere e he]

end Table

namespace Graph

/-! ### Calls of an update -/

namespace Slot

/-- What a list of items has for a key: the first of its items counts. -/
def itemOf (items : List Item) (key : String) : Item :=
  (items.find? (·.key = key)).getD { key := key }

/-- The calls that bring a table of a variant from one state to another. -/
def updateCalls (slot : Slot) (h : Handle) (items : List Item) (old now : Table String Handle) :
    List Workspace.Call :=
  ((old.without now).map fun e => slot.removeCall h e.2) ++
    (now.without old).map fun e => slot.addCall h e.2 (itemOf items e.1)

theorem any_plain (keys : List String) (key : String) : (plain keys).any (·.key = key) = true ↔ key ∈ keys := by
  simp [plain]

theorem any_withBytes (raws : Table String (Option Text.Bytes)) (key : String) :
    (withBytes raws).any (·.key = key) = true ↔ raws.contains key = true := by
  simp [withBytes, Table.contains]

theorem itemOf_cons_self (item : Item) (rest : List Item) : itemOf (item :: rest) item.key = item := by
  simp [itemOf]

theorem itemOf_cons_of_ne {item : Item} {key : String} (h : item.key ≠ key) (rest : List Item) :
    itemOf (item :: rest) key = itemOf rest key := by
  rw [itemOf, List.find?_cons_of_neg (by simpa using h)]
  rfl

theorem update_update (slot : Slot) (f g : Table String Handle → Table String Handle) (v : Variant) :
    slot.update g (slot.update f v) = slot.update (fun t => g (f t)) v := by
  cases slot <;> rfl

theorem update_of_same (slot : Slot) {f : Table String Handle → Table String Handle} {v : Variant}
    (hf : f (slot.table v) = slot.table v) : slot.update f v = v := by
  obtain ⟨⟩ := v
  cases slot <;> simp only [table] at hf <;> simp only [update, hf]

theorem update_congr (slot : Slot) {f g : Table String Handle → Table String Handle} {v : Variant}
    (hfg : f (slot.table v) = g (slot.table v)) : slot.update f v = slot.update g v := by
  cases slot <;> simp only [table] at hfg <;> simp only [update, hfg]

end Slot

namespace Reconciler

open Store

variable {r r' : Reconciler} {id : Nat} {h : Handle} {v : Variant}

/-! ### Entries of a table -/

theorem foldl_dropEntry_store (slot : Slot) (id : Nat) (h : Handle) (gone : List (String × Handle))
    (r : Reconciler) :
    (gone.foldl (dropEntry slot id h) r).store = r.store.modifyVariant h
      (slot.update fun t => ⟨t.entries.filter fun e => e.1 ∉ gone.map (·.1)⟩) := by
  induction gone generalizing r with
  | nil =>
      refine (modifyVariant_of_same fun {i v} _ _ => slot.update_of_same ?_).symm
      simp
  | cons e rest ih =>
      rw [List.foldl_cons, ih, dropEntry_store,
        modifyVariant_modifyVariant r.store h _ fun v => slot.update_handle _ v]
      refine modifyVariant_congr fun {i v} _ _ => (slot.update_update _ _ v).trans (slot.update_congr ?_)
      rw [Table.erase, List.filter_filter]
      congr 1
      refine List.filter_congr fun x _ => ?_
      by_cases hx : x.1 = e.1 <;> simp [hx]

theorem foldl_dropEntry_asks {slot : Slot} {gone : List (String × Handle)}
    (hsmooth : Smooth r (gone.foldl (dropEntry slot id h) r)) :
    Asks r (gone.foldl (dropEntry slot id h) r) (gone.map fun e => slot.removeCall h e.2) := by
  induction gone generalizing r with
  | nil => exact asks_of_calls rfl
  | cons e rest ih =>
      obtain ⟨hfirst, hrest⟩ := hsmooth.split (precedes_dropEntry slot id h r e)
        (precedes_foldl (fun r => r) (precedes_dropEntry slot id h) rest _)
      have hcall : Asks r (dropEntry slot id h r e) [slot.removeCall h e.2] :=
        @asks_of_carryOut r id h slot.removal _ hfirst
      exact hcall.trans (ih hrest)

/-- An item whose key is new, where the workspace takes it. -/
theorem addEntry_of_smooth (hs : r.store.Sound r.nextHandle) (hv : r.store.Has id v) {slot : Slot}
    {item : Slot.Item} (hnew : (slot.table v).contains item.key = false)
    (hsmooth : Smooth r (addEntry slot id v.handle r item)) :
    (addEntry slot id v.handle r item).store =
        r.store.modifyVariant v.handle (slot.update (·.put item.key ⟨r.nextHandle⟩)) ∧
      Asks r (addEntry slot id v.handle r item) [slot.addCall v.handle ⟨r.nextHandle⟩ item] := by
  rw [addEntry_eq hs hv, if_neg (by simp [hnew])] at hsmooth ⊢
  have hoffered : Smooth r.issued (offered slot id v.handle r item).1 := by
    split at hsmooth <;> exact hsmooth
  obtain ⟨htaken, hasked⟩ := asks_of_attempt hoffered
  have htaken' : (offered slot id v.handle r item).2 = true := htaken
  rw [if_pos htaken']
  exact ⟨congrArg (Store.modifyVariant · v.handle _) (offered_store slot id v.handle r item), hasked⟩

/-- Adding the items without an entry: one entry comes for each new key, with the first item of the key. -/
theorem foldl_addEntry_of_smooth {slot : Slot} {items : List Slot.Item} (hr : r.WellFormed)
    (hv : r.store.Has id v) (hh : v.handle = h) (hsmooth : Smooth r (items.foldl (addEntry slot id h) r)) :
    ∃ added : List (String × Handle),
      (items.foldl (addEntry slot id h) r).store =
        r.store.modifyVariant h (slot.update fun t => ⟨t.entries ++ added⟩) ∧
      Asks r (items.foldl (addEntry slot id h) r)
        (added.map fun e => slot.addCall h e.2 (Slot.itemOf items e.1)) ∧
      (added.map (·.1)).Nodup ∧ ∀ key, key ∈ added.map (·.1) ↔
        items.any (·.key = key) = true ∧ (slot.table v).contains key = false := by
  induction items generalizing r v with
  | nil =>
      refine ⟨[], (modifyVariant_of_same fun {i v} _ _ => slot.update_of_same ?_).symm,
        asks_of_calls rfl, List.nodup_nil, fun key => ?_⟩
      · simp
      · simp
  | cons item rest ih =>
      subst hh
      obtain ⟨hfirst, hrest⟩ := hsmooth.split (precedes_addEntry slot id v.handle r item)
        (precedes_foldl (fun r => r) (precedes_addEntry slot id v.handle) rest _)
      have hany : ∀ key, (item :: rest).any (·.key = key) = true ↔
          item.key = key ∨ rest.any (·.key = key) = true := by
        intro key
        rw [List.any_cons, Bool.or_eq_true, decide_eq_true_eq]
      -- the items of the other keys are the same with and without the first one
      have hsame : ∀ {l : List (String × Handle)}, (∀ e ∈ l, item.key ≠ e.1) →
          (l.map fun e => slot.addCall v.handle e.2 (Slot.itemOf rest e.1)) =
            l.map fun e => slot.addCall v.handle e.2 (Slot.itemOf (item :: rest) e.1) :=
        fun hl => List.map_congr_left fun e he => by rw [Slot.itemOf_cons_of_ne (hl e he)]
      cases hnew : (slot.table v).contains item.key with
      | true =>
          have hskip : addEntry slot id v.handle r item = r := by
            rw [addEntry_eq hr.sound hv, if_pos hnew]
          rw [List.foldl_cons, hskip]
          rw [List.foldl_cons, hskip] at hrest
          obtain ⟨added, hstore, hasked, hn, hkeys⟩ := ih hr hv rfl hrest
          have hne : ∀ e ∈ added, item.key ≠ e.1 := by
            intro e he heq
            have hkey := ((hkeys e.1).1 (List.mem_map.2 ⟨e, he, rfl⟩)).2
            rw [← heq, hnew] at hkey
            cases hkey
          refine ⟨added, hstore, hsame hne ▸ hasked, hn, fun key => ?_⟩
          rw [hkeys, hany]
          refine and_congr_left fun hkey => (or_iff_right fun heq => ?_).symm
          rw [← heq, hnew] at hkey
          cases hkey
      | false =>
          obtain ⟨hstore₁, hasked₁⟩ := addEntry_of_smooth hr.sound hv hnew hfirst
          let put : Table String Handle → Table String Handle := (·.put item.key ⟨r.nextHandle⟩)
          have hh₁ : (slot.update put v).handle = v.handle := slot.update_handle _ v
          have hv₁ : (addEntry slot id v.handle r item).store.Has id (slot.update put v) := by
            rw [hstore₁]
            exact hv.modify _
          obtain ⟨added, hstore, hasked, hn, hkeys⟩ := ih (hr.addEntry hv slot item).1 hv₁ hh₁ hrest
          rw [slot.table_update_self] at hkeys
          have hput : ∀ key, (put (slot.table v)).contains key = false ↔
              key ≠ item.key ∧ (slot.table v).contains key = false := by
            intro key
            rw [Table.contains_eq_false, Table.contains_eq_false, Table.get?_put]
            split <;> simp [*]
          have hne : ∀ e ∈ added, item.key ≠ e.1 := fun e he heq =>
            ((hput e.1).1 ((hkeys e.1).1 (List.mem_map.2 ⟨e, he, rfl⟩)).2).1 heq.symm
          refine ⟨(item.key, ⟨r.nextHandle⟩) :: added, ?_, ?_, ?_, fun key => ?_⟩
          · rw [List.foldl_cons, hstore, hstore₁,
              modifyVariant_modifyVariant r.store v.handle _ fun v => slot.update_handle _ v]
            refine modifyVariant_congr fun hw hwh => ?_
            rw [(hr.sound.handle_inj hw hv hwh).2]
            refine (slot.update_update _ _ v).trans (slot.update_congr ?_)
            rw [Table.entries_put_of_new hnew, List.append_assoc, List.singleton_append]
          · rw [List.map_cons, Slot.itemOf_cons_self, ← hsame hne]
            exact hasked₁.trans hasked
          · rw [List.map_cons, List.nodup_cons]
            refine ⟨fun hmem => ?_, hn⟩
            obtain ⟨e, he, heq⟩ := List.mem_map.1 hmem
            exact hne e he heq.symm
          · rw [List.map_cons, List.mem_cons, hkeys, hput, hany]
            by_cases heq : key = item.key
            · simp [heq, hnew]
            · simp [heq, Ne.symm heq]

/-- **A table after a message.** The table has exactly the listed keys, and the calls are those for the keys
that it has dropped and for those that are new. -/
theorem setEntries_exact (hr : r.WellFormed) (hv : r.store.Has id v) (hh : v.handle = h) {slot : Slot}
    {items : List Slot.Item} (hsmooth : Smooth r (setEntries slot id h r items)) :
    ∃ now, Table.Follows (fun key => items.any (·.key = key) = true) (slot.table v) now ∧
      (setEntries slot id h r items).store = r.store.modifyVariant h (slot.update fun _ => now) ∧
      Asks r (setEntries slot id h r items) (slot.updateCalls h items (slot.table v) now) := by
  subst hh
  have ht : (slot.table v).keys.Nodup := slot.nodup_keys_table (hr.sound.tidy hv)
  rw [setEntries_eq hr.sound hv] at hsmooth ⊢
  let listed : String → Bool := fun key => items.any (·.key = key)
  let stay := (slot.table v).restrict listed
  let r₁ := (unlisted (slot.table v) items).foldl (dropEntry slot id v.handle) r
  have hdrops : Precedes r r₁ := precedes_foldl (fun r => r) (precedes_dropEntry slot id v.handle) _ r
  obtain ⟨hdrop, hadd⟩ := hsmooth.split hdrops
    (precedes_foldl (fun r => r) (precedes_addEntry slot id v.handle) items _)
  have hr₁ : r₁.WellFormed := List.foldlRecOn _ (dropEntry slot id v.handle) (motive := WellFormed) hr
    fun _ hr e _ => (hr.dropEntry slot id v.handle e).1
  have hstore₁ : r₁.store = r.store.modifyVariant v.handle (slot.update fun _ => stay) := by
    refine (foldl_dropEntry_store slot id v.handle _ r).trans (modifyVariant_congr fun hw hwh => ?_)
    rw [(hr.sound.handle_inj hw hv hwh).2]
    exact slot.update_congr (Table.restrict_of_dropped (slot.table v) listed)
  have hv₁ : r₁.store.Has id (slot.update (fun _ => stay) v) := by
    rw [hstore₁]
    exact hv.modify _
  obtain ⟨added, hstore, hasked, hn, hkeys⟩ :=
    foldl_addEntry_of_smooth hr₁ hv₁ (slot.update_handle _ v) hadd
  have hadded : ∀ key, key ∈ added.map (·.1) ↔ listed key = true ∧ (slot.table v).contains key = false := by
    intro key
    rw [hkeys, slot.table_update_self]
    refine and_congr_right fun hlisted => ?_
    exact iff_of_eq (congrArg (· = false) (Table.contains_restrict hlisted))
  obtain ⟨hfollows, hdropped, hnew⟩ := Table.follows_revised ht hn hadded
  refine ⟨(slot.table v).revised listed added, hfollows, ?_, ?_⟩
  · rw [hstore, hstore₁, modifyVariant_modifyVariant r.store v.handle _ fun v => slot.update_handle _ v]
    exact modifyVariant_congr fun {_ w} _ _ => slot.update_update _ _ w
  · rw [Slot.updateCalls, hdropped, hnew]
    exact (foldl_dropEntry_asks hdrop).trans hasked

/-- A table that has exactly the listed keys is left alone. -/
theorem setEntries_of_listed (hs : r.store.Sound r.nextHandle) (hv : r.store.Has id v) (hh : v.handle = h)
    {slot : Slot} {items : List Slot.Item}
    (hkeys : ∀ key, (slot.table v).contains key = true ↔ items.any (·.key = key) = true) :
    setEntries slot id h r items = r := by
  subst hh
  have hnone : unlisted (slot.table v) items = [] := by
    refine List.filter_eq_nil_iff.2 fun e he => ?_
    have hthere := (Table.contains_iff_mem_keys _ e.1).2 (List.mem_map.2 ⟨e, he, rfl⟩)
    simp [(hkeys e.1).1 hthere]
  rw [setEntries_eq hs hv, hnone, List.foldl_nil]
  refine List.foldlRecOn items _ (motive := fun r' => r' = r) rfl fun r' hr' item hitem => ?_
  rw [hr', addEntry_eq hs hv, if_pos]
  rw [hkeys, List.any_eq_true]
  exact ⟨item, hitem, decide_eq_true rfl⟩

end Reconciler

end Graph

end CompilationBridge
