import CompilationBridge.Table
import Mathlib.Data.List.Nodup

/-! Tables as finite maps. Looking a key up after a change is the lookup before it, changed at the one
key; where each key has one entry, the entries, the keys and the values are what lookup gives. -/

namespace CompilationBridge.Table

variable {κ α β : Type} [DecidableEq κ]

/-! ### Lookup -/

@[simp] theorem get?_empty (k : κ) : (empty : Table κ α).get? k = none :=
  rfl

@[simp] theorem get?_put (t : Table κ α) (k : κ) (v : α) (x : κ) :
    (t.put k v).get? x = if x = k then some v else t.get? x := by
  obtain ⟨entries⟩ := t
  simp only [get?, put]
  induction entries with
  | nil =>
      by_cases hx : x = k
      · subst hx
        simp [putEntry]
      · simp [putEntry, hx, Ne.symm hx]
  | cons e rest ih =>
      rw [putEntry]
      by_cases he : e.1 = k
      · by_cases hx : x = k
        · subst hx
          simp [he]
        · have hkx : k ≠ x := fun h => hx h.symm
          simp [he, hx, hkx]
      · by_cases hex : e.1 = x
        · have hx : x ≠ k := fun h => he (hex.trans h)
          simp [hex, hx]
        · simpa [he, hex] using ih

@[simp] theorem get?_erase (t : Table κ α) (k x : κ) :
    (t.erase k).get? x = if x = k then none else t.get? x := by
  obtain ⟨entries⟩ := t
  simp only [get?, erase]
  induction entries with
  | nil => simp
  | cons e rest ih =>
      by_cases he : e.1 = k
      · by_cases hx : x = k
        · simp [hx]
        · have hkx : k ≠ x := fun h => hx h.symm
          simpa [he, hx, hkx] using ih
      · by_cases hex : e.1 = x
        · have hx : x ≠ k := fun h => he (hex.trans h)
          simp [hex, hx]
        · simpa [he, hex] using ih

@[simp] theorem get?_map (t : Table κ α) (f : α → β) (k : κ) :
    (t.map f).get? k = (t.get? k).map f := by
  obtain ⟨entries⟩ := t
  simp only [get?, map, List.find?_map, Option.map_map]
  rfl

@[simp] theorem get?_modify (t : Table κ α) (k : κ) (f : α → α) (x : κ) :
    (t.modify k f).get? x = if x = k then (t.get? x).map f else t.get? x := by
  obtain ⟨entries⟩ := t
  simp only [get?, modify]
  induction entries with
  | nil => simp
  | cons e rest ih =>
      rw [List.map_cons]
      by_cases he : e.1 = k
      · by_cases hx : x = k
        · simp [he, hx]
        · have hkx : k ≠ x := fun h => hx h.symm
          simpa [he, hx, hkx] using ih
      · by_cases hex : e.1 = x
        · have hx : x ≠ k := fun h => he (hex.trans h)
          simp [hex, hx]
        · simpa [he, hex] using ih

@[simp] theorem get?_mapWithKey (t : Table κ α) (f : κ → α → β) (k : κ) :
    (t.mapWithKey f).get? k = (t.get? k).map (f k) := by
  obtain ⟨entries⟩ := t
  simp only [get?, mapWithKey]
  induction entries with
  | nil => rfl
  | cons e rest ih =>
      rw [List.map_cons]
      by_cases he : e.1 = k
      · simp [he]
      · rw [List.find?_cons_of_neg (by simpa using he), List.find?_cons_of_neg (by simpa using he), ih]

theorem erase_put_self (t : Table κ α) (k : κ) (v : α) : (t.put k v).erase k = t.erase k := by
  obtain ⟨entries⟩ := t
  simp only [erase, put, mk.injEq]
  induction entries with
  | nil => simp [putEntry]
  | cons e rest ih =>
      rw [putEntry]
      by_cases he : e.1 = k
      · simp [he]
      · simpa [he] using ih

theorem erase_erase_self (t : Table κ α) (k : κ) : (t.erase k).erase k = t.erase k := by
  simp only [erase, List.filter_filter, Bool.and_self]

theorem contains_iff (t : Table κ α) (k : κ) : t.contains k = true ↔ ∃ v, t.get? k = some v := by
  obtain ⟨entries⟩ := t
  simp only [contains, get?, Option.map_eq_some_iff]
  rw [List.any_eq_true]
  constructor
  · intro h
    obtain ⟨e, he⟩ := Option.isSome_iff_exists.1 (List.find?_isSome.2 h)
    exact ⟨e.2, e, he, rfl⟩
  · rintro ⟨v, e, he, -⟩
    have hk := List.find?_some he
    exact ⟨e, List.mem_of_find?_eq_some he, hk⟩

theorem contains_eq_isSome (t : Table κ α) (k : κ) : t.contains k = (t.get? k).isSome := by
  rw [Bool.eq_iff_iff, contains_iff, Option.isSome_iff_exists]

theorem contains_eq_false (t : Table κ α) (k : κ) : t.contains k = false ↔ t.get? k = none := by
  rw [contains_eq_isSome, Option.isSome_eq_false_iff, Option.isNone_iff_eq_none]

theorem mem_keys (t : Table κ α) (k : κ) : k ∈ t.keys ↔ ∃ v, t.get? k = some v := by
  rw [← contains_iff]
  simp only [keys, contains, List.mem_map, List.any_eq_true, decide_eq_true_eq]

theorem isEmpty_iff (t : Table κ α) : t.isEmpty = true ↔ ∀ k, t.get? k = none := by
  obtain ⟨entries⟩ := t
  cases entries with
  | nil => simp [isEmpty, get?]
  | cons e rest =>
      simp only [isEmpty, List.isEmpty_cons, Bool.false_eq_true, false_iff]
      intro h
      have := h e.1
      simp [get?] at this

theorem eq_empty {t : Table κ α} (h : ∀ k, t.get? k = none) : t = empty := by
  obtain ⟨entries⟩ := t
  exact congrArg mk (List.isEmpty_iff.1 ((isEmpty_iff ⟨entries⟩).2 h))

/-! ### One entry for each key -/

theorem keys_put_nodup {t : Table κ α} (h : t.keys.Nodup) (k : κ) (v : α) : (t.put k v).keys.Nodup := by
  obtain ⟨entries⟩ := t
  simp only [keys, put] at h ⊢
  have hkeys : ∀ (l : List (κ × α)) (x : κ), x ∈ (putEntry k v l).map (·.1) → x = k ∨ x ∈ l.map (·.1) := by
    intro l x hx
    have hx' : x ∈ (Table.put ⟨l⟩ k v).keys := hx
    rw [mem_keys] at hx'
    obtain ⟨y, hy⟩ := hx'
    rw [get?_put] at hy
    split at hy
    · exact Or.inl ‹_›
    · exact Or.inr ((mem_keys ⟨l⟩ x).2 ⟨y, hy⟩)
  induction entries with
  | nil => simp [putEntry]
  | cons e rest ih =>
      rw [putEntry]
      rw [List.map_cons, List.nodup_cons] at h
      split
      · rename_i he
        rw [List.map_cons, List.nodup_cons]
        exact ⟨he ▸ h.1, h.2⟩
      · rename_i he
        rw [List.map_cons, List.nodup_cons]
        refine ⟨fun hmem => ?_, ih h.2⟩
        rcases hkeys rest e.1 hmem with hk | hk
        · exact he hk
        · exact h.1 hk

theorem keys_erase_nodup {t : Table κ α} (h : t.keys.Nodup) (k : κ) : (t.erase k).keys.Nodup :=
  List.Nodup.sublist (List.filter_sublist.map _) h

theorem mem_entries {t : Table κ α} (h : t.keys.Nodup) (k : κ) (v : α) :
    (k, v) ∈ t.entries ↔ t.get? k = some v := by
  obtain ⟨entries⟩ := t
  simp only [keys, get?] at h ⊢
  induction entries with
  | nil => simp
  | cons e rest ih =>
      rw [List.map_cons, List.nodup_cons] at h
      rw [List.mem_cons]
      by_cases he : e.1 = k
      · subst he
        have hrest : (e.1, v) ∉ rest := fun hm => h.1 (List.mem_map.2 ⟨_, hm, rfl⟩)
        simp [hrest, Prod.ext_iff, eq_comm]
      · have hne : (k, v) ≠ e := fun hk => he (hk ▸ rfl)
        simpa [he, hne] using ih h.2

theorem mem_values {t : Table κ α} (h : t.keys.Nodup) (v : α) :
    v ∈ t.values ↔ ∃ k, t.get? k = some v := by
  simp only [values, List.mem_map, Prod.exists, exists_eq_right]
  exact exists_congr fun k => mem_entries h k v

/-! ### Size -/

theorem size_erase_of_get? {t : Table κ α} (ht : t.keys.Nodup) {k : κ} {v : α} (h : t.get? k = some v) :
    (t.erase k).size + 1 = t.size := by
  obtain ⟨entries⟩ := t
  simp only [keys, get?, size, erase] at ht h ⊢
  induction entries with
  | nil => cases h
  | cons e rest ih =>
      rw [List.map_cons, List.nodup_cons] at ht
      by_cases he : e.1 = k
      · have hrest : rest.filter (·.1 ≠ k) = rest := by
          refine List.filter_eq_self.2 fun x hx => ?_
          have hne : x.1 ≠ k := fun hk => ht.1 (he ▸ hk ▸ List.mem_map.2 ⟨x, hx, rfl⟩)
          simpa using hne
        rw [List.filter_cons_of_neg (by simp [he]), hrest, List.length_cons]
      · rw [List.find?_cons_of_neg (by simp [he])] at h
        rw [List.filter_cons_of_pos (by simp [he]), List.length_cons, ih ht.2 h, List.length_cons]

theorem keys_modify (t : Table κ α) (k : κ) (f : α → α) : (t.modify k f).keys = t.keys := by
  simp only [keys, modify, List.map_map]
  refine List.map_congr_left fun e _ => ?_
  rw [Function.comp_apply]
  split <;> rfl

omit [DecidableEq κ] in
theorem keys_map (t : Table κ α) (f : α → β) : (t.map f).keys = t.keys := by
  simp only [keys, map, List.map_map]
  rfl

theorem size_modify (t : Table κ α) (k : κ) (f : α → α) : (t.modify k f).size = t.size :=
  List.length_map _

/-! ### Keys that count up -/

/-- Where the keys count up, the value of a key stands at its place. -/
theorem get?_of_keys_eq_range' {t : Table Nat α} {start : Nat} (h : t.keys = List.range' start t.size)
    (n : Nat) : t.get? (start + n) = t.values[n]? := by
  obtain ⟨entries⟩ := t
  simp only [keys, size, get?, values] at h ⊢
  induction entries generalizing start n with
  | nil => rfl
  | cons e rest ih =>
      rw [List.map_cons, List.length_cons, List.range'_succ, List.cons.injEq] at h
      obtain ⟨hkey, hrest⟩ := h
      cases n with
      | zero => simp [hkey]
      | succ n =>
          have hne : e.1 ≠ start + (n + 1) := by omega
          rw [List.find?_cons_of_neg (by simpa using hne), List.map_cons, List.getElem?_cons_succ, ← ih n hrest,
            show start + (n + 1) = start + 1 + n by omega]

/-! ### Tables from lists -/

theorem get?_foldl_put (l : List (κ × α)) (t : Table κ α) (k : κ) :
    (l.foldl (fun t e => t.put e.1 e.2) t).get? k =
      ((l.reverse.find? (·.1 = k)).map (·.2)).or (t.get? k) := by
  induction l generalizing t with
  | nil => simp
  | cons e rest ih =>
      rw [List.foldl_cons, ih, List.reverse_cons, List.find?_append, get?_put]
      cases hf : rest.reverse.find? (·.1 = k) with
      | some x => simp
      | none =>
          by_cases he : k = e.1
          · simp [he]
          · have hne : e.1 ≠ k := fun h => he h.symm
            simp [he, hne]

/-- Of several entries of a key the last counts. -/
theorem get?_ofList (l : List (κ × α)) (k : κ) :
    (ofList l).get? k = (l.reverse.find? (·.1 = k)).map (·.2) := by
  rw [ofList, get?_foldl_put, get?_empty, Option.or_none]

theorem keys_ofList_nodup (l : List (κ × α)) : (ofList l).keys.Nodup := by
  have h : ∀ t : Table κ α, t.keys.Nodup → (l.foldl (fun t e => t.put e.1 e.2) t).keys.Nodup := by
    induction l with
    | nil => exact fun t ht => ht
    | cons e rest ih => exact fun t ht => ih _ (keys_put_nodup ht e.1 e.2)
  exact h empty List.nodup_nil

end CompilationBridge.Table
