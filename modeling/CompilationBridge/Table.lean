/-!
Finite tables. A table lists its entries with the first entry of a key in force; putting a key that
is present changes its entry in place and putting a new key adds an entry at the end, so a table
built by `put` has each key once, in the order in which the keys first came.
-/

namespace CompilationBridge

structure Table (κ : Type) (α : Type) where
  entries : List (κ × α) := []
deriving Repr, DecidableEq

namespace Table

variable {κ α : Type} [DecidableEq κ]

def empty : Table κ α := ⟨[]⟩

instance : Inhabited (Table κ α) := ⟨empty⟩

def keys (t : Table κ α) : List κ :=
  t.entries.map (·.1)

def values (t : Table κ α) : List α :=
  t.entries.map (·.2)

def size (t : Table κ α) : Nat :=
  t.entries.length

def isEmpty (t : Table κ α) : Bool :=
  t.entries.isEmpty

def get? (t : Table κ α) (k : κ) : Option α :=
  (t.entries.find? (·.1 = k)).map (·.2)

def contains (t : Table κ α) (k : κ) : Bool :=
  t.entries.any (·.1 = k)

/-- Replaces the entry of a key, or adds one at the end. -/
def putEntry (k : κ) (v : α) : List (κ × α) → List (κ × α)
  | [] => [(k, v)]
  | e :: rest => if e.1 = k then (k, v) :: rest else e :: putEntry k v rest

def put (t : Table κ α) (k : κ) (v : α) : Table κ α :=
  ⟨putEntry k v t.entries⟩

def erase (t : Table κ α) (k : κ) : Table κ α :=
  ⟨t.entries.filter (·.1 ≠ k)⟩

/-- Changes the value of a key that is present. -/
def modify (t : Table κ α) (k : κ) (f : α → α) : Table κ α :=
  ⟨t.entries.map fun e => if e.1 = k then (e.1, f e.2) else e⟩

def map {β : Type} (t : Table κ α) (f : α → β) : Table κ β :=
  ⟨t.entries.map fun e => (e.1, f e.2)⟩

/-- Changes every value, given its key. -/
def mapWithKey {β : Type} (t : Table κ α) (f : κ → α → β) : Table κ β :=
  ⟨t.entries.map fun e => (e.1, f e.1 e.2)⟩

def ofList (entries : List (κ × α)) : Table κ α :=
  entries.foldl (fun t e => t.put e.1 e.2) empty

/-- A key that is not there has no entry. -/
theorem get?_eq_none_iff (t : Table κ α) (k : κ) : t.get? k = none ↔ k ∉ t.keys := by
  rw [get?, Option.map_eq_none_iff, List.find?_eq_none, keys, List.mem_map]
  constructor
  · rintro h ⟨e, he, hk⟩
    exact h e he (decide_eq_true hk)
  · intro h e he hk
    exact h ⟨e, he, of_decide_eq_true hk⟩

theorem mem_values_of_get? {t : Table κ α} {k : κ} {v : α} (h : t.get? k = some v) : v ∈ t.values := by
  obtain ⟨e, he, rfl⟩ := Option.map_eq_some_iff.1 h
  exact List.mem_map.2 ⟨e, List.mem_of_find?_eq_some he, rfl⟩

/-- A key that is not there gets an entry at the end. -/
theorem entries_put_of_notMem (t : Table κ α) {k : κ} (h : k ∉ t.keys) (v : α) :
    (t.put k v).entries = t.entries ++ [(k, v)] := by
  obtain ⟨entries⟩ := t
  induction entries with
  | nil => rfl
  | cons e rest ih =>
      rw [keys, List.map_cons, List.mem_cons, not_or] at h
      rw [put, putEntry, if_neg fun he => h.1 he.symm, List.cons_append]
      exact congrArg (e :: ·) (ih h.2)

theorem keys_put_of_notMem (t : Table κ α) {k : κ} (h : k ∉ t.keys) (v : α) :
    (t.put k v).keys = t.keys ++ [k] := by
  rw [keys, entries_put_of_notMem t h, List.map_append]
  rfl

theorem size_put_of_notMem (t : Table κ α) {k : κ} (h : k ∉ t.keys) (v : α) :
    (t.put k v).size = t.size + 1 := by
  rw [size, entries_put_of_notMem t h, List.length_append]
  rfl

omit [DecidableEq κ] in
@[simp] theorem keys_mapWithKey {β : Type} (t : Table κ α) (f : κ → α → β) :
    (t.mapWithKey f).keys = t.keys := by
  rw [keys, mapWithKey, List.map_map]
  rfl

omit [DecidableEq κ] in
@[simp] theorem size_mapWithKey {β : Type} (t : Table κ α) (f : κ → α → β) :
    (t.mapWithKey f).size = t.size :=
  List.length_map _

end Table

/-- The keys of a table of texts in increasing order. -/
def Table.sortedKeys {α : Type} (t : Table String α) : List String :=
  t.keys.mergeSort (· ≤ ·)

end CompilationBridge
