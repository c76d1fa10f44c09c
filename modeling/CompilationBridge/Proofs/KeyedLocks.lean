import CompilationBridge.KeyedLocks
import CompilationBridge.Proofs.Tables

/-! Keyed locks exclude. The callers of keyed locks each stand at one of four stages, and `Ledger` relates
them to the locks: a caller that is counted for a lock finds it under its key, a lock counts exactly its
callers, and at most one of them holds it, none if it is free. Each step of a caller keeps the ledger, so
no two callers ever hold locks of the same key, although locks are forgotten and made anew. -/

namespace CompilationBridge

theorem countP_set_add {α : Type} (p : α → Bool) {l : List α} {i : Nat} {x : α} (hx : l[i]? = some x)
    (a : α) : (l.set i a).countP p + (if p x = true then 1 else 0) =
      l.countP p + (if p a = true then 1 else 0) := by
  obtain ⟨hi, rfl⟩ := List.getElem?_eq_some_iff.1 hx
  rw [List.countP_set hi]
  by_cases hp : p l[i] = true
  · have : 0 < l.countP p := List.countP_pos_iff.2 ⟨_, List.getElem_mem hi, hp⟩
    simp only [hp, if_true]
    omega
  · simp [hp]

/-- What counts at most one place of a list is at one place. -/
theorem index_unique_of_countP_le_one {α : Type} {p : α → Bool} {l : List α} {i j : Nat} {x y : α}
    (h : l.countP p ≤ 1) (hi : l[i]? = some x) (hx : p x = true) (hj : l[j]? = some y) (hy : p y = true) :
    i = j := by
  induction l generalizing i j with
  | nil => cases hi
  | cons a rest ih =>
      have hpos {k : Nat} {z : α} (hz : rest[k]? = some z) (hp : p z = true) : 0 < rest.countP p :=
        List.countP_pos_iff.2 ⟨z, List.mem_of_getElem? hz, hp⟩
      rw [List.countP_cons] at h
      cases i with
      | zero =>
          obtain rfl := Option.some_inj.1 hi
          rw [if_pos hx] at h
          cases j with
          | zero => rfl
          | succ j =>
              have := hpos hj hy
              omega
      | succ i =>
          have := hpos hi hx
          cases j with
          | zero =>
              obtain rfl := Option.some_inj.1 hj
              rw [if_pos hy] at h
              omega
          | succ j => exact congrArg (· + 1) (ih (by omega) hi hj)

namespace KeyedLocks

/-- Where a caller stands: it is not counted for a lock, waits for it, holds it, or has given it back. -/
inductive Stage where
  | away
  | waiting (cell : Nat)
  | holding (cell : Nat)
  | leaving (cell : Nat)
deriving DecidableEq

/-- The lock that a caller is counted for. -/
def Stage.cell? : Stage → Option Nat
  | .away => none
  | .waiting cell | .holding cell | .leaving cell => some cell

structure Caller where
  key : String
  stage : Stage

variable {l l' : KeyedLocks} {key : String} {cell c : Nat}

/-! ### The locks after a step -/

theorem callers_modify {f : Cell → Cell} {n : Nat → Nat} (hl' : l'.cells = l.cells.modify cell f)
    (hf : ∀ x, (f x).callers = n x.callers) (hcell : cell < l.cells.length ∨ n 0 = 0) (c : Nat) :
    l'.callers c = if c = cell then n (l.callers c) else l.callers c := by
  simp only [callers, hl', List.getElem?_modify]
  by_cases h : c = cell
  · subst h
    cases hx : l.cells[c]? with
    | none => simpa using (hcell.resolve_left (Nat.not_lt.2 (List.getElem?_eq_none_iff.1 hx))).symm
    | some x => simp [hf]
  · simp [h, Ne.symm h]

theorem isFree_modify {f : Cell → Cell} (hl' : l'.cells = l.cells.modify cell f)
    (hf : ∀ x, (f x).isHeld = x.isHeld) (c : Nat) : l'.isFree c = l.isFree c := by
  simp only [isFree, hl', List.getElem?_modify]
  by_cases h : cell = c
  · simp [h, Function.comp_def, hf]
  · simp [h]

@[simp] theorem callers_lock (l : KeyedLocks) (cell c : Nat) : (l.lock cell).callers c = l.callers c := by
  rw [callers_modify (l := l) (n := id) rfl (by intro; rfl) (Or.inr rfl)]
  simp

@[simp] theorem callers_unlock (l : KeyedLocks) (cell c : Nat) :
    (l.unlock cell).callers c = l.callers c := by
  rw [callers_modify (l := l) (n := id) rfl (by intro; rfl) (Or.inr rfl)]
  simp

theorem isFree_lock (h : (l.lock cell).isFree c = true) : c ≠ cell ∧ l.isFree c = true := by
  simp only [isFree, lock, List.getElem?_modify] at h ⊢
  by_cases hc : cell = c
  · cases hx : l.cells[c]? <;> simp [hc, hx] at h
  · exact ⟨Ne.symm hc, by simpa [hc] using h⟩

theorem isFree_unlock (h : (l.unlock cell).isFree c = true) : c = cell ∨ l.isFree c = true := by
  by_cases hc : cell = c
  · exact Or.inl hc.symm
  · right
    simpa [isFree, unlock, List.getElem?_modify, hc] using h

/-! ### The parts of a step -/

/-- The lock of a key, made if there is none, with nobody counted for a new one. -/
def find (l : KeyedLocks) (key : String) : KeyedLocks × Nat :=
  match l.index.get? key with
  | some cell => (l, cell)
  | none => ({ cells := l.cells ++ [{}], index := l.index.put key l.cells.length }, l.cells.length)

def count (l : KeyedLocks) (cell : Nat) : KeyedLocks :=
  { l with cells := l.cells.modify cell fun c => { c with callers := c.callers + 1 } }

def discount (l : KeyedLocks) (cell : Nat) : KeyedLocks :=
  { l with cells := l.cells.modify cell fun c => { c with callers := c.callers - 1 } }

/-- Forgets the lock of a key if nobody is counted for it. -/
def forget (l : KeyedLocks) (key : String) (cell : Nat) : KeyedLocks :=
  if l.callers cell = 0 then { l with index := l.index.erase key } else l

/-- To register is to find the lock and to be counted for it. -/
theorem register_eq (l : KeyedLocks) (key : String) :
    l.register key = ((l.find key).1.count (l.find key).2, (l.find key).2) := by
  unfold register find count
  cases l.index.get? key with
  | some cell => rfl
  | none =>
      simp only [Prod.mk.injEq, mk.injEq, and_true]
      rw [List.modify_eq_set]
      simp

/-- To unregister is to be discounted and to forget a lock that nobody is counted for. -/
theorem unregister_eq (l : KeyedLocks) (key : String) (cell : Nat) :
    l.unregister key cell = (l.discount cell).forget key cell := by
  rfl

theorem find_of_some (h : l.index.get? key = some cell) : l.find key = (l, cell) := by
  simp [find, h]

@[simp] theorem get?_find (l : KeyedLocks) (key k : String) :
    (l.find key).1.index.get? k = if k = key then some (l.find key).2 else l.index.get? k := by
  unfold find
  split
  · rename_i cell hcell
    split
    · rename_i hk
      rw [hk, hcell]
    · rfl
  · simp

@[simp] theorem callers_find (l : KeyedLocks) (key : String) (c : Nat) :
    (l.find key).1.callers c = l.callers c := by
  unfold find
  split
  · rfl
  · simp only [callers, List.getElem?_append]
    rcases Nat.lt_trichotomy c l.cells.length with hc | hc | hc
    · simp [hc]
    · simp [hc]
    · have hne : c - l.cells.length ≠ 0 := by omega
      simp [Nat.not_lt.2 (Nat.le_of_lt hc), hne]

/-- A lock that was just made is free, and nobody is counted for it. -/
theorem isFree_of_find (h : (l.find key).1.isFree c = true) : l.isFree c = true ∨ l.callers c = 0 := by
  unfold find at h
  split at h
  · exact Or.inl h
  · by_cases hc : c < l.cells.length
    · left
      simpa [isFree, List.getElem?_append, hc] using h
    · right
      simp [callers, List.getElem?_eq_none (Nat.le_of_not_lt hc)]

theorem bound_find (hbound : ∀ k c, l.index.get? k = some c → c < l.cells.length) (k : String) (c : Nat)
    (hc : (l.find key).1.index.get? k = some c) : c < (l.find key).1.cells.length := by
  unfold find at hc ⊢
  split at hc
  · exact hbound k c hc
  · rw [Table.get?_put] at hc
    split at hc
    · obtain rfl := Option.some_inj.1 hc
      simp
    · exact Nat.lt_of_lt_of_le (hbound k c hc) (by simp)

theorem find_snd_lt (hbound : ∀ c, l.index.get? key = some c → c < l.cells.length) :
    (l.find key).2 < (l.find key).1.cells.length := by
  unfold find
  split
  · exact hbound _ ‹_›
  · simp

/-- A key that gets a lock gets one that no other key has. -/
theorem find_snd_ne (hbound : ∀ k c, l.index.get? k = some c → c < l.cells.length)
    (hkey : ∀ k k' c, l.index.get? k = some c → l.index.get? k' = some c → k = k') {k : String}
    (hk : k ≠ key) : l.index.get? k ≠ some (l.find key).2 := by
  intro hget
  cases hold : l.index.get? key with
  | some c =>
      rw [find_of_some hold] at hget
      exact hk (hkey k key c hget hold)
  | none =>
      have hlt := hbound k _ hget
      simp [find, hold] at hlt

theorem key_find (hbound : ∀ k c, l.index.get? k = some c → c < l.cells.length)
    (hkey : ∀ k k' c, l.index.get? k = some c → l.index.get? k' = some c → k = k') (k k' : String) (c : Nat)
    (hk : (l.find key).1.index.get? k = some c) (hk' : (l.find key).1.index.get? k' = some c) : k = k' := by
  rw [get?_find] at hk hk'
  split at hk <;> split at hk'
  · rename_i hkey hkey'
    exact hkey.trans hkey'.symm
  · obtain rfl := Option.some_inj.1 hk
    exact absurd hk' (find_snd_ne hbound hkey ‹_›)
  · obtain rfl := Option.some_inj.1 hk'
    exact absurd hk (find_snd_ne hbound hkey ‹_›)
  · exact hkey k k' c hk hk'

theorem callers_count (hcell : cell < l.cells.length) (c : Nat) :
    (l.count cell).callers c = l.callers c + if c = cell then 1 else 0 := by
  rw [callers_modify (l := l) (n := (· + 1)) rfl (fun _ => rfl) (Or.inl hcell)]
  split <;> rfl

@[simp] theorem isFree_count (l : KeyedLocks) (cell c : Nat) : (l.count cell).isFree c = l.isFree c :=
  isFree_modify (l := l) rfl (by intro; rfl) c

theorem callers_discount (l : KeyedLocks) (cell c : Nat) :
    (l.discount cell).callers c = l.callers c - if c = cell then 1 else 0 := by
  rw [callers_modify (l := l) (n := (· - 1)) rfl (fun _ => rfl) (Or.inr rfl)]
  split <;> rfl

@[simp] theorem isFree_discount (l : KeyedLocks) (cell c : Nat) : (l.discount cell).isFree c = l.isFree c :=
  isFree_modify (l := l) rfl (by intro; rfl) c

theorem cells_forget (l : KeyedLocks) (key : String) (cell : Nat) : (l.forget key cell).cells = l.cells := by
  unfold forget
  split <;> rfl

@[simp] theorem callers_forget (l : KeyedLocks) (key : String) (cell c : Nat) :
    (l.forget key cell).callers c = l.callers c := by
  simp only [callers, cells_forget]

@[simp] theorem isFree_forget (l : KeyedLocks) (key : String) (cell c : Nat) :
    (l.forget key cell).isFree c = l.isFree c := by
  simp only [isFree, cells_forget]

@[simp] theorem get?_forget (l : KeyedLocks) (key : String) (cell : Nat) (k : String) :
    (l.forget key cell).index.get? k =
      if l.callers cell = 0 ∧ k = key then none else l.index.get? k := by
  unfold forget
  split
  · rename_i h
    simp [h]
  · rename_i h
    simp [h]

/-- A lock found under its key, or made for it. -/
theorem register_snd (h : l.index.get? key = some cell) : (l.register key).2 = cell := by
  rw [register_eq, find_of_some h]

@[simp] theorem get?_register (l : KeyedLocks) (key k : String) :
    (l.register key).1.index.get? k = if k = key then some (l.register key).2 else l.index.get? k := by
  rw [register_eq]
  exact get?_find l key k

theorem callers_register (hbound : ∀ c, l.index.get? key = some c → c < l.cells.length) (c : Nat) :
    (l.register key).1.callers c = l.callers c + if c = (l.register key).2 then 1 else 0 := by
  rw [register_eq]
  exact (callers_count (find_snd_lt hbound) c).trans (congrArg (· + _) (callers_find l key c))

theorem bound_register (hbound : ∀ k c, l.index.get? k = some c → c < l.cells.length) (k : String) (c : Nat)
    (hc : (l.register key).1.index.get? k = some c) : c < (l.register key).1.cells.length := by
  rw [register_eq] at hc ⊢
  simpa [count] using bound_find hbound k c hc

/-- A lock that was just made is free, and nobody was counted for it. -/
theorem isFree_register (hfree : (l.register key).1.isFree c = true) :
    l.isFree c = true ∨ l.callers c = 0 := by
  rw [register_eq, isFree_count] at hfree
  exact isFree_of_find hfree

theorem length_unregister (l : KeyedLocks) (key : String) (cell : Nat) :
    (l.unregister key cell).cells.length = l.cells.length := by
  rw [unregister_eq, cells_forget, discount, List.length_modify]

@[simp] theorem callers_unregister (l : KeyedLocks) (key : String) (cell c : Nat) :
    (l.unregister key cell).callers c = l.callers c - if c = cell then 1 else 0 := by
  rw [unregister_eq, callers_forget, callers_discount]

@[simp] theorem isFree_unregister (l : KeyedLocks) (key : String) (cell c : Nat) :
    (l.unregister key cell).isFree c = l.isFree c := by
  rw [unregister_eq, isFree_forget, isFree_discount]

/-- A key keeps its lock unless the last caller of it leaves. -/
theorem get?_unregister (l : KeyedLocks) (key : String) (cell : Nat) (k : String) :
    (l.unregister key cell).index.get? k =
      if l.callers cell - 1 = 0 ∧ k = key then none else l.index.get? k := by
  rw [unregister_eq, get?_forget, callers_discount, if_pos rfl]
  rfl

/-! ### The ledger -/

/-- How the callers stand to the locks. -/
structure Ledger (l : KeyedLocks) (callers : List Caller) : Prop where
  place : ∀ x ∈ callers, ∀ c, x.stage.cell? = some c → l.index.get? x.key = some c
  bound : ∀ key c, l.index.get? key = some c → c < l.cells.length
  count : ∀ c, l.callers c = callers.countP fun x => x.stage.cell? = some c
  sole : ∀ c, (callers.countP fun x => x.stage = .holding c) ≤ 1
  free : ∀ c, l.isFree c = true → (callers.countP fun x => x.stage = .holding c) = 0

variable {callers : List Caller} {i j : Nat}

theorem Ledger.empty : Ledger {} [] where
  place := by simp
  bound := by simp
  count := by simp [KeyedLocks.callers]
  sole := by simp
  free := by simp

/-- A caller comes in. -/
theorem Ledger.append (h : Ledger l callers) (key : String) : Ledger l (callers ++ [⟨key, .away⟩]) where
  place := by
    intro x hx c hc
    rcases List.mem_append.1 hx with hx | hx
    · exact h.place x hx c hc
    · rw [List.mem_singleton.1 hx] at hc
      cases hc
  bound := h.bound
  count := by simp [h.count, Stage.cell?]
  sole := by simpa using h.sole
  free := by simpa using h.free

/-- Nobody holds a lock that nobody is counted for. -/
theorem Ledger.countP_holding (h : Ledger l callers) (hc : l.callers c = 0) :
    (callers.countP fun x => x.stage = .holding c) = 0 := by
  have hle : (callers.countP fun x => x.stage = .holding c) ≤ callers.countP fun x => x.stage.cell? = some c := by
    refine List.countP_mono_left fun x _ hx => ?_
    simp only [decide_eq_true_eq] at hx ⊢
    rw [hx]
    rfl
  rw [← h.count, hc] at hle
  omega

/-- One caller changes its stage, and the locks change with it. -/
theorem Ledger.step {stage stage' : Stage} (h : Ledger l callers)
    (hi : callers[i]? = some ⟨key, stage⟩)
    (hnew : ∀ c, stage'.cell? = some c → l'.index.get? key = some c)
    (hold : ∀ x ∈ callers.set i ⟨key, stage'⟩, ∀ c, x.stage.cell? = some c →
      l.index.get? x.key = some c → l'.index.get? x.key = some c)
    (hbound : ∀ k c, l'.index.get? k = some c → c < l'.cells.length)
    (hcount : ∀ c, l'.callers c + (if stage.cell? = some c then 1 else 0) =
      l.callers c + if stage'.cell? = some c then 1 else 0)
    (htake : ∀ c, stage' = .holding c → l.isFree c = true)
    (hfree : ∀ c, l'.isFree c = true →
      stage' ≠ .holding c ∧ (stage = .holding c ∨ l.isFree c = true ∨ l.callers c = 0)) :
    Ledger l' (callers.set i ⟨key, stage'⟩) := by
  have hholding (c : Nat) := countP_set_add (fun x => x.stage = .holding c) hi ⟨key, stage'⟩
  simp only [decide_eq_true_eq] at hholding
  refine ⟨?_, hbound, ?_, ?_, ?_⟩
  · intro x hx c hc
    rcases List.mem_or_eq_of_mem_set hx with hx' | rfl
    · exact hold x hx c hc (h.place x hx' c hc)
    · exact hnew c hc
  · intro c
    have hset := countP_set_add (fun x => x.stage.cell? = some c) hi ⟨key, stage'⟩
    have := hcount c
    rw [h.count c] at this
    simp only [decide_eq_true_eq] at hset
    omega
  · intro c
    have hset := hholding c
    have hsole := h.sole c
    by_cases hc : stage' = .holding c
    · rw [if_pos hc, h.free c (htake c hc)] at hset
      omega
    · rw [if_neg hc] at hset
      omega
  · intro c hc
    obtain ⟨hne, hc⟩ := hfree c hc
    have hset := hholding c
    rw [if_neg hne] at hset
    rcases hc with hc | hc | hc
    · have hsole := h.sole c
      rw [if_pos hc] at hset
      omega
    · have hnone := h.free c hc
      omega
    · have hnone := h.countP_holding hc
      omega

theorem Ledger.register (h : Ledger l callers) (hi : callers[i]? = some ⟨key, .away⟩) :
    Ledger (l.register key).1 (callers.set i ⟨key, .waiting (l.register key).2⟩) := by
  refine h.step hi ?_ ?_ (bound_register h.bound) ?_ (by simp) ?_
  · intro c hc
    simpa [Stage.cell?] using hc
  · intro x _ c _ hx
    rw [get?_register]
    split
    · rename_i hk
      rw [hk] at hx
      rw [register_snd hx]
    · exact hx
  · intro c
    rw [callers_register (h.bound key)]
    simp [Stage.cell?, eq_comm]
  · exact fun c hc => ⟨by simp, Or.inr (isFree_register hc)⟩

theorem Ledger.lock (h : Ledger l callers) (hi : callers[i]? = some ⟨key, .waiting cell⟩)
    (hfree : l.isFree cell = true) : Ledger (l.lock cell) (callers.set i ⟨key, .holding cell⟩) := by
  have hplace : l.index.get? key = some cell := h.place _ (List.mem_of_getElem? hi) cell rfl
  refine h.step hi ?_ (fun _ _ _ _ hx => hx) ?_ ?_ ?_ ?_
  · intro c hc
    exact hplace.trans hc
  · intro k c hc
    simpa [KeyedLocks.lock] using h.bound k c hc
  · simp [Stage.cell?]
  · rintro c ⟨⟩
    exact hfree
  · intro c hc
    obtain ⟨hne, hc⟩ := isFree_lock hc
    exact ⟨by simpa using Ne.symm hne, Or.inr (Or.inl hc)⟩

theorem Ledger.unlock (h : Ledger l callers) (hi : callers[i]? = some ⟨key, .holding cell⟩) :
    Ledger (l.unlock cell) (callers.set i ⟨key, .leaving cell⟩) := by
  have hplace : l.index.get? key = some cell := h.place _ (List.mem_of_getElem? hi) cell rfl
  refine h.step hi ?_ (fun _ _ _ _ hx => hx) ?_ ?_ (by simp) ?_
  · intro c hc
    exact hplace.trans hc
  · intro k c hc
    simpa [KeyedLocks.unlock] using h.bound k c hc
  · simp [Stage.cell?]
  · intro c hc
    refine ⟨by simp, (isFree_unlock hc).imp ?_ Or.inl⟩
    rintro rfl
    rfl

/-- The last caller of a lock takes it out of the index, and no other caller had it there. -/
theorem Ledger.unregister (h : Ledger l callers) (hi : callers[i]? = some ⟨key, .leaving cell⟩) :
    Ledger (l.unregister key cell) (callers.set i ⟨key, .away⟩) := by
  have hplace : l.index.get? key = some cell := h.place _ (List.mem_of_getElem? hi) cell rfl
  have hpos : 0 < l.callers cell := by
    rw [h.count]
    exact List.countP_pos_iff.2 ⟨_, List.mem_of_getElem? hi, by simp [Stage.cell?]⟩
  refine h.step hi (by simp [Stage.cell?]) ?_ ?_ ?_ (by simp) ?_
  · intro x hx c hc hget
    rw [get?_unregister, if_neg, hget]
    rintro ⟨hlast, hk⟩
    rw [hk, hplace, Option.some_inj] at hget
    subst hget
    have hset : ((callers.set i ⟨key, .away⟩).countP fun x => x.stage.cell? = some cell) + 1 =
        l.callers cell := by
      have hset := countP_set_add (fun x => x.stage.cell? = some cell) hi ⟨key, .away⟩
      rwa [← h.count, if_pos (by simp [Stage.cell?]), if_neg (by simp [Stage.cell?])] at hset
    have hmem : 0 < (callers.set i ⟨key, .away⟩).countP fun x => x.stage.cell? = some cell :=
      List.countP_pos_iff.2 ⟨x, hx, by simpa using hc⟩
    omega
  · intro k c hc
    rw [get?_unregister] at hc
    split at hc
    · cases hc
    · rw [length_unregister]
      exact h.bound k c hc
  · intro c
    rw [callers_unregister]
    by_cases hc : c = cell
    · simp only [hc, Stage.cell?, if_true, reduceCtorEq, if_false]
      omega
    · simp [hc, Stage.cell?, Ne.symm hc]
  · intro c hc
    rw [isFree_unregister] at hc
    exact ⟨by simp, Or.inr (Or.inl hc)⟩

/-- Of the callers with one key at most one holds a lock. -/
theorem Ledger.exclusive {c c' : Nat} (h : Ledger l callers) (hi : callers[i]? = some ⟨key, .holding c⟩)
    (hj : callers[j]? = some ⟨key, .holding c'⟩) : i = j := by
  have hc : some c = some c' := (h.place _ (List.mem_of_getElem? hi) c rfl).symm.trans
    (h.place _ (List.mem_of_getElem? hj) c' rfl)
  obtain rfl := Option.some_inj.1 hc
  exact index_unique_of_countP_le_one (h.sole c) hi (decide_eq_true rfl) hj (decide_eq_true rfl)

/-! ### Locks in use -/

/-- Each lock in the index is that of one key and has a caller, and a lock that is not free has a
holder. -/
structure InUse (l : KeyedLocks) (callers : List Caller) : Prop where
  key : ∀ k k' c, l.index.get? k = some c → l.index.get? k' = some c → k = k'
  caller : ∀ k c, l.index.get? k = some c → 0 < l.callers c
  holder : ∀ c, c < l.cells.length → l.isFree c = false → ∃ x ∈ callers, x.stage = .holding c

theorem isFree_of_register (hc : c < (l.register key).1.cells.length)
    (h : (l.register key).1.isFree c = false) : c < l.cells.length ∧ l.isFree c = false := by
  unfold register at hc h
  split at h
  · rw [isFree_modify (l := l) rfl (by intro; rfl)] at h
    simp_all
  · rename_i hnone
    simp only [hnone, List.length_append, List.length_singleton] at hc
    rcases Nat.lt_or_ge c l.cells.length with hlt | hge
    · exact ⟨hlt, by simpa [isFree, List.getElem?_append, hlt] using h⟩
    · obtain rfl : c = l.cells.length := by omega
      simp [isFree] at h

theorem isFree_of_unlock (hc : c < l.cells.length) (h : (l.unlock cell).isFree c = false) :
    c ≠ cell ∧ l.isFree c = false := by
  simp only [isFree, unlock, List.getElem?_modify] at h ⊢
  by_cases heq : cell = c
  · subst heq
    simp [List.getElem?_eq_getElem hc] at h
  · exact ⟨Ne.symm heq, by simpa [heq] using h⟩

theorem isFree_of_lock (h : (l.lock cell).isFree c = false) : c = cell ∨ l.isFree c = false := by
  by_cases heq : cell = c
  · exact Or.inl heq.symm
  · right
    simpa [isFree, lock, List.getElem?_modify, heq] using h

theorem InUse.empty : InUse {} [] where
  key := by simp
  caller := by simp
  holder := by simp

theorem InUse.append (h : InUse l callers) (x : Caller) : InUse l (callers ++ [x]) where
  key := h.key
  caller := h.caller
  holder c hc hheld := (h.holder c hc hheld).imp fun _ hy => ⟨List.mem_append_left _ hy.1, hy.2⟩

/-- A caller that does not hold the lock leaves its holder alone. -/
theorem exists_holder_set {stage stage' : Stage} (hi : callers[i]? = some ⟨key, stage⟩)
    (hne : stage ≠ .holding c) (h : ∃ x ∈ callers, x.stage = .holding c) :
    ∃ x ∈ callers.set i ⟨key, stage'⟩, x.stage = .holding c := by
  obtain ⟨x, hx, hxc⟩ := h
  obtain ⟨j, hj⟩ := List.getElem?_of_mem hx
  have hij : i ≠ j := by
    rintro rfl
    obtain rfl := Option.some_inj.1 (hi.symm.trans hj)
    exact hne hxc
  exact ⟨x, List.mem_of_getElem? (i := j) ((List.getElem?_set_ne hij).trans hj), hxc⟩

theorem InUse.register (h : InUse l callers) (hl : Ledger l callers)
    (hi : callers[i]? = some ⟨key, .away⟩) :
    InUse (l.register key).1 (callers.set i ⟨key, .waiting (l.register key).2⟩) where
  key := by
    rw [register_eq]
    exact key_find hl.bound h.key
  caller := by
    intro k c hk
    rw [get?_register] at hk
    rw [callers_register (hl.bound key)]
    split at hk
    · rw [if_pos (Option.some_inj.1 hk).symm]
      omega
    · have := h.caller k c hk
      omega
  holder c hc hheld := by
    obtain ⟨hlt, hheld⟩ := isFree_of_register hc hheld
    exact exists_holder_set hi (by simp) (h.holder c hlt hheld)

theorem InUse.lock (h : InUse l callers) (hi : callers[i]? = some ⟨key, .waiting cell⟩) :
    InUse (l.lock cell) (callers.set i ⟨key, .holding cell⟩) where
  key := h.key
  caller k c hk := by
    rw [callers_lock]
    exact h.caller k c hk
  holder c hc hheld := by
    rcases isFree_of_lock hheld with rfl | hheld
    · exact ⟨_, List.mem_set (List.getElem?_eq_some_iff.1 hi).1 _, rfl⟩
    · rw [KeyedLocks.lock, List.length_modify] at hc
      exact exists_holder_set hi (by simp) (h.holder c hc hheld)

theorem InUse.unlock (h : InUse l callers) (hi : callers[i]? = some ⟨key, .holding cell⟩) :
    InUse (l.unlock cell) (callers.set i ⟨key, .leaving cell⟩) where
  key := h.key
  caller k c hk := by
    rw [callers_unlock]
    exact h.caller k c hk
  holder c hc hheld := by
    rw [KeyedLocks.unlock, List.length_modify] at hc
    obtain ⟨hne, hheld⟩ := isFree_of_unlock hc hheld
    exact exists_holder_set hi (by simpa using Ne.symm hne) (h.holder c hc hheld)

theorem InUse.unregister (h : InUse l callers) (hl : Ledger l callers)
    (hi : callers[i]? = some ⟨key, .leaving cell⟩) :
    InUse (l.unregister key cell) (callers.set i ⟨key, .away⟩) where
  key k k' c hk hk' := by
    rw [get?_unregister] at hk hk'
    split at hk <;> [cases hk; split at hk' <;> [cases hk'; exact h.key k k' c hk hk']]
  caller k c hk := by
    have hplace : l.index.get? key = some cell := hl.place _ (List.mem_of_getElem? hi) cell rfl
    rw [get?_unregister] at hk
    rw [callers_unregister]
    split at hk <;> rename_i hlast
    · cases hk
    · have hpos := h.caller k c hk
      split
      · rename_i hc
        subst hc
        have := h.key k key c hk hplace
        simp only [this, and_true] at hlast
        omega
      · exact hpos
  holder c hc hheld := by
    rw [isFree_unregister] at hheld
    rw [length_unregister] at hc
    exact exists_holder_set hi (by simp) (h.holder c hc hheld)

/-- When all callers have left, no lock is kept. -/
theorem InUse.index_eq_empty (h : InUse l callers) (hl : Ledger l callers)
    (haway : ∀ x ∈ callers, x.stage = .away) : l.index = .empty := by
  refine Table.eq_empty fun k => Option.eq_none_iff_forall_ne_some.2 fun c hc => ?_
  have hpos := h.caller k c hc
  rw [hl.count, List.countP_pos_iff] at hpos
  obtain ⟨x, hx, hxc⟩ := hpos
  simp [haway x hx, Stage.cell?] at hxc

end KeyedLocks

end CompilationBridge
