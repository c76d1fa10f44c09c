import CompilationBridge.Proofs.KeyedLocks

/-! Keyed locks, one small step after the other. The registry of locks has a lock of its own: a caller takes
it to find or make the lock of its key and to be counted, and again, once it has given the lock of the key
back, to be discounted and to forget a lock that nobody is counted for. Callers come in at any time, their
steps come in any order, and a release may be asked for any number of times. At every point at most one
caller holds the lock of a key, all callers that are counted for a key share the one entry of the registry,
whose count is their number, and the registry has an entry for no other key, but for one that the caller who
has the registry is about to be counted for or to forget. -/

namespace CompilationBridge

/-! ### The registry and its callers -/

namespace LockRegistry

/-- Where a caller stands, with the place of the lock of its key. -/
inductive Stage where
  | arriving
  /-- It has the registry's lock. -/
  | entered
  /-- It has found or made the lock of its key. -/
  | found (cell : Nat)
  | counted (cell : Nat)
  /-- It has given the registry's lock back and waits for the lock of its key. -/
  | waiting (cell : Nat)
  | holding (cell : Nat)
  /-- Its release was asked for. -/
  | unlocking (cell : Nat)
  /-- It has given the lock of its key back. -/
  | leaving (cell : Nat)
  /-- It has the registry's lock again. -/
  | returned (cell : Nat)
  | discounted (cell : Nat)
  /-- It has forgotten the lock of its key if nobody was counted for it. -/
  | forgotten
  | gone
deriving DecidableEq

namespace Stage

/-- The lock that a caller is counted for. -/
def counted? : Stage → Option Nat
  | .counted cell | .waiting cell | .holding cell | .unlocking cell | .leaving cell | .returned cell => some cell
  | _ => none

/-- The lock that a caller holds. -/
def held? : Stage → Option Nat
  | .holding cell | .unlocking cell => some cell
  | _ => none

/-- The lock of a caller that is about to be counted for it, or about to forget it. -/
def midway? : Stage → Option Nat
  | .found cell | .discounted cell => some cell
  | _ => none

/-- Whether a caller has the registry's lock. -/
def guards : Stage → Bool
  | .entered | .found _ | .counted _ | .returned _ | .discounted _ | .forgotten => true
  | _ => false

end Stage

structure Caller where
  key : String
  stage : Stage
deriving DecidableEq

end LockRegistry

structure LockRegistry where
  locks : KeyedLocks := {}
  /-- Whether somebody has the registry's lock. -/
  isGuarded : Bool := false
  callers : List LockRegistry.Caller := []

namespace LockRegistry

/-- What can happen. -/
inductive Move where
  | acquire (key : String)
  /-- The release of a caller is asked for; it may have been before. -/
  | release (caller : Nat)
  /-- A caller takes its next step, unless it has to wait. -/
  | work (caller : Nat)

def goTo (r : LockRegistry) (i : Nat) (x : Caller) (stage : Stage) : LockRegistry :=
  { r with callers := r.callers.set i { x with stage := stage } }

/-- The next step of a caller. -/
def act (r : LockRegistry) (i : Nat) (x : Caller) : LockRegistry :=
  match x.stage with
  | .arriving => if r.isGuarded then r else { r with isGuarded := true }.goTo i x .entered
  | .entered => { r with locks := (r.locks.find x.key).1 }.goTo i x (.found (r.locks.find x.key).2)
  | .found cell => { r with locks := r.locks.count cell }.goTo i x (.counted cell)
  | .counted cell => { r with isGuarded := false }.goTo i x (.waiting cell)
  | .waiting cell =>
    if r.locks.isFree cell then { r with locks := r.locks.lock cell }.goTo i x (.holding cell) else r
  | .holding _ => r
  | .unlocking cell => { r with locks := r.locks.unlock cell }.goTo i x (.leaving cell)
  | .leaving cell => if r.isGuarded then r else { r with isGuarded := true }.goTo i x (.returned cell)
  | .returned cell => { r with locks := r.locks.discount cell }.goTo i x (.discounted cell)
  | .discounted cell => { r with locks := r.locks.forget x.key cell }.goTo i x .forgotten
  | .forgotten => { r with isGuarded := false }.goTo i x .gone
  | .gone => r

/-- Only the first release of a caller that holds its lock does anything. -/
def release (r : LockRegistry) (i : Nat) (x : Caller) : LockRegistry :=
  match x.stage with
  | .holding cell => r.goTo i x (.unlocking cell)
  | _ => r

def take (r : LockRegistry) : Move → LockRegistry
  | .acquire key => { r with callers := r.callers ++ [⟨key, .arriving⟩] }
  | .release i => (r.callers[i]?).elim r (r.release i)
  | .work i => (r.callers[i]?).elim r (r.act i)

def run (r : LockRegistry) (moves : List Move) : LockRegistry :=
  moves.foldl take r

variable {r : LockRegistry} {l : KeyedLocks} {i j cell c : Nat} {key k : String} {stage stage' : Stage}

/-! ### What holds at every point -/

/-- How the callers stand to the registry. -/
structure Sound (r : LockRegistry) : Prop where
  place : ∀ x ∈ r.callers, ∀ c, x.stage.counted? = some c ∨ x.stage.midway? = some c →
    r.locks.index.get? x.key = some c
  bound : ∀ k c, r.locks.index.get? k = some c → c < r.locks.cells.length
  key : ∀ k k' c, r.locks.index.get? k = some c → r.locks.index.get? k' = some c → k = k'
  count : ∀ c, r.locks.callers c = r.callers.countP fun x => x.stage.counted? = some c
  sole : ∀ c, (r.callers.countP fun x => x.stage.held? = some c) ≤ 1
  free : ∀ c, r.locks.isFree c = true → (r.callers.countP fun x => x.stage.held? = some c) = 0
  entry : ∀ k c, r.locks.index.get? k = some c →
    0 < r.locks.callers c ∨ ∃ x ∈ r.callers, x.key = k ∧ x.stage.midway? = some c
  guard : (r.callers.countP fun x => x.stage.guards) = if r.isGuarded then 1 else 0

theorem Sound.empty : Sound {} where
  place := by simp
  bound := by simp
  key := by simp
  count := by simp [KeyedLocks.callers]
  sole := by simp
  free := by simp
  entry := by simp
  guard := by simp

/-- Who holds a lock is counted for it. -/
theorem Stage.counted?_of_held? (h : stage.held? = some c) : stage.counted? = some c := by
  cases stage <;> first | exact h | cases h

theorem Stage.guards_of_midway? (h : stage.midway? = some c) : stage.guards = true := by
  cases stage <;> first | rfl | cases h

/-- Nobody holds a lock that nobody is counted for. -/
theorem Sound.not_held (h : Sound r) (hc : r.locks.callers c = 0) :
    (r.callers.countP fun x => x.stage.held? = some c) = 0 := by
  have hle : (r.callers.countP fun x => x.stage.held? = some c) ≤
      r.callers.countP fun x => x.stage.counted? = some c :=
    List.countP_mono_left fun x _ hx => decide_eq_true (Stage.counted?_of_held? (of_decide_eq_true hx))
  rw [← h.count, hc] at hle
  omega

theorem Sound.guarded (h : Sound r) {x : Caller} (hi : r.callers[i]? = some x) (hx : x.stage.guards = true) :
    r.isGuarded = true := by
  have hpos : 0 < r.callers.countP fun x => x.stage.guards :=
    List.countP_pos_iff.2 ⟨x, List.mem_of_getElem? hi, hx⟩
  rw [h.guard] at hpos
  by_contra hopen
  simp [hopen] at hpos

/-- At most one caller has the registry's lock. -/
theorem Sound.guard_unique (h : Sound r) {x y : Caller} (hi : r.callers[i]? = some x)
    (hx : x.stage.guards = true) (hj : r.callers[j]? = some y) (hy : y.stage.guards = true) : i = j := by
  have hguard := h.guard
  refine index_unique_of_countP_le_one (p := fun x => x.stage.guards) ?_ hi hx hj hy
  split at hguard <;> omega

/-- Of the callers with one key at most one holds a lock. -/
theorem Sound.exclusive (h : Sound r) {x y : Caller} (hi : r.callers[i]? = some x)
    (hj : r.callers[j]? = some y) (hkey : x.key = y.key) {c c' : Nat} (hx : x.stage.held? = some c)
    (hy : y.stage.held? = some c') : i = j := by
  have hplace := h.place x (List.mem_of_getElem? hi) c (Or.inl (Stage.counted?_of_held? hx))
  have hplace' := h.place y (List.mem_of_getElem? hj) c' (Or.inl (Stage.counted?_of_held? hy))
  obtain rfl : c = c' := by
    rw [hkey, hplace'] at hplace
    exact (Option.some_inj.1 hplace).symm
  exact index_unique_of_countP_le_one (h.sole c) hi (decide_eq_true hx) hj (decide_eq_true hy)

/-- The registry has an entry for the keys of the callers that are counted, about to be counted or about to
forget, and for no other key. -/
theorem Sound.contains_iff (h : Sound r) (key : String) : r.locks.index.contains key = true ↔
    (∃ x ∈ r.callers, x.key = key ∧ x.stage.counted?.isSome = true) ∨
      ∃ x ∈ r.callers, x.key = key ∧ x.stage.midway?.isSome = true := by
  rw [Table.contains_iff]
  constructor
  · rintro ⟨c, hc⟩
    rcases h.entry key c hc with hpos | ⟨x, hx, hkey, hmidway⟩
    · rw [h.count, List.countP_pos_iff] at hpos
      obtain ⟨x, hx, hcounted⟩ := hpos
      have hcounted : x.stage.counted? = some c := of_decide_eq_true hcounted
      exact Or.inl ⟨x, hx, h.key _ _ c (h.place x hx c (Or.inl hcounted)) hc, by simp [hcounted]⟩
    · exact Or.inr ⟨x, hx, hkey, by simp [hmidway]⟩
  · rintro (⟨x, hx, rfl, hsome⟩ | ⟨x, hx, rfl, hsome⟩)
    · obtain ⟨c, hc⟩ := Option.isSome_iff_exists.1 hsome
      exact ⟨c, h.place x hx c (Or.inl hc)⟩
    · obtain ⟨c, hc⟩ := Option.isSome_iff_exists.1 hsome
      exact ⟨c, h.place x hx c (Or.inr hc)⟩

/-- The count of an entry is the number of the callers of its key that are counted. -/
theorem Sound.callers_eq (h : Sound r) (hc : r.locks.index.get? key = some c) :
    r.locks.callers c = r.callers.countP fun x => x.key = key ∧ x.stage.counted?.isSome = true := by
  rw [h.count]
  refine List.countP_congr fun x hx => ?_
  simp only [decide_eq_true_eq, Option.isSome_iff_exists]
  constructor
  · exact fun hcounted => ⟨h.key _ _ c (h.place x hx c (Or.inl hcounted)) hc, c, hcounted⟩
  · rintro ⟨rfl, c', hc'⟩
    rw [h.place x hx c' (Or.inl hc'), Option.some_inj] at hc
    rw [hc', hc]

/-- Who is about to be counted or to forget stays so while another caller moves on. -/
theorem exists_midway_set (hi : r.callers[i]? = some ⟨key, stage⟩)
    (hmidway : stage.midway? = some c → stage'.midway? = some c)
    (h : ∃ x ∈ r.callers, x.key = k ∧ x.stage.midway? = some c) :
    ∃ x ∈ r.callers.set i ⟨key, stage'⟩, x.key = k ∧ x.stage.midway? = some c := by
  obtain ⟨x, hx, hk, hc⟩ := h
  obtain ⟨j, hj⟩ := List.getElem?_of_mem hx
  by_cases hij : i = j
  · subst hij
    obtain rfl := Option.some_inj.1 (hi.symm.trans hj)
    exact ⟨_, List.mem_set (List.getElem?_eq_some_iff.1 hi).1 _, hk, hmidway hc⟩
  · exact ⟨x, List.mem_of_getElem? (i := j) ((List.getElem?_set_ne hij).trans hj), hk, hc⟩

/-- One caller moves on, and the registry changes with it. -/
theorem Sound.step (h : Sound r) (hi : r.callers[i]? = some ⟨key, stage⟩) {guarded : Bool}
    (hnew : ∀ c, stage'.counted? = some c ∨ stage'.midway? = some c → l.index.get? key = some c)
    (hold : ∀ x ∈ r.callers.set i ⟨key, stage'⟩, ∀ c, x.stage.counted? = some c ∨ x.stage.midway? = some c →
      r.locks.index.get? x.key = some c → l.index.get? x.key = some c)
    (hbound : ∀ k c, l.index.get? k = some c → c < l.cells.length)
    (hkey : ∀ k k' c, l.index.get? k = some c → l.index.get? k' = some c → k = k')
    (hcount : ∀ c, l.callers c + (if stage.counted? = some c then 1 else 0) =
      r.locks.callers c + if stage'.counted? = some c then 1 else 0)
    (htake : ∀ c, stage'.held? = some c → stage.held? = some c ∨ r.locks.isFree c = true)
    (hfree : ∀ c, l.isFree c = true → (stage'.held? = some c → stage.held? = some c) ∧
      (stage.held? = some c ∧ stage'.held? ≠ some c ∨ r.locks.isFree c = true ∨ r.locks.callers c = 0))
    (hentry : ∀ k c, l.index.get? k = some c → 0 < l.callers c ∨
      ∃ x ∈ r.callers.set i ⟨key, stage'⟩, x.key = k ∧ x.stage.midway? = some c)
    (hguard : (if guarded then 1 else 0) + (if stage.guards then 1 else 0) =
      (if r.isGuarded then 1 else 0) + if stage'.guards then 1 else 0) :
    Sound ⟨l, guarded, r.callers.set i ⟨key, stage'⟩⟩ := by
  have hheld (c : Nat) := countP_set_add (fun x => x.stage.held? = some c) hi ⟨key, stage'⟩
  simp only [decide_eq_true_eq] at hheld
  have hplace : ∀ x ∈ r.callers.set i ⟨key, stage'⟩, ∀ c,
      x.stage.counted? = some c ∨ x.stage.midway? = some c → l.index.get? x.key = some c := by
    intro x hx c hc
    rcases List.mem_or_eq_of_mem_set hx with hx' | rfl
    · exact hold x hx c hc (h.place x hx' c hc)
    · exact hnew c hc
  have hcounts (c : Nat) :
      l.callers c = (r.callers.set i ⟨key, stage'⟩).countP fun x => x.stage.counted? = some c := by
    have hset := countP_set_add (fun x => x.stage.counted? = some c) hi ⟨key, stage'⟩
    have hbefore := hcount c
    rw [h.count c] at hbefore
    simp only [decide_eq_true_eq] at hset
    omega
  have hsole (c : Nat) : ((r.callers.set i ⟨key, stage'⟩).countP fun x => x.stage.held? = some c) ≤ 1 := by
    have hset := hheld c
    have hbefore := h.sole c
    by_cases hc : stage'.held? = some c
    · rcases htake c hc with hsame | hopen
      · rw [if_pos hc, if_pos hsame] at hset
        omega
      · rw [if_pos hc, h.free c hopen] at hset
        omega
    · rw [if_neg hc] at hset
      omega
  have hopen (c : Nat) (hc : l.isFree c = true) :
      ((r.callers.set i ⟨key, stage'⟩).countP fun x => x.stage.held? = some c) = 0 := by
    obtain ⟨hkept, hwas⟩ := hfree c hc
    have hset := hheld c
    rcases hwas with ⟨hbefore, hafter⟩ | hnone
    · have hone := h.sole c
      rw [if_pos hbefore, if_neg hafter] at hset
      omega
    · have hnone : (r.callers.countP fun x => x.stage.held? = some c) = 0 := hnone.elim (h.free c) h.not_held
      by_cases hafter : stage'.held? = some c
      · rw [if_pos hafter, if_pos (hkept hafter)] at hset
        omega
      · rw [if_neg hafter] at hset
        omega
  have hguards : ((r.callers.set i ⟨key, stage'⟩).countP fun x => x.stage.guards) = if guarded then 1 else 0 := by
    have hset := countP_set_add (fun x => x.stage.guards) hi ⟨key, stage'⟩
    dsimp only at hset
    rw [h.guard] at hset
    omega
  exact ⟨hplace, hbound, hkey, hcounts, hsole, hopen, hentry, hguards⟩

/-- A caller moves on, and all but the registry's own lock stays as it is. -/
theorem Sound.walk (h : Sound r) (hi : r.callers[i]? = some ⟨key, stage⟩) {guarded : Bool}
    (hcounted : stage'.counted? = stage.counted?) (hheld : stage'.held? = stage.held?)
    (hmidway : stage'.midway? = stage.midway?)
    (hguard : (if guarded then 1 else 0) + (if stage.guards then 1 else 0) =
      (if r.isGuarded then 1 else 0) + if stage'.guards then 1 else 0) :
    Sound ⟨r.locks, guarded, r.callers.set i ⟨key, stage'⟩⟩ := by
  refine h.step hi ?_ (fun _ _ _ _ hget => hget) h.bound h.key (fun c => by rw [hcounted]) ?_ ?_ ?_ hguard
  · rw [hcounted, hmidway]
    exact h.place _ (List.mem_of_getElem? hi)
  · rw [hheld]
    exact fun c hc => Or.inl hc
  · rw [hheld]
    exact fun c hc => ⟨id, Or.inr (Or.inl hc)⟩
  · exact fun k c hc => (h.entry k c hc).imp_right (exists_midway_set hi (hmidway ▸ id))

theorem Sound.append (h : Sound r) (key : String) :
    Sound { r with callers := r.callers ++ [⟨key, .arriving⟩] } where
  place x hx c hc := by
    rcases List.mem_append.1 hx with hx | hx
    · exact h.place x hx c hc
    · rw [List.mem_singleton.1 hx] at hc
      cases hc <;> contradiction
  bound := h.bound
  key := h.key
  count := by simp [h.count, Stage.counted?]
  sole := by simpa [Stage.held?] using h.sole
  free := by simpa [Stage.held?] using h.free
  entry k c hc := by
    refine (h.entry k c hc).imp_right ?_
    rintro ⟨x, hx, hmidway⟩
    exact ⟨x, List.mem_append_left _ hx, hmidway⟩
  guard := by simpa [Stage.guards] using h.guard

/-! ### One step -/

theorem Sound.find (h : Sound r) (hi : r.callers[i]? = some ⟨key, .entered⟩) :
    Sound ⟨(r.locks.find key).1, r.isGuarded, r.callers.set i ⟨key, .found (r.locks.find key).2⟩⟩ := by
  refine h.step hi ?_ ?_ (KeyedLocks.bound_find h.bound) (KeyedLocks.key_find h.bound h.key)
    (by simp [Stage.counted?]) (by simp [Stage.held?]) ?_ ?_ rfl
  · rintro c (hc | hc)
    · cases hc
    · simpa [Stage.midway?] using hc
  · intro x _ c _ hget
    rw [KeyedLocks.get?_find]
    split
    · rename_i hk
      rw [hk] at hget
      rw [KeyedLocks.find_of_some hget]
    · exact hget
  · exact fun c hc => ⟨by rintro ⟨⟩, Or.inr (KeyedLocks.isFree_of_find hc)⟩
  · intro k c hc
    rw [KeyedLocks.get?_find] at hc
    rw [KeyedLocks.callers_find]
    split at hc
    · rename_i hk
      exact Or.inr ⟨_, List.mem_set (List.getElem?_eq_some_iff.1 hi).1 _, hk.symm, hc⟩
    · exact (h.entry k c hc).imp_right (exists_midway_set hi (by rintro ⟨⟩))

theorem Sound.count_in (h : Sound r) (hi : r.callers[i]? = some ⟨key, .found cell⟩) :
    Sound ⟨r.locks.count cell, r.isGuarded, r.callers.set i ⟨key, .counted cell⟩⟩ := by
  have hplace : r.locks.index.get? key = some cell := h.place _ (List.mem_of_getElem? hi) cell (Or.inr rfl)
  have hcallers := KeyedLocks.callers_count (h.bound key cell hplace)
  refine h.step hi ?_ (fun _ _ _ _ hget => hget) ?_ h.key ?_ (by simp [Stage.held?]) ?_ ?_ rfl
  · rintro c (hc | hc)
    · exact hplace.trans hc
    · cases hc
  · intro k c hc
    simpa [KeyedLocks.count] using h.bound k c hc
  · intro c
    rw [hcallers]
    simp [Stage.counted?, eq_comm]
  · intro c hc
    exact ⟨by rintro ⟨⟩, Or.inr (Or.inl (KeyedLocks.isFree_count r.locks cell c ▸ hc))⟩
  · intro k c hc
    rw [hcallers]
    by_cases hcell : c = cell
    · left
      rw [if_pos hcell]
      omega
    · rw [if_neg hcell]
      refine (h.entry k c hc).imp_right (exists_midway_set hi fun hmidway => absurd ?_ hcell)
      exact (Option.some_inj.1 hmidway).symm

theorem Sound.lock (h : Sound r) (hi : r.callers[i]? = some ⟨key, .waiting cell⟩)
    (hopen : r.locks.isFree cell = true) :
    Sound ⟨r.locks.lock cell, r.isGuarded, r.callers.set i ⟨key, .holding cell⟩⟩ := by
  have hplace : r.locks.index.get? key = some cell := h.place _ (List.mem_of_getElem? hi) cell (Or.inl rfl)
  refine h.step hi ?_ (fun _ _ _ _ hget => hget) ?_ h.key (by simp [Stage.counted?]) ?_ ?_ ?_ rfl
  · rintro c (hc | hc)
    · exact hplace.trans hc
    · cases hc
  · intro k c hc
    simpa [KeyedLocks.lock] using h.bound k c hc
  · rintro c ⟨⟩
    exact Or.inr hopen
  · intro c hc
    obtain ⟨hne, hwas⟩ := KeyedLocks.isFree_lock hc
    exact ⟨fun hheld => absurd (Option.some_inj.1 hheld).symm hne, Or.inr (Or.inl hwas)⟩
  · intro k c hc
    rw [KeyedLocks.callers_lock]
    exact (h.entry k c hc).imp_right (exists_midway_set hi (by rintro ⟨⟩))

theorem Sound.unlock (h : Sound r) (hi : r.callers[i]? = some ⟨key, .unlocking cell⟩) :
    Sound ⟨r.locks.unlock cell, r.isGuarded, r.callers.set i ⟨key, .leaving cell⟩⟩ := by
  have hplace : r.locks.index.get? key = some cell := h.place _ (List.mem_of_getElem? hi) cell (Or.inl rfl)
  refine h.step hi ?_ (fun _ _ _ _ hget => hget) ?_ h.key (by simp [Stage.counted?]) (by simp [Stage.held?])
    ?_ ?_ rfl
  · rintro c (hc | hc)
    · exact hplace.trans hc
    · cases hc
  · intro k c hc
    simpa [KeyedLocks.unlock] using h.bound k c hc
  · intro c hc
    refine ⟨by rintro ⟨⟩, ?_⟩
    rcases KeyedLocks.isFree_unlock hc with rfl | hwas
    · exact Or.inl ⟨rfl, by rintro ⟨⟩⟩
    · exact Or.inr (Or.inl hwas)
  · intro k c hc
    rw [KeyedLocks.callers_unlock]
    exact (h.entry k c hc).imp_right (exists_midway_set hi (by rintro ⟨⟩))

theorem Sound.count_out (h : Sound r) (hi : r.callers[i]? = some ⟨key, .returned cell⟩) :
    Sound ⟨r.locks.discount cell, r.isGuarded, r.callers.set i ⟨key, .discounted cell⟩⟩ := by
  have hplace : r.locks.index.get? key = some cell := h.place _ (List.mem_of_getElem? hi) cell (Or.inl rfl)
  have hpos : 0 < r.locks.callers cell := by
    rw [h.count]
    exact List.countP_pos_iff.2 ⟨_, List.mem_of_getElem? hi, by simp [Stage.counted?]⟩
  refine h.step hi ?_ (fun _ _ _ _ hget => hget) ?_ h.key ?_ (by simp [Stage.held?]) ?_ ?_ rfl
  · rintro c (hc | hc)
    · cases hc
    · exact hplace.trans hc
  · intro k c hc
    simpa [KeyedLocks.discount] using h.bound k c hc
  · intro c
    rw [KeyedLocks.callers_discount]
    by_cases hc : c = cell
    · simp only [hc, Stage.counted?, if_true, reduceCtorEq, if_false]
      omega
    · simp [hc, Stage.counted?, Ne.symm hc]
  · intro c hc
    exact ⟨by rintro ⟨⟩, Or.inr (Or.inl (KeyedLocks.isFree_discount r.locks cell c ▸ hc))⟩
  · intro k c hc
    rw [KeyedLocks.callers_discount]
    by_cases hcell : c = cell
    · -- the entry is left to the caller that has just been discounted
      subst hcell
      exact Or.inr ⟨_, List.mem_set (List.getElem?_eq_some_iff.1 hi).1 _, h.key key k c hplace hc, rfl⟩
    · rw [if_neg hcell]
      exact (h.entry k c hc).imp_right (exists_midway_set hi (by rintro ⟨⟩))

/-- The entry that is forgotten is nobody else's. -/
theorem Sound.forget (h : Sound r) (hi : r.callers[i]? = some ⟨key, .discounted cell⟩) :
    Sound ⟨r.locks.forget key cell, r.isGuarded, r.callers.set i ⟨key, .forgotten⟩⟩ := by
  have hplace : r.locks.index.get? key = some cell := h.place _ (List.mem_of_getElem? hi) cell (Or.inr rfl)
  have hget {k : String} {c : Nat} (hc : (r.locks.forget key cell).index.get? k = some c) :
      r.locks.index.get? k = some c ∧ ¬(r.locks.callers cell = 0 ∧ k = key) := by
    rw [KeyedLocks.get?_forget] at hc
    split at hc
    · cases hc
    · exact ⟨hc, ‹_›⟩
  refine h.step hi (by simp [Stage.counted?, Stage.midway?]) ?_ ?_ ?_ (by simp [Stage.counted?])
    (by simp [Stage.held?]) ?_ ?_ rfl
  · intro x hx c hc hwas
    rw [KeyedLocks.get?_forget, if_neg, hwas]
    rintro ⟨hnone, hk⟩
    rw [hk, hplace, Option.some_inj] at hwas
    subst hwas
    obtain ⟨j, hj⟩ := List.getElem?_of_mem hx
    by_cases hij : i = j
    · subst hij
      rw [List.getElem?_set_self (List.getElem?_eq_some_iff.1 hi).1] at hj
      obtain rfl := Option.some_inj.1 hj
      cases hc <;> contradiction
    · rw [List.getElem?_set_ne hij] at hj
      rcases hc with hc | hc
      · rw [h.count, List.countP_eq_zero] at hnone
        exact hnone x (List.mem_of_getElem? hj) (by simpa using hc)
      · exact hij (h.guard_unique hi rfl hj (Stage.guards_of_midway? hc))
  · intro k c hc
    rw [KeyedLocks.cells_forget]
    exact h.bound k c (hget hc).1
  · exact fun k k' c hk hk' => h.key k k' c (hget hk).1 (hget hk').1
  · intro c hc
    exact ⟨by rintro ⟨⟩, Or.inr (Or.inl (KeyedLocks.isFree_forget r.locks key cell c ▸ hc))⟩
  · intro k c hc
    obtain ⟨hc, hkept⟩ := hget hc
    rw [KeyedLocks.callers_forget]
    rcases Nat.eq_zero_or_pos (r.locks.callers c) with hnone | hpos
    · refine Or.inr (exists_midway_set hi ?_ ((h.entry k c hc).resolve_left (by omega)))
      intro hmidway
      obtain rfl := Option.some_inj.1 hmidway
      exact absurd ⟨hnone, h.key k key cell hc hplace⟩ hkept
    · exact Or.inl hpos

theorem Sound.act {x : Caller} (h : Sound r) (hi : r.callers[i]? = some x) : Sound (r.act i x) := by
  obtain ⟨key, stage⟩ := x
  cases stage with
  | arriving =>
      cases hguarded : r.isGuarded with
      | true => simpa [LockRegistry.act, hguarded] using h
      | false =>
          simp only [LockRegistry.act, hguarded]
          exact h.walk hi rfl rfl rfl (by simp [hguarded, Stage.guards])
  | entered => exact h.find hi
  | found cell => exact h.count_in hi
  | counted cell => exact h.walk hi rfl rfl rfl (by simp [h.guarded hi rfl, Stage.guards])
  | waiting cell =>
      simp only [LockRegistry.act]
      split
      · exact h.lock hi ‹_›
      · exact h
  | holding cell => exact h
  | unlocking cell => exact h.unlock hi
  | leaving cell =>
      cases hguarded : r.isGuarded with
      | true => simpa [LockRegistry.act, hguarded] using h
      | false =>
          simp only [LockRegistry.act, hguarded]
          exact h.walk hi rfl rfl rfl (by simp [hguarded, Stage.guards])
  | returned cell => exact h.count_out hi
  | discounted cell => exact h.forget hi
  | forgotten => exact h.walk hi rfl rfl rfl (by simp [h.guarded hi rfl, Stage.guards])
  | gone => exact h

theorem Sound.release {x : Caller} (h : Sound r) (hi : r.callers[i]? = some x) : Sound (r.release i x) := by
  obtain ⟨key, stage⟩ := x
  cases stage with
  | holding cell => exact h.walk hi rfl rfl rfl rfl
  | _ => exact h

theorem Sound.take (h : Sound r) (m : Move) : Sound (r.take m) := by
  cases m with
  | acquire key => exact h.append key
  | release i =>
      simp only [LockRegistry.take]
      cases hi : r.callers[i]? with
      | none => exact h
      | some x => exact h.release hi
  | work i =>
      simp only [LockRegistry.take]
      cases hi : r.callers[i]? with
      | none => exact h
      | some x => exact h.act hi

theorem Sound.run (h : Sound r) (moves : List Move) : Sound (r.run moves) :=
  List.foldlRecOn moves LockRegistry.take h fun _ h m _ => h.take m

/-! ### One holder, one entry -/

/-- Whatever callers come in and in whatever order they go on, at every point at most one of them holds the
lock of a key, those that are counted for a key share its one entry, and the entry counts them. The registry
has an entry for a key exactly when somebody is counted for it, as anybody sees who finds the registry's lock
free; a caller that has that lock, as only one ever does, makes an entry just before it is counted and
forgets an entry just after it is discounted. When all callers are gone the registry is empty. -/
theorem one_holder_one_entry (moves : List Move) :
    let r := ({} : LockRegistry).run moves
    (∀ (i j : Nat) (x y : Caller), r.callers[i]? = some x → r.callers[j]? = some y → x.key = y.key →
      x.stage.held?.isSome = true → y.stage.held?.isSome = true → i = j) ∧
    (∀ x ∈ r.callers, ∀ c, x.stage.counted? = some c → r.locks.index.get? x.key = some c) ∧
    (∀ key c, r.locks.index.get? key = some c →
      r.locks.callers c = r.callers.countP fun x => x.key = key ∧ x.stage.counted?.isSome = true) ∧
    (∀ key, r.locks.index.contains key = true ↔
      (∃ x ∈ r.callers, x.key = key ∧ x.stage.counted?.isSome = true) ∨
        ∃ x ∈ r.callers, x.key = key ∧ x.stage.midway?.isSome = true) ∧
    (r.isGuarded = false → ∀ key, r.locks.index.contains key = true ↔
      ∃ x ∈ r.callers, x.key = key ∧ x.stage.counted?.isSome = true) ∧
    (∀ (i j : Nat) (x y : Caller), r.callers[i]? = some x → r.callers[j]? = some y →
      x.stage.midway?.isSome = true → y.stage.guards = true → i = j) ∧
    ((∀ x ∈ r.callers, x.stage = .gone) → r.locks.index = .empty) := by
  intro r
  have h : Sound r := Sound.empty.run moves
  have hguards {x : Caller} (hx : x.stage.midway?.isSome = true) : x.stage.guards = true := by
    obtain ⟨c, hc⟩ := Option.isSome_iff_exists.1 hx
    exact Stage.guards_of_midway? hc
  refine ⟨?_, ?_, ?_, h.contains_iff, ?_, ?_, ?_⟩
  · intro i j x y hi hj hkey hx hy
    obtain ⟨c, hc⟩ := Option.isSome_iff_exists.1 hx
    obtain ⟨c', hc'⟩ := Option.isSome_iff_exists.1 hy
    exact h.exclusive hi hj hkey hc hc'
  · exact fun x hx c hc => h.place x hx c (Or.inl hc)
  · exact fun key c hc => h.callers_eq hc
  · intro hopen key
    refine (h.contains_iff key).trans (or_iff_left ?_)
    rintro ⟨x, hx, -, hmidway⟩
    obtain ⟨i, hi⟩ := List.getElem?_of_mem hx
    rw [h.guarded hi (hguards hmidway)] at hopen
    cases hopen
  · exact fun i j x y hi hj hx hy => h.guard_unique hi (hguards hx) hj hy
  · intro hgone
    refine Table.eq_empty fun key => ?_
    rw [← Table.contains_eq_false, Bool.eq_false_iff]
    intro hcontains
    rcases (h.contains_iff key).1 hcontains with ⟨x, hx, -, hsome⟩ | ⟨x, hx, -, hsome⟩
    · rw [hgone x hx] at hsome
      cases hsome
    · rw [hgone x hx] at hsome
      cases hsome

/-- A release is asked for twice. Before the first caller is discounted a second one takes the lock that was
given back, and the entry stays for it, until it leaves too. -/
theorem one_holder_one_entry_overtaken :
    let overtaking := [Move.acquire "p"] ++ List.replicate 5 (Move.work 0) ++ [Move.acquire "p"] ++
      List.replicate 4 (Move.work 1) ++ [Move.release 0, Move.release 0, Move.work 0, Move.work 1]
    let leaving := List.replicate 4 (Move.work 0) ++ [Move.release 1] ++ List.replicate 5 (Move.work 1)
    (({} : LockRegistry).run overtaking).callers = [⟨"p", .leaving 0⟩, ⟨"p", .holding 0⟩] ∧
    (({} : LockRegistry).run overtaking).locks.index.contains "p" = true ∧
    (({} : LockRegistry).run overtaking).locks.callers 0 = 2 ∧
    (({} : LockRegistry).run (overtaking ++ leaving)).callers = [⟨"p", .gone⟩, ⟨"p", .gone⟩] ∧
    (({} : LockRegistry).run (overtaking ++ leaving)).locks.index = .empty := by
  intro overtaking leaving
  have hcallers : (({} : LockRegistry).run overtaking).callers = [⟨"p", .leaving 0⟩, ⟨"p", .holding 0⟩] := by
    decide +kernel
  have hgone : (({} : LockRegistry).run (overtaking ++ leaving)).callers = [⟨"p", .gone⟩, ⟨"p", .gone⟩] := by
    decide +kernel
  obtain ⟨-, hplace, hcount, -, hentry, -, -⟩ := one_holder_one_entry overtaking
  obtain ⟨-, -, -, -, -, -, hempty⟩ := one_holder_one_entry (overtaking ++ leaving)
  rw [hcallers] at hplace
  refine ⟨hcallers, ?_, ?_, hgone, hempty (by simp [hgone])⟩
  · exact (hentry (by decide +kernel) "p").2 ⟨⟨"p", .holding 0⟩, by simp [hcallers], rfl, rfl⟩
  · rw [hcount "p" 0 (hplace ⟨"p", .holding 0⟩ (by simp) 0 rfl), hcallers]
    decide

end LockRegistry

end CompilationBridge
