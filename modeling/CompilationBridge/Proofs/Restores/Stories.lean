import CompilationBridge.Proofs.Restores.Progress

/-! The stories of runs. A run's story begins with the word to editors that it has started, goes on with
attempts of which all but the last were ended by the watchdog, and closes with the word how it went, the
count and, if it went well, the word to the host. What a run has done so far is always a beginning of
such a story. -/

namespace CompilationBridge.Restores

open CompilationBridge.Graph (ProjectRef)

/-! ### Stories -/

/-- So many attempts that the watchdog ended and that were followed by another one. -/
inductive Retried : Nat → List Deed → Prop
  | none : Retried 0 []
  | again {m : Nat} {d : List Deed} (before : Retried m d) (process : Nat) (code : Int) :
      Retried (m + 1) (d ++ [.launched process, .killed process, .exited process code])

/-- How a run ends after `m` attempts that were followed by another one, and the code that it ends with. -/
inductive Ending (retries : Nat) : Nat → List Deed → Int → Prop
  | dequeued : Ending retries 0 [.dequeued] (-1)
  | refused {m : Nat} : Ending retries m [.refused] (-1)
  | exited {m : Nat} (process : Nat) (code : Int) :
      Ending retries m [.launched process, .exited process code] code
  /-- The watchdog ended the attempt, and no other one is left. -/
  | killed (process : Nat) (code : Int) :
      Ending retries retries [.launched process, .killed process, .exited process code] code
  | cancelled {m : Nat} (process : Nat) :
      Ending retries m [.launched process, .cancelled process] (-1)
  | cancelledLate {m : Nat} (process : Nat) :
      Ending retries m [.launched process, .killed process, .cancelled process] (-1)

/-- What a run has done when its attempts are over. -/
inductive Ended (retries : Nat) (code : Int) : List Deed → Prop
  | intro {m : Nat} {before last : List Deed} (retried : Retried m before) (le : m ≤ retries)
      (ending : Ending retries m last code) : Ended retries code (.started :: (before ++ last))

/-- The whole story of a run. -/
inductive Complete (retries : Nat) : List Deed → Prop
  | succeeded {d : List Deed} (ended : Ended retries 0 d) (reached : Bool) :
      Complete retries (d ++ [.finished true, .counted true, .posted reached])
  | failed {code : Int} {d : List Deed} (ended : Ended retries code d) (hcode : code ≠ 0) :
      Complete retries (d ++ [.finished false, .counted false])

/-- What a run has done with the process that it watches. -/
def Watch.deeds (tool : Watch) : List Deed :=
  .launched tool.process :: if tool.killed then [.killed tool.process] else []

/-- What a run has done that stands at a point. -/
def Stands (retries : Nat) (d : List Deed) : Point → Prop
  | .entry => d = []
  | .register | .lock _ | .acquire _ | .queued _ => d = [.started]
  | .attempt _ left => ∃ m before, Retried m before ∧ m + left = retries ∧ d = .started :: before
  | .watch _ left tool =>
    ∃ m before, Retried m before ∧ m + left = retries ∧ d = .started :: (before ++ tool.deeds)
  | .kill _ left tool => tool.killed = true ∧ ∃ m before, Retried m before ∧ m + left = retries ∧
      d = .started :: (before ++ [.launched tool.process])
  | .abort _ process => ∃ (m : Nat) (before : List Deed) (tool : Watch), Retried m before ∧ m ≤ retries ∧
      tool.process = process ∧ d = .started :: (before ++ tool.deeds)
  | .reap _ _ => Ended retries (-1) d
  | .release _ code | .unlock _ code | .unregister _ code | .announce code => Ended retries code d
  | .conclude code => ∃ ended, Ended retries code ended ∧ d = ended ++ [.finished (code = 0)]
  | .tell => ∃ ended, Ended retries 0 ended ∧ d = ended ++ [.finished true, .counted true]
  | .done => Complete retries d

variable {r r' : Restores} {i k n retries : Nat} {x : Run} {e : Surroundings} {pt pt' : Point}
  {d ds : List Deed} {project : ProjectRef} {code : Int}

/-- An attempt that is over, and the story with it. -/
theorem Ended.of_last {m : Nat} {before last : List Deed} (hbefore : Retried m before) (hle : m ≤ retries)
    (hlast : Ending retries m last code) (hd : d = .started :: (before ++ last)) :
    Ended retries code d := by
  rw [hd]
  exact .intro hbefore hle hlast

/-- A run is cancelled while its tool runs. -/
theorem Retried.cancelled {m : Nat} {before : List Deed} (hbefore : Retried m before) (hle : m ≤ retries)
    (tool : Watch) :
    Ended retries (-1) ((.started :: (before ++ tool.deeds)) ++ [Deed.cancelled tool.process]) := by
  cases hkilled : tool.killed with
  | false =>
      refine .of_last hbefore hle (.cancelled tool.process) ?_
      simp [Watch.deeds, hkilled]
  | true =>
      refine .of_last hbefore hle (.cancelledLate tool.process) ?_
      simp [Watch.deeds, hkilled]

/-- A turn adds its deeds to the story. -/
theorem Turn.stands (h : Turn r i project e pt pt' r' ds) (hd : Stands r.settings.retries.toNat d pt) :
    Stands r.settings.retries.toNat (d ++ ds) pt' := by
  cases h with
  | start => rw [Stands] at hd; simp [Stands, hd]
  | register | lock free | enqueue running => simpa [Stands] using hd
  | turnAway cancelled | dequeue cancelled =>
      exact .of_last .none (Nat.zero_le _) .dequeued (by rw [hd]; rfl)
  | grant running permit first | next running first =>
      refine ⟨0, [], .none, Nat.zero_add _, ?_⟩
      rw [List.append_nil]
      exact hd
  | refuse =>
      obtain ⟨m, before, hbefore, hm, rfl⟩ := hd
      exact .intro hbefore (by omega) .refused
  | launch =>
      obtain ⟨m, before, hbefore, hm, rfl⟩ := hd
      exact ⟨m, before, hbefore, hm, rfl⟩
  | @again _ left tool code exited killed =>
      obtain ⟨m, before, hbefore, hm, rfl⟩ := hd
      refine ⟨m + 1, _, hbefore.again tool.process code, by omega, ?_⟩
      simp [Watch.deeds, killed]
  | @settle _ left tool code exited last =>
      obtain ⟨m, before, hbefore, hm, rfl⟩ := hd
      cases hkilled : tool.killed with
      | false =>
          refine .of_last hbefore (by omega) (.exited tool.process code) ?_
          simp [Watch.deeds, hkilled]
      | true =>
          obtain rfl : m = r.settings.retries.toNat := by have := last hkilled; omega
          refine .of_last hbefore (Nat.le_refl _) (.killed tool.process code) ?_
          simp [Watch.deeds, hkilled]
  | cancel cancelled unseen =>
      obtain ⟨m, before, hbefore, hm, rfl⟩ := hd
      exact ⟨m, before, _, hbefore, by omega, rfl, List.append_nil _⟩
  | look due unseen spared =>
      obtain ⟨m, before, hbefore, hm, rfl⟩ := hd
      exact ⟨m, before, hbefore, hm, List.append_nil _⟩
  | strike due unkilled silent =>
      obtain ⟨m, before, hbefore, hm, rfl⟩ := hd
      refine ⟨rfl, m, before, hbefore, hm, ?_⟩
      simp [Watch.deeds, unkilled, Watch.after]
  | kill =>
      obtain ⟨hkilled, m, before, hbefore, hm, rfl⟩ := hd
      refine ⟨m, before, hbefore, hm, ?_⟩
      simp [Watch.deeds, hkilled]
  | abort =>
      obtain ⟨m, before, tool, hbefore, hm, rfl, rfl⟩ := hd
      exact hbefore.cancelled hm tool
  | reap exited | release | unlock | unregister =>
      rw [List.append_nil]
      exact hd
  | announce => exact ⟨d, hd, rfl⟩
  | succeed =>
      obtain ⟨ended, hended, rfl⟩ := hd
      exact ⟨ended, hended, by simp⟩
  | fail failed =>
      obtain ⟨ended, hended, rfl⟩ := hd
      have hstory := Complete.failed hended failed
      simpa [Stands, failed] using hstory
  | tell =>
      obtain ⟨ended, hended, rfl⟩ := hd
      have hstory := Complete.succeeded hended e.fault.isNone
      simpa [Stands] using hstory

/-- Every story that has begun can be completed. -/
theorem Stands.completes (hd : Stands retries d pt) : ∃ rest, Complete retries (d ++ rest) := by
  have hfinish : ∀ {code : Int} {d : List Deed}, Ended retries code d →
      ∃ rest, Complete retries (d ++ rest) := by
    intro code d hended
    by_cases hcode : code = 0
    · subst hcode
      exact ⟨_, .succeeded hended true⟩
    · exact ⟨_, .failed hended hcode⟩
  have hmore : ∀ {code : Int} (more : List Deed), Ended retries code (d ++ more) →
      ∃ rest, Complete retries (d ++ rest) := by
    intro code more hended
    obtain ⟨rest, hrest⟩ := hfinish hended
    exact ⟨more ++ rest, by rwa [← List.append_assoc]⟩
  cases pt with
  | entry =>
      rw [Stands] at hd
      exact hmore [.started, .dequeued] (.of_last .none (Nat.zero_le _) .dequeued (by rw [hd]; rfl))
  | register | lock | acquire | queued =>
      rw [Stands] at hd
      exact hmore [.dequeued] (.of_last .none (Nat.zero_le _) .dequeued (by rw [hd]; rfl))
  | attempt cell left =>
      obtain ⟨m, before, hbefore, hm, rfl⟩ := hd
      exact hmore [.refused] (.intro hbefore (by omega) .refused)
  | watch cell left tool =>
      obtain ⟨m, before, hbefore, hm, rfl⟩ := hd
      exact hmore _ (hbefore.cancelled (by omega) tool)
  | kill cell left tool =>
      obtain ⟨-, m, before, hbefore, hm, rfl⟩ := hd
      refine hmore [.cancelled tool.process] (.of_last hbefore (by omega) (.cancelled tool.process) ?_)
      rw [List.cons_append, List.append_assoc]
      rfl
  | abort cell process =>
      obtain ⟨m, before, tool, hbefore, hm, rfl, rfl⟩ := hd
      exact hmore _ (hbefore.cancelled hm tool)
  | reap cell process => exact hfinish hd
  | release | unlock | unregister | announce => exact hfinish hd
  | conclude code =>
      obtain ⟨ended, hended, rfl⟩ := hd
      by_cases hcode : code = 0
      · subst hcode
        exact ⟨[.counted true, .posted true], by simpa using Complete.succeeded hended true⟩
      · exact ⟨[.counted false], by simpa [hcode] using Complete.failed hended hcode⟩
  | tell =>
      obtain ⟨ended, hended, rfl⟩ := hd
      exact ⟨[.posted true], by simpa using Complete.succeeded hended true⟩
  | done => exact ⟨[], by rwa [List.append_nil]⟩

/-! ### What stories have in common -/

theorem Retried.length_launches {m : Nat} (h : Retried m d) : (d.filterMap Deed.launch?).length = m := by
  induction h with
  | none => rfl
  | again before process code ih =>
      rw [List.filterMap_append, List.length_append, ih]
      rfl

theorem Ended.length_launches (h : Ended retries code d) :
    (d.filterMap Deed.launch?).length ≤ retries + 1 := by
  obtain ⟨hbefore, hle, hlast⟩ := h
  rename_i m before last
  have hone : (last.filterMap Deed.launch?).length ≤ 1 := by
    cases hlast <;> simp [List.filterMap_cons, Deed.launch?]
  rw [List.filterMap_cons_none rfl, List.filterMap_append, List.length_append, hbefore.length_launches]
  omega

/-- A run launches at most one process more than there are retries. -/
theorem Complete.length_launches (h : Complete retries d) :
    (d.filterMap Deed.launch?).length ≤ retries + 1 := by
  cases h with
  | succeeded ended reached =>
      rw [List.filterMap_append]
      simpa [List.filterMap_cons, Deed.launch?] using ended.length_launches
  | failed ended hcode =>
      rw [List.filterMap_append]
      simpa [List.filterMap_cons, Deed.launch?] using ended.length_launches

def Deed.isFinish : Deed → Bool
  | .finished _ => true
  | _ => false

def Deed.isCount : Deed → Bool
  | .counted _ => true
  | _ => false

/-- What a run does when its attempts are over. -/
def Deed.isOutcome : Deed → Bool
  | .finished _ | .counted _ | .posted _ => true
  | _ => false

theorem Retried.not_isOutcome {m : Nat} (h : Retried m d) : ∀ a ∈ d, a.isOutcome = false := by
  induction h with
  | none => simp
  | again before process code ih => simpa [or_imp, forall_and, Deed.isOutcome] using ih

theorem Ended.not_isOutcome (h : Ended retries code d) : ∀ a ∈ d, a.isOutcome = false := by
  obtain ⟨hbefore, hle, hlast⟩ := h
  rename_i m before last
  have hlast' : ∀ a ∈ last, a.isOutcome = false := by cases hlast <;> simp [Deed.isOutcome]
  intro a ha
  rcases List.mem_cons.1 ha with rfl | ha
  · rfl
  · exact (List.mem_append.1 ha).elim (hbefore.not_isOutcome a) (hlast' a)

theorem Deed.not_isFinish {a : Deed} (h : a.isOutcome = false) : a.isFinish = false := by
  cases a <;> first | rfl | cases h

theorem Deed.not_isCount {a : Deed} (h : a.isOutcome = false) : a.isCount = false := by
  cases a <;> first | rfl | cases h

/-- A run ends with code 0 if its last attempt did, and was not cancelled. -/
theorem Ended.code_eq_zero_iff (h : Ended retries code d) :
    code = 0 ↔ ∃ process, d.getLast? = some (.exited process 0) := by
  obtain ⟨hbefore, hle, hlast⟩ := h
  rw [← List.cons_append, List.getLast?_append]
  cases hlast <;> simp

/-- Where a list has one element of a kind, it is split there in one way. -/
theorem eq_of_append_cons_eq {α : Type} {p : α → Bool} {l l' t t' : List α} {a b : α}
    (h : l ++ a :: t = l' ++ b :: t') (hl : ∀ c ∈ l, p c = false) (ht : ∀ c ∈ t, p c = false)
    (hb : p b = true) : l = l' ∧ a = b := by
  induction l generalizing l' with
  | nil =>
      cases l' with
      | nil => exact ⟨rfl, (List.cons.inj h).1⟩
      | cons c l' =>
          have hmem : b ∈ t := (List.cons.inj h).2 ▸ List.mem_append_right _ List.mem_cons_self
          simp [ht b hmem] at hb
  | cons c l ih =>
      cases l' with
      | nil =>
          obtain rfl : c = b := (List.cons.inj h).1
          simp [hl c List.mem_cons_self] at hb
      | cons c' l' =>
          rw [List.cons_append, List.cons_append] at h
          obtain ⟨rfl, htail⟩ := List.cons.inj h
          obtain ⟨rfl, rfl⟩ := ih htail fun c hc => hl c (List.mem_cons_of_mem _ hc)
          exact ⟨rfl, rfl⟩

/-- A run tells of success exactly when its last attempt ended with code 0 and was not cancelled. -/
theorem Complete.finished_iff {before after : List Deed} {succeeded : Bool}
    (h : Complete retries (before ++ .finished succeeded :: after)) :
    succeeded = true ↔ ∃ process, before.getLast? = some (.exited process 0) := by
  generalize hd : before ++ .finished succeeded :: after = d at h
  cases h with
  | succeeded ended reached =>
      obtain ⟨rfl, ha⟩ := eq_of_append_cons_eq hd.symm
        (fun a ha => Deed.not_isFinish (ended.not_isOutcome a ha))
        (by simp [Deed.isFinish]) (rfl : Deed.isFinish (.finished succeeded) = true)
      obtain rfl := Deed.finished.inj ha
      simpa using ended.code_eq_zero_iff
  | failed ended hcode =>
      obtain ⟨rfl, ha⟩ := eq_of_append_cons_eq hd.symm
        (fun a ha => Deed.not_isFinish (ended.not_isOutcome a ha))
        (by simp [Deed.isFinish]) (rfl : Deed.isFinish (.finished succeeded) = true)
      obtain rfl := Deed.finished.inj ha
      simpa [hcode] using ended.code_eq_zero_iff

/-! ### What is counted -/

/-- A run has begun and has not been counted. -/
def isOpen (d : List Deed) : Bool :=
  d.contains .started && !d.any Deed.isCount

def Point.isOpen : Point → Bool
  | .entry | .tell | .done => false
  | _ => true

theorem isOpen_of_started {l : List Deed} (hd : d = .started :: l)
    (hl : ∀ a ∈ l, a.isCount = false) : isOpen d = true := by
  have hstarted : Deed.isCount .started = false := rfl
  simpa [isOpen, hd, hstarted] using hl

theorem Ended.isOpen (h : Ended retries code d) {l : List Deed} (hl : ∀ a ∈ l, a.isCount = false) :
    isOpen (d ++ l) = true := by
  have hall := h.not_isOutcome
  obtain ⟨hbefore, hle, hlast⟩ := h
  refine isOpen_of_started (List.cons_append ..) fun a ha => ?_
  rcases List.mem_append.1 ha with ha | ha
  · exact Deed.not_isCount (hall a (List.mem_cons_of_mem _ ha))
  · exact hl a ha

theorem Retried.isOpen {m : Nat} {l : List Deed} (h : Retried m d) (hl : ∀ a ∈ l, a.isCount = false) :
    isOpen (.started :: (d ++ l)) = true := by
  refine isOpen_of_started rfl fun a ha => ?_
  exact (List.mem_append.1 ha).elim (fun ha => Deed.not_isCount (h.not_isOutcome a ha)) (hl a)

theorem Watch.not_isCount (tool : Watch) : ∀ a ∈ tool.deeds, a.isCount = false := by
  cases hkilled : tool.killed <;> simp [Watch.deeds, hkilled, Deed.isCount]

/-- The point of a run tells whether it has begun and has not been counted. -/
theorem Stands.isOpen_eq (hd : Stands retries d pt) : isOpen d = pt.isOpen := by
  cases pt with
  | entry =>
      obtain rfl : d = [] := hd
      rfl
  | register | lock | acquire | queued =>
      obtain rfl : d = [.started] := hd
      rfl
  | attempt cell left =>
      obtain ⟨m, before, hbefore, -, rfl⟩ := hd
      simpa [Point.isOpen] using hbefore.isOpen (l := []) (by simp)
  | watch cell left tool =>
      obtain ⟨m, before, hbefore, -, rfl⟩ := hd
      exact hbefore.isOpen tool.not_isCount
  | kill cell left tool =>
      obtain ⟨-, m, before, hbefore, -, rfl⟩ := hd
      exact hbefore.isOpen (by simp [Deed.isCount])
  | abort cell process =>
      obtain ⟨m, before, tool, hbefore, -, -, rfl⟩ := hd
      exact hbefore.isOpen tool.not_isCount
  | reap | release | unlock | unregister | announce =>
      simpa [Point.isOpen] using Ended.isOpen (l := []) hd (by simp)
  | conclude code =>
      obtain ⟨ended, hended, rfl⟩ := hd
      exact hended.isOpen (by simp [Deed.isCount])
  | tell =>
      obtain ⟨ended, hended, rfl⟩ := hd
      simp [isOpen, Point.isOpen, Deed.isCount]
  | done =>
      cases hd <;> simp [isOpen, Point.isOpen, Deed.isCount]

end CompilationBridge.Restores
