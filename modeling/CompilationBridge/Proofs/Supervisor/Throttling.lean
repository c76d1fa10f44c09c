import CompilationBridge.Proofs.Supervisor.Handshake
import CompilationBridge.Proofs.TokenBucket

/-! The pace of relaunches. When a host has exited unexpectedly, the loop goes on to launch as soon as the
bucket grants it a token, at once or after a wait. The relaunches granted in a window of time are at most
the burst and one for each interval in the window, each takes one token, and none follows a wait during which
the supervisor is stopped. A bucket that does not limit delays none. -/

namespace CompilationBridge.Supervisor

/-- Whether a worker that stands here waits for a token. -/
def Point.isDelayed : Point → Bool
  | .reserve | .pause _ => true
  | _ => false

namespace Throttling

open Handshake (Occurrence stamp)
open TokenBucket (within)

/-- A relaunch after an unexpected exit. -/
structure Relaunch where
  /-- When the bucket granted it. -/
  granted : Nat
  /-- When the loop went on to launch. -/
  begun : Nat
  /-- The tokens taken from the bucket since the relaunch before. -/
  tokens : ℚ
deriving DecidableEq

/-- When the bucket granted the relaunch that begins where a worker goes from one point to another. -/
def granted? (now : Nat) : Point → Point → Option Nat
  | .throttle, .launch => some now
  | .pause wake, .launch => some wake
  | _, _ => none

/-- When the bucket granted the relaunch that begins in a move, if one does. -/
def begins? (now : Nat) (s s' : Supervisor) : Move → Option Nat
  | .work i _ => s.workers[i]?.bind fun w => s'.workers[i]?.bind fun v => granted? now w.point v.point
  | _ => none

/-- A supervisor with the time, the relaunches so far, and the tokens taken since the last of them. -/
structure History where
  supervisor : Supervisor
  now : Nat := 0
  relaunches : List Relaunch := []
  taken : ℚ := 0

def start (settings : Settings.Host) : History :=
  { supervisor := new settings }

namespace History

def take (c : History) : Occurrence → History
  | .elapse span => { c with now := c.now + span }
  | .move m =>
    let s := (c.supervisor.take (stamp c.now m)).1
    let taken := c.taken + (c.supervisor.bucket.level c.now - s.bucket.level c.now)
    match begins? c.now c.supervisor s m with
    | some granted => ⟨s, c.now, c.relaunches ++ [⟨granted, c.now, taken⟩], 0⟩
    | none => ⟨s, c.now, c.relaunches, taken⟩

def run (c : History) (occurrences : List Occurrence) : History :=
  occurrences.foldl take c

/-- When the relaunches were granted. -/
def grants (c : History) : List Nat :=
  c.relaunches.map (·.granted)

end History

variable {c : History} {s s' : Supervisor} {i : Nat} {w v : Worker} {e : Surroundings} {pt pt' : Point}
  {role : Role} {hostId : String} {log : List Incident} {settings : Settings.Host} {now : Nat}

/-! ### What a step does to the bucket -/

/-- Only a worker that asks for a token touches the bucket. -/
theorem bucket_eq_of_turn (h : Turn s i role hostId e pt pt' s' log) (hthrottle : pt ≠ .throttle)
    (hreserve : pt ≠ .reserve) : s'.bucket = s.bucket := by
  cases h with
  | allow bucket => exact absurd rfl hthrottle
  | reserve bucket wake => exact absurd rfl hreserve
  | _ => rfl

/-- Where a worker goes that does not wait for a token or ask for one. -/
theorem not_pause_of_turn (h : Turn s i role hostId e pt pt' s' log) (hreserve : pt ≠ .reserve) (wake : Nat) :
    pt' ≠ .pause wake := by
  cases h with
  | reserve bucket wake => exact absurd rfl hreserve
  | _ => rintro ⟨⟩

theorem granted?_of_turn (h : Turn s i role hostId e pt pt' s' log) (hthrottle : pt ≠ .throttle)
    (hpause : ∀ wake, pt ≠ .pause wake) : granted? now pt pt' = none := by
  cases h with
  | allow bucket => exact absurd rfl hthrottle
  | resume => exact absurd rfl (hpause _)
  | _ => rfl

theorem begins?_goTo (hw : s.workers[i]? = some w) (hw' : s'.workers[i]? = some w) :
    begins? now s (s'.goTo i pt) (.work i e) = granted? now w.point pt := by
  simp [begins?, getElem?_goTo, hw, hw']

/-! ### The ledger of relaunches -/

/-- What is taken from the bucket, for which relaunch, when a worker stands at a point. -/
def Stands (b : TokenBucket) (grants : List Nat) (taken : ℚ) : Point → Prop
  | .pause wake => b.Granted (grants ++ [wake]) ∧ taken = 1
  | pt => pt.isBusy = true → taken = 0

/-- The relaunches of a history are grants of the bucket. -/
structure Ledger (settings : Settings.Host) (c : History) : Prop where
  custody : Custody c.supervisor
  burst : c.supervisor.bucket.burst = settings.restartBurst.toNat
  interval : c.supervisor.bucket.interval = settings.restartInterval.toNat
  asked : c.supervisor.bucket.Asked c.now
  granted : c.supervisor.bucket.Granted c.grants
  stands : ∀ w ∈ c.supervisor.workers, Stands c.supervisor.bucket c.grants c.taken w.point
  idle : (∀ w ∈ c.supervisor.workers, w.point.isBusy = false) → c.taken = 0 ∨ c.supervisor.phase = .stopped
  whole : ∀ r ∈ c.relaunches, r.tokens = 1 ∧ r.granted ≤ r.begun

theorem stands_of_not_busy {b : TokenBucket} {grants : List Nat} {taken : ℚ} (h : pt.isBusy = false) :
    Stands b grants taken pt := by
  cases pt with
  | pause wake => cases h
  | _ => exact fun hbusy => absurd (h.symm.trans hbusy) Bool.false_ne_true

theorem stands_zero {b : TokenBucket} {grants : List Nat} (h : ∀ wake, pt ≠ .pause wake) :
    Stands b grants 0 pt := by
  cases pt with
  | pause wake => exact absurd rfl (h wake)
  | _ => exact fun _ => rfl

theorem Stands.taken_eq {b : TokenBucket} {grants : List Nat} {taken : ℚ} (h : Stands b grants taken pt)
    (hbusy : pt.isBusy = true) (hpause : ∀ wake, pt ≠ .pause wake) : taken = 0 := by
  cases pt with
  | pause wake => exact absurd rfl (hpause wake)
  | _ => exact h hbusy

theorem Ledger.start (hburst : 0 < settings.restartBurst) (hinterval : 0 < settings.restartInterval) :
    Ledger settings (start settings) where
  custody := custody_new settings
  burst := rfl
  interval := rfl
  asked := ⟨Int.pos_iff_toNat_pos.1 hinterval, Int.pos_iff_toNat_pos.1 hburst, le_rfl⟩
  granted := TokenBucket.granted_nil _
  stands _ hw := absurd hw List.not_mem_nil
  idle _ := Or.inl rfl
  whole _ hr := absurd hr List.not_mem_nil

/-- The busy worker goes to another point: nobody else has to do with relaunches. -/
theorem Ledger.move (h : Ledger settings c) (hw : c.supervisor.workers[i]? = some w)
    {relaunches : List Relaunch} {taken : ℚ} (hcustody : Custody (s'.goTo i pt))
    (hbusy : w.point.isBusy = true) (hworkers : s'.workers = c.supervisor.workers)
    (hburst : s'.bucket.burst = c.supervisor.bucket.burst)
    (hinterval : s'.bucket.interval = c.supervisor.bucket.interval) (hasked : s'.bucket.Asked c.now)
    (hgranted : s'.bucket.Granted (relaunches.map (·.granted)))
    (hstands : Stands s'.bucket (relaunches.map (·.granted)) taken pt)
    (hidle : pt.isBusy = false → taken = 0 ∨ s'.phase = .stopped)
    (hwhole : ∀ r ∈ relaunches, r.tokens = 1 ∧ r.granted ≤ r.begun) :
    Ledger settings ⟨s'.goTo i pt, c.now, relaunches, taken⟩ where
  custody := hcustody
  burst := hburst.trans h.burst
  interval := hinterval.trans h.interval
  asked := hasked
  granted := hgranted
  stands := by
    intro v hv
    obtain ⟨j, hj⟩ := List.getElem?_of_mem hv
    have hget := hj
    rw [getElem?_goTo, hworkers] at hget
    split at hget
    · obtain ⟨u, -, rfl⟩ := Option.map_eq_some_iff.1 hget
      exact hstands
    · rename_i hij
      refine stands_of_not_busy (Bool.eq_false_iff.2 fun hv => hij ?_)
      exact h.custody.busy i j w v hw hget hbusy hv
  idle hidle' := by
    refine hidle (hidle' { w with point := pt } (List.mem_of_getElem? (i := i) ?_))
    rw [getElem?_goTo, if_pos rfl, hworkers, hw, Option.map_some]
  whole := hwhole

/-- Who was not busy becomes so only by a call to start that is let in. -/
theorem idle_of_turn (h : Turn s i role hostId e pt pt' s' log) (hpt : pt.isBusy = false) :
    s'.workers = s.workers ∧ (pt'.isBusy = true → s.phase = .idle) := by
  cases h with
  | enter idle => exact ⟨rfl, fun _ => idle⟩
  | refuse | stopAgain | seize | stop | terminate | join => exact ⟨rfl, by rintro ⟨⟩⟩
  | _ => cases hpt

/-- A worker takes a step that has nothing to do with tokens. -/
theorem Ledger.aside (h : Ledger settings c) (hw : c.supervisor.workers[i]? = some w)
    (hturn : Turn c.supervisor i w.role w.hostId e w.point pt s' log) (hcustody : Custody (s'.goTo i pt))
    (hbucket : s'.bucket = c.supervisor.bucket) (hpt : ∀ wake, pt ≠ .pause wake)
    (hpause : ∀ wake, w.point ≠ .pause wake) : Ledger settings ⟨s'.goTo i pt, c.now, c.relaunches, c.taken⟩ := by
  have hkept : s'.bucket.Asked c.now ∧ s'.bucket.Granted c.grants := hbucket ▸ ⟨h.asked, h.granted⟩
  by_cases hbusy : w.point.isBusy = true
  · have hzero : c.taken = 0 := (h.stands w (List.mem_of_getElem? hw)).taken_eq hbusy hpause
    refine ⟨hcustody, (congrArg _ hbucket).trans h.burst, (congrArg _ hbucket).trans h.interval, hkept.1,
      hkept.2, fun v hv => ?_, fun _ => Or.inl hzero, h.whole⟩
    show Stands s'.bucket c.grants c.taken v.point
    rw [hbucket]
    rcases hturn.mem_workers hw hv with rfl | ⟨j, -, hj⟩ | hwatch
    · exact hzero ▸ stands_zero hpt
    · exact h.stands v (List.mem_of_getElem? hj)
    · rw [hwatch, hzero]
      exact stands_zero (by rintro _ ⟨⟩)
  · obtain ⟨hworkers, hidle⟩ := idle_of_turn hturn (Bool.eq_false_iff.2 hbusy)
    have hzero (hin : pt.isBusy = true) : c.taken = 0 := by
      have hphase := hidle hin
      refine (h.idle fun v hv => Bool.eq_false_iff.2 fun hvbusy => ?_).resolve_right (by simp [hphase])
      exact (h.custody.footing v hv).phase_ne_idle hvbusy hphase
    refine ⟨hcustody, (congrArg _ hbucket).trans h.burst, (congrArg _ hbucket).trans h.interval, hkept.1,
      hkept.2, fun v hv => ?_, fun hnone => ?_, h.whole⟩
    · show Stands s'.bucket c.grants c.taken v.point
      rw [hbucket]
      obtain ⟨j, hj⟩ := List.getElem?_of_mem hv
      rw [getElem?_goTo, hworkers] at hj
      split at hj
      · obtain ⟨u, -, rfl⟩ := Option.map_eq_some_iff.1 hj
        by_cases hin : pt.isBusy = true
        · exact hzero hin ▸ stands_zero hpt
        · exact stands_of_not_busy (Bool.eq_false_iff.2 hin)
      · exact h.stands v (List.mem_of_getElem? hj)
    · refine (h.idle fun v hv => ?_).imp_right fun hstopped => (hturn.of_stopped hstopped).1
      obtain ⟨j, hj⟩ := List.getElem?_of_mem hv
      have hget := getElem?_goTo s' i pt j
      rw [hworkers, hj] at hget
      split at hget
      · rename_i hij
        obtain rfl := Option.some_inj.1 ((hij ▸ hw).symm.trans hj)
        exact Bool.eq_false_iff.2 hbusy
      · exact hnone v (List.mem_of_getElem? hget)

/-! ### Moves of a history -/

/-- A move that leaves the workers where they are, and the bucket, only changes the supervisor. -/
theorem take_still {m : Move} (hm : begins? c.now c.supervisor (c.supervisor.take (stamp c.now m)).1 m = none)
    (hbucket : (c.supervisor.take (stamp c.now m)).1.bucket = c.supervisor.bucket) :
    c.take (.move m) = { c with supervisor := (c.supervisor.take (stamp c.now m)).1 } := by
  simp [History.take, hm, hbucket]

/-- The step of a worker in a history. -/
theorem take_goTo (hw : c.supervisor.workers[i]? = some w)
    (hstate : (c.supervisor.take (stamp c.now (.work i e))).1 = s'.goTo i pt)
    (hw' : s'.workers[i]? = some w) :
    c.take (.move (.work i e)) = match granted? c.now w.point pt with
      | some granted => ⟨s'.goTo i pt, c.now, c.relaunches ++
          [⟨granted, c.now, c.taken + (c.supervisor.bucket.level c.now - s'.bucket.level c.now)⟩], 0⟩
      | none => ⟨s'.goTo i pt, c.now, c.relaunches,
          c.taken + (c.supervisor.bucket.level c.now - s'.bucket.level c.now)⟩ := by
  have hbegins : begins? c.now c.supervisor (c.supervisor.take (stamp c.now (.work i e))).1 (.work i e) =
      granted? c.now w.point pt := by
    rw [hstate]
    exact begins?_goTo hw hw'
  rw [History.take, hbegins, hstate]
  rfl

theorem granted?_self (now : Nat) (pt : Point) : granted? now pt pt = none := by
  cases pt <;> rfl

/-- A worker that is there and ready takes its step at the time that it is. -/
theorem take_work (c : History) (i : Nat) (e : Surroundings) :
    c.take (.move (.work i e)) = c ∨ ∃ w, c.supervisor.workers[i]? = some w ∧
      c.supervisor.isReady c.now w.point = true ∧
      (c.supervisor.take (stamp c.now (.work i e))).1 = (c.supervisor.act i w { e with now := c.now }).1 := by
  rcases Supervisor.take_work c.supervisor i { e with now := c.now } with heq | ⟨w, hw, hready, heq⟩
  · left
    have hbegins : begins? c.now c.supervisor (c.supervisor.take (stamp c.now (.work i e))).1 (.work i e) =
        none := by
      rw [stamp, heq, begins?]
      cases c.supervisor.workers[i]? with
      | none => rfl
      | some w => exact granted?_self c.now w.point
    rw [take_still hbegins (congrArg bucket heq)]
    exact congrArg (fun s => { c with supervisor := s }) heq
  · exact Or.inr ⟨w, hw, hready, heq⟩

/-- The loop goes on to launch with the token that was taken for it. -/
theorem Ledger.grant (h : Ledger settings c) (hw : c.supervisor.workers[i]? = some w)
    (hcustody : Custody (s'.goTo i .launch)) (hbusy : w.point.isBusy = true)
    (hworkers : s'.workers = c.supervisor.workers) (hburst : s'.bucket.burst = c.supervisor.bucket.burst)
    (hinterval : s'.bucket.interval = c.supervisor.bucket.interval) (hasked : s'.bucket.Asked c.now)
    {granted : Nat} {tokens : ℚ} (hgranted : s'.bucket.Granted (c.grants ++ [granted]))
    (hnow : granted ≤ c.now) (htokens : tokens = 1) :
    Ledger settings ⟨s'.goTo i .launch, c.now, c.relaunches ++ [⟨granted, c.now, tokens⟩], 0⟩ := by
  have hall : c.grants ++ [granted] = (c.relaunches ++ [(⟨granted, c.now, tokens⟩ : Relaunch)]).map (·.granted) := by
    rw [List.map_append]
    rfl
  refine h.move hw hcustody hbusy hworkers hburst hinterval hasked (hall ▸ hgranted) (fun _ => rfl) (by rintro ⟨⟩) ?_
  intro r hr
  rcases List.mem_append.1 hr with hr | hr
  · exact h.whole r hr
  · rw [List.mem_singleton.1 hr]
    exact ⟨htokens, hnow⟩

/-- The loop goes on with the token that is there, or comes to wait for one. -/
theorem Ledger.throttle (h : Ledger settings c) (hw : c.supervisor.workers[i]? = some w)
    (hp : w.point = .throttle)
    (hstate : (c.supervisor.take (stamp c.now (.work i e))).1 = (c.supervisor.act i w { e with now := c.now }).1)
    (hcustody : Custody (c.supervisor.take (stamp c.now (.work i e))).1) :
    Ledger settings (c.take (.move (.work i e))) := by
  have hzero : c.taken = 0 :=
    (h.stands w (List.mem_of_getElem? hw)).taken_eq (by rw [hp]; rfl) (by rw [hp]; rintro _ ⟨⟩)
  have htake := TokenBucket.take?_eq h.asked
  split at htake
  · rename_i hlevel
    have hact : (c.supervisor.act i w { e with now := c.now }).1 =
        { c.supervisor with bucket := c.supervisor.bucket.spend c.now }.goTo i .launch := by
      simp [act, hp, throttleStep, htake]
    have hgrants : (c.supervisor.bucket.spend c.now).Granted (c.grants ++ [c.now]) := by
      have hspend := h.granted.spend h.asked
      rwa [TokenBucket.delay_eq_zero h.asked hlevel] at hspend
    rw [take_goTo hw (hstate.trans hact) hw, hp]
    rw [hstate, hact] at hcustody
    refine h.grant hw hcustody (by rw [hp]; rfl) rfl rfl rfl h.asked.spend hgrants le_rfl ?_
    rw [TokenBucket.level_spend h.asked, hzero]
    ring
  · have hact : (c.supervisor.act i w { e with now := c.now }).1 =
        { c.supervisor with tally := { c.supervisor.tally with
            throttledRestarts := c.supervisor.tally.throttledRestarts + 1 } }.goTo i .reserve := by
      simp [act, hp, throttleStep, htake]
    rw [take_goTo hw (hstate.trans hact) hw, hp]
    rw [hstate, hact] at hcustody
    refine h.move hw hcustody (by rw [hp]; rfl) rfl rfl rfl h.asked h.granted ?_ (by rintro ⟨⟩) h.whole
    rw [hzero, sub_self, add_zero]
    exact fun _ => rfl

/-- The loop reserves a token and waits until it is granted, unless the supervisor is stopped. -/
theorem Ledger.reserve (h : Ledger settings c) (hw : c.supervisor.workers[i]? = some w)
    (hp : w.point = .reserve)
    (hstate : (c.supervisor.take (stamp c.now (.work i e))).1 = (c.supervisor.act i w { e with now := c.now }).1)
    (hcustody : Custody (c.supervisor.take (stamp c.now (.work i e))).1) :
    Ledger settings (c.take (.move (.work i e))) := by
  have hzero : c.taken = 0 :=
    (h.stands w (List.mem_of_getElem? hw)).taken_eq (by rw [hp]; rfl) (by rw [hp]; rintro _ ⟨⟩)
  by_cases hphase : c.supervisor.phase = .stopped
  · have hact : (c.supervisor.act i w { e with now := c.now }).1 = c.supervisor.goTo i .done := by
      simp [act, hp, hphase]
    rw [take_goTo hw (hstate.trans hact) hw, hp]
    rw [hstate, hact] at hcustody
    refine h.move hw hcustody (by rw [hp]; rfl) rfl rfl rfl h.asked h.granted
      (stands_of_not_busy rfl) (fun _ => Or.inr hphase) h.whole
  · have hact : (c.supervisor.act i w { e with now := c.now }).1 =
        { c.supervisor with bucket := c.supervisor.bucket.spend c.now }.goTo i
          (.pause (c.now + c.supervisor.bucket.delay c.now)) := by
      simp [act, hp, hphase, TokenBucket.reserve_eq h.asked]
    have hgrants := h.granted.spend h.asked
    rw [take_goTo hw (hstate.trans hact) hw, hp]
    rw [hstate, hact] at hcustody
    refine h.move hw hcustody (by rw [hp]; rfl) rfl rfl rfl h.asked.spend
      (hgrants.sublist (List.sublist_append_left ..)) ⟨hgrants, ?_⟩ (by rintro ⟨⟩)
      h.whole
    show c.taken + (c.supervisor.bucket.level c.now - (c.supervisor.bucket.spend c.now).level c.now) = 1
    rw [TokenBucket.level_spend h.asked, hzero]
    ring

/-- The wait is over, or abandoned. -/
theorem Ledger.pause {wake : Nat} (h : Ledger settings c) (hw : c.supervisor.workers[i]? = some w)
    (hp : w.point = .pause wake) (hready : c.supervisor.isReady c.now w.point = true)
    (hstate : (c.supervisor.take (stamp c.now (.work i e))).1 = (c.supervisor.act i w { e with now := c.now }).1)
    (hcustody : Custody (c.supervisor.take (stamp c.now (.work i e))).1) :
    Ledger settings (c.take (.move (.work i e))) := by
  have hstands := h.stands w (List.mem_of_getElem? hw)
  rw [hp] at hstands hready
  obtain ⟨hgrants, hone⟩ := hstands
  by_cases hphase : c.supervisor.phase = .stopped
  · have hact : (c.supervisor.act i w { e with now := c.now }).1 = c.supervisor.goTo i .done := by
      simp [act, hp, hphase]
    rw [take_goTo hw (hstate.trans hact) hw, hp]
    rw [hstate, hact] at hcustody
    exact h.move hw hcustody (by rw [hp]; rfl) rfl rfl rfl h.asked h.granted
      (stands_of_not_busy rfl) (fun _ => Or.inr hphase) h.whole
  · have hact : (c.supervisor.act i w { e with now := c.now }).1 = c.supervisor.goTo i .launch := by
      simp [act, hp, hphase]
    have hdue : wake ≤ c.now := by simpa [isReady, hphase] using hready
    rw [take_goTo hw (hstate.trans hact) hw, hp]
    rw [hstate, hact] at hcustody
    refine h.grant hw hcustody (by rw [hp]; rfl) rfl rfl rfl h.asked hgrants hdue ?_
    rw [hone, sub_self, add_zero]

theorem Ledger.work (h : Ledger settings c) (i : Nat) (e : Surroundings) :
    Ledger settings (c.take (.move (.work i e))) := by
  rcases take_work c i e with heq | ⟨w, hw, hready, hstate⟩
  · rw [heq]
    exact h
  have hcustody := custody_take c.supervisor (stamp c.now (.work i e)) h.custody
  by_cases hthrottle : w.point = .throttle
  · exact h.throttle hw hthrottle hstate hcustody
  by_cases hreserve : w.point = .reserve
  · exact h.reserve hw hreserve hstate hcustody
  by_cases hpause : ∃ wake, w.point = .pause wake
  · obtain ⟨wake, hpause⟩ := hpause
    exact h.pause hw hpause hready hstate hcustody
  have hpause : ∀ wake, w.point ≠ .pause wake := fun wake hp => hpause ⟨wake, hp⟩
  obtain ⟨pt, s', log, hacts⟩ := exists_acts (i := i) (e := { e with now := c.now }) hready
  have hturn := hacts.turn
  have hbucket := bucket_eq_of_turn hturn hthrottle hreserve
  have hw' : s'.workers[i]? = some w := by
    rcases hturn.workers with heq | heq
    · rw [heq, hw]
    · rw [heq, List.getElem?_append_left (List.getElem?_eq_some_iff.1 hw).1, hw]
  rw [take_goTo hw (hstate.trans hacts.state) hw', granted?_of_turn hturn hthrottle hpause, hbucket, sub_self,
    add_zero]
  rw [hstate, hacts.state] at hcustody
  exact h.aside hw hturn hcustody hbucket (not_pause_of_turn hturn hreserve) hpause

/-- A call comes in. -/
theorem Ledger.enroll (h : Ledger settings c) (hw : w.point.isBusy = false)
    (hcustody : Custody { c.supervisor with workers := c.supervisor.workers ++ [w] }) :
    Ledger settings { c with
      supervisor := { c.supervisor with workers := c.supervisor.workers ++ [w] } } where
  custody := hcustody
  burst := h.burst
  interval := h.interval
  asked := h.asked
  granted := h.granted
  stands v hv := by
    rcases List.mem_append.1 hv with hv | hv
    · exact h.stands v hv
    · rw [List.mem_singleton.1 hv]
      exact stands_of_not_busy hw
  idle hnone := h.idle fun v hv => hnone v (List.mem_append_left _ hv)
  whole := h.whole

theorem Ledger.elapse (h : Ledger settings c) (span : Nat) :
    Ledger settings { c with now := c.now + span } where
  custody := h.custody
  burst := h.burst
  interval := h.interval
  asked := ⟨h.asked.interval, h.asked.burst, h.asked.asOf.trans (Nat.le_add_right ..)⟩
  granted := h.granted
  stands := h.stands
  idle := h.idle
  whole := h.whole

theorem Ledger.take (h : Ledger settings c) (o : Occurrence) : Ledger settings (c.take o) := by
  cases o with
  | elapse span => exact h.elapse span
  | move m =>
      have hcustody := custody_take c.supervisor (stamp c.now m) h.custody
      cases m with
      | work i e => exact h.work i e
      | start hostId =>
          rw [take_still rfl rfl]
          exact h.enroll (w := ⟨.starter, hostId, .entry⟩) rfl hcustody
      | stop =>
          rw [take_still rfl rfl]
          exact h.enroll (w := ⟨.stopper, "", .halt⟩) rfl hcustody
      | exit process code =>
          rw [take_still rfl rfl]
          exact ⟨hcustody, h.burst, h.interval, h.asked, h.granted, h.stands, h.idle, h.whole⟩

/-- **The relaunches of every history are grants of the bucket**, each for one token. -/
theorem Ledger.run (h : Ledger settings c) (occurrences : List Occurrence) : Ledger settings (c.run occurrences) :=
  List.foldlRecOn occurrences _ h fun _ hc o _ => hc.take o

theorem within_begun_le {relaunches : List Relaunch} {late : ℚ} (hearly : ∀ r ∈ relaunches, r.granted ≤ r.begun)
    (hlate : ∀ r ∈ relaunches, (r.begun : ℚ) ≤ r.granted + late) (t u : ℚ) :
    within (relaunches.map (·.begun)) t u ≤ within (relaunches.map (·.granted)) (t - late) u := by
  rw [within, within, List.countP_map, List.countP_map]
  refine List.countP_mono_left fun r hr hin => ?_
  have hin : t ≤ (r.begun : ℚ) ∧ (r.begun : ℚ) ≤ u := of_decide_eq_true hin
  have hbefore : (r.granted : ℚ) ≤ r.begun := by exact_mod_cast hearly r hr
  have hafter := hlate r hr
  exact decide_eq_true ⟨by linarith, by linarith⟩

/-! ### A wait during which the supervisor is stopped -/

/-- The supervisor is stopped, and nobody is busy but who waits for a token. -/
structure Abandoned (s : Supervisor) : Prop where
  stopped : s.phase = .stopped
  delayed : ∀ w ∈ s.workers, w.point.isBusy = true → w.point.isDelayed = true

theorem isBusy_of_isDelayed (h : pt.isDelayed = true) : pt.isBusy = true := by
  cases pt <;> first | rfl | cases h

/-- A stop finds the loop waiting for a token: nobody else is busy. -/
theorem abandoned_of_delayed (hs : Custody s) (hstopped : s.phase = .stopped)
    (hdelayed : ∃ w ∈ s.workers, w.point.isDelayed = true) : Abandoned s := by
  obtain ⟨w, hw, hdelayed⟩ := hdelayed
  refine ⟨hstopped, fun v hv hbusy => ?_⟩
  obtain ⟨i, hi⟩ := List.getElem?_of_mem hw
  obtain ⟨j, hj⟩ := List.getElem?_of_mem hv
  obtain rfl := hs.busy i j w v hi hj (isBusy_of_isDelayed hdelayed) hbusy
  exact Option.some_inj.1 (hi.symm.trans hj) ▸ hdelayed

theorem granted?_of_not_busy (h : pt'.isBusy = false) (now : Nat) (pt : Point) : granted? now pt pt' = none := by
  cases pt' with
  | launch => cases h
  | _ => cases pt <;> rfl

/-- Nobody becomes busy any more. -/
theorem Abandoned.act (h : Abandoned s) (hw : s.workers[i]? = some w) (hready : s.isReady e.now w.point = true) :
    ∃ (pt : Point) (s' : Supervisor), (s.act i w e).1 = s'.goTo i pt ∧ s'.workers = s.workers ∧ pt.isBusy = false ∧
      s'.phase = .stopped := by
  by_cases hbusy : w.point.isBusy = true
  · have hdelayed := h.delayed w (List.mem_of_getElem? hw) hbusy
    refine ⟨.done, s, ?_, rfl, rfl, h.stopped⟩
    cases hp : w.point with
    | reserve | pause wake => simp [Supervisor.act, hp, h.stopped]
    | _ =>
        rw [hp] at hdelayed
        cases hdelayed
  · obtain ⟨pt, s', log, hacts⟩ := exists_acts (i := i) hready
    obtain ⟨hworkers, hidle⟩ := idle_of_turn hacts.turn (Bool.eq_false_iff.2 hbusy)
    refine ⟨pt, s', hacts.state, hworkers, Bool.eq_false_iff.2 fun hin => ?_,
      (hacts.turn.of_stopped h.stopped).1⟩
    cases h.stopped.symm.trans (hidle hin)

theorem supervisor_take (c : History) (m : Move) :
    (c.take (.move m)).supervisor = (c.supervisor.take (stamp c.now m)).1 := by
  simp only [History.take]
  split <;> rfl

theorem Abandoned.work (h : Abandoned c.supervisor) (i : Nat) (e : Surroundings) :
    Abandoned (c.take (.move (.work i e))).supervisor ∧
      (c.take (.move (.work i e))).relaunches = c.relaunches := by
  rcases take_work c i e with heq | ⟨w, hw, hready, hstate⟩
  · rw [heq]
    exact ⟨h, rfl⟩
  · obtain ⟨pt, s', hact, hworkers, hidle, hphase⟩ := h.act (e := { e with now := c.now }) hw hready
    rw [take_goTo hw (hstate.trans hact) ((congrArg (·[i]?) hworkers).trans hw),
      granted?_of_not_busy hidle c.now w.point]
    refine ⟨⟨hphase, fun v hv hbusy => ?_⟩, rfl⟩
    obtain ⟨j, hj⟩ := List.getElem?_of_mem hv
    rw [getElem?_goTo, hworkers] at hj
    split at hj
    · obtain ⟨u, -, rfl⟩ := Option.map_eq_some_iff.1 hj
      exact absurd hbusy (Bool.eq_false_iff.1 hidle)
    · exact h.delayed v (List.mem_of_getElem? hj) hbusy

theorem Abandoned.enroll (h : Abandoned s) (hw : w.point.isBusy = false) :
    Abandoned { s with workers := s.workers ++ [w] } := by
  refine ⟨h.stopped, fun v hv hbusy => ?_⟩
  rcases List.mem_append.1 hv with hv | hv
  · exact h.delayed v hv hbusy
  · rw [List.mem_singleton.1 hv, hw] at hbusy
    cases hbusy

/-- No relaunch begins any more, and no process is launched. -/
theorem Abandoned.take (h : Abandoned c.supervisor) (o : Occurrence) :
    Abandoned (c.take o).supervisor ∧ (c.take o).relaunches = c.relaunches ∧
      (c.take o).supervisor.processes.length = c.supervisor.processes.length := by
  cases o with
  | elapse span => exact ⟨h, rfl, rfl⟩
  | move m =>
      have hlaunched : (c.take (.move m)).supervisor.processes.length = c.supervisor.processes.length := by
        rw [supervisor_take]
        exact (settles_take h.stopped _).launched
      cases m with
      | work i e =>
          obtain ⟨hkept, hsame⟩ := h.work i e
          exact ⟨hkept, hsame, hlaunched⟩
      | start hostId =>
          rw [take_still rfl rfl] at hlaunched ⊢
          exact ⟨h.enroll (w := ⟨.starter, hostId, .entry⟩) rfl, rfl, hlaunched⟩
      | stop =>
          rw [take_still rfl rfl] at hlaunched ⊢
          exact ⟨h.enroll (w := ⟨.stopper, "", .halt⟩) rfl, rfl, hlaunched⟩
      | exit process code =>
          rw [take_still rfl rfl] at hlaunched ⊢
          exact ⟨⟨h.stopped, h.delayed⟩, rfl, hlaunched⟩

theorem Abandoned.run (h : Abandoned c.supervisor) (occurrences : List Occurrence) :
    (c.run occurrences).relaunches = c.relaunches ∧
      (c.run occurrences).supervisor.processes.length = c.supervisor.processes.length := by
  induction occurrences generalizing c with
  | nil => exact ⟨rfl, rfl⟩
  | cons o rest ih =>
      obtain ⟨hkept, hsame, hlength⟩ := h.take o
      obtain ⟨hrelaunches, hlaunched⟩ := ih hkept
      exact ⟨hrelaunches.trans hsame, hlaunched.trans hlength⟩

theorem custody_history (settings : Settings.Host) (occurrences : List Occurrence) :
    Custody ((start settings).run occurrences).supervisor := by
  refine List.foldlRecOn (motive := fun c : History => Custody c.supervisor) occurrences _ (custody_new settings) ?_
  intro c hc o _
  cases o with
  | elapse span => exact hc
  | move m =>
      rw [supervisor_take]
      exact custody_take _ _ hc

/-! ### A bucket that does not limit -/

/-- Nobody waits for a token, and none is taken. -/
structure Unthrottled (c : History) : Prop where
  unlimited : c.supervisor.bucket.isUnlimited = true
  undelayed : ∀ w ∈ c.supervisor.workers, w.point.isDelayed = false
  taken : c.taken = 0

theorem isDelayed_of_turn (h : Turn s i role hostId e pt pt' s' log) (hthrottle : pt ≠ .throttle)
    (hreserve : pt ≠ .reserve) : pt'.isDelayed = false := by
  cases h with
  | throttle => exact absurd rfl hthrottle
  | reserve bucket wake => exact absurd rfl hreserve
  | _ => rfl

/-- The loop goes on to launch without a token. -/
theorem Unthrottled.take_throttle (h : Unthrottled c) (hw : c.supervisor.workers[i]? = some w)
    (hp : w.point = .throttle) : c.take (.move (.work i e)) =
      ⟨c.supervisor.goTo i .launch, c.now, c.relaunches ++ [⟨c.now, c.now, 0⟩], 0⟩ := by
  have hstate : (c.supervisor.take (stamp c.now (.work i e))).1 = c.supervisor.goTo i .launch := by
    simp [stamp, Supervisor.take, step, hw, hp, isReady, act, throttleStep, TokenBucket.take?, h.unlimited]
  rw [take_goTo hw hstate hw, hp, sub_self, h.taken, add_zero]
  rfl

theorem Unthrottled.goTo (h : Unthrottled c) (hw : c.supervisor.workers[i]? = some w)
    (hturn : Turn c.supervisor i w.role w.hostId e w.point pt s' log)
    (hbucket : s'.bucket = c.supervisor.bucket) (hpt : pt.isDelayed = false) (relaunches : List Relaunch) :
    Unthrottled ⟨s'.goTo i pt, c.now, relaunches, 0⟩ := by
  refine ⟨(congrArg TokenBucket.isUnlimited hbucket).trans h.unlimited, fun v hv => ?_, rfl⟩
  rcases hturn.mem_workers hw hv with rfl | ⟨j, -, hj⟩ | hwatch
  · exact hpt
  · exact h.undelayed v (List.mem_of_getElem? hj)
  · rw [hwatch]
    rfl

theorem Unthrottled.work (h : Unthrottled c) (i : Nat) (e : Surroundings) :
    Unthrottled (c.take (.move (.work i e))) := by
  rcases take_work c i e with heq | ⟨w, hw, hready, hstate⟩
  · rw [heq]
    exact h
  obtain ⟨pt, s', log, hacts⟩ := exists_acts (i := i) (e := { e with now := c.now }) hready
  have hturn := hacts.turn
  by_cases hthrottle : w.point = .throttle
  · rw [h.take_throttle hw hthrottle]
    have hallow : Turn c.supervisor i w.role w.hostId e w.point .launch
        { c.supervisor with bucket := c.supervisor.bucket } [] := hthrottle ▸ .allow c.supervisor.bucket
    exact h.goTo hw hallow rfl rfl _
  · have hundelayed := h.undelayed w (List.mem_of_getElem? hw)
    have hreserve : w.point ≠ .reserve := fun hp => by
      rw [hp] at hundelayed
      cases hundelayed
    have hpause (wake : Nat) : w.point ≠ .pause wake := fun hp => by
      rw [hp] at hundelayed
      cases hundelayed
    have hbucket := bucket_eq_of_turn hturn hthrottle hreserve
    have hw' : s'.workers[i]? = some w := by
      rcases hturn.workers with heq | heq
      · rw [heq, hw]
      · rw [heq, List.getElem?_append_left (List.getElem?_eq_some_iff.1 hw).1, hw]
    rw [take_goTo hw (hstate.trans hacts.state) hw', granted?_of_turn hturn hthrottle hpause, hbucket, sub_self,
      add_zero, h.taken]
    exact h.goTo hw hturn hbucket (isDelayed_of_turn hturn hthrottle hreserve) _

theorem Unthrottled.enroll (h : Unthrottled c) (hw : w.point.isDelayed = false) :
    Unthrottled { c with
      supervisor := { c.supervisor with workers := c.supervisor.workers ++ [w] } } := by
  refine ⟨h.unlimited, fun v hv => ?_, h.taken⟩
  rcases List.mem_append.1 hv with hv | hv
  · exact h.undelayed v hv
  · rw [List.mem_singleton.1 hv]
    exact hw

theorem Unthrottled.take (h : Unthrottled c) (o : Occurrence) : Unthrottled (c.take o) := by
  cases o with
  | elapse span => exact ⟨h.unlimited, h.undelayed, h.taken⟩
  | move m =>
      cases m with
      | work i e => exact h.work i e
      | start hostId =>
          rw [take_still rfl rfl]
          exact h.enroll (w := ⟨.starter, hostId, .entry⟩) rfl
      | stop =>
          rw [take_still rfl rfl]
          exact h.enroll (w := ⟨.stopper, "", .halt⟩) rfl
      | exit process code =>
          rw [take_still rfl rfl]
          exact ⟨h.unlimited, h.undelayed, h.taken⟩

theorem Unthrottled.run (h : Unthrottled c) (occurrences : List Occurrence) : Unthrottled (c.run occurrences) :=
  List.foldlRecOn occurrences _ h fun _ hc o _ => hc.take o

theorem Unthrottled.start (h : settings.restartBurst ≤ 0 ∨ settings.restartInterval ≤ 0) :
    Unthrottled (start settings) where
  unlimited := by
    have hnone : settings.restartInterval.toNat = 0 ∨ settings.restartBurst.toNat = 0 := by omega
    simpa [Throttling.start, new, TokenBucket.full, TokenBucket.isUnlimited] using hnone
  undelayed _ hw := absurd hw List.not_mem_nil
  taken := rfl

/-- **Relaunches are throttled.** Whatever calls come in, whenever processes exit, however handshakes go and
in whatever order the workers take their steps: with a burst and an interval the relaunches that the bucket
grants in a closed window of time are at most the burst and one for each interval that fits into the window;
so are those begun in the window, if waits end on time, and otherwise the window counts for as much longer as
they end late. For each relaunch one token is taken, whether the loop had to wait for it or not, and none
begins before it is granted. Once the supervisor is stopped while the loop waits for a token, no relaunch
begins any more and no process is launched. Without a burst or an interval nobody ever waits, and the loop
goes on to launch as soon as it would ask for a token. -/
theorem relaunches_throttled (settings : Settings.Host) (occurrences : List Occurrence) :
    let burst := settings.restartBurst
    let interval := settings.restartInterval
    let c := (start settings).run occurrences
    (0 < burst → 0 < interval →
      (∀ t length : ℚ, 0 ≤ length →
        (within (c.relaunches.map (·.granted)) t (t + length) : Int) ≤ burst + ⌊length / interval⌋) ∧
      (∀ t length late : ℚ, 0 ≤ length → 0 ≤ late → (∀ r ∈ c.relaunches, (r.begun : ℚ) ≤ r.granted + late) →
        (within (c.relaunches.map (·.begun)) t (t + length) : Int) ≤
          burst + ⌊(length + late) / interval⌋) ∧
      ∀ r ∈ c.relaunches, r.tokens = 1 ∧ r.granted ≤ r.begun) ∧
    (c.supervisor.phase = .stopped → (∃ w ∈ c.supervisor.workers, w.point.isDelayed = true) →
      ∀ more, (c.run more).relaunches = c.relaunches ∧
        (c.run more).supervisor.processes.length = c.supervisor.processes.length) ∧
    (burst ≤ 0 ∨ interval ≤ 0 →
      (∀ w ∈ c.supervisor.workers, w.point.isDelayed = false) ∧
      ∀ i w e, c.supervisor.workers[i]? = some w → w.point = .throttle →
        (c.take (.move (.work i e))).relaunches = c.relaunches ++ [⟨c.now, c.now, 0⟩]) := by
  intro burst interval c
  refine ⟨fun hburst hinterval => ?_, fun hstopped hdelayed more => ?_, fun hnone => ?_⟩
  · have hledger : Ledger settings c := (Ledger.start hburst hinterval).run occurrences
    have hgrants (t length : ℚ) (hlength : 0 ≤ length) :
        (within (c.relaunches.map (·.granted)) t (t + length) : Int) ≤ burst + ⌊length / interval⌋ := by
      have hwithin := hledger.granted.within_le hledger.asked.interval (le_add_of_nonneg_right hlength) (t := t)
      have hrate : ((settings.restartInterval.toNat : Nat) : ℚ) = interval := by
        exact_mod_cast congrArg (Int.cast (R := ℚ)) (Int.toNat_of_nonneg hinterval.le)
      rwa [hledger.burst, hledger.interval, Int.toNat_of_nonneg hburst.le, hrate, add_sub_cancel_left] at hwithin
    refine ⟨hgrants, fun t length late hlength hlate hpunctual => ?_, hledger.whole⟩
    have hmore := within_begun_le (fun r hr => (hledger.whole r hr).2) hpunctual t (t + length)
    have hwide := hgrants (t - late) (length + late) (add_nonneg hlength hlate)
    rw [show t - late + (length + late) = t + length by ring] at hwide
    omega
  · exact (abandoned_of_delayed (custody_history settings occurrences) hstopped hdelayed).run more
  · have hunthrottled : Unthrottled c := (Unthrottled.start hnone).run occurrences
    refine ⟨hunthrottled.undelayed, fun i w e hw hp => ?_⟩
    rw [hunthrottled.take_throttle hw hp]

/-- A host that crashes three times: its relaunches are granted at once, after a wait, and not any more, as
the supervisor is stopped during the wait. -/
theorem relaunches_throttled_until_stopped :
    let settings : Settings.Host := { restartBurst := 1, restartInterval := 10 }
    let turn (worker : Nat) : Occurrence := .move (.work worker { now := 0, accepts := true })
    let crash (process : Nat) : Occurrence := .move (.exit process 1)
    let occurrences := [Occurrence.move (.start "h")] ++ List.replicate 10 (turn 0) ++ [turn 1, crash 0] ++
      List.replicate 12 (turn 1) ++ [crash 1] ++ List.replicate 4 (turn 1) ++ [Occurrence.elapse 10] ++
      List.replicate 10 (turn 1) ++ [crash 2] ++ List.replicate 4 (turn 1) ++ [Occurrence.move .stop, turn 2]
    let c := (start settings).run occurrences
    c.relaunches = [⟨0, 0, 1⟩, ⟨10, 10, 1⟩] ∧
    (within (c.relaunches.map (·.begun)) 0 (0 + 10) : Int) ≤ 1 + ⌊((10 + 0 : ℚ) / 10)⌋ ∧
    (∀ more, (c.run more).relaunches = c.relaunches) ∧
    ∀ w ∈ ((start {}).run occurrences).supervisor.workers, w.point.isDelayed = false := by
  intro settings turn crash occurrences c
  have hrelaunches : c.relaunches = [⟨0, 0, 1⟩, ⟨10, 10, 1⟩] := by decide +kernel
  obtain ⟨hpaced, hstopped, -⟩ := relaunches_throttled settings occurrences
  obtain ⟨-, -, hfree⟩ := relaunches_throttled {} occurrences
  obtain ⟨-, hbegun, -⟩ := hpaced (by decide) (by decide)
  refine ⟨hrelaunches, hbegun 0 10 0 (by norm_num) le_rfl ?_, fun more => ?_, (hfree (Or.inl le_rfl)).1⟩
  · show ∀ r ∈ c.relaunches, (r.begun : ℚ) ≤ r.granted + 0
    rw [hrelaunches]
    simp
  · exact (hstopped (by decide +kernel) (by decide +kernel) more).1

end Throttling

end CompilationBridge.Supervisor
