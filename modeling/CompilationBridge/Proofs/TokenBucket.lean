import CompilationBridge.TokenBucket
import Mathlib.Data.Rat.Floor
import Mathlib.Tactic.Linarith

/-! The token bucket in exact arithmetic. The level of a bucket is how many tokens are in it, fractions
included: it rises by one token each interval up to the burst, a token can be taken at once exactly if the
level is one at least, and a token that is reserved lowers the level by one and is waited for until the
level would have been one. Whatever tokens are asked for and when, those granted in a window of time are at
most the burst and one for each interval in the window. -/

namespace CompilationBridge.TokenBucket

/-- The tokens in a bucket, fractions included; below zero for tokens that are waited for. -/
def level (b : TokenBucket) (now : Nat) : ℚ :=
  min b.burst ((b.credit + (now - b.asOf : Nat)) / b.interval)

/-- The bucket with one token less. -/
def spend (b : TokenBucket) (now : Nat) : TokenBucket :=
  { b.refill now with credit := (b.refill now).credit - b.interval }

/-- A bucket that limits, asked at a time that is not before the last. -/
structure Asked (b : TokenBucket) (now : Nat) : Prop where
  interval : 0 < b.interval
  burst : 0 < b.burst
  asOf : b.asOf ≤ now

variable {b b' : TokenBucket} {now later wait : Nat}

theorem isUnlimited_eq_false (interval : 0 < b.interval) (burst : 0 < b.burst) : b.isUnlimited = false := by
  simp only [isUnlimited, Bool.or_eq_false_iff, decide_eq_false_iff_not]
  omega

/-! ### The level -/

/-- At first the bucket is full. -/
theorem level_full {interval burst : Nat} (hinterval : 0 < interval) (now : Nat) :
    (full interval burst).level now = burst := by
  have hpos : (0 : ℚ) < interval := by exact_mod_cast hinterval
  refine min_eq_left ((le_div_iff₀ hpos).2 ?_)
  have hnow : (0 : ℚ) ≤ (now - 0 : Nat) := Nat.cast_nonneg _
  have hcredit : (((burst * interval : Nat) : Int) : ℚ) = burst * interval := by push_cast; rfl
  show (burst : ℚ) * interval ≤ (((burst * interval : Nat) : Int) : ℚ) + (now - 0 : Nat)
  rw [hcredit]
  linarith

/-- Without being asked a bucket gains one token each interval, up to the burst. -/
theorem level_later (h : b.Asked now) (hlater : now ≤ later) :
    b.level later = min (b.burst : ℚ) (b.level now + (later - now : Nat) / b.interval) := by
  have hpos : (0 : ℚ) < b.interval := by exact_mod_cast h.interval
  have hspan : ((later - b.asOf : Nat) : ℚ) = (now - b.asOf : Nat) + (later - now : Nat) := by
    rw [← Nat.cast_add]
    congr 1
    have := h.asOf
    omega
  have hgain : (0 : ℚ) ≤ (later - now : Nat) / b.interval := by positivity
  rw [level, level, hspan, ← add_assoc, add_div]
  rcases le_total (b.burst : ℚ) ((b.credit + (now - b.asOf : Nat)) / b.interval) with hfull | hroom
  · rw [min_eq_left hfull, min_eq_left (by linarith), min_eq_left (by linarith)]
  · rw [min_eq_right hroom]

/-- The level in units of credit. -/
theorem credit_refill (h : b.Asked now) : ((b.refill now).credit : ℚ) = b.level now * b.interval := by
  have hpos : (0 : ℚ) < b.interval := by exact_mod_cast h.interval
  rw [level, min_mul_of_nonneg _ _ hpos.le, div_mul_cancel₀ _ hpos.ne', refill]
  push_cast
  rfl

/-- A token less in the bucket is one less at that time. -/
theorem level_spend (h : b.Asked now) : (b.spend now).level now = b.level now - 1 := by
  have hpos : (0 : ℚ) < b.interval := by exact_mod_cast h.interval
  have hasOf : (b.spend now).asOf = now := max_eq_right h.asOf
  have hcredit : ((b.spend now).credit : ℚ) = (b.level now - 1) * b.interval := by
    rw [sub_mul, one_mul, ← credit_refill h]
    exact Int.cast_sub ..
  have hle : b.level now ≤ b.burst := min_le_left ..
  show min (b.burst : ℚ) (((b.spend now).credit + (now - (b.spend now).asOf : Nat)) / b.interval) = _
  rw [hasOf, hcredit, Nat.sub_self, Nat.cast_zero, add_zero, mul_div_cancel_right₀ _ hpos.ne']
  exact min_eq_right (by linarith)

theorem Asked.spend (h : b.Asked now) : (b.spend now).Asked now where
  interval := h.interval
  burst := h.burst
  asOf := (max_eq_right h.asOf).le

/-! ### Taking and reserving -/

/-- A token is there at once exactly if the level is one at least, and then it is taken. -/
theorem take?_eq (h : b.Asked now) : b.take? now = if 1 ≤ b.level now then some (b.spend now) else none := by
  have hpos : (0 : ℚ) < b.interval := by exact_mod_cast h.interval
  have henough : (b.interval : Int) ≤ (b.refill now).credit ↔ 1 ≤ b.level now := by
    rw [← Int.cast_le (R := ℚ), credit_refill h, Int.cast_natCast]
    exact le_mul_iff_one_le_left hpos
  rw [take?, isUnlimited_eq_false h.interval h.burst, if_neg Bool.false_ne_true]
  simp only [← henough]
  rfl

/-- How long to wait for a token. -/
def delay (b : TokenBucket) (now : Nat) : Nat :=
  (-(b.spend now).credit).toNat

theorem reserve_eq (h : b.Asked now) : b.reserve now = (b.spend now, b.delay now) := by
  rw [reserve, isUnlimited_eq_false h.interval h.burst, if_neg Bool.false_ne_true]
  rfl

/-- The wait for a token is as long as the level, with no token taken, needs to rise to one. -/
theorem delay_eq (h : b.Asked now) : (b.delay now : ℚ) = max 0 ((1 - b.level now) * b.interval) := by
  have hcredit : ((b.spend now).credit : ℚ) = (b.level now - 1) * b.interval := by
    rw [sub_mul, one_mul, ← credit_refill h]
    exact Int.cast_sub ..
  rw [delay, ← Int.cast_natCast, Int.toNat_eq_max, Int.cast_max, Int.cast_neg, hcredit, Int.cast_zero,
    max_comm]
  ring_nf

/-- A token that is there is not waited for. -/
theorem delay_eq_zero (h : b.Asked now) (hlevel : 1 ≤ b.level now) : b.delay now = 0 := by
  have hpos : (0 : ℚ) < b.interval := by exact_mod_cast h.interval
  have hnone : (1 - b.level now) * b.interval ≤ 0 := mul_nonpos_of_nonpos_of_nonneg (by linarith) hpos.le
  have hdelay := delay_eq h
  rw [max_eq_left hnone] at hdelay
  exact_mod_cast hdelay

/-! ### Grants in a window -/

/-- When the bucket, followed back or on at its rate, holds nothing. -/
def zero (b : TokenBucket) : Int :=
  b.asOf - b.credit

/-- How many of some times lie in a window. -/
def within (times : List Nat) (t u : ℚ) : Nat :=
  times.countP fun (x : Nat) => t ≤ x ∧ x ≤ u

/-- These are times at which tokens of the bucket were granted: from any window that has some of them, the
bucket has not recovered beyond what its rate gives. -/
def Granted (b : TokenBucket) (times : List Nat) : Prop :=
  ∀ t u : ℚ, 0 < within times t u →
    (within times t u : ℚ) * b.interval ≤ min (b.zero : ℚ) u - t + b.burst * b.interval

variable {times times' : List Nat} {t u : ℚ}

theorem granted_nil (b : TokenBucket) : b.Granted [] :=
  fun _ _ h => absurd h (Nat.not_lt_zero _)

theorem within_mono (h : times'.Sublist times) (t u : ℚ) : within times' t u ≤ within times t u :=
  h.countP_le

/-- Of the grants some may be left out. -/
theorem Granted.sublist (h : b.Granted times) (hsub : times'.Sublist times) : b.Granted times' := by
  intro t u hsome
  have hle := within_mono hsub t u
  refine le_trans ?_ (h t u (hsome.trans_le hle))
  exact mul_le_mul_of_nonneg_right (by exact_mod_cast hle) (Nat.cast_nonneg _)

theorem within_concat (times : List Nat) (x : Nat) (t u : ℚ) :
    within (times ++ [x]) t u = within times t u + if t ≤ x ∧ x ≤ u then 1 else 0 := by
  rw [within, List.countP_append, List.countP_singleton]
  simp [within]

/-- A token taken moves the time at which the bucket holds nothing by an interval at least, and at most the
burst before the next token. -/
theorem zero_spend (h : b.Asked now) :
    b.zero + b.interval ≤ (b.spend now).zero ∧ (now : Int) - b.burst * b.interval + b.interval ≤ (b.spend now).zero := by
  have hasOf : (b.spend now).asOf = now := max_eq_right h.asOf
  have hcredit : (b.spend now).credit =
      min ((b.burst * b.interval : Nat) : Int) (b.credit + (now - b.asOf : Nat)) - b.interval := rfl
  have hnow := h.asOf
  rw [zero, zero, hasOf, hcredit, ← Nat.cast_mul]
  omega

/-- The token is granted at once, or when the bucket that lacks it holds nothing. -/
theorem add_delay (h : b.Asked now) : ((now + b.delay now : Nat) : Int) = max (now : Int) (b.spend now).zero := by
  have hasOf : (b.spend now).asOf = now := max_eq_right h.asOf
  rw [delay, zero, hasOf]
  omega

/-- **One more grant.** -/
theorem Granted.spend (h : b.Granted times) (hasked : b.Asked now) :
    (b.spend now).Granted (times ++ [now + b.delay now]) := by
  intro t u hsome
  show (within (times ++ [now + b.delay now]) t u : ℚ) * b.interval ≤
    min ((b.spend now).zero : ℚ) u - t + b.burst * b.interval
  have hrise : (b.zero : ℚ) + b.interval ≤ (b.spend now).zero := by exact_mod_cast (zero_spend hasked).1
  have hburst : (now : ℚ) - b.burst * b.interval + b.interval ≤ (b.spend now).zero := by
    exact_mod_cast (zero_spend hasked).2
  have hx : ((now + b.delay now : Nat) : ℚ) = max (now : ℚ) (b.spend now).zero := by
    exact_mod_cast congrArg (Int.cast (R := ℚ)) (add_delay hasked)
  have hfull : (b.interval : ℚ) ≤ b.burst * b.interval := by
    exact_mod_cast Nat.le_mul_of_pos_left _ hasked.burst
  rw [within_concat] at hsome ⊢
  rcases Nat.eq_zero_or_pos (within times t u) with hnone | hpos
  · -- the first grant in the window: it was made in the window, or waited for until then
    rw [hnone] at hsome ⊢
    split at hsome
    · rename_i hin
      rw [if_pos hin, hx] at *
      have hle : ((b.spend now).zero : ℚ) ≤ u := (le_max_right _ _).trans hin.2
      rw [min_eq_left hle, zero_add, Nat.cast_one, one_mul]
      rcases le_max_iff.1 hin.1 with ht | ht <;> linarith
    · exact absurd hsome (Nat.lt_irrefl 0)
  · have hbefore := h t u hpos
    split
    · rename_i hin
      rw [hx] at hin
      have hle : ((b.spend now).zero : ℚ) ≤ u := (le_max_right _ _).trans hin.2
      have hmin := min_le_left (b.zero : ℚ) u
      rw [min_eq_left hle, Nat.cast_add, Nat.cast_one, add_mul, one_mul]
      linarith
    · have hmin : min (b.zero : ℚ) u ≤ min ((b.spend now).zero : ℚ) u := by
        refine min_le_min_right u (le_trans ?_ hrise)
        exact le_add_of_nonneg_right (Nat.cast_nonneg _)
      rw [Nat.add_zero]
      linarith

/-- **The grants in a window of time.** -/
theorem Granted.within_le (h : b.Granted times) (hinterval : 0 < b.interval) (htu : t ≤ u) :
    (within times t u : Int) ≤ b.burst + ⌊(u - t) / b.interval⌋ := by
  have hpos : (0 : ℚ) < b.interval := by exact_mod_cast hinterval
  have hbound : (within times t u : ℚ) * b.interval ≤ u - t + b.burst * b.interval := by
    rcases Nat.eq_zero_or_pos (within times t u) with hnone | hsome
    · rw [hnone, Nat.cast_zero, zero_mul]
      have := sub_nonneg.2 htu
      positivity
    · have hmin := min_le_right (b.zero : ℚ) u
      have := h t u hsome
      linarith
  rw [← sub_le_iff_le_add', Int.le_floor, le_div_iff₀ hpos]
  push_cast
  linarith

end CompilationBridge.TokenBucket
