/-!
A token bucket. It holds up to `burst` tokens and gains one each `interval`. Credit is counted in
units of time, `interval` units to a token, so a bucket that is refilled continuously needs no
fractions. Credit may be negative: a token that is reserved before it is there is waited for.
-/

namespace CompilationBridge

structure TokenBucket where
  interval : Nat
  burst : Nat
  credit : Int
  /-- The time up to which credit has been gained. -/
  asOf : Nat := 0
deriving DecidableEq, Repr, Inhabited

namespace TokenBucket

/-- A full bucket. -/
def full (interval burst : Nat) : TokenBucket :=
  { interval := interval, burst := burst, credit := (burst * interval : Nat) }

/-- A bucket that holds nothing or gains at no interval limits nothing. -/
def isUnlimited (b : TokenBucket) : Bool :=
  b.interval = 0 || b.burst = 0

/-- Gains credit up to a time, at most as much as the bucket holds. -/
def refill (b : TokenBucket) (now : Nat) : TokenBucket :=
  { b with
    credit := min (b.burst * b.interval : Nat) (b.credit + (now - b.asOf : Nat))
    asOf := max b.asOf now }

/-- Takes a token if one is there. -/
def take? (b : TokenBucket) (now : Nat) : Option TokenBucket :=
  if b.isUnlimited then some b
  else
    let b := b.refill now
    if (b.interval : Int) ≤ b.credit then some { b with credit := b.credit - b.interval } else none

/-- Takes a token that may not be there yet: the bucket, and how long to wait for it. -/
def reserve (b : TokenBucket) (now : Nat) : TokenBucket × Nat :=
  if b.isUnlimited then (b, 0)
  else
    let b := b.refill now
    let credit := b.credit - b.interval
    ({ b with credit := credit }, (-credit).toNat)

end TokenBucket

end CompilationBridge
