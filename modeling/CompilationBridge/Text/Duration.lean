/-!
Durations written as numbers with units, such as `1h30m` or `.5s`. A duration is counted in
nanoseconds and fits in sixty-four bits with a sign; what is finer than a nanosecond is dropped.
-/

namespace CompilationBridge.Text.Duration

/-- The nanoseconds of a unit. -/
def unit? (name : List Char) : Option Nat :=
  match String.ofList name with
  | "ns" => some 1
  | "us" => some 1000
  | "µs" => some 1000
  | "μs" => some 1000
  | "ms" => some 1000000
  | "s" => some 1000000000
  | "m" => some 60000000000
  | "h" => some 3600000000000
  | _ => none

def isDigit (c : Char) : Bool := '0' ≤ c && c ≤ '9'

def number (ds : List Char) : Nat :=
  ds.foldl (fun n c => n * 10 + (c.toNat - 0x30)) 0

def isUnitChar (c : Char) : Bool := c ≠ '.' && !isDigit c

/-- The digits after a point, if there is one. -/
def fraction (cs : List Char) : List Char × List Char :=
  match cs with
  | '.' :: rest => (rest.takeWhile isDigit, rest.dropWhile isDigit)
  | _ => ([], cs)

/-- The largest magnitude. -/
def limit : Nat := 0x8000000000000000

/-- Reads one number with its unit: the nanoseconds, and what follows. -/
def term? (cs : List Char) : Option (Nat × List Char) :=
  let whole := cs.takeWhile isDigit
  let (part, r) := fraction (cs.dropWhile isDigit)
  if whole = [] ∧ part = [] then none
  else do
    let unit ← unit? (r.takeWhile isUnitChar)
    let n := number whole * unit + number part * unit / Nat.pow 10 part.length
    if number whole ≤ limit ∧ n ≤ limit then some (n, r.dropWhile isUnitChar) else none

/-- Reads terms until nothing is left. Each term takes at least one character. -/
def terms? : Nat → Nat → List Char → Option Nat
  | _, total, [] => some total
  | 0, _, _ :: _ => none
  | fuel + 1, total, c :: cs =>
    match term? (c :: cs) with
    | some (n, rest) => if total + n ≤ limit then terms? fuel (total + n) rest else none
    | none => none

def magnitude? (cs : List Char) : Option Nat :=
  if cs = ['0'] then some 0
  else if cs = [] then none
  else terms? cs.length 0 cs

def parse? (s : String) : Option Int :=
  match s.toList with
  | '-' :: rest => (magnitude? rest).map fun n => -(n : Int)
  | '+' :: rest => (magnitude? rest).bind fun n => if n < limit then some (n : Int) else none
  | cs => (magnitude? cs).bind fun n => if n < limit then some (n : Int) else none

end CompilationBridge.Text.Duration
