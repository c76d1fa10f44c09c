import CompilationBridge.Json.Basic
import CompilationBridge.Text.Double

/-!
What a scalar written without quotes stands for: null, a truth value, a number or a text. Numbers are
kept in one canonical form, so `0x10`, `1_6` and `16` are the same number.
-/

namespace CompilationBridge.Yaml

abbrev Tree := Json

def nulls : List String := ["", "~", "null", "Null", "NULL"]

def trues : List String :=
  ["y", "Y", "yes", "Yes", "YES", "true", "True", "TRUE", "on", "On", "ON"]

def falses : List String :=
  ["n", "N", "no", "No", "NO", "false", "False", "FALSE", "off", "Off", "OFF"]

/-- The spellings of infinite numbers and of what is no number, by their canonical form. -/
def specials : List (String × List String) := [
  (".nan", [".nan", ".NaN", ".NAN"]),
  (".inf", [".inf", ".Inf", ".INF", "+.inf", "+.Inf", "+.INF"]),
  ("-.inf", ["-.inf", "-.Inf", "-.INF"])]

def isDigit (c : Char) : Bool := '0' ≤ c && c ≤ '9'

/-- The value of a digit of a base up to sixteen. -/
def digit? (base : Nat) (c : Char) : Option Nat :=
  let n :=
    if isDigit c then c.toNat - '0'.toNat
    else if 'a' ≤ c && c ≤ 'f' then c.toNat - 'a'.toNat + 10
    else if 'A' ≤ c && c ≤ 'F' then c.toNat - 'A'.toNat + 10
    else base
  if n < base then some n else none

def magnitude? (base : Nat) (cs : List Char) : Option Nat :=
  if cs = [] then none
  else cs.foldlM (fun n c => (digit? base c).map (base * n + ·)) 0

/-- A whole number without a sign, in the base that its first characters tell. -/
def unsigned? : List Char → Option Nat
  | ['0'] => some 0
  | '0' :: b :: ds =>
    if b = 'x' ∨ b = 'X' then magnitude? 16 ds
    else if b = 'o' ∨ b = 'O' then magnitude? 8 ds
    else if b = 'b' ∨ b = 'B' then magnitude? 2 ds
    else magnitude? 8 (b :: ds)
  | ds => magnitude? 10 ds

/-- A whole number of sixty-four bits, with or without a sign. -/
def integer? : List Char → Option Int
  | '-' :: ds => (unsigned? ds).bind fun n =>
    if n ≤ 0x8000000000000000 then some (-(n : Int)) else none
  | '+' :: ds => (unsigned? ds).bind fun n =>
    if n < 0x8000000000000000 then some (n : Int) else none
  | ds => (unsigned? ds).bind fun n => if n < 0x10000000000000000 then some (n : Int) else none

/-- The digits before and after a point, and what follows them. -/
def pointed? (cs : List Char) : Option (List Char × List Char × List Char) :=
  let whole := cs.takeWhile isDigit
  let (part, rest) := match cs.dropWhile isDigit with
    | '.' :: r => (r.takeWhile isDigit, r.dropWhile isDigit)
    | r => ([], r)
  if whole = [] ∧ part = [] then none else some (whole, part, rest)

def exponent? : List Char → Option Int
  | [] => some 0
  | e :: rest =>
    if e = 'e' ∨ e = 'E' then
      match rest with
      | '-' :: ds => if ds.all isDigit then (magnitude? 10 ds).map fun n => -(n : Int) else none
      | '+' :: ds => if ds.all isDigit then (magnitude? 10 ds).map fun n => (n : Int) else none
      | ds => if ds.all isDigit then (magnitude? 10 ds).map fun n => (n : Int) else none
    else none

/-- The shortest text of a number with a point or an exponent. -/
def fractional? (cs : List Char) : Option String := do
  let (whole, part, rest) ← pointed? cs
  let power ← exponent? rest
  let n ← magnitude? 10 (whole ++ part)
  let x ← Text.Double.ofDecimal? ⟨n, power - part.length⟩
  some x.shortest.render

def float? : List Char → Option String
  | '-' :: cs => (fractional? cs).map ("-" ++ ·)
  | '+' :: cs => fractional? cs
  | cs => fractional? cs

/-- Whether a scalar may be a number at all. -/
def startsNumber : List Char → Bool
  | [] => false
  | c :: _ => isDigit c || c = '+' || c = '-' || c = '.'

/-- The canonical text of a number. Underscores between digits make no difference. -/
def number? (cs : List Char) : Option String :=
  if !startsNumber cs then none
  else if cs.head? = some '.' then float? cs
  else
    let plain := cs.filter (· ≠ '_')
    match integer? plain with
    | some n => some (toString n)
    | none => float? plain

/-- The value of a scalar written without quotes. -/
def resolve (s : String) : Tree :=
  if nulls.contains s then .null
  else if trues.contains s then .bool true
  else if falses.contains s then .bool false
  else match specials.find? (·.2.contains s) with
    | some (canonical, _) => .num canonical
    | none =>
      match number? s.toList with
      | some literal => .num literal
      | none => .str s

/-- Takes between one and `most` digits. -/
def digitRun? (most : Nat) (cs : List Char) : Option (List Char) :=
  let ds := cs.takeWhile isDigit
  if ds = [] ∨ most < ds.length then none else some (cs.drop ds.length)

/-- Whether a text looks like a date, which is written in quotes. -/
def looksLikeDate (cs : List Char) : Bool :=
  (cs.takeWhile isDigit).length = 4 &&
    ((do
      let r ← match cs.drop 4 with
        | '-' :: r => digitRun? 2 r
        | _ => none
      let r ← match r with
        | '-' :: r => digitRun? 2 r
        | _ => none
      match r with
      | [] => some true
      | c :: _ => some (c = 'T' || c = 't' || c = ' ' || c = '\t')).getD false)

/-- Whether a text looks like a number to the base sixty, which is written in quotes. -/
def looksLikeSixties (cs : List Char) : Bool :=
  cs.contains ':' && (cs.filter (· ≠ '_')).all fun c => isDigit c || c = ':' || c = '.' ||
    c = '-' || c = '+'

/-- Whether a text written without quotes is read as that text. -/
def standsForItself (s : String) : Bool :=
  !looksLikeDate s.toList && !looksLikeSixties s.toList &&
    match resolve s with
    | .str _ => s ≠ "<<"
    | _ => false

/-- The text of a scalar in a message or as a key; null has a mark of its own. -/
def scalarText : Tree → Option String
  | .null => some "<nil>"
  | .bool b => some (if b then "true" else "false")
  | .num ".nan" => some "NaN"
  | .num ".inf" => some "+Inf"
  | .num "-.inf" => some "-Inf"
  | .num literal => some literal
  | .str s => some s
  | _ => none

end CompilationBridge.Yaml
