import CompilationBridge.Json.Basic
import CompilationBridge.Text.Bytes
import CompilationBridge.Text.Hex

/-!
Reading a document from its text. The reader works on characters and gives back what follows the
value; it takes no more than ten thousand nested arrays and objects. Its bound on steps is twice the
length of the text: two steps are taken for no character only where a character follows.
-/

namespace CompilationBridge.Json

def isBlank (c : Char) : Bool :=
  c = ' ' || c = '\t' || c = '\n' || c = '\r'

def skipBlanks (cs : List Char) : List Char :=
  cs.dropWhile isBlank

def isDigit (c : Char) : Bool :=
  '0' ≤ c && c ≤ '9'

/-- The code unit of four hexadecimal digits. -/
def unit? (a b c d : Char) : Option Nat :=
  Text.readHex? 0 [a, b, c, d]

def isHighSurrogate (n : Nat) : Bool := 0xD800 ≤ n && n < 0xDC00

def isLowSurrogate (n : Nat) : Bool := 0xDC00 ≤ n && n < 0xE000

/-- The character of a lone code unit; half a surrogate pair stands for the replacement character. -/
def charOfUnit (n : Nat) : Char :=
  if isHighSurrogate n || isLowSurrogate n then Text.replacement else Char.ofNat n

def charOfPair (high low : Nat) : Char :=
  Char.ofNat (0x10000 + (high - 0xD800) * 0x400 + (low - 0xDC00))

/-- The character of a one letter escape. -/
def unescape? (c : Char) : Option Char :=
  match c with
  | '"' => some '"'
  | '\\' => some '\\'
  | '/' => some '/'
  | 'b' => some (Char.ofNat 0x08)
  | 'f' => some (Char.ofNat 0x0C)
  | 'n' => some '\n'
  | 'r' => some '\r'
  | 't' => some '\t'
  | _ => none

/-- A high surrogate that nothing completes is replaced. -/
def settle (high : Option Nat) (done : List Char) : List Char :=
  match high with
  | some _ => Text.replacement :: done
  | none => done

/-- Reads a string after its opening quote. `done` holds the characters read so far, last first. A
high surrogate waits for the low one after it: `high` is the one that waits. -/
def stringBody (high : Option Nat) (done : List Char) : List Char → Option (List Char × List Char)
  | [] => none
  | '"' :: rest => some ((settle high done).reverse, rest)
  | '\\' :: 'u' :: a :: b :: c :: d :: rest =>
    match unit? a b c d, high with
    | none, _ => none
    | some n, some h =>
      if isLowSurrogate n then stringBody none (charOfPair h n :: done) rest
      else if isHighSurrogate n then stringBody (some n) (Text.replacement :: done) rest
      else stringBody none (charOfUnit n :: Text.replacement :: done) rest
    | some n, none =>
      if isHighSurrogate n then stringBody (some n) done rest
      else stringBody none (charOfUnit n :: done) rest
  | '\\' :: c :: rest =>
    match unescape? c with
    | some x => stringBody none (x :: settle high done) rest
    | none => none
  | c :: rest =>
    if c.toNat < 0x20 ∨ c = '\\' then none else stringBody none (c :: settle high done) rest

/-- One or more digits. -/
def digits? (cs : List Char) : Option (List Char × List Char) :=
  match cs.takeWhile isDigit with
  | [] => none
  | ds => some (ds, cs.dropWhile isDigit)

/-- The digits before the point: a zero stands alone. -/
def integer? : List Char → Option (List Char × List Char)
  | '0' :: rest => some (['0'], rest)
  | cs => digits? cs

def fraction? : List Char → Option (List Char × List Char)
  | '.' :: rest => (digits? rest).map fun (ds, r) => ('.' :: ds, r)
  | cs => some ([], cs)

def isExponentMark (c : Char) : Bool := c = 'e' || c = 'E'

def isSign (c : Char) : Bool := c = '+' || c = '-'

def exponent? : List Char → Option (List Char × List Char)
  | [] => some ([], [])
  | m :: rest =>
    if isExponentMark m then
      match rest with
      | s :: r =>
        if isSign s then (digits? r).map fun (ds, r') => (m :: s :: ds, r')
        else (digits? rest).map fun (ds, r') => (m :: ds, r')
      | [] => none
    else some ([], m :: rest)

def sign : List Char → List Char × List Char
  | '-' :: rest => (['-'], rest)
  | cs => ([], cs)

/-- The text of a number, with what follows it. -/
def number? (cs : List Char) : Option (String × List Char) := do
  let (s, r₁) := sign cs
  let (i, r₂) ← integer? r₁
  let (f, r₃) ← fraction? r₂
  let (e, r₄) ← exponent? r₃
  some (String.ofList (s ++ i ++ f ++ e), r₄)

/-- The name of a member and the text from its value on. -/
def memberName? (cs : List Char) : Option (String × List Char) :=
  match cs with
  | '"' :: rest =>
    match stringBody none [] rest with
    | some (s, after) =>
      match skipBlanks after with
      | ':' :: inner => some (String.ofList s, skipBlanks inner)
      | _ => none
    | none => none
  | _ => none

/-- The nesting that a document may have. -/
def maxDepth : Nat := 10000

mutual

/-- Reads a value that starts at the first character. -/
def value? (fuel depth : Nat) (cs : List Char) : Option (Json × List Char) :=
  match fuel with
  | 0 => none
  | fuel + 1 =>
    match cs with
    | '{' :: rest =>
      match depth with
      | 0 => none
      | depth + 1 =>
        match skipBlanks rest with
        | '}' :: after => some (.obj [], after)
        | inner => members? fuel depth [] inner
    | '[' :: rest =>
      match depth with
      | 0 => none
      | depth + 1 =>
        match skipBlanks rest with
        | ']' :: after => some (.arr [], after)
        | inner => items? fuel depth [] inner
    | '"' :: rest =>
      match stringBody none [] rest with
      | some (s, after) => some (.str (String.ofList s), after)
      | none => none
    | 't' :: 'r' :: 'u' :: 'e' :: after => some (.bool true, after)
    | 'f' :: 'a' :: 'l' :: 's' :: 'e' :: after => some (.bool false, after)
    | 'n' :: 'u' :: 'l' :: 'l' :: after => some (.null, after)
    | _ =>
      match number? cs with
      | some (n, after) => some (.num n, after)
      | none => none

/-- Reads the items of an array from the start of one of them; `done` holds the earlier ones, last
first. -/
def items? (fuel depth : Nat) (done : List Json) (cs : List Char) : Option (Json × List Char) :=
  match fuel with
  | 0 => none
  | fuel + 1 =>
    match value? fuel depth cs with
    | none => none
    | some (v, after) =>
      match skipBlanks after with
      | ',' :: rest => items? fuel depth (v :: done) (skipBlanks rest)
      | ']' :: rest => some (.arr (v :: done).reverse, rest)
      | _ => none

/-- Reads the members of an object from the start of one of them. -/
def members? (fuel depth : Nat) (done : List (String × Json)) (cs : List Char) :
    Option (Json × List Char) :=
  match fuel with
  | 0 => none
  | fuel + 1 =>
    match memberName? cs with
    | none => none
    | some (name, inner) =>
      match value? fuel depth inner with
      | none => none
      | some (v, after) =>
        match skipBlanks after with
        | ',' :: rest => members? fuel depth ((name, v) :: done) (skipBlanks rest)
        | '}' :: rest => some (.obj ((name, v) :: done).reverse, rest)
        | _ => none

end

/-- Reads a text that holds one document and blanks around it. -/
def parseChars? (cs : List Char) : Option Json :=
  match value? (2 * cs.length + 2) maxDepth (skipBlanks cs) with
  | some (v, after) => if (skipBlanks after).isEmpty then some v else none
  | none => none

def parse? (s : String) : Option Json :=
  parseChars? s.toList

/-- The members of an object with the text of each value, as it was written, from the start of one
of them. -/
def rawMembers? (fuel : Nat) (done : List (String × List Char)) (cs : List Char) :
    Option (List (String × List Char)) :=
  match fuel with
  | 0 => none
  | fuel + 1 =>
    match memberName? cs with
    | none => none
    | some (name, inner) =>
      match value? (2 * inner.length + 2) (maxDepth - 1) inner with
      | none => none
      | some (_, after) =>
        let entry := (name, inner.take (inner.length - after.length))
        match skipBlanks after with
        | ',' :: rest => rawMembers? fuel (entry :: done) (skipBlanks rest)
        | '}' :: _ => some (entry :: done).reverse
        | _ => none

/-- The members of a text that holds one object, each value as its own text. -/
def rawObject? (s : String) : Option (List (String × String)) :=
  match skipBlanks s.toList with
  | '{' :: rest =>
    match skipBlanks rest with
    | '}' :: _ => some []
    | inner => (rawMembers? (inner.length + 1) [] inner).map
        (·.map fun (name, text) => (name, String.ofList text))
  | _ => none

end CompilationBridge.Json
