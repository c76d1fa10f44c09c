import CompilationBridge.Text.Hex
import CompilationBridge.Yaml.Scalar

/-!
Values between brackets, braces or quotes. Such a value may run over several lines, and how far those
are indented makes no difference. A line end inside a scalar stands for a blank, and each further one
for itself.
-/

namespace CompilationBridge.Yaml

def isBlank (c : Char) : Bool := c = ' ' || c = '\t'

def isSpace (c : Char) : Bool := isBlank c || c = '\n'

/-- Whether a character ends a word: there is none, or it is a blank or a line end. -/
def endsWord : List Char → Bool
  | [] => true
  | c :: _ => isSpace c

def trimEnd (cs : List Char) : List Char :=
  (cs.reverse.dropWhile isSpace).reverse

/-- Adds, last first, what the line ends inside a scalar stand for. -/
def joined (breaks : Nat) (done : List Char) : List Char :=
  if breaks = 1 then ' ' :: done else List.replicate (breaks - 1) '\n' ++ done

/-- The characters of a text where line ends and the blanks around them are replaced by what they
stand for. `breaks` counts the line ends since the last character that is not blank. -/
def fold (done : List Char) (breaks : Nat) : List Char → List Char
  | [] => done.reverse
  | c :: rest =>
    if c = '\n' then fold (done.dropWhile isBlank) (breaks + 1) rest
    else if 0 < breaks then
      if isBlank c then fold done breaks rest else fold (c :: joined breaks done) 0 rest
    else fold (c :: done) 0 rest

/-- The raw text up to the closing single quote. -/
def singleQuoted (done : List Char) : List Char → Option (List Char × List Char)
  | [] => none
  | '\'' :: '\'' :: rest => singleQuoted ('\'' :: done) rest
  | c :: rest => if c = '\'' then some (done.reverse, rest) else singleQuoted (c :: done) rest

/-- The character of a one letter escape. -/
def unescape? : Char → Option Char
  | '0' => some (Char.ofNat 0)
  | 'a' => some (Char.ofNat 0x07)
  | 'b' => some (Char.ofNat 0x08)
  | 't' => some '\t'
  | '\t' => some '\t'
  | 'n' => some '\n'
  | 'v' => some (Char.ofNat 0x0B)
  | 'f' => some (Char.ofNat 0x0C)
  | 'r' => some '\r'
  | 'e' => some (Char.ofNat 0x1B)
  | ' ' => some ' '
  | '"' => some '"'
  | '\'' => some '\''
  | '/' => some '/'
  | '\\' => some '\\'
  | 'N' => some (Char.ofNat 0x85)
  | '_' => some (Char.ofNat 0xA0)
  | 'L' => some (Char.ofNat 0x2028)
  | 'P' => some (Char.ofNat 0x2029)
  | _ => none

/-- The count of hexadecimal digits after the letter of an escape. -/
def escapeWidth? : Char → Option Nat
  | 'x' => some 2
  | 'u' => some 4
  | 'U' => some 8
  | _ => none

/-- The character of an escape by its number. -/
def numbered? (ds : List Char) : Option Char := do
  let n ← Text.readHex? 0 ds
  if n < 0xD800 ∨ (0xE000 ≤ n ∧ n < 0x110000) then some (Char.ofNat n) else none

/-- Reads up to the closing double quote. `breaks` counts the line ends since the last character that
is not blank; a line end after a backslash stands for nothing. -/
def doubleQuoted : Nat → List Char → Nat → List Char → Option (List Char × List Char)
  | 0, _, _, _ => none
  | fuel + 1, done, breaks, cs =>
    let flushed := if 0 < breaks then joined breaks done else done
    match cs with
    | [] => none
    | '"' :: rest => some (flushed.reverse, rest)
    | '\\' :: '\n' :: rest => doubleQuoted fuel flushed 0 (rest.dropWhile isBlank)
    | '\\' :: c :: rest =>
      match escapeWidth? c with
      | some width =>
        match numbered? (rest.take width) with
        | some x =>
          if rest.length < width then none else doubleQuoted fuel (x :: flushed) 0 (rest.drop width)
        | none => none
      | none =>
        match unescape? c with
        | some x => doubleQuoted fuel (x :: flushed) 0 rest
        | none => none
    | '\n' :: rest => doubleQuoted fuel (done.dropWhile isBlank) (breaks + 1) rest
    | c :: rest =>
      if 0 < breaks && isBlank c then doubleQuoted fuel done breaks rest
      else doubleQuoted fuel (c :: flushed) 0 rest

/-- A scalar in quotes, with what follows it. -/
def quoted? : List Char → Option (String × List Char)
  | '\'' :: rest =>
    (singleQuoted [] rest).map fun (raw, r) => (String.ofList (fold [] 0 raw), r)
  | '"' :: rest =>
    (doubleQuoted (rest.length + 1) [] 0 rest).map fun (cs, r) => (String.ofList cs, r)
  | _ => none

/-- Characters that no scalar without quotes starts with. -/
def indicators : List Char :=
  [',', '[', ']', '\x7b', '\x7d', '#', '&', '*', '!', '|', '>', '\'', '"', '%', '@', '\x60']

/-- Whether a scalar without quotes may start here. -/
def startsPlain : List Char → Bool
  | [] => false
  | c :: rest =>
    if c = '-' || c = '?' || c = ':' then !endsWord rest
    else !isSpace c && !indicators.contains c

/-- Drops blanks, line ends and comments. A comment starts after a blank or a line end, which
`isFree` tells. -/
def skip (isFree : Bool) (inComment : Bool) : List Char → List Char
  | [] => []
  | c :: rest =>
    if inComment then skip true (c ≠ '\n') rest
    else if isSpace c then skip true false rest
    else if c = '#' && isFree then skip true true rest
    else c :: rest

/-- Characters that end a scalar without quotes between brackets. -/
def flowEnds : List Char := [',', '?', '[', ']', '\x7b', '\x7d']

/-- The raw text of a scalar without quotes between brackets, last character first. -/
def flowPlain (done : List Char) : List Char → List Char × List Char
  | [] => (done, [])
  | c :: rest =>
    if flowEnds.contains c then (done, c :: rest)
    else if c = ':' && endsWord rest then (done, c :: rest)
    else if c = '#' && (done.head?.map isSpace).getD false then (done, c :: rest)
    else flowPlain (c :: done) rest

/-- Adds a member, whose key has to be a scalar and new. -/
def addMember? (members : List (String × Tree)) (key value : Tree) :
    Option (List (String × Tree)) := do
  let name ← scalarText key
  if members.any (·.1 = name) then none else some (members ++ [(name, value)])

mutual

/-- A value between brackets. -/
def flowNode : Nat → List Char → Option (Tree × List Char)
  | 0, _ => none
  | fuel + 1, cs =>
    match cs with
    | '[' :: rest => flowItems fuel [] (skip true false rest)
    | '\x7b' :: rest => flowMembers fuel [] (skip true false rest)
    | c :: rest =>
      if c = '\'' || c = '"' then (quoted? (c :: rest)).map fun (s, r) => (.str s, r)
      else if startsPlain (c :: rest) then
        let (raw, r) := flowPlain [c] rest
        let s := String.ofList (fold [] 0 (trimEnd raw.reverse))
        some (resolve s, r)
      else none
    | [] => none

/-- The items of a list up to its closing bracket. A pair stands for a mapping of one member. -/
def flowItems : Nat → List Tree → List Char → Option (Tree × List Char)
  | 0, _, _ => none
  | fuel + 1, items, cs =>
    match cs with
    | ']' :: rest => some (.arr items, rest)
    | _ =>
      match flowNode fuel cs with
      | none => none
      | some (first, r) =>
        match flowValue fuel first (skip false false r) with
        | none => none
        | some (item, r) =>
          match skip false false r with
          | ',' :: r => flowItems fuel (items ++ [item]) (skip true false r)
          | ']' :: r => some (.arr (items ++ [item]), r)
          | _ => none

/-- An item of a list that may turn out to be the key of a pair. -/
def flowValue : Nat → Tree → List Char → Option (Tree × List Char)
  | 0, _, _ => none
  | fuel + 1, key, cs =>
    match cs with
    | ':' :: rest =>
      match skip true false rest with
      | ',' :: r => (addMember? [] key .null).map fun ms => (.obj ms, ',' :: r)
      | ']' :: r => (addMember? [] key .null).map fun ms => (.obj ms, ']' :: r)
      | r =>
        match flowNode fuel r with
        | some (value, r) => (addMember? [] key value).map fun ms => (.obj ms, r)
        | none => none
    | _ => some (key, cs)

/-- The members of a mapping up to its closing brace. -/
def flowMembers : Nat → List (String × Tree) → List Char → Option (Tree × List Char)
  | 0, _, _ => none
  | fuel + 1, members, cs =>
    match cs with
    | '\x7d' :: rest => some (.obj members, rest)
    | _ =>
      match flowNode fuel cs with
      | none => none
      | some (key, r) =>
        match memberValue fuel (skip false false r) with
        | none => none
        | some (value, r) =>
          match addMember? members key value with
          | none => none
          | some members =>
            match skip false false r with
            | ',' :: r => flowMembers fuel members (skip true false r)
            | '\x7d' :: r => some (.obj members, r)
            | _ => none

/-- The value after a key, which may be missing. -/
def memberValue : Nat → List Char → Option (Tree × List Char)
  | 0, _ => none
  | fuel + 1, cs =>
    match cs with
    | ':' :: rest =>
      match skip true false rest with
      | ',' :: r => some (.null, ',' :: r)
      | '\x7d' :: r => some (.null, '\x7d' :: r)
      | r => flowNode fuel r
    | _ => some (.null, cs)

end

/-- A value that starts with a bracket, a brace or a quote, with what follows it. -/
def flow? (cs : List Char) : Option (Tree × List Char) :=
  flowNode (2 * cs.length + 2) cs

end CompilationBridge.Yaml
