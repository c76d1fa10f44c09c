import CompilationBridge.Yaml.Flow
import CompilationBridge.Text.Hex

/-!
Writing a document in blocks. A text is written without quotes where it is read as itself that way,
else between single quotes, and between double quotes if it looks like another kind of scalar or has
characters that have to be escaped.
-/

namespace CompilationBridge.Yaml

/-- Whether a text holds an indicator, so that it cannot be written without quotes. -/
def hasIndicator (isFirst afterBlank : Bool) : List Char → Bool
  | [] => false
  | c :: rest =>
    (if isFirst then
      (indicators.contains c) || ((c = '?' || c = ':' || c = '-') && endsWord rest)
    else (c = ':' && endsWord rest) || (c = '#' && afterBlank)) ||
      hasIndicator false (isBlank c) rest

/-- Whether a character has to be escaped. -/
def isSpecial (c : Char) : Bool :=
  let n := c.toNat
  n < 0x20 || (0x7F ≤ n && n < 0xA0) || n = 0x2028 || n = 0x2029 || n = 0xFEFF || n = 0xFFFE ||
    n = 0xFFFF

def startsMark (cs : List Char) : Bool :=
  cs.take 3 = ['-', '-', '-'] || cs.take 3 = ['.', '.', '.']

/-- Whether a text without special characters can be written without quotes. -/
def isPlain (cs : List Char) : Bool :=
  !hasIndicator true true cs && !startsMark cs && cs.head? ≠ some ' ' && cs.getLast? ≠ some ' '

def hexDigits (width n : Nat) : List Char :=
  let ds := (Nat.toDigits 16 n).map Char.toUpper
  List.replicate (width - ds.length) '0' ++ ds

/-- A character between double quotes. -/
def escaped (c : Char) : List Char :=
  let n := c.toNat
  if c = '"' then ['\\', '"']
  else if c = '\\' then ['\\', '\\']
  else if c = '\n' then ['\\', 'n']
  else if c = '\t' then ['\\', 't']
  else if c = '\r' then ['\\', 'r']
  else if isSpecial c then
    if n < 0x100 then '\\' :: 'x' :: hexDigits 2 n else '\\' :: 'u' :: hexDigits 4 n
  else [c]

def doubleQuote (cs : List Char) : String :=
  "\"" ++ String.ofList (cs.flatMap escaped) ++ "\""

def singleQuote (cs : List Char) : String :=
  "'" ++ String.ofList (cs.flatMap fun c => if c = '\'' then ['\'', '\''] else [c]) ++ "'"

def renderText (s : String) : String :=
  let cs := s.toList
  if cs.any isSpecial || !standsForItself s then doubleQuote cs
  else if isPlain cs then s
  else singleQuote cs

/-- A scalar, an empty list or an empty mapping, which are written on the line of their key. -/
def renderInline? : Tree → Option String
  | .null => some "null"
  | .bool b => some (if b then "true" else "false")
  | .num literal => some literal
  | .str s => some (renderText s)
  | .arr [] => some "[]"
  | .obj [] => some "\x7b\x7d"
  | _ => none

/-- The lines of an item, or of any value that a mark stands before. -/
def marked (mark indent : String) : List String → List String
  | [] => []
  | l :: rest => (mark ++ l) :: rest.map (indent ++ ·)

mutual

/-- The lines of a value. -/
def renderLines : Tree → List String
  | .null => ["null"]
  | .bool b => [if b then "true" else "false"]
  | .num literal => [literal]
  | .str s => [renderText s]
  | .arr [] => ["[]"]
  | .arr (item :: rest) => renderItems (item :: rest)
  | .obj [] => ["\x7b\x7d"]
  | .obj (member :: rest) => renderMembers (member :: rest)

def renderItems : List Tree → List String
  | [] => []
  | item :: rest => marked "- " "  " (renderLines item) ++ renderItems rest

def renderMembers : List (String × Tree) → List String
  | [] => []
  | (key, value) :: rest =>
    (match value with
      | .arr (item :: more) => (renderText key ++ ":") :: renderItems (item :: more)
      | .obj (member :: more) =>
        (renderText key ++ ":") :: (renderMembers (member :: more)).map ("  " ++ ·)
      | scalar => marked (renderText key ++ ": ") "" (renderLines scalar)) ++ renderMembers rest

end

/-- The text of a document. -/
def render (t : Tree) : String :=
  String.join ((renderLines t).map (· ++ "\n"))

end CompilationBridge.Yaml
