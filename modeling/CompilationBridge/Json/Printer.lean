import CompilationBridge.Json.Basic
import CompilationBridge.Text.Hex

/-!
The compact text of a document. Strings escape the quote, the backslash, the control characters and
the two line separators of Unicode; a text that may stand in a web page also escapes the three
characters that begin markup there.
-/

namespace CompilationBridge.Json

/-- Which characters a text escapes beyond those that it must. -/
inductive Escaping where
  | plain
  | markup
deriving DecidableEq, Repr

def isMarkup (c : Char) : Bool :=
  c = '<' || c = '>' || c = '&'

/-- The one letter escapes. -/
def shortEscape? (c : Char) : Option Char :=
  match c.toNat with
  | 0x08 => some 'b'
  | 0x09 => some 't'
  | 0x0A => some 'n'
  | 0x0C => some 'f'
  | 0x0D => some 'r'
  | 0x22 => some '"'
  | 0x5C => some '\\'
  | _ => none

def escapeChar (e : Escaping) (c : Char) : List Char :=
  match shortEscape? c with
  | some letter => ['\\', letter]
  | none =>
    if c.toNat < 0x20 ∨ c.toNat = 0x2028 ∨ c.toNat = 0x2029 ∨ (e = .markup ∧ isMarkup c) then
      '\\' :: 'u' :: Text.hexDigits 4 c.toNat
    else [c]

def stringChars (e : Escaping) (s : String) : List Char :=
  '"' :: s.toList.flatMap (escapeChar e) ++ ['"']

mutual

def chars (e : Escaping) : Json → List Char
  | .null => "null".toList
  | .bool true => "true".toList
  | .bool false => "false".toList
  | .num literal => literal.toList
  | .str s => stringChars e s
  | .arr items => '[' :: itemChars e items ++ [']']
  | .obj members => '{' :: memberChars e members ++ ['}']

def itemChars (e : Escaping) : List Json → List Char
  | [] => []
  | [item] => chars e item
  | item :: next :: rest => chars e item ++ ',' :: itemChars e (next :: rest)

def memberChars (e : Escaping) : List (String × Json) → List Char
  | [] => []
  | [(name, value)] => stringChars e name ++ ':' :: chars e value
  | (name, value) :: next :: rest =>
    stringChars e name ++ ':' :: chars e value ++ ',' :: memberChars e (next :: rest)

end

def render (e : Escaping) (j : Json) : String :=
  String.ofList (chars e j)

mutual

/-- The same document with the members of every object in the order of their names. -/
def sorted : Json → Json
  | .arr items => .arr (sortedItems items)
  | .obj members => .obj ((sortedMembers members).mergeSort (·.1 ≤ ·.1))
  | .null => .null
  | .bool b => .bool b
  | .num n => .num n
  | .str s => .str s

def sortedItems : List Json → List Json
  | [] => []
  | item :: rest => sorted item :: sortedItems rest

def sortedMembers : List (String × Json) → List (String × Json)
  | [] => []
  | (name, value) :: rest => (name, sorted value) :: sortedMembers rest

end

/-- Documents in the order of their texts, members taken in the order of their names. -/
def sortByText (items : List Json) : List Json :=
  let keyed := items.map fun j => (render .plain (sorted j), j)
  (keyed.mergeSort (·.1 ≤ ·.1)).map (·.2)

end CompilationBridge.Json
