import CompilationBridge.Json.Parser
import CompilationBridge.Json.Printer

/-!
The compact form of a text. A text that becomes part of a larger one loses the blanks between its
tokens, and its strings escape what begins markup in a web page and the two line separators. Nothing
else of it changes: names, numbers and escapes stay as they were written.
-/

namespace CompilationBridge.Json

/-- Where a scan of a text stands: between the strings, in one, or in one after a backslash. -/
inductive Place where
  | outside
  | inside
  | escaped
deriving DecidableEq, Repr

def Place.next (c : Char) : Place → Place
  | .outside => if c = '"' then .inside else .outside
  | .inside => if c = '"' then .outside else if c = '\\' then .escaped else .inside
  | .escaped => .inside

def respell (c : Char) : List Char :=
  if isMarkup c ∨ c.toNat = 0x2028 ∨ c.toNat = 0x2029 then
    '\\' :: 'u' :: Text.hexDigits 4 c.toNat
  else [c]

def compactFrom (place : Place) : List Char → List Char
  | [] => []
  | c :: rest =>
    if place = .outside ∧ isBlank c then compactFrom place rest
    else respell c ++ compactFrom (place.next c) rest

def compact (cs : List Char) : List Char :=
  compactFrom .outside cs

end CompilationBridge.Json
