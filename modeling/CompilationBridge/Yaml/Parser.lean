import CompilationBridge.Yaml.Flow

/-!
Documents of block mappings and lists. The reader works on lines, each with its indentation: a mapping
or list is made of the lines that are indented like its first one, and what belongs to a key or an item
is indented further. Only a list may be indented like the key that it belongs to. Names for values,
tags and texts in blocks are not read.
-/

namespace CompilationBridge.Yaml

/-- A line without its indentation. -/
structure Line where
  indent : Nat
  text : List Char
deriving Repr, DecidableEq

namespace Line

def ofChars (cs : List Char) : Line :=
  ⟨(cs.takeWhile (· = ' ')).length, cs.dropWhile (· = ' ')⟩

def chars (l : Line) : List Char :=
  List.replicate l.indent ' ' ++ l.text

def isBlank (l : Line) : Bool := l.text.all Yaml.isBlank

/-- Whether a line holds nothing but a comment, or nothing at all. A tab is something: lines are not
indented with tabs. -/
def isVoid (l : Line) : Bool :=
  match l.text with
  | [] => true
  | c :: _ => c = '#'

/-- Whether a line is the given mark, alone or before a blank. -/
def isMark (mark : String) (l : Line) : Bool :=
  l.indent = 0 && mark.toList.isPrefixOf l.text && endsWord (l.text.drop mark.length)

/-- Whether a line starts an item of a list. -/
def isItem (l : Line) : Bool :=
  match l.text with
  | '-' :: rest => endsWord rest
  | _ => false

end Line

/-- The pieces between line ends. -/
def pieces (cs : List Char) : List (List Char) :=
  match cs with
  | [] => [[]]
  | c :: rest =>
    if c = '\n' then [] :: pieces rest
    else match pieces rest with
      | [] => [[c]]
      | p :: more => (c :: p) :: more

def linesOf (cs : List Char) : List Line :=
  (pieces cs).map Line.ofChars

def charsOf : List Line → List Char
  | [] => []
  | [l] => l.chars
  | l :: rest => l.chars ++ '\n' :: charsOf rest

def dropVoid (lines : List Line) : List Line :=
  lines.dropWhile Line.isVoid

/-- Whether nothing but a comment follows on a line. -/
def endsLine (cs : List Char) : Bool :=
  match cs.dropWhile isBlank with
  | [] => true
  | c :: rest => c = '#' && rest.length + 1 < cs.length

/-- What follows a value that may run over lines: its last line ends, and the lines after it stay. -/
def afterFlow? (cs : List Char) : Option (List Line) :=
  if endsLine (cs.takeWhile (· ≠ '\n')) then
    match cs.dropWhile (· ≠ '\n') with
    | [] => some []
    | _ :: rest => some (linesOf rest)
  else none

/-- The text of a line before a comment, and whether there was one. -/
def beforeComment (done : List Char) : List Char → List Char × Bool
  | [] => (done.reverse, false)
  | c :: rest =>
    if c = '#' && (done.head?.map isBlank).getD false then (done.reverse, true)
    else beforeComment (c :: done) rest

/-- The text before the colon that ends a key, and what follows the colon. -/
def splitKey (done : List Char) : List Char → Option (List Char × List Char)
  | [] => none
  | c :: rest =>
    if c = ':' && endsWord rest then some (done.reverse, rest) else splitKey (c :: done) rest

/-- A key in quotes that a line starts with, and what follows its colon. -/
def quotedKey? (cs : List Char) : Option (Tree × List Char) := do
  let (s, after) ← quoted? cs
  match after.dropWhile isBlank with
  | ':' :: rest => if endsWord rest then some (.str s, rest) else none
  | _ => none

/-- A key without quotes that a line starts with, and what follows its colon. A colon in a comment
ends no key. -/
def plainKey? (cs : List Char) : Option (Tree × List Char) := do
  let (raw, rest) ← splitKey [] cs
  if (beforeComment [] raw).2 then none
  else some (resolve (String.ofList (trimEnd raw)), rest)

/-- The key that a line starts with, and the value after it. -/
def keyOf? (l : Line) : Option (Tree × List Char) :=
  let found :=
    if l.text.head? = some '\'' || l.text.head? = some '"' then quotedKey? l.text
    else if startsPlain l.text then plainKey? l.text
    else none
  found.map fun (key, rest) => (key, rest.dropWhile isBlank)

/-- One line of a scalar without quotes, and whether a comment ended it. -/
def plainLine? (cs : List Char) : Option (List Char × Bool) :=
  let (text, ended) := beforeComment [] cs
  match splitKey [] text with
  | some _ => none
  | none => some (trimEnd text, ended)

/-- The further lines of a scalar without quotes. `breaks` counts the line ends since its last
character. -/
def plainRest? (least : Nat) (done : List Char) (breaks : Nat) : List Line →
    Option (List Char × List Line)
  | [] => some (done, [])
  | l :: rest =>
    if l.isBlank then plainRest? least done (breaks + 1) rest
    else if l.indent < least || l.isVoid then some (done, l :: rest)
    else match plainLine? l.text with
      | none => none
      | some (text, ended) =>
        let done := done ++ (joined breaks []).reverse ++ text.dropWhile isBlank
        if ended then some (done, rest) else plainRest? least done 1 rest

/-- A value that starts on a line. -/
def inline? (least : Nat) (cs : List Char) (rest : List Line) : Option (Tree × List Line) :=
  match cs with
  | [] => none
  | c :: _ =>
    if c = '[' || c = '\x7b' || c = '\'' || c = '"' then do
      let (value, r) ← flow? (cs ++ (if rest.isEmpty then [] else '\n' :: charsOf rest))
      let left ← afterFlow? r
      some (value, left)
    else if startsPlain cs then do
      let (text, ended) ← plainLine? cs
      let (text, left) ← if ended then some (text, rest) else plainRest? least text 1 rest
      some (resolve (String.ofList text), left)
    else none

/-- Whether the lines after a key hold its value, and how far that is indented at least. -/
def nested? (indent : Nat) (lines : List Line) : Option Nat :=
  match dropVoid lines with
  | [] => none
  | l :: _ =>
    if indent < l.indent then some (indent + 1)
    else if l.indent = indent && l.isItem then some indent
    else none

mutual

/-- The value on the lines that are indented at least so far. -/
def block : Nat → Nat → List Line → Option (Tree × List Line)
  | 0, _, _ => none
  | fuel + 1, least, lines =>
    match dropVoid lines with
    | [] => some (.null, [])
    | l :: rest =>
      if l.indent < least then some (.null, l :: rest)
      else if l.isItem then items fuel l.indent [] (l :: rest)
      else match keyOf? l with
        | some _ => members fuel l.indent [] (l :: rest)
        | none => inline? least l.text rest

/-- The items of a list. -/
def items : Nat → Nat → List Tree → List Line → Option (Tree × List Line)
  | 0, _, _, _ => none
  | fuel + 1, indent, done, lines =>
    match dropVoid lines with
    | [] => some (.arr done, [])
    | l :: rest =>
      if indent < l.indent then none
      else if l.indent = indent && l.isItem then
        let after := l.text.drop 1
        let content := after.dropWhile isBlank
        let inner := if endsLine after then rest
          else ⟨indent + 1 + (after.length - content.length), content⟩ :: rest
        match block fuel (indent + 1) inner with
        | some (item, left) => items fuel indent (done ++ [item]) left
        | none => none
      else some (.arr done, l :: rest)

/-- The members of a mapping. -/
def members : Nat → Nat → List (String × Tree) → List Line → Option (Tree × List Line)
  | 0, _, _, _ => none
  | fuel + 1, indent, done, lines =>
    match dropVoid lines with
    | [] => some (.obj done, [])
    | l :: rest =>
      if indent < l.indent then none
      else if l.indent < indent then some (.obj done, l :: rest)
      else match keyOf? l with
        | none => none
        | some (key, after) =>
          let value :=
            if after = [] || after.head? = some '#' then
              match nested? indent rest with
              | some least => block fuel least rest
              | none => some (.null, rest)
            else inline? (indent + 1) after rest
          match value with
          | none => none
          | some (value, left) =>
            match addMember? done key value with
            | some done => members fuel indent done left
            | none => none

end

/-- Whether a character may stand in a document. -/
def isAllowed (c : Char) : Bool :=
  let n := c.toNat
  c = '\t' || c = '\n' || (0x20 ≤ n && n ≤ 0x7E) || n = 0x85 || (0xA0 ≤ n && n ≤ 0xFFFD) ||
    0x10000 ≤ n

/-- A text with newlines for all its line ends. -/
def newlines : List Char → List Char
  | [] => []
  | '\r' :: '\n' :: rest => '\n' :: newlines rest
  | c :: rest => (if c = '\r' then '\n' else c) :: newlines rest

/-- The lines of the first document of a text, and whether a mark starts it. -/
def firstDocument (lines : List Line) : List Line × Bool :=
  let isEnd (l : Line) : Bool := l.isMark "---" || l.isMark "..."
  match dropVoid lines with
  | [] => ([], false)
  | l :: rest =>
    if l.isMark "---" then
      let after := (l.text.drop 3).dropWhile isBlank
      let first : List Line := if after = [] then [] else [⟨4, after⟩]
      (first ++ rest.takeWhile (!isEnd ·), true)
    else ((l :: rest).takeWhile (!isEnd ·), false)

/-- Reads the first document of a text. The answer has no value if there is no document. -/
def parse? (text : String) : Option (Option Tree) :=
  let cs := newlines text.toList
  if !cs.all isAllowed then none
  else
    let (lines, isMarked) := firstDocument (linesOf cs)
    if !isMarked && (dropVoid lines).isEmpty then some none
    else match block (2 * cs.length + 4) 0 lines with
      | some (value, left) => if (dropVoid left).isEmpty then some (some value) else none
      | none => none

end CompilationBridge.Yaml
