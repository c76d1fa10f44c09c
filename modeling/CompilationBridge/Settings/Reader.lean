import CompilationBridge.Json.Reader
import CompilationBridge.Settings.Sections
import CompilationBridge.Text.Duration

/-!
Settings read from a tree of values. A missing value or null leaves a setting at its zero. A text may
be given by any scalar, a count by a number whose fraction is dropped, and a duration by a count of
nanoseconds or by its written form. Keys that name no setting are ignored, or refused if the tree is
read strictly.
-/

namespace CompilationBridge.Settings

abbrev Tree := Json

/-- The text of a scalar. -/
def text : Tree → Option String
  | .null => some ""
  | .str s => some s
  | .num literal => some literal
  | .bool b => some (if b then "true" else "false")
  | _ => none

def flag : Tree → Option Bool
  | .null => some false
  | .bool b => some b
  | _ => none

/-- The digits of a number before and after its point, and its exponent. -/
def decimalParts (cs : List Char) : List Char × List Char × List Char :=
  let isDigit := Text.Duration.isDigit
  let (part, rest) := Text.Duration.fraction (cs.dropWhile isDigit)
  (cs.takeWhile isDigit, part, rest)

/-- The power of ten at the end of a number. -/
def exponent? : List Char → Option Int
  | [] => some 0
  | e :: rest =>
    if e = 'e' ∨ e = 'E' then
      match rest with
      | '+' :: ds => (Json.Reader.decimal? ds).map fun n => (n : Int)
      | _ => Json.Reader.integer? (String.ofList rest)
    else none

/-- The magnitude of a decimal number without its fraction. -/
def wholePart? (cs : List Char) : Option Nat := do
  let (whole, part, rest) := decimalParts cs
  if whole = [] ∧ part = [] then none
  let e ← exponent? rest
  let n := Text.Duration.number (whole ++ part)
  let shift := e - part.length
  if shift < 0 then some (n / Nat.pow 10 shift.natAbs)
  else if shift < 40 then some (n * Nat.pow 10 shift.natAbs)
  else if n = 0 then some 0
  else none

/-- A number of sixty-four bits without its fraction. -/
def number? (literal : String) : Option Int :=
  match literal.toList with
  | '-' :: ds => (wholePart? ds).bind fun n =>
    if n ≤ Text.Duration.limit then some (-(n : Int)) else none
  | ds => (wholePart? ds).bind fun n => if n < Text.Duration.limit then some (n : Int) else none

def count : Tree → Option Int
  | .null => some 0
  | .num literal => number? literal
  | _ => none

def duration : Tree → Option Int
  | .null => some 0
  | .num literal => number? literal
  | .str s => Text.Duration.parse? s
  | _ => none

/-- A list of texts, which may be missing. -/
def texts : Tree → Option (Option (List String))
  | .null => some none
  | .arr items => (items.mapM text).map some
  | _ => none

/-- The value of a key, read. -/
def value {α : Type} (t : Tree) (key : String) (read : Tree → Option α) : Option α :=
  read ((t.get? key).getD .null)

/-- Whether a tree can hold a section with these keys. -/
def isSection (strict : Bool) (keys : List String) : Tree → Bool
  | .null => true
  | .obj members => !strict || members.all (keys.contains ·.1)
  | _ => false

def Host.read? (strict : Bool) (t : Tree) : Option Host := do
  guard (isSection strict ["executable", "arguments", "handshakeTimeout", "pollInterval",
    "restartBurst", "restartInterval"] t)
  let executable ← value t "executable" text
  let arguments ← value t "arguments" texts
  let handshakeTimeout ← value t "handshakeTimeout" duration
  let pollInterval ← value t "pollInterval" duration
  let restartBurst ← value t "restartBurst" count
  let restartInterval ← value t "restartInterval" duration
  some ⟨executable, arguments, handshakeTimeout, pollInterval, restartBurst, restartInterval⟩

def Restore.read? (strict : Bool) (t : Tree) : Option Restore := do
  guard (isSection strict ["enabled", "executable", "arguments", "timeout", "watchdogInterval",
    "retries", "maxConcurrency"] t)
  let enabled ← value t "enabled" flag
  let executable ← value t "executable" text
  let arguments ← value t "arguments" texts
  let timeout ← value t "timeout" duration
  let watchdogInterval ← value t "watchdogInterval" duration
  let retries ← value t "retries" count
  let maxConcurrency ← value t "maxConcurrency" count
  some ⟨enabled, executable, arguments, timeout, watchdogInterval, retries, maxConcurrency⟩

def Projects.read? (strict : Bool) (t : Tree) : Option Projects := do
  guard (isSection strict ["configuration", "sourceExtension", "loadTimeout", "debounce"] t)
  let configuration ← value t "configuration" text
  let sourceExtension ← value t "sourceExtension" text
  let loadTimeout ← value t "loadTimeout" duration
  let debounce ← value t "debounce" duration
  some ⟨configuration, sourceExtension, loadTimeout, debounce⟩

def Bridge.read? (strict : Bool) (t : Tree) : Option Bridge := do
  guard (isSection strict ["idleTimeout"] t)
  let idleTimeout ← value t "idleTimeout" duration
  some ⟨idleTimeout⟩

/-- The value at a dotted path; what is no mapping has nothing below it. -/
def find? (t : Tree) (path : List String) : Option Tree :=
  path.foldl (fun t key => t.bind (·.get? key)) (some t)

/-- Reads a section that keeps its rules. -/
def populate {α : Type} (read : Tree → Option α) (violations : α → List Violation) (t : Tree)
    (key : String) : Except Fault α :=
  match read ((t.get? key).getD .null) with
  | none => .error (.context ("getting config field " ++ Text.quote key) .unreadableSettings)
  | some settings =>
    match violations settings with
    | [] => .ok settings
    | broken =>
      .error (.context ("invalid config field " ++ Text.quote key) (.invalidSettings broken))

def host (strict : Bool) (t : Tree) : Except Fault Host :=
  populate (Host.read? strict) Host.violations t "host"

def restore (strict : Bool) (t : Tree) : Except Fault Restore :=
  populate (Restore.read? strict) Restore.violations t "restore"

def projects (strict : Bool) (t : Tree) : Except Fault Projects :=
  populate (Projects.read? strict) Projects.violations t "projects"

def bridge (strict : Bool) (t : Tree) : Except Fault Bridge :=
  populate (Bridge.read? strict) Bridge.violations t "bridge"

end CompilationBridge.Settings
