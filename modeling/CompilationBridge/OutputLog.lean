import CompilationBridge.Outages

/-!
Logs of what processes print. A log is a file of its own whose path is published under the name of
the log; each line that is not empty becomes one record. Opening a log makes its directory, then the
file, then publishes the path, and stops at the first of these that fails.
-/

namespace CompilationBridge

structure OutputLog where
  name : String
  records : List String := []
deriving DecidableEq, Repr

namespace OutputLog

/-- What opening a log needs. -/
inductive Need where
  | directory
  | file
  | publication (name : String)
deriving DecidableEq, Repr

/-- The key that the path of a log is published under. -/
def key (name : String) : String := "output:" ++ name

/-- The needs of a log, in the order in which they are met. -/
def needs (name : String) : List Need := [.directory, .file, .publication name]

/-- Meets needs one after the other, until one fails. -/
def meet (o : Outages Need) : List Need → Bool × Outages Need
  | [] => (true, o)
  | n :: rest =>
    match o.draw n with
    | (true, o) => (false, o)
    | (false, o) => meet o rest

/-- Opens a log. -/
def start (name : String) (o : Outages Need) : Except Fault OutputLog × Outages Need :=
  match meet o (needs name) with
  | (true, o) => (.ok ⟨name, []⟩, o)
  | (false, o) => (.error injectedFault, o)

/-- The pieces between newlines. -/
def pieces : List Char → List (List Char)
  | [] => [[]]
  | c :: rest =>
    if c = '\n' then [] :: pieces rest
    else match pieces rest with
      | [] => [[c]]
      | p :: more => (c :: p) :: more

/-- The record of a line, after its time. -/
def record (line : List Char) : String := "INFO\t" ++ String.ofList line

/-- Takes a text: each line of it that is not empty is recorded. -/
def write (l : OutputLog) (text : String) : OutputLog :=
  { l with records := l.records ++ ((pieces text.toList).filter (· ≠ [])).map record }

end OutputLog

/-- Where the output of processes goes. Its log is opened when the first line arrives; if that fails,
all output is dropped. -/
inductive OutputSink where
  | unopened (name : String)
  | unavailable
  | ready (log : OutputLog)
deriving DecidableEq, Repr

namespace OutputSink

def records : OutputSink → List String
  | .ready log => log.records
  | _ => []

/-- Takes a line of output: the sink, the outages that remain, the key that a path is now published
under, and the fault if the log cannot be opened. -/
def write (s : OutputSink) (line : String) (o : Outages OutputLog.Need) :
    OutputSink × Outages OutputLog.Need × Option String × Option Fault :=
  match s with
  | .unavailable => (.unavailable, o, none, none)
  | .ready log => (.ready (log.write line), o, none, none)
  | .unopened name =>
    match OutputLog.start name o with
    | (.ok log, o) => (.ready (log.write line), o, some (OutputLog.key name), none)
    | (.error fault, o) => (.unavailable, o, none, some fault)

end OutputSink

end CompilationBridge
