/-!
Paths with forward slashes. The clean form of a path has no empty and no dot segments, no parent
segment that a segment before it cancels, and no parent segment at its root; the clean form of the
empty path is the dot.
-/

namespace CompilationBridge.Path

/-- The segments between slashes. -/
def segments : List Char → List (List Char)
  | [] => [[]]
  | c :: rest =>
    if c = '/' then [] :: segments rest
    else match segments rest with
      | [] => [[c]]
      | s :: more => (c :: s) :: more

def isRooted (cs : List Char) : Bool :=
  cs.head? = some '/'

def here : List Char := ['.']

def parent : List Char := ['.', '.']

/-- Takes one more segment onto the clean segments before it, last first. -/
def push (rooted : Bool) (done : List (List Char)) (s : List Char) : List (List Char) :=
  if s = [] ∨ s = here then done
  else if s = parent then
    match done with
    | [] => if rooted then [] else [parent]
    | last :: before => if last = parent then parent :: done else before
  else s :: done

def cleanSegments (rooted : Bool) (ss : List (List Char)) : List (List Char) :=
  (ss.foldl (push rooted) []).reverse

def join : List (List Char) → List Char
  | [] => []
  | [s] => s
  | s :: rest => s ++ '/' :: join rest

/-- The text of clean segments. -/
def assemble (rooted : Bool) (ss : List (List Char)) : List Char :=
  if rooted then '/' :: join ss
  else if ss = [] then here
  else join ss

def cleanChars (cs : List Char) : List Char :=
  assemble (isRooted cs) (cleanSegments (isRooted cs) (segments cs))

def clean (path : String) : String :=
  String.ofList (cleanChars path.toList)

def isAbsolute (path : String) : Bool :=
  isRooted path.toList

/-- What stands up to and including the last slash. -/
def upToSlash (cs : List Char) : List Char :=
  (cs.reverse.dropWhile (· ≠ '/')).reverse

/-- The directory that holds a path, clean. -/
def dir (path : String) : String :=
  String.ofList (cleanChars (upToSlash path.toList))

/-- The last segment of a path. -/
def base (path : String) : String :=
  let cs := path.toList
  if cs = [] then "."
  else match cs.reverse.dropWhile (· = '/') with
    | [] => "/"
    | r => String.ofList (r.takeWhile (· ≠ '/')).reverse

/-- Two paths one after the other, clean; an empty first path is left out. -/
def append (parent child : String) : String :=
  if parent = "" then (if child = "" then "" else clean child)
  else clean (parent ++ "/" ++ child)

end CompilationBridge.Path
