import CompilationBridge.Graph.Store

/-!
The projects that a change reaches: a depth-first search from the path of the change along the edges back
to referring projects. The paths still to look at lie on a stack; a path that was visited before is passed
over, so that the search comes to an end whatever cycles the references make.
-/

namespace CompilationBridge.Graph

/-- A search under way: the paths it has visited with the latest first, the stack with its top first, and
the context ids found. -/
structure Search where
  visited : List String := []
  stack : List String
  ids : List Nat := []
deriving DecidableEq, Repr

/-- The paths of referring projects at all variants of a store. -/
def Store.dependeePaths (s : Store) : List String :=
  s.variants.flatMap (·.dependees.keys)

theorem Store.dependees_subset (s : Store) (path : String) :
    ∀ q ∈ s.dependees path, q ∈ s.dependeePaths := by
  intro q hq
  unfold dependees at hq
  split at hq
  · cases hq
  · rename_i p hp
    obtain ⟨id, -, hid⟩ := Option.bind_eq_some_iff.1 hp
    have hmem : p ∈ s.projects.values := by
      obtain ⟨id, -, hget⟩ := Option.bind_eq_some_iff.1 hid
      exact Table.mem_values_of_get? hget
    simp only [List.mem_mergeSort, List.mem_eraseDups, List.mem_flatMap] at hq
    obtain ⟨v, hv, hkey⟩ := hq
    exact List.mem_flatMap.2 ⟨v, List.mem_flatMap.2 ⟨p, hmem, hv⟩, hkey⟩

namespace Search

/-- A search that is to begin at a path. -/
def start (origin : String) : Search where
  stack := [origin]

/-- Puts the paths that have not been visited on a stack, one after the other. -/
def push (visited stack paths : List String) : List String :=
  paths.foldl (fun stack path => if path ∈ visited then stack else path :: stack) stack

/-- Visits a path: its context id is noted if it has one, and the projects that refer to it are to be
looked at next. -/
def visit (s : Store) (x : Search) (path : String) (rest : List String) : Search where
  visited := path :: x.visited
  stack := push (path :: x.visited) rest (s.dependees path)
  ids := x.ids ++ (s.contextId? path).toList

/-- Takes the top off the stack and visits it, unless it was visited before. -/
def round (s : Store) (x : Search) : Search :=
  match x.stack with
  | [] => x
  | path :: rest => if path ∈ x.visited then { x with stack := rest } else x.visit s path rest

@[simp] theorem push_nil (visited stack : List String) : push visited stack [] = stack :=
  rfl

theorem push_cons (visited stack : List String) (path : String) (paths : List String) :
    push visited stack (path :: paths) =
      push visited (if path ∈ visited then stack else path :: stack) paths :=
  rfl

/-- How many referring paths are still to be visited, and how many paths on the stack are not referring
ones. Nothing but the origin is ever among the latter. -/
def unexplored (s : Store) (x : Search) : Nat :=
  s.dependeePaths.countP (· ∉ x.visited) + x.stack.countP (· ∉ s.dependeePaths)

/-- Paths that refer to some project do not count when they are put on the stack. -/
theorem countP_push (s : Store) (visited stack : List String) {paths : List String}
    (h : ∀ path ∈ paths, path ∈ s.dependeePaths) :
    (push visited stack paths).countP (· ∉ s.dependeePaths) = stack.countP (· ∉ s.dependeePaths) := by
  induction paths generalizing stack with
  | nil => rfl
  | cons path rest ih =>
      rw [push_cons, ih _ fun q hq => h q (List.mem_cons_of_mem _ hq)]
      split
      · rfl
      · rw [List.countP_cons_of_neg (by simp [h path List.mem_cons_self])]

theorem countP_visit (paths visited : List String) (path : String) :
    paths.countP (· ∉ path :: visited) ≤ paths.countP (· ∉ visited) := by
  refine List.countP_mono_left fun q _ hq => ?_
  simp_all

/-- A path is visited for the first time only. -/
theorem countP_visit_lt {paths visited : List String} {path : String} (hmem : path ∈ paths)
    (hnew : path ∉ visited) : paths.countP (· ∉ path :: visited) < paths.countP (· ∉ visited) := by
  induction paths with
  | nil => cases hmem
  | cons q rest ih =>
      rw [List.countP_cons, List.countP_cons]
      have hle := countP_visit rest visited path
      by_cases hq : q = path
      · subst hq
        have hgone : decide (q ∉ q :: visited) = false := by simp
        have hthere : decide (q ∉ visited) = true := by simp [hnew]
        rw [hgone, hthere]
        simp only [Bool.false_eq_true, if_false, if_true]
        omega
      · have hlt := ih ((List.mem_cons.1 hmem).resolve_left (Ne.symm hq))
        have hsame : decide (q ∉ path :: visited) = decide (q ∉ visited) := by simp [hq]
        rw [hsame]
        omega

theorem round_of_mem (s : Store) {x : Search} {path : String} {rest : List String}
    (hstack : x.stack = path :: rest) (hvisited : path ∈ x.visited) :
    x.round s = { x with stack := rest } := by
  rw [round, hstack]
  exact if_pos hvisited

theorem round_of_notMem (s : Store) {x : Search} {path : String} {rest : List String}
    (hstack : x.stack = path :: rest) (hnew : path ∉ x.visited) : x.round s = x.visit s path rest := by
  rw [round, hstack]
  exact if_neg hnew

theorem unexplored_visit_lt {s : Store} {x : Search} {path : String} {rest : List String}
    (hstack : x.stack = path :: rest) (hnew : path ∉ x.visited) :
    (x.visit s path rest).unexplored s < x.unexplored s := by
  have hpushed : (x.visit s path rest).stack.countP (· ∉ s.dependeePaths) =
      rest.countP (· ∉ s.dependeePaths) := countP_push s _ _ (s.dependees_subset path)
  unfold unexplored
  rw [hpushed, hstack, List.countP_cons]
  change s.dependeePaths.countP (· ∉ path :: x.visited) + _ < _
  by_cases hmem : path ∈ s.dependeePaths
  · have hlt := countP_visit_lt hmem hnew
    omega
  · have hle := countP_visit s.dependeePaths x.visited path
    rw [if_pos (decide_eq_true hmem)]
    omega

/-- A round of a search that is not over visits a path or leaves fewer on the stack. -/
theorem round_decreases (s : Store) {x : Search} (h : x.stack ≠ []) :
    Prod.Lex (· < ·) (· < ·) ((x.round s).unexplored s, (x.round s).stack.length)
      (x.unexplored s, x.stack.length) := by
  obtain ⟨path, rest, hstack⟩ := List.exists_cons_of_ne_nil h
  by_cases hvisited : path ∈ x.visited
  · have hle : rest.countP (· ∉ s.dependeePaths) ≤ (path :: rest).countP (· ∉ s.dependeePaths) := by
      rw [List.countP_cons]
      omega
    rw [round_of_mem s hstack hvisited, Prod.lex_def]
    simp only [unexplored, hstack, List.length_cons]
    omega
  · rw [round_of_notMem s hstack hvisited]
    exact Prod.Lex.left _ _ (unexplored_visit_lt hstack hvisited)

/-- Looks at one path after the other until the stack is empty. -/
def finish (s : Store) (x : Search) : Search :=
  if x.stack = [] then x else (x.round s).finish s
termination_by (x.unexplored s, x.stack.length)
decreasing_by exact round_decreases s ‹_›

end Search

/-- The context ids of the projects that a change of the clean path `origin` reaches, in order. -/
def Store.closure (s : Store) (origin : String) : List Nat :=
  ((Search.start origin).finish s).ids.mergeSort (· ≤ ·)

end CompilationBridge.Graph
