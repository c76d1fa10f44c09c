/-!
References to variables in a text. `$name` stands for the value of a variable that has to be set,
`${name:default}` for its value or else for the default, and two dollar signs stand for one. A default
that is left empty counts as none; two double quotes stand for the empty default.
-/

namespace CompilationBridge.Settings

def startsName (c : Char) : Bool :=
  c = '_' || ('A' ≤ c && c ≤ 'Z') || ('a' ≤ c && c ≤ 'z')

def continuesName (c : Char) : Bool :=
  startsName c || ('0' ≤ c && c ≤ '9')

/-- What a reference stands for: the text before the first colon is the name, the rest the default. -/
def substitute (lookup : String → Option String) (reference : List Char) : Option String :=
  let name := reference.takeWhile (· ≠ ':')
  match lookup (String.ofList name) with
  | some value => some value
  | none =>
    match reference.drop (name.length + 1) with
    | [] => none
    | ['"', '"'] => some ""
    | default => some (String.ofList default)

/-- Replaces all references; there is no answer if one of them stands for nothing or is not closed. -/
def expand (lookup : String → Option String) (cs : List Char) : Option (List Char) :=
  match cs with
  | [] => some []
  | '$' :: '$' :: rest => (expand lookup rest).map ('$' :: ·)
  | '$' :: '\x7b' :: rest =>
    if rest.contains '\x7d' then do
      let value ← substitute lookup (rest.takeWhile (· ≠ '\x7d'))
      let done ← expand lookup (rest.dropWhile (· ≠ '\x7d')).tail
      some (value.toList ++ done)
    else none
  | '$' :: c :: rest =>
    if startsName c then do
      let value ← substitute lookup (c :: rest.takeWhile continuesName)
      let done ← expand lookup (rest.dropWhile continuesName)
      some (value.toList ++ done)
    else (expand lookup (c :: rest)).map ('$' :: ·)
  | c :: rest => (expand lookup rest).map (c :: ·)
termination_by cs.length
decreasing_by
  all_goals simp only [List.length_cons]
  · omega
  · have := (List.dropWhile_sublist (l := rest) (· ≠ '\x7d')).length_le
    rw [List.length_tail]
    omega
  · have := (List.dropWhile_sublist (l := rest) continuesName).length_le
    omega
  · omega
  · omega

end CompilationBridge.Settings
