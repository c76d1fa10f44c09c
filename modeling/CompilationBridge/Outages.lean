import CompilationBridge.Fault
import CompilationBridge.Table

/-!
Outages of the parts that the bridge talks to. For each part a list tells which of its next uses
fail; when the list is used up, every further use succeeds. Any pattern of finitely many failures is
an outage list.
-/

namespace CompilationBridge

structure Outages (τ : Type) where
  script : Table τ (List Bool) := .empty
deriving Repr, DecidableEq

namespace Outages

variable {τ : Type} [DecidableEq τ]

instance : Inhabited (Outages τ) := ⟨{}⟩

/-- The next uses of a part fail or succeed as listed. -/
def plan (o : Outages τ) (part : τ) (uses : List Bool) : Outages τ :=
  ⟨o.script.put part uses⟩

/-- The next `n` uses of a part fail. -/
def fail (o : Outages τ) (part : τ) (n : Nat) : Outages τ :=
  o.plan part (List.replicate n true)

/-- Uses a part: whether it fails, and the outages that remain. -/
def draw (o : Outages τ) (part : τ) : Bool × Outages τ :=
  match o.script.get? part with
  | some (failing :: rest) => (failing, ⟨o.script.put part rest⟩)
  | _ => (false, o)

end Outages

/-- The fault of a use that an outage makes fail. -/
def injectedFault : Fault := .text "injected failure"

end CompilationBridge
