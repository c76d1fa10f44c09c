/-!
Running until nothing moves, and finding what is due next.
-/

namespace CompilationBridge.Simulation

/-- Repeats a step until it gives nothing, or the fuel is used up. -/
def iterate {α : Type} (step : α → Option α) : Nat → α → α
  | 0, a => a
  | fuel + 1, a =>
    match step a with
    | some b => iterate step fuel b
    | none => a

/-- The least of several times. -/
def earliest (times : List Nat) : Option Nat :=
  times.min?

end CompilationBridge.Simulation
