import CompilationBridge.Text.Hex

/-!
Handles name projects, references, documents and sessions. A handle is a number of 128 bits; its text
groups the hexadecimal digits 8-4-4-4-12, so handles and their texts are in the same order.
-/

namespace CompilationBridge

structure Handle where
  value : Nat
deriving DecidableEq, Repr, Inhabited

namespace Handle

def nil : Handle := ⟨0⟩

def chars (h : Handle) : List Char :=
  let ds := Text.hexDigits 32 h.value
  ds.take 8 ++ '-' :: (ds.drop 8).take 4 ++ '-' :: (ds.drop 12).take 4 ++
    '-' :: (ds.drop 16).take 4 ++ '-' :: ds.drop 20

def text (h : Handle) : String :=
  String.ofList h.chars

/-- Reads the text of a handle. -/
def ofText? (s : String) : Option Handle :=
  let cs := s.toList
  let groups := [cs.take 8, (cs.drop 9).take 4, (cs.drop 14).take 4, (cs.drop 19).take 4, cs.drop 24]
  if cs.length = 36 ∧ [8, 13, 18, 23].all (fun i => cs[i]? = some '-') then
    (Text.readHex? 0 groups.flatten).map Handle.mk
  else none

def le (a b : Handle) : Bool :=
  a.value ≤ b.value

end Handle

end CompilationBridge
