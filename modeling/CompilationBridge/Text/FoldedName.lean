/-!
Names compared without case. Member names of a record hold ASCII letters only, so two names agree
without case when they agree after their letters are raised, where the long s and the Kelvin sign
are the only other characters that fold to an ASCII letter.
-/

namespace CompilationBridge.Text

def foldChar (c : Char) : Char :=
  match c.toNat with
  | 0x17F => 'S'
  | 0x212A => 'K'
  | _ => c.toUpper

def foldName (s : String) : String :=
  String.ofList (s.toList.map foldChar)

end CompilationBridge.Text
