import CompilationBridge.Text.Bytes

/-!
Bytes written in base 64 with the standard alphabet and padding. Line breaks inside a written form
are skipped when it is read; bits that no byte uses are not checked.
-/

namespace CompilationBridge.Text.Base64

def digit (n : Nat) : Char :=
  if n < 26 then Char.ofNat (0x41 + n)
  else if n < 52 then Char.ofNat (0x61 + (n - 26))
  else if n < 62 then Char.ofNat (0x30 + (n - 52))
  else if n = 62 then '+'
  else '/'

def value? (c : Char) : Option Nat :=
  let n := c.toNat
  if 0x41 ≤ n ∧ n ≤ 0x5A then some (n - 0x41)
  else if 0x61 ≤ n ∧ n ≤ 0x7A then some (n - 0x61 + 26)
  else if 0x30 ≤ n ∧ n ≤ 0x39 then some (n - 0x30 + 52)
  else if c = '+' then some 62
  else if c = '/' then some 63
  else none

def encodeChars : Bytes → List Char
  | [] => []
  | [a] => [digit (a.toNat / 4), digit (a.toNat % 4 * 16), '=', '=']
  | [a, b] =>
    [digit (a.toNat / 4), digit (a.toNat % 4 * 16 + b.toNat / 16), digit (b.toNat % 16 * 4), '=']
  | a :: b :: c :: rest =>
    digit (a.toNat / 4) :: digit (a.toNat % 4 * 16 + b.toNat / 16) ::
      digit (b.toNat % 16 * 4 + c.toNat / 64) :: digit (c.toNat % 64) :: encodeChars rest

def encode (bytes : Bytes) : String :=
  String.ofList (encodeChars bytes)

/-- Reads groups of four characters; padding ends the text. -/
def decodeChars? : List Char → Option Bytes
  | [] => some []
  | p :: q :: r :: s :: rest => do
    let a ← value? p
    let b ← value? q
    let first := (a * 4 + b / 16).toUInt8
    if r = '=' then
      if s = '=' ∧ rest = [] then some [first] else none
    else
      let c ← value? r
      let second := (b % 16 * 16 + c / 4).toUInt8
      if s = '=' then
        if rest = [] then some [first, second] else none
      else
        let d ← value? s
        let more ← decodeChars? rest
        some (first :: second :: (c % 4 * 64 + d).toUInt8 :: more)
  | _ => none

def isLineBreak (c : Char) : Bool :=
  c = '\n' || c = '\r'

def decode? (s : String) : Option Bytes :=
  decodeChars? (s.toList.filter (!isLineBreak ·))

end CompilationBridge.Text.Base64
