/-!
Texts as bytes. A text is written in UTF-8; bytes that are not UTF-8 are read with one replacement
character for each byte that starts no well-formed sequence.
-/

namespace CompilationBridge.Text

abbrev Bytes := List UInt8

/-- The UTF-8 form of one character. -/
def encodeChar (c : Char) : Bytes :=
  let n := c.toNat
  if n < 0x80 then [n.toUInt8]
  else if n < 0x800 then [(0xC0 + n / 0x40).toUInt8, (0x80 + n % 0x40).toUInt8]
  else if n < 0x10000 then
    [(0xE0 + n / 0x1000).toUInt8, (0x80 + n / 0x40 % 0x40).toUInt8, (0x80 + n % 0x40).toUInt8]
  else
    [(0xF0 + n / 0x40000).toUInt8, (0x80 + n / 0x1000 % 0x40).toUInt8,
      (0x80 + n / 0x40 % 0x40).toUInt8, (0x80 + n % 0x40).toUInt8]

def encode (s : String) : Bytes :=
  s.toList.flatMap encodeChar

/-- The number of bytes a text takes. -/
def byteLength (s : String) : Nat :=
  (encode s).length

def replacement : Char := Char.ofNat 0xFFFD

/-- The low six bits of a continuation byte. -/
def continuation? (b : UInt8) : Option Nat :=
  if 0x80 ≤ b.toNat ∧ b.toNat < 0xC0 then some (b.toNat - 0x80) else none

/-- A two byte sequence: shorter forms are refused. -/
def pair? (a b : UInt8) : Option Nat := do
  let x ← continuation? b
  if 0xC2 ≤ a.toNat ∧ a.toNat < 0xE0 then some ((a.toNat - 0xC0) * 0x40 + x) else none

/-- A three byte sequence: shorter forms and surrogates are refused. -/
def triple? (a b c : UInt8) : Option Nat := do
  let x ← continuation? b
  let y ← continuation? c
  let n := (a.toNat - 0xE0) * 0x1000 + x * 0x40 + y
  if 0xE0 ≤ a.toNat ∧ a.toNat < 0xF0 ∧ 0x800 ≤ n ∧ ¬(0xD800 ≤ n ∧ n < 0xE000) then some n else none

/-- A four byte sequence: shorter forms and code points past the last are refused. -/
def quad? (a b c d : UInt8) : Option Nat := do
  let x ← continuation? b
  let y ← continuation? c
  let z ← continuation? d
  let n := (a.toNat - 0xF0) * 0x40000 + x * 0x1000 + y * 0x40 + z
  if 0xF0 ≤ a.toNat ∧ a.toNat < 0xF8 ∧ 0x10000 ≤ n ∧ n < 0x110000 then some n else none

/-- The first character of some bytes, with what follows it. -/
def decodeChar (a : UInt8) (rest : Bytes) : Char × Bytes :=
  if a.toNat < 0x80 then (Char.ofNat a.toNat, rest)
  else match rest with
    | b :: r₁ => match pair? a b with
      | some n => (Char.ofNat n, r₁)
      | none => match r₁ with
        | c :: r₂ => match triple? a b c with
          | some n => (Char.ofNat n, r₂)
          | none => match r₂ with
            | d :: r₃ => match quad? a b c d with
              | some n => (Char.ofNat n, r₃)
              | none => (replacement, rest)
            | [] => (replacement, rest)
        | [] => (replacement, rest)
    | [] => (replacement, rest)

theorem decodeChar_length_le (a : UInt8) (rest : Bytes) :
    (decodeChar a rest).2.length ≤ rest.length := by
  unfold decodeChar
  repeat' split
  all_goals simp <;> omega

def decodeChars : Bytes → List Char
  | [] => []
  | a :: rest =>
    let step := decodeChar a rest
    step.1 :: decodeChars step.2
termination_by bytes => bytes.length
decreasing_by
  have h := decodeChar_length_le a rest
  simp
  omega

def decode (bytes : Bytes) : String :=
  String.ofList (decodeChars bytes)

end CompilationBridge.Text
