import CompilationBridge.Fault
import CompilationBridge.Path
import CompilationBridge.Text.Bytes

/-!
File URIs. A path is written with every byte percent encoded that may not stand in the path of a URI,
and read back by splitting off the authority and the query and decoding the rest. A path of the drive
form, a letter and a colon after the first slash, is read without that slash. A text that starts like
a file URI and cannot be read as a URI crashes the reader.
-/

namespace CompilationBridge.Uri

open Text (Bytes)

/-- The byte of an ASCII character. -/
def code (c : Char) : UInt8 := c.toNat.toUInt8

def isAlphaNum (b : UInt8) : Bool :=
  (code 'a' ≤ b && b ≤ code 'z') || (code 'A' ≤ b && b ≤ code 'Z') ||
    (code '0' ≤ b && b ≤ code '9')

def isMark (b : UInt8) : Bool :=
  b = code '-' || b = code '_' || b = code '.' || b = code '~'

def oneOf (chars : String) (b : UInt8) : Bool :=
  chars.toList.any (code · = b)

/-- Bytes that stand for themselves in a path. -/
def plainInPath (b : UInt8) : Bool :=
  isAlphaNum b || isMark b || oneOf "$&+,/:;=@" b

/-- Bytes that stand for themselves in a host name. -/
def plainInHost (b : UInt8) : Bool :=
  isAlphaNum b || isMark b || oneOf "!$&'()*+,;=:[]<>\"" b

def encodeByte (b : UInt8) : Bytes :=
  if plainInPath b then [b]
  else [code '%', code (Text.hexDigitUpper (b.toNat / 16)), code (Text.hexDigitUpper (b.toNat % 16))]

def encodePath (path : Bytes) : Bytes :=
  path.flatMap encodeByte

/-- The letters of the first 256 code points. -/
def isLetter (b : UInt8) : Bool :=
  let n := b.toNat
  (0x41 ≤ n && n ≤ 0x5A) || (0x61 ≤ n && n ≤ 0x7A) || n = 0xAA || n = 0xB5 || n = 0xBA ||
    (0xC0 ≤ n && n ≤ 0xD6) || (0xD8 ≤ n && n ≤ 0xF6) || 0xF8 ≤ n

/-- Four bytes or more that start with a letter and a colon. -/
def hasDrive : Bytes → Bool
  | a :: b :: _ :: _ :: _ => isLetter a && b = code ':'
  | _ => false

/-- A slash, a letter and a colon, and at least one byte more. -/
def hasRootedDrive : Bytes → Bool
  | r :: a :: b :: _ :: _ => r = code '/' && isLetter a && b = code ':'
  | _ => false

def scheme : Bytes := Text.encode "file://"

/-- The file URI of an absolute path or of a path with a drive. -/
def ofPath (path : String) : String :=
  let bytes := Text.encode path
  let absolute := if hasDrive bytes then bytes else Text.encode (Path.clean path)
  let rooted := if hasDrive absolute then code '/' :: absolute else absolute
  Text.decode (scheme ++ encodePath rooted)

def hexByte? (a b : UInt8) : Option UInt8 := do
  let high ← Text.hexValue? (Char.ofNat a.toNat)
  let low ← Text.hexValue? (Char.ofNat b.toNat)
  some (high * 16 + low).toUInt8

/-- Decodes percent escapes. `escaped` tells which decoded bytes may be written by an escape, and
`plain` which bytes may stand for themselves. -/
def percentDecode? (escaped plain : UInt8 → Bool) : Bytes → Option Bytes
  | [] => some []
  | b :: rest =>
    if b = code '%' then
      match rest with
      | x :: y :: after =>
        match hexByte? x y with
        | some v => if escaped v then (percentDecode? escaped plain after).map (v :: ·) else none
        | none => none
      | _ => none
    else if plain b then (percentDecode? escaped plain rest).map (b :: ·)
    else none

def anyByte (_ : UInt8) : Bool := true

def isAscii (b : UInt8) : Bool := b.toNat < 0x80

/-- In a host name only a percent sign and bytes past ASCII are written by escapes. -/
def validHostText (bytes : Bytes) : Bool :=
  (percentDecode? (fun v => !isAscii v || v = code '%')
    (fun b => !isAscii b || plainInHost b) bytes).isSome

/-- In the zone of an address also a space and what stands for itself in a host name. -/
def validZoneText (bytes : Bytes) : Bool :=
  (percentDecode? (fun v => v = code '%' || v = code ' ' || plainInHost v)
    (fun b => !isAscii b || plainInHost b) bytes).isSome

def isDigit (b : UInt8) : Bool := code '0' ≤ b && b ≤ code '9'

/-- Nothing, or a colon and digits. -/
def validPort : Bytes → Bool
  | [] => true
  | b :: rest => b = code ':' && rest.all isDigit

/-- Splits bytes before the last occurrence of one. -/
def splitLast? (b : UInt8) (bytes : Bytes) : Option (Bytes × Bytes) :=
  match bytes.reverse.span (· ≠ b) with
  | (_, []) => none
  | (after, sep :: before) => some (before.reverse, sep :: after.reverse)

/-- Splits bytes before the first zone mark. -/
def splitZone? : Bytes → Option (Bytes × Bytes)
  | [] => none
  | b :: rest =>
    if (b :: rest).take 3 = Text.encode "%25" then some ([], b :: rest)
    else (splitZone? rest).map fun (before, zone) => (b :: before, zone)

def validHost (host : Bytes) : Bool :=
  if host.head? = some (code '[') then
    match splitLast? (code ']') host with
    | none => false
    | some (address, closing) =>
      validPort closing.tail &&
        match splitZone? address with
        | some (name, zone) => validHostText name && validZoneText zone && validHostText closing
        | none => validHostText host
  else
    (match splitLast? (code ':') host with
      | some (_, port) => validPort port
      | none => true) && validHostText host

def validUserInfo (user : Bytes) : Bool :=
  user.all (fun b => isAlphaNum b || isMark b || oneOf ":!$&'()*+,;=%@" b) &&
    (percentDecode? anyByte anyByte user).isSome

def validAuthority (authority : Bytes) : Bool :=
  match splitLast? (code '@') authority with
  | some (user, host) => validHost host.tail && validUserInfo user
  | none => validHost authority

/-- What stands before the first question mark. -/
def dropQuery (bytes : Bytes) : Bytes :=
  bytes.takeWhile (· ≠ code '?')

def isControl (b : UInt8) : Bool := b.toNat < 0x20 || b.toNat = 0x7F

/-- The path of a file URI, given what follows its scheme; none if it cannot be read. -/
def decodedPath? (rest : Bytes) : Option Bytes :=
  if rest.any isControl then none
  else
    let main := dropQuery rest
    let authority := main.takeWhile (· ≠ code '/')
    let path := main.dropWhile (· ≠ code '/')
    if validAuthority authority then percentDecode? anyByte anyByte path else none

/-- What reading a URI comes to. -/
inductive Location where
  | path (path : String)
  | refused (fault : Fault)
  | crash
deriving Repr

/-- The clean local path of a file URI. -/
def location (uri : String) : Location :=
  let bytes := Text.encode uri
  if scheme.isPrefixOf bytes then
    match decodedPath? (bytes.drop scheme.length) with
    | some path =>
      .path (Path.clean (Text.decode (if hasRootedDrive path then path.tail else path)))
    | none => .crash
  else .refused (.invalidParams (Text.quote uri ++ " is not a file uri"))

end CompilationBridge.Uri
