import VyperFront.Text.Basic

/-! UTF-8. Bytes that are no UTF-8 are located, and can be read as U+FFFD, one for
each longest part that could have begun a character. -/

namespace VyperFront.Utf8

/-- Why bytes are no UTF-8. -/
inductive Fault where
  | invalidStart
  | invalidContinuation
  | unexpectedEnd
  deriving DecidableEq, Repr

def Fault.text : Fault → String
  | invalidStart => "invalid start byte"
  | invalidContinuation => "invalid continuation byte"
  | unexpectedEnd => "unexpected end of data"

/-- What the front of a sequence of bytes is, and how many bytes it takes. -/
inductive Front where
  | char (c : Char) (length : Nat)
  | bad (fault : Fault) (length : Nat)
  deriving DecidableEq, Repr

def Front.length : Front → Nat
  | char _ length | bad _ length => length

/-- Reads continuation bytes. The next one has to be in the given range. -/
def gather : (need low high value taken : Nat) → List UInt8 → Front
  | 0, _, _, value, taken, _ => .char (Char.ofNat value) taken
  | _ + 1, _, _, _, taken, [] => .bad .unexpectedEnd taken
  | need + 1, low, high, value, taken, b :: rest =>
    if low ≤ b.toNat ∧ b.toNat ≤ high then
      gather need 0x80 0xbf (value * 64 + (b.toNat - 0x80)) (taken + 1) rest
    else .bad .invalidContinuation taken

/-- The front of a sequence that begins with the given byte. Ranges are such that
no character has two forms and none is a surrogate or beyond U+10FFFF. -/
def front (b : UInt8) (rest : List UInt8) : Front :=
  let first := b.toNat
  if first < 0x80 then .char (Char.ofNat first) 1
  else if first < 0xc2 then .bad .invalidStart 1
  else if first < 0xe0 then gather 1 0x80 0xbf (first - 0xc0) 1 rest
  else if first < 0xf0 then
    gather 2 (if first = 0xe0 then 0xa0 else 0x80) (if first = 0xed then 0x9f else 0xbf)
      (first - 0xe0) 1 rest
  else if first < 0xf5 then
    gather 3 (if first = 0xf0 then 0x90 else 0x80) (if first = 0xf4 then 0x8f else 0xbf)
      (first - 0xf0) 1 rest
  else .bad .invalidStart 1

/-- The fronts of a sequence one after the other, with their offsets. The bytes
of a front after its first are skipped. -/
def frontsFrom : (skip offset : Nat) → List UInt8 → List (Nat × Front)
  | _, _, [] => []
  | skip + 1, offset, _ :: rest => frontsFrom skip (offset + 1) rest
  | 0, offset, b :: rest =>
    let f := front b rest
    (offset, f) :: frontsFrom (f.length - 1) (offset + 1) rest

def fronts (bytes : List UInt8) : List (Nat × Front) := frontsFrom 0 0 bytes

/-- Bytes that are no UTF-8: where the first bad part is, and why. -/
structure Error where
  offset : Nat
  length : Nat
  fault : Fault
  deriving DecidableEq, Repr

/-- The error in words, with the byte if it is only one. -/
def Error.message (e : Error) (bytes : List UInt8) : String :=
  match e.length, bytes[e.offset]? with
  | 1, some b =>
    let digits := String.ofList (Nat.toDigits 16 b.toNat)
    s!"'utf-8' codec can't decode byte 0x{digits} in position {e.offset}: {e.fault.text}"
  | _, _ =>
    s!"'utf-8' codec can't decode bytes in position {e.offset}-{e.offset + e.length - 1}: " ++
      e.fault.text

/-- The first bad part, if any. -/
def error? (bytes : List UInt8) : Option Error :=
  (fronts bytes).findSome? fun (offset, f) =>
    match f with
    | .char .. => none
    | .bad fault length => some ⟨offset, length, fault⟩

/-- The text, with U+FFFD for each bad part. -/
def decodeLossy (bytes : List UInt8) : Text :=
  (fronts bytes).map fun (_, f) =>
    match f with
    | .char c _ => c
    | .bad .. => '\ufffd'

def decode (bytes : List UInt8) : Except Error Text :=
  match error? bytes with
  | some e => .error e
  | none => .ok (decodeLossy bytes)

/-- The bytes of one character. -/
def encodeChar (c : Char) : List UInt8 := (String.singleton c).toUTF8.toList

def encode (t : Text) : List UInt8 := (String.ofList t).toUTF8.toList

end VyperFront.Utf8
