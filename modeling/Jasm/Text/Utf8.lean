/-!
# Text from bytes

Bytes that should be text are read as UTF-8; each byte that does not belong to a character is read
as the replacement character.
-/

namespace Jasm.Text

/-- Whether a byte continues a character. -/
def isContinuation (b : UInt8) : Bool := 0x80 ≤ b && b ≤ 0xbf

/-- The bits that a continuing byte carries. -/
def continuationBits (b : UInt8) : Nat := b.toNat % 64

def replacement : Char := '�'

/-- The character that the first two bytes make. -/
def pair? : List UInt8 → Option Char
  | a :: b :: _ =>
    if 0xc2 ≤ a && a ≤ 0xdf && isContinuation b then
      some (Char.ofNat (a.toNat % 32 * 64 + continuationBits b))
    else none
  | _ => none

/-- The character that the first three bytes make; surrogates and overlong forms are none. -/
def triple? : List UInt8 → Option Char
  | a :: b :: c :: _ =>
    if 0xe0 ≤ a && a ≤ 0xef && isContinuation b && isContinuation c && (a ≠ 0xe0 || 0xa0 ≤ b) &&
        (a ≠ 0xed || b ≤ 0x9f) then
      some (Char.ofNat (a.toNat % 16 * 4096 + continuationBits b * 64 + continuationBits c))
    else none
  | _ => none

/-- The character that the first four bytes make, in the range of code points. -/
def quadruple? : List UInt8 → Option Char
  | a :: b :: c :: d :: _ =>
    if 0xf0 ≤ a && a ≤ 0xf4 && isContinuation b && isContinuation c && isContinuation d &&
        (a ≠ 0xf0 || 0x90 ≤ b) && (a ≠ 0xf4 || b ≤ 0x8f) then
      some (Char.ofNat (a.toNat % 8 * 262144 + continuationBits b * 4096 +
        continuationBits c * 64 + continuationBits d))
    else none
  | _ => none

/-- The first character, if the bytes start with one, and how many bytes it takes besides the first
one. -/
def frontChar (first : UInt8) (bs : List UInt8) : Option Char × Nat :=
  if first < 0x80 then (some (Char.ofNat first.toNat), 0)
  else
    match pair? bs, triple? bs, quadruple? bs with
    | some c, _, _ => (some c, 1)
    | none, some c, _ => (some c, 2)
    | none, none, some c => (some c, 3)
    | none, none, none => (none, 0)

/-- Reads characters; a byte that belongs to none is read as nothing. The first `skip` bytes belong
to the character before. -/
def charsOfBytes : (skip : Nat) → List UInt8 → List (Option Char)
  | _, [] => []
  | skip + 1, _ :: rest => charsOfBytes skip rest
  | 0, b :: rest =>
    let (c, more) := frontChar b (b :: rest)
    c :: charsOfBytes more rest

/-- The text that bytes show. -/
def ofBytes (bytes : ByteArray) : String :=
  match String.fromUTF8? bytes with
  | some s => s
  | none => String.ofList ((charsOfBytes 0 bytes.toList).map (·.getD replacement))

/-- Text that may have been read from bytes. Where these are not text, they are kept beside what
they show. -/
structure ByteText where
  text : String := ""
  raw : Option (List UInt8) := none
  deriving DecidableEq, Repr

instance : Coe String ByteText := ⟨fun s => { text := s }⟩

namespace ByteText

def ofBytes (bs : List UInt8) : ByteText :=
  let bytes : ByteArray := ⟨bs.toArray⟩
  match String.fromUTF8? bytes with
  | some s => s
  | none => ⟨Text.ofBytes bytes, some bs⟩

def bytes (t : ByteText) : List UInt8 := t.raw.getD t.text.toUTF8.toList

end ByteText

end Jasm.Text
