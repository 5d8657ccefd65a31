/-!
# Packed values

A compact binary form of numbers, texts, lists and maps. Each value starts with a byte that tells
its type and often its size. Booleans, fractions and extensions can be passed over but are not
otherwise used.
-/

namespace Jasm

inductive Packed where
  | nil
  | number (n : Int)
  /-- A text or a run of bytes. -/
  | bytes (bs : List UInt8)
  | list (items : List Packed)
  | map (entries : List (Packed × Packed))
  | other

namespace Packed

/-! ## Writing -/

/-- The last `count` bytes of a number, the most significant one first. -/
def bigEndian : (count n : Nat) → List UInt8
  | 0, _ => []
  | count + 1, n => bigEndian count (n / 256) ++ [(n % 256).toUInt8]

/-- An integer in the shortest form. Negative ones are written by their two's complement. -/
def packInt (n : Int) : List UInt8 :=
  let twos (bits : Nat) : Nat := (n + (1 <<< bits : Nat)).toNat
  if 0 ≤ n then
    let n := n.toNat
    if n < 128 then [n.toUInt8]
    else if n < 0x100 then 0xcc :: bigEndian 1 n
    else if n < 0x10000 then 0xcd :: bigEndian 2 n
    else if n < 0x100000000 then 0xce :: bigEndian 4 n
    else 0xcf :: bigEndian 8 n
  else if -32 ≤ n then bigEndian 1 (twos 8)
  else if -0x80 ≤ n then 0xd0 :: bigEndian 1 (twos 8)
  else if -0x8000 ≤ n then 0xd1 :: bigEndian 2 (twos 16)
  else if -0x80000000 ≤ n then 0xd2 :: bigEndian 4 (twos 32)
  else 0xd3 :: bigEndian 8 (twos 64)

/-- A number of one byte, always with its type. -/
def packByte (n : Nat) : List UInt8 := 0xcc :: bigEndian 1 n

/-- A number of two bytes, always with its type. -/
def packShort (n : Nat) : List UInt8 := 0xcd :: bigEndian 2 n

/-- The head of something with a size: one that holds small sizes, then those for sizes of one, two
and four bytes, as far as they exist. -/
def packSize (small limit : Nat) (byteHead : Option UInt8) (shortHead longHead : UInt8)
    (size : Nat) : List UInt8 :=
  if size < limit then [(small + size).toUInt8]
  else match byteHead with
    | some head =>
      if size < 0x100 then head :: bigEndian 1 size
      else if size < 0x10000 then shortHead :: bigEndian 2 size
      else longHead :: bigEndian 4 size
    | none =>
      if size < 0x10000 then shortHead :: bigEndian 2 size else longHead :: bigEndian 4 size

def packString (bs : List UInt8) : List UInt8 :=
  packSize 0xa0 32 (some 0xd9) 0xda 0xdb bs.length ++ bs

def packBytes (bs : List UInt8) : List UInt8 :=
  packSize 0 0 (some 0xc4) 0xc5 0xc6 bs.length ++ bs

/-- A list of values that are already written. -/
def packList (items : List (List UInt8)) : List UInt8 :=
  packSize 0x90 16 none 0xdc 0xdd items.length ++ items.flatten

/-- A map from names to values that are already written. -/
def packRecord (fields : List (String × List UInt8)) : List UInt8 :=
  packSize 0x80 16 none 0xde 0xdf fields.length ++
    fields.flatMap fun (name, value) => packString name.toUTF8.toList ++ value

/-! ## Reading -/

abbrev Unpack := StateT (List UInt8) Option

def takeBytes (count : Nat) : Unpack (List UInt8) := fun bs =>
  if bs.length < count then none else some (bs.take count, bs.drop count)

def takeNumber (count : Nat) : Unpack Nat := do
  return (← takeBytes count).foldl (fun n b => 256 * n + b.toNat) 0

/-- Takes a number in two's complement. -/
def takeSigned (count : Nat) : Unpack Int := do
  let n ← takeNumber count
  return if n < 1 <<< (8 * count - 1) then n else n - (1 <<< (8 * count) : Nat)

def skipBytes (count : Nat) : Unpack Packed := do
  let _ ← takeBytes count
  return .other

mutual

/-- Reads one value, in at most `limit` steps. -/
def unpackValue : (limit : Nat) → Unpack Packed
  | 0 => failure
  | limit + 1 => do
    let head ← takeNumber 1
    if head < 0x80 then return .number head
    else if head < 0x90 then return .map (← unpackEntries limit (head - 0x80))
    else if head < 0xa0 then return .list (← unpackItems limit (head - 0x90))
    else if head < 0xc0 then return .bytes (← takeBytes (head - 0xa0))
    else if 0xe0 ≤ head then return .number (head - 256)
    else match head with
      | 0xc0 => return .nil
      | 0xc2 | 0xc3 => return .other
      | 0xc4 | 0xd9 => return .bytes (← takeBytes (← takeNumber 1))
      | 0xc5 | 0xda => return .bytes (← takeBytes (← takeNumber 2))
      | 0xc6 | 0xdb => return .bytes (← takeBytes (← takeNumber 4))
      | 0xc7 => skipBytes ((← takeNumber 1) + 1)
      | 0xc8 => skipBytes ((← takeNumber 2) + 1)
      | 0xc9 => skipBytes ((← takeNumber 4) + 1)
      | 0xca => skipBytes 4
      | 0xcb => skipBytes 8
      | 0xcc => return .number (← takeNumber 1)
      | 0xcd => return .number (← takeNumber 2)
      | 0xce => return .number (← takeNumber 4)
      | 0xcf => return .number (← takeNumber 8)
      | 0xd0 => return .number (← takeSigned 1)
      | 0xd1 => return .number (← takeSigned 2)
      | 0xd2 => return .number (← takeSigned 4)
      | 0xd3 => return .number (← takeSigned 8)
      | 0xd4 => skipBytes 2
      | 0xd5 => skipBytes 3
      | 0xd6 => skipBytes 5
      | 0xd7 => skipBytes 9
      | 0xd8 => skipBytes 17
      | 0xdc => return .list (← unpackItems limit (← takeNumber 2))
      | 0xdd => return .list (← unpackItems limit (← takeNumber 4))
      | 0xde => return .map (← unpackEntries limit (← takeNumber 2))
      | 0xdf => return .map (← unpackEntries limit (← takeNumber 4))
      | _ => failure

def unpackItems : (limit count : Nat) → Unpack (List Packed)
  | _, 0 => return []
  | 0, _ + 1 => failure
  | limit + 1, count + 1 => do
    let first ← unpackValue limit
    return first :: (← unpackItems limit count)

def unpackEntries : (limit count : Nat) → Unpack (List (Packed × Packed))
  | _, 0 => return []
  | 0, _ + 1 => failure
  | limit + 1, count + 1 => do
    let key ← unpackValue limit
    let value ← unpackValue limit
    return (key, value) :: (← unpackEntries limit count)

end

/-- Reads the value at the start of some bytes; every step takes a byte or counts one down. -/
def unpack? (bs : List UInt8) : Option Packed :=
  (unpackValue (2 * bs.length + 2) bs).map (·.1)

/-! ## Using values -/

/-- An integer of 64 bits; a larger one wraps around. -/
def int? : Packed → Option Int
  | .nil => some 0
  | .number n => some (Int64.ofInt n).toInt
  | _ => none

/-- A number of some bits; of a larger one the last bits count. -/
def nat? (bits : Nat) : Packed → Option Nat
  | .nil => some 0
  | .number n => some (n % (1 <<< bits : Nat)).toNat
  | _ => none

def bytes? : Packed → Option (List UInt8)
  | .nil => some []
  | .bytes bs => some bs
  | _ => none

/-- The fields of a record, by name or by place. -/
def fields? (names : List String) : Packed → Option (List (List UInt8 × Packed))
  | .map entries => entries.mapM fun (key, value) => key.bytes?.map (·, value)
  | .list items =>
    if items.length = names.length then some ((names.map (·.toUTF8.toList)).zip items) else none
  | _ => none

def items? : Packed → Option (List Packed)
  | .nil => some []
  | .list items => some items
  | _ => none

end Packed

end Jasm
