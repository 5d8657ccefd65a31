import Jasm.Text.Quoted
import Jasm.Text.Utf8

/-!
# JSON text

JSON values with the order of their fields, and the two ways they are written: on one line, and
indented by two blanks per level. Characters that could end a script element or a line of a script
are written as escapes.
-/

namespace Jasm

inductive Json where
  | null
  | str (s : String)
  /-- A string of bytes that are not all text. -/
  | raw (bs : List UInt8)
  | int (n : Int)
  /-- A number in thousandths. -/
  | milli (n : Int)
  | bool (b : Bool)
  | arr (items : List Json)
  | obj (fields : List (String × Json))
  deriving Inhabited

namespace Json

/-- A number in thousandths, without zeros at the end. -/
def milliText (n : Int) : String :=
  let rest := n.natAbs % 1000
  let digits := (toString (1000 + rest)).toList.tail
  let places := String.ofList (digits.reverse.dropWhile (· = '0')).reverse
  (if n < 0 then "-" else "") ++ toString (n.natAbs / 1000) ++
    (if rest = 0 then "" else "." ++ places)

def escapeChar (c : Char) : List Char :=
  match c.toNat with
  | 0x22 => ['\\', '"']
  | 0x5c => ['\\', '\\']
  | 0x08 => ['\\', 'b']
  | 0x0c => ['\\', 'f']
  | 0x0a => ['\\', 'n']
  | 0x0d => ['\\', 'r']
  | 0x09 => ['\\', 't']
  | n =>
    if n < 0x20 || n = 0x3c || n = 0x3e || n = 0x26 || n = 0x2028 || n = 0x2029 then
      '\\' :: 'u' :: Text.hexDigits 4 n
    else [c]

def quoted (s : String) : String :=
  String.ofList ('"' :: s.toList.flatMap escapeChar ++ ['"'])

/-- A JSON string from bytes; in place of a byte that is not text stands an escape. -/
def quotedBytes (bs : List UInt8) : String :=
  let escape (c : Option Char) : List Char :=
    match c with
    | some c => escapeChar c
    | none => '\\' :: 'u' :: Text.hexDigits 4 Text.replacement.toNat
  String.ofList ('"' :: (Text.charsOfBytes 0 bs).flatMap escape ++ ['"'])

def indentText (level : Nat) : String := "".pushn ' ' (2 * level)

mutual

/-- The value on one line, without blanks. -/
def compact : Json → String
  | .null => "null"
  | .str s => quoted s
  | .raw bs => quotedBytes bs
  | .int n => toString n
  | .milli n => milliText n
  | .bool b => if b then "true" else "false"
  | .arr items => "[" ++ ",".intercalate (compactItems items) ++ "]"
  | .obj fields => "\x7b" ++ ",".intercalate (compactFields fields) ++ "\x7d"

def compactItems : List Json → List String
  | [] => []
  | v :: rest => compact v :: compactItems rest

def compactFields : List (String × Json) → List String
  | [] => []
  | (name, v) :: rest => (quoted name ++ ":" ++ compact v) :: compactFields rest

end

/-- Lines at a level between two brackets, which stand a level higher; nothing stays on one
line. -/
def bracket (opening closing : String) (level : Nat) (lines : List String) : String :=
  if lines.isEmpty then opening ++ closing
  else
    let separator := ",\n" ++ indentText (level + 1)
    opening ++ "\n" ++ indentText (level + 1) ++ separator.intercalate lines ++ "\n" ++
      indentText level ++ closing

mutual

/-- The value at a level of indentation. -/
def indented (level : Nat) : Json → String
  | .null => "null"
  | .str s => quoted s
  | .raw bs => quotedBytes bs
  | .int n => toString n
  | .milli n => milliText n
  | .bool b => if b then "true" else "false"
  | .arr items => bracket "[" "]" level (indentedItems (level + 1) items)
  | .obj fields => bracket "\x7b" "\x7d" level (indentedFields (level + 1) fields)

def indentedItems (level : Nat) : List Json → List String
  | [] => []
  | v :: rest => indented level v :: indentedItems level rest

def indentedFields (level : Nat) : List (String × Json) → List String
  | [] => []
  | (name, v) :: rest => (quoted name ++ ": " ++ indented level v) :: indentedFields level rest

end

/-- A document: the indented value and a line end. -/
def document (v : Json) : String := v.indented 0 ++ "\n"

/-- A string, from its bytes where they are not text. -/
def text (s : String) (bytes : Option (List UInt8)) : Json :=
  match bytes with
  | none => .str s
  | some bs => .raw bs

/-- A field that is left out when its text is empty. -/
def optional (name : String) (s : String) (bytes : Option (List UInt8) := none) :
    List (String × Json) :=
  if s = "" then [] else [(name, .text s bytes)]

/-- A field that is left out when its list is empty. -/
def optionalList (name : String) (items : List Json) : List (String × Json) :=
  if items.isEmpty then [] else [(name, .arr items)]

end Json

end Jasm
