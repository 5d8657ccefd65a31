import Jasm.Text.Printable

/-!
# Quoted text

Names and other text taken from the input are shown inside messages between double quotes, with
everything that has no visible form written as an escape.
-/

namespace Jasm.Text

/-- The lower-case hexadecimal digit of a number below sixteen. -/
def hexChar (n : Nat) : Char :=
  if n < 10 then Char.ofNat ('0'.toNat + n) else Char.ofNat ('a'.toNat + (n - 10))

/-- The last `width` hexadecimal digits of `n`, most significant first. -/
def hexDigits : (width n : Nat) → List Char
  | 0, _ => []
  | width + 1, n => hexDigits width (n / 16) ++ [hexChar (n % 16)]

def hexText (width n : Nat) : String := String.ofList (hexDigits width n)

/-- The escape of a character that is not shown as itself. -/
def escaped (c : Char) : List Char :=
  match c.toNat with
  | 0x07 => ['\\', 'a']
  | 0x08 => ['\\', 'b']
  | 0x0c => ['\\', 'f']
  | 0x0a => ['\\', 'n']
  | 0x0d => ['\\', 'r']
  | 0x09 => ['\\', 't']
  | 0x0b => ['\\', 'v']
  | n =>
    if n < 0x20 || n = 0x7f then '\\' :: 'x' :: hexDigits 2 n
    else if n < 0x10000 then '\\' :: 'u' :: hexDigits 4 n
    else '\\' :: 'U' :: hexDigits 8 n

/-- One character inside double quotes. -/
def quotedChar (c : Char) : List Char :=
  if c = '"' || c = '\\' then ['\\', c]
  else if isPrintable c then [c]
  else escaped c

/-- The text between double quotes, escaped where needed. -/
def quoted (s : String) : String :=
  String.ofList ('"' :: s.toList.flatMap quotedChar ++ ['"'])

/-- A character between single quotes, escaped where needed. -/
def quotedLetter (c : Char) : String :=
  let body := if c = '\'' then ['\\', c] else if c = '"' then [c] else quotedChar c
  String.ofList ('\'' :: body ++ ['\''])

end Jasm.Text
