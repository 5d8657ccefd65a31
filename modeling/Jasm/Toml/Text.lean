import Jasm.Text.CodePoints
import Jasm.Toml.Node

/-!
# Strings

A string stands on one line between single quotation marks, or over several lines between triple
ones. Between double quotes a backslash starts an escape, and in front of a line end it joins the
lines; between apostrophes everything is taken as it stands. Up to two quotation marks may stand in
front of three closing ones.
-/

namespace Jasm.Toml.Text

/-- The character with a given number, if it is one. -/
def scalar? (hex : List Char) : Option Char :=
  let n := Jasm.Text.hexNumber (String.ofList hex)
  if hex.all isHexDigit && (n < 0xd800 || (0xdfff < n && n < 0x110000)) then some (Char.ofNat n)
  else none

/-- The character that a letter stands for behind a backslash. -/
def shortEscape : Char → Option Char
  | 'b' => some '\x08'
  | 't' => some '\t'
  | 'n' => some '\n'
  | 'f' => some '\x0c'
  | 'r' => some '\r'
  | '"' => some '"'
  | '\\' => some '\\'
  | _ => none

/-- Whether a line ends here, blanks aside. -/
def startsLineEnd (cs : List Char) : Bool :=
  (cs.takeWhile fun c => isSpace c || isLineEnd c).contains '\n'

/-- Replaces the escapes. `joining` is set behind a backslash at the end of a line, where blanks and
line ends are passed over. -/
def unescape : (joining : Bool) → List Char → Option (List Char)
  | _, [] => some []
  | _, '\\' :: 'u' :: a :: b :: c :: d :: rest => do
    let x ← scalar? [a, b, c, d]
    return x :: (← unescape false rest)
  | _, '\\' :: 'U' :: a :: b :: c :: d :: e :: f :: g :: h :: rest => do
    let x ← scalar? [a, b, c, d, e, f, g, h]
    return x :: (← unescape false rest)
  | _, '\\' :: c :: rest =>
    if isSpace c || isLineEnd c then
      if startsLineEnd (c :: rest) then unescape true rest else none
    else do
      let x ← shortEscape c
      return x :: (← unescape false rest)
  | joining, c :: rest =>
    if joining && (isSpace c || isLineEnd c) then unescape true rest
    else do
      guard (c ≠ '\\')
      return c :: (← unescape false rest)

/-- The body of a string on one line, up to the closing mark, and the rest. No line is joined with
the next one here. -/
def lineBody (mark : Char) (escapes : Bool) : List Char → Option (List Char × List Char)
  | [] => none
  | c :: rest =>
    if c = mark then some ([], rest)
    else if isLineEnd c then none
    else if c = '\\' && escapes then
      match rest with
      | [] => none
      | d :: rest =>
        if isLineEnd d then none
        else (lineBody mark escapes rest).map fun (body, left) => (c :: d :: body, left)
    else (lineBody mark escapes rest).map fun (body, left) => (c :: body, left)

/-- The marks that belong to the body of a string that ends in `run` of them. Six marks are too
many, except behind an escaped backslash. -/
def closing (mark : Char) (run : Nat) (behindSlash : Bool) : Option (List Char) :=
  if run ≤ 5 || (run = 6 && behindSlash) then some (List.replicate (run - 3) mark) else none

/-- The body of a string over several lines, up to the closing marks, and the rest. `run` marks
were read and not yet given out. -/
def blockBody (mark : Char) (escapes : Bool) :
    (run : Nat) → (behindSlash : Bool) → List Char → Option (List Char × List Char)
  | run, behindSlash, [] =>
    if 3 ≤ run then (closing mark run behindSlash).map (·, []) else none
  | run, behindSlash, c :: rest =>
    if c = mark then blockBody mark escapes (run + 1) behindSlash rest
    else if 3 ≤ run then (closing mark run behindSlash).map (·, c :: rest)
    else
      let held := List.replicate run mark
      if c = '\\' && escapes then
        match rest with
        | [] => none
        | d :: rest =>
          (blockBody mark escapes 0 (d = '\\') rest).map fun (body, left) =>
            (held ++ c :: d :: body, left)
      else
        (blockBody mark escapes 0 false rest).map fun (body, left) => (held ++ c :: body, left)

/-- Drops a line end directly behind the opening marks. -/
def dropFirstLineEnd : List Char → List Char
  | '\n' :: rest => rest
  | '\r' :: '\n' :: rest => rest
  | cs => cs

/-- Reads a string on one line whose opening mark was read. -/
def line (mark : Char) : Reader String := fun cs => do
  let escapes := mark = '"'
  let (body, rest) ← lineBody mark escapes cs
  let body ← if escapes then unescape false body else some body
  return (String.ofList body, rest)

/-- Reads a string over several lines whose opening marks were read. -/
def block (mark : Char) : Reader String := fun cs => do
  let escapes := mark = '"'
  let (body, rest) ← blockBody mark escapes 0 false cs
  let body := dropFirstLineEnd body
  let body ← if escapes then unescape false body else some body
  return (String.ofList body, rest)

end Jasm.Toml.Text
