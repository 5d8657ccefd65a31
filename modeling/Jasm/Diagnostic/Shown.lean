import Jasm.Diagnostic.Basic
import Jasm.Path

/-!
# Paths as reports show them

Reports show the path of a unit as it was given, from the root, from a base directory, or by its
last part only. A path outside the base directory is shown as it is.
-/

namespace Jasm

/-- How reports show paths. -/
inductive PathMode where
  /-- From the base directory, if one is given. -/
  | auto
  | absolute
  /-- From the base directory, or else from the working directory. -/
  | relative
  | basename
  | asGiven
  deriving DecidableEq, Repr

namespace Path

/-- Drops every `./` at the front. -/
def dropDotSlash : List Char → List Char
  | '.' :: '/' :: rest => dropDotSlash rest
  | cs => cs

def startsUp (path : String) : Bool :=
  match path.toList with
  | '.' :: '.' :: _ => true
  | _ => false

/-- The path from a directory on, if it lies below it; otherwise, and without a directory, the path
as it is. -/
def within (root path : String) : String :=
  if root = "" || path = "" then path
  else
    match relative? root path with
    | some rel => if startsUp rel then path else rel
    | none => path

/-- The path from a base directory on, if it lies below it, without a `./` in front. -/
def below (path baseDir : String) : String :=
  String.ofList (dropDotSlash (within baseDir path).toList)

end Path

namespace PathMode

def parse? : String → Option PathMode
  | "auto" => some .auto
  | "absolute" => some .absolute
  | "relative" => some .relative
  | "basename" => some .basename
  | _ => none

/-- A path from a base directory on; where only one of the two starts at the root both are taken
from there. -/
def fromBase (cwd path base : String) : String :=
  if base ≠ "" && Path.isRooted path ≠ Path.isRooted base then
    Path.below (Path.absolute cwd path) (Path.absolute cwd base)
  else Path.below path base

def format (mode : PathMode) (cwd baseDir path : String) : String :=
  if path = "" then ""
  else
    match mode with
    | .absolute => Path.absolute cwd path
    | .basename => Path.base path
    | .auto => fromBase cwd path baseDir
    | .relative => fromBase cwd path (if baseDir = "" then "." else baseDir)
    | .asGiven => path

end PathMode

def Place.shown (p : Place) (mode : PathMode) (cwd baseDir : String) : Place :=
  { p with file := mode.format cwd baseDir p.file }

end Jasm
