import Jasm.Diagnostic.Code

/-!
# Diagnostics

A finding about a unit: how bad it is, what kind it is, where, and what to say about it.
-/

namespace Jasm

/-- A place inside a unit description. The index of a statement gives the order of findings, its
path is shown to people. -/
structure Place where
  file : String := ""
  index : Int := 0
  path : String := ""
  deriving DecidableEq, Repr, Inhabited

def Place.text (p : Place) : String :=
  if p.file = "" && p.path = "" then "<unknown>"
  else if p.path = "" then p.file
  else if p.file = "" then p.path
  else s!"{p.file}:{p.path}"

/-- A remark that goes with a finding. -/
structure Note where
  place : Place
  message : String
  deriving DecidableEq, Repr, Inhabited

/-- A finding about a unit. -/
structure Diagnostic where
  severity : Severity := .info
  code : Code := .unknown
  message : String := ""
  place : Place := {}
  notes : List Note := []
  /-- The bytes of the message and of the path of the place, where these were read from bytes that
  are not text. -/
  rawMessage : Option (List UInt8) := none
  rawPath : Option (List UInt8) := none
  deriving DecidableEq, Repr, Inhabited

namespace Diagnostic

def error (code : Code) (place : Place) (message : String) : Diagnostic :=
  { severity := .error, code, place, message }

def warning (code : Code) (place : Place) (message : String) : Diagnostic :=
  { severity := .warning, code, place, message }

def withNote (d : Diagnostic) (place : Place) (message : String) : Diagnostic :=
  { d with notes := d.notes ++ [⟨place, message⟩] }

@[simp] theorem severity_error (c : Code) (p : Place) (m : String) :
    (error c p m).severity = .error := rfl

@[simp] theorem severity_warning (c : Code) (p : Place) (m : String) :
    (warning c p m).severity = .warning := rfl

end Diagnostic

end Jasm
