/-!
# Colours on a terminal

A style is a list of display attributes. Text is put between the sequence that sets them and one
that takes each of them back: weight by its own code, a colour by clearing everything.
-/

namespace Jasm.Text

inductive Attribute where
  | bold
  | faint
  | red
  | green
  | yellow
  | blue
  | cyan
  deriving DecidableEq, Repr

namespace Attribute

def code : Attribute → Nat
  | .bold => 1
  | .faint => 2
  | .red => 31
  | .green => 32
  | .yellow => 33
  | .blue => 34
  | .cyan => 36

/-- The code that takes an attribute back. -/
def resetCode : Attribute → Nat
  | .bold | .faint => 22
  | _ => 0

end Attribute

/-- The control sequence of some codes. -/
def controlSequence (codes : List Nat) : String :=
  "\x1b[" ++ ";".intercalate (codes.map toString) ++ "m"

/-- The text in a style, or as it is where colours are off. -/
def paint (enabled : Bool) (style : List Attribute) (s : String) : String :=
  if enabled then
    controlSequence (style.map Attribute.code) ++ s ++
      controlSequence (style.map Attribute.resetCode)
  else s

end Jasm.Text
