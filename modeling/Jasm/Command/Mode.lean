import Jasm.Text.Blank
import Jasm.Text.Quoted

/-!
# On, off or as the terminal is

Colours and the progress screen are switched on, off, or left to whether the output is a terminal.
-/

namespace Jasm.Command

inductive Mode where
  | auto
  | on
  | off
  deriving DecidableEq, Repr

namespace Mode

def text : Mode → String
  | .auto => "auto"
  | .on => "on"
  | .off => "off"

def parse (flag value : String) : Except String Mode :=
  match Text.keyword value with
  | "" | "auto" => .ok .auto
  | "on" => .ok .on
  | "off" => .ok .off
  | _ => .error s!"invalid --{flag} value {Text.quoted value} (expected auto|on|off)"

/-- What is meant when the output is a terminal or not. -/
def resolve (terminal : Bool) : Mode → Bool
  | .auto => terminal
  | .on => true
  | .off => false

end Mode

end Jasm.Command
