/-!
# Progress

The compilation of a unit goes through stages, and each unit tells when it enters a stage and how
it ends.
-/

namespace Jasm

/-- A stage of the compilation of a unit. -/
inductive Stage where
  /-- Reading and checking the description. -/
  | load
  /-- Going through the statements without writing a file. -/
  | check
  | emit
  /-- Writing the file. -/
  | publish
  | other (name : String)
  deriving DecidableEq, Repr

def Stage.text : Stage → String
  | .load => "load"
  | .check => "check"
  | .emit => "emit"
  | .publish => "publish"
  | .other name => name

def Stage.ofText : String → Stage
  | "load" => .load
  | "check" => .check
  | "emit" => .emit
  | "publish" => .publish
  | name => .other name

inductive Status where
  | queued
  | working
  | cached
  | done
  | error
  | other (name : String)
  deriving DecidableEq, Repr

namespace Status

def text : Status → String
  | .queued => "queued"
  | .working => "working"
  | .cached => "cached"
  | .done => "done"
  | .error => "error"
  | .other name => name

def ofText : String → Status
  | "queued" => .queued
  | "working" => .working
  | "cached" => .cached
  | "done" => .done
  | "error" => .error
  | name => .other name

/-- Whether nothing more is told about the unit. -/
def isTerminal : Status → Bool
  | .done | .error | .cached => true
  | .queued | .working | .other _ => false

end Status

/-- What a unit tells. -/
structure Progress where
  unit : String
  stage : Stage
  status : Status
  problem : Option String := none
  deriving DecidableEq, Repr

end Jasm
