import Jasm.Assembly.Emit

/-!
# Comparisons, branches and loops

Steps made of several lines. A comparison is carried out by subtracting and branching on the sign;
an `if` and a `while` keep the labels they need from their first step to their last.
-/

namespace Jasm.Assembly.Emit

/-- Turns the two numbers on the stack into one or zero, by whether a comparison holds of them. -/
def relation (op : Operator) : Emit Unit := do
  requirePhase .method "relation"
  match Cond.ofOperator? op with
  | none => throw (.notRelational op)
  | some c =>
    match ← reserve 2 with
    | [truthy, join] =>
      instr (.op .sub)
      branch c truthy
      loadBool false
      goto join
      define truthy
      loadBool true
      define join
    | _ => pure ()

/-! ## Branches -/

/-- Takes the condition from the stack and skips what follows if it is zero. -/
def ifBegin : Emit Nat := do
  requirePhase .method "if"
  match ← reserve 1 with
  | [falseTarget] =>
    branch .eq falseTarget
    let id := (← get).ifs.size
    modify fun g => { g with ifs := g.ifs.push { falseTarget } }
    return id
  | _ => return 0

def ifBlock? (id : Option Nat) : Emit (Option IfBlock) := do
  return id.bind ((← get).ifs[·]?)

def setIf (id : Option Nat) (b : IfBlock) : Emit Unit :=
  modify fun g => { g with ifs := g.ifs.setIfInBounds (id.getD 0) b }

/-- Ends the first part of a branch and begins the second. If control can reach this point it
jumps over the second part. -/
def otherwise (id : Option Nat) : Emit Unit := do
  match ← ifBlock? id with
  | none => throw .noOpenIf
  | some b =>
    if b.closed || b.hasElse then throw .noOpenIf
    requirePhase .method "else"
    if (← get).terminal then
      setIf id { b with hasElse := true }
      define b.falseTarget
    else
      match ← reserve 1 with
      | [join] =>
        setIf id { b with hasElse := true, join := some join }
        goto join
        define b.falseTarget
      | _ => pure ()

/-- Ends a branch where both parts meet. -/
def ifEnd (id : Option Nat) : Emit Unit := do
  match ← ifBlock? id with
  | none => throw .ifClosedTwice
  | some b =>
    if b.closed then throw .ifClosedTwice
    setIf id { b with closed := true }
    if b.hasElse then
      match b.join with
      | some join => define join
      | none => pure ()
    else define b.falseTarget

/-! ## Loops -/

/-- The head of a loop, behind which its condition follows. -/
def loopBegin : Emit Nat := do
  requirePhase .method "while"
  match ← reserve 2 with
  | [head, exit] =>
    define head
    let id := (← get).loops.size
    modify fun g => { g with loops := g.loops.push { head, exit } }
    return id
  | _ => return 0

def loop? (id : Option Nat) : Emit (Option Loop) := do
  return id.bind ((← get).loops[·]?)

def setLoop (id : Option Nat) (l : Loop) : Emit Unit :=
  modify fun g => { g with loops := g.loops.setIfInBounds (id.getD 0) l }

/-- Takes the condition from the stack and leaves the loop if it is zero. -/
def loopTest (id : Option Nat) : Emit Unit := do
  match ← loop? id with
  | none => throw .loopTestOrder
  | some l =>
    if l.tested || l.closed then throw .loopTestOrder
    setLoop id { l with tested := true }
    branch .eq l.exit

/-- Goes back to the head and marks where the loop is left to. -/
def loopEnd (id : Option Nat) : Emit Unit := do
  match ← loop? id with
  | none => throw .loopEndOrder
  | some l =>
    if !l.tested || l.closed then throw .loopEndOrder
    setLoop id { l with closed := true }
    goto l.head
    define l.exit

end Jasm.Assembly.Emit
