import Jasm.Assembly.Control

/-!
# Steps as data

Every step a client can ask for, so that one can speak of all sequences of steps.
-/

namespace Jasm.Assembly

/-- A step with its arguments. A function, an `if` or a `while` that a client names wrongly is
`none`. -/
inductive Call where
  | programStart
  | programEnd
  | declareGlobal (id : String) (kind : Kind)
  | declareGlobalInit (id : String) (v : Value)
  | loadGlobal (id : String)
  | storeGlobal (id : String)
  | loadLocal (slot : Int)
  | storeLocal (slot : Int)
  | load (id : String) (loc : Location)
  | store (id : String) (loc : Location)
  | loadInt (n : Int32)
  | loadString (s : String)
  | loadBool (b : Bool)
  | loadConst (v : Value)
  | pop
  | operation (op : Operator)
  | relation (op : Operator)
  | printBegin
  | printEnd (kind : Kind) (newline : Bool)
  | beginFunction (f : Option Signature)
  | endFunction
  | beginMain
  | endMain
  | returnValue
  | returnVoid
  | invoke (f : Option Signature) (given : Int)
  | reserve (n : Int)
  | define (l : Label)
  | goto (l : Label)
  | branch (code : Nat) (l : Label)
  | ifBegin
  | otherwise (id : Option Nat)
  | ifEnd (id : Option Nat)
  | loopBegin
  | loopTest (id : Option Nat)
  | loopEnd (id : Option Nat)
  deriving DecidableEq

/-- What a step gives back. -/
inductive Reply where
  | done
  | labels (ls : List Label)
  | cond (c : Cond)
  /-- The `if` or `while` that was begun. -/
  | block (id : Nat)
  deriving DecidableEq, Repr

def Call.perform : Call → Emit Reply
  | .programStart => Emit.programStart *> pure .done
  | .programEnd => Emit.programEnd *> pure .done
  | .declareGlobal id kind => Emit.declareGlobal id kind *> pure .done
  | .declareGlobalInit id v => Emit.declareGlobalInit id v *> pure .done
  | .loadGlobal id => Emit.loadGlobal id *> pure .done
  | .storeGlobal id => Emit.storeGlobal id *> pure .done
  | .loadLocal slot => Emit.loadLocal slot *> pure .done
  | .storeLocal slot => Emit.storeLocal slot *> pure .done
  | .load id loc => Emit.load id loc *> pure .done
  | .store id loc => Emit.store id loc *> pure .done
  | .loadInt n => Emit.loadInt n *> pure .done
  | .loadString s => Emit.loadString s *> pure .done
  | .loadBool b => Emit.loadBool b *> pure .done
  | .loadConst v => Emit.loadConst v *> pure .done
  | .pop => Emit.pop *> pure .done
  | .operation op => Emit.operation op *> pure .done
  | .relation op => Emit.relation op *> pure .done
  | .printBegin => Emit.printBegin *> pure .done
  | .printEnd kind newline => Emit.printEnd kind newline *> pure .done
  | .beginFunction f => Emit.beginFunction f *> pure .done
  | .endFunction => Emit.endFunction *> pure .done
  | .beginMain => Emit.beginMain *> pure .done
  | .endMain => Emit.endMain *> pure .done
  | .returnValue => Emit.returnValue *> pure .done
  | .returnVoid => Emit.returnVoid *> pure .done
  | .invoke f given => Emit.invoke f given *> pure .done
  | .reserve n => Reply.labels <$> Emit.reserve n
  | .define l => Emit.define l *> pure .done
  | .goto l => Emit.goto l *> pure .done
  | .branch code l => Reply.cond <$> Emit.branchCode code l
  | .ifBegin => Reply.block <$> Emit.ifBegin
  | .otherwise id => Emit.otherwise id *> pure .done
  | .ifEnd id => Emit.ifEnd id *> pure .done
  | .loopBegin => Reply.block <$> Emit.loopBegin
  | .loopTest id => Emit.loopTest id *> pure .done
  | .loopEnd id => Emit.loopEnd id *> pure .done

/-- The outcome of a step and the program after it. -/
def Generator.step (g : Generator) (c : Call) : Except Fault Reply × Generator :=
  c.perform.run.run g

end Jasm.Assembly
