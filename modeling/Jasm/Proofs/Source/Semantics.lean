import Jasm.Program.Basic
import Jasm.Proofs.Assembly.Comparison

/-!
# The meaning of programs

What a program does when it is run as it stands. Statements run in order, names mean their innermost
declaration, arguments are evaluated from left to right, both operands of an operator are always
evaluated, and operators are those on values. Global variables start as zero or false, local
variables hold nothing until they are assigned to.

A run is computed with a limited amount of fuel, one unit for each step down. Besides running out of
fuel, it can end in a fault. Four things that a program can do have no meaning that every target
agrees on, or none at all: dividing by zero, reading a variable that holds nothing, comparing
numbers whose difference does not fit a word while the program runs, and being stuck, where a name
means nothing, or not what it is used for, or an operator is not defined on its operands.
-/

namespace Jasm.Source

open Program (Expr Stmt)

/-- What a name stands for. -/
inductive Binding where
  /-- A variable, which may hold nothing. -/
  | variable (v : Value)
  | constant (v : Value)
  | array

/-- Why a run ends early. -/
inductive Fault where
  | divisionByZero
  | unassigned
  | comparison
  | stuck
  | outOfFuel
  deriving DecidableEq

/-- The declarations of one block. -/
abbrev Level := String → Option Binding

/-- The state of a run: the open blocks of the running function, innermost first, the global
declarations, and what was printed, with whether a line was ended behind it. -/
structure Env where
  locals : List Level
  globals : Level
  output : List (Value × Bool)

/-- How a statement ends. -/
inductive Outcome where
  | done (env : Env)
  | returned (v : Option Value) (env : Env)

/-! ## Names -/

/-- The innermost declaration of a name. -/
def lookup (globals : Level) (name : String) : List Level → Option Binding
  | [] => globals name
  | l :: rest =>
    match l name with
    | some b => some b
    | none => lookup globals name rest

/-- The level with a new value in one of its variables. -/
def Level.assign (l : Level) (name : String) (v : Value) : Option Level :=
  match l name with
  | some (.variable old) =>
    match old.assign v with
    | .ok new => some (Function.update l name (some (.variable new)))
    | .error _ => none
  | _ => none

/-- Stores a value in the innermost variable of a name. -/
def assign (globals : Level) (name : String) (v : Value) : List Level → Option (List Level × Level)
  | [] => (globals.assign name v).map ([], ·)
  | l :: rest =>
    match l name with
    | some _ => (l.assign name v).map (· :: rest, globals)
    | none => (assign globals name v rest).map fun (rest, globals) => (l :: rest, globals)

namespace Env

def lookup (env : Env) (name : String) : Option Binding :=
  Source.lookup env.globals name env.locals

/-- Stores a value in a variable. -/
def assign (env : Env) (name : String) (v : Value) : Except Fault Env :=
  match Source.assign env.globals name v env.locals with
  | some (locals, globals) => .ok { env with locals := locals, globals := globals }
  | none => .error .stuck

/-- Declares a name in the innermost block, or globally outside all blocks. -/
def declare (env : Env) (name : String) (b : Binding) : Env :=
  match env.locals with
  | [] => { env with globals := Function.update env.globals name (some b) }
  | l :: rest => { env with locals := Function.update l name (some b) :: rest }

def enter (env : Env) : Env := { env with locals := (fun _ => none) :: env.locals }

def leave (env : Env) : Env := { env with locals := env.locals.tail }

/-- Whether the value of an expression is known before the program runs. -/
def knows (env : Env) : Expr → Bool
  | .literal v => v.isInit
  | .ref name =>
    match env.lookup name with
    | some (.constant _) => true
    | _ => false
  | .unary _ e => env.knows e
  | .binary _ l r => env.knows l && env.knows r
  | .call .. => false

end Env

/-! ## Values -/

/-- What a variable of a kind holds if it was never assigned to: something only if it is global. -/
def initial (kind : Kind) (isGlobal : Bool) : Value :=
  match kind, isGlobal with
  | .integer, true => .int 0
  | .boolean, true => .bool false
  | kind, _ => .uninit kind

/-- The result of an operator. -/
def result : Except Value.Fault Value → Except Fault Value
  | .ok v => .ok v
  | .error f => .error (if f.isMismatch then .stuck else .divisionByZero)

/-- Whether the sign of a difference tells the answer of a comparison. -/
def comparable (op : Operator) : Value → Value → Bool
  | .int a, .int b =>
    !op.isRelational || op = .eq || op = .notEq || decide (Assembly.DifferenceFits a b)
  | _, _ => true

/-- Declares the parameters of a function with the arguments of a call. -/
def parameters (l : Level) : List (String × Kind) → List Value → Option Level
  | [], [] => some l
  | (name, kind) :: params, v :: vs =>
    match (Value.uninit kind).assign v with
    | .ok v => parameters (Function.update l name (some (.variable v))) params vs
    | .error _ => none
  | _, _ => none

/-! ## Runs -/

variable (p : Program)

mutual

/-- The value of an expression. -/
def eval : Nat → Env → Expr → Except Fault (Value × Env)
  | 0, _, _ => .error .outOfFuel
  | _ + 1, env, .literal v => .ok (v, env)
  | _ + 1, env, .ref name =>
    match env.lookup name with
    | some (.variable v) => if v.isInit then .ok (v, env) else .error .unassigned
    | some (.constant v) => .ok (v, env)
    | _ => .error .stuck
  | n + 1, env, .unary op e =>
    match eval n env e with
    | .ok (v, env) => (result (Value.unary op v)).map (·, env)
    | .error f => .error f
  | n + 1, env, .binary op l r =>
    match eval n env l with
    | .ok (vl, env₁) =>
      match eval n env₁ r with
      | .ok (vr, env₂) =>
        if env.knows l && env.knows r || comparable op vl vr then
          (result (Value.binary op vl vr)).map (·, env₂)
        else .error .comparison
      | .error f => .error f
    | .error f => .error f
  | n + 1, env, .call name args =>
    match evalArgs n env args with
    | .ok (vs, env₁) =>
      match call n env₁ name vs with
      | .ok (some v, env₂) => .ok (v, env₂)
      | .ok (none, _) => .error .stuck
      | .error f => .error f
    | .error f => .error f

/-- The values of some arguments, from left to right. -/
def evalArgs : Nat → Env → List Expr → Except Fault (List Value × Env)
  | 0, _, _ => .error .outOfFuel
  | _ + 1, env, [] => .ok ([], env)
  | n + 1, env, e :: rest =>
    match eval n env e with
    | .ok (v, env₁) =>
      match evalArgs n env₁ rest with
      | .ok (vs, env₂) => .ok (v :: vs, env₂)
      | .error f => .error f
    | .error f => .error f

/-- Calls a function. Its body sees its parameters and what is global. -/
def call : Nat → Env → String → List Value → Except Fault (Option Value × Env)
  | 0, _, _, _ => .error .outOfFuel
  | n + 1, env, name, vs =>
    match env.lookup name, p.functions.find? (·.name = name) with
    | none, some f =>
      match parameters (fun _ => none) f.params vs with
      | some l =>
        match execAll n { env with locals := [l] } f.body with
        | .ok (.done env') =>
          if f.signature.result?.isSome then .error .stuck
          else .ok (none, { env' with locals := env.locals })
        | .ok (.returned v env') =>
          if v.isSome = f.signature.result?.isSome then .ok (v, { env' with locals := env.locals })
          else .error .stuck
        | .error f => .error f
      | none => .error .stuck
    | _, _ => .error .stuck

/-- Runs a declaration. The first value of a variable is computed before its name can be seen. -/
def declare : Nat → Env → Program.Declaration → Except Fault Env
  | 0, _, _ => .error .outOfFuel
  | _ + 1, env, .variable name kind none =>
    .ok (env.declare name (.variable (initial kind env.locals.isEmpty)))
  | n + 1, env, .variable name kind (some e) =>
    match eval n env e with
    | .ok (v, env) =>
      match (Value.uninit kind).assign v with
      | .ok v => .ok (env.declare name (.variable v))
      | .error _ => .error .stuck
    | .error f => .error f
  | n + 1, env, .constant name _ e =>
    match eval n env e with
    | .ok (v, env) => .ok (env.declare name (.constant v))
    | .error f => .error f
  | _ + 1, env, .array name .. => .ok (env.declare name .array)

/-- Runs a statement. -/
def exec : Nat → Env → Stmt → Except Fault Outcome
  | 0, _, _ => .error .outOfFuel
  | n + 1, env, .declare _ d => (declare n env d).map .done
  | n + 1, env, .assign _ name e =>
    match eval n env e with
    | .ok (v, env) => (env.assign name v).map .done
    | .error f => .error f
  | n + 1, env, .print _ newline e =>
    match eval n env e with
    | .ok (v, env) => .ok (.done { env with output := env.output ++ [(v, newline)] })
    | .error f => .error f
  | n + 1, env, .branch _ cond thenBody elseBody =>
    match eval n env cond with
    | .ok (.bool b, env) => block n env (if b then thenBody else elseBody)
    | .ok _ => .error .stuck
    | .error f => .error f
  | n + 1, env, .loop pos cond body =>
    match eval n env cond with
    | .ok (.bool true, env) =>
      match block n env body with
      | .ok (.done env) => exec n env (.loop pos cond body)
      | r => r
    | .ok (.bool false, env) => .ok (.done env)
    | .ok _ => .error .stuck
    | .error f => .error f
  | _ + 1, env, .ret _ none => .ok (.returned none env)
  | n + 1, env, .ret _ (some e) =>
    match eval n env e with
    | .ok (v, env) => .ok (.returned (some v) env)
    | .error f => .error f
  | n + 1, env, .call _ name args =>
    match evalArgs n env args with
    | .ok (vs, env) => (call n env name vs).map fun (_, env) => .done env
    | .error f => .error f
  | n + 1, env, .block _ body => block n env body

/-- Runs statements in a block of their own. -/
def block : Nat → Env → List Stmt → Except Fault Outcome
  | 0, _, _ => .error .outOfFuel
  | n + 1, env, ss =>
    match execAll n env.enter ss with
    | .ok (.done env) => .ok (.done env.leave)
    | r => r

/-- Runs statements in order, until one of them returns. -/
def execAll : Nat → Env → List Stmt → Except Fault Outcome
  | 0, _, _ => .error .outOfFuel
  | _ + 1, env, [] => .ok (.done env)
  | n + 1, env, s :: rest =>
    match exec n env s with
    | .ok (.done env) => execAll n env rest
    | r => r

end

/-- Runs the global declarations. -/
def declareAll (n : Nat) (env : Env) : List (Position × Program.Declaration) → Except Fault Env
  | [] => .ok env
  | (_, d) :: rest =>
    match declare p n env d with
    | .ok env => declareAll n env rest
    | .error f => .error f

def run (n : Nat) : Except Fault Env :=
  match declareAll p n ⟨[], fun _ => none, []⟩ p.globals with
  | .ok env =>
    match execAll p n env.enter p.main with
    | .ok (.done env) | .ok (.returned none env) => .ok env
    | .ok (.returned (some _) _) => .error .stuck
    | .error f => .error f
  | .error f => .error f

end Jasm.Source
