import Jasm.Draft.Basic
import Jasm.Toml.Decode

/-!
# Reading unit descriptions

A unit description is a document with fixed fields. Keys it does not know are no fault but are
listed; a field of the wrong type is one.
-/

namespace Jasm.Draft

open Toml (Data Decode)
open Toml.Decode (fieldOf take string integer float boolean list record)

def exprFields : List String :=
  ["int", "float", "char", "str", "bool", "ref", "op", "l", "r", "call", "args"]

def stmtFields : List String :=
  ["stmt", "name", "kind", "length", "values", "value", "args", "cond", "then", "else", "body"]

/-- A literal of an array. Lists, tables and moments are no literals, which is only found out when
the unit is checked. -/
def literalOf : Data → Literal
  | .string s => .text s
  | .integer n => .integer n
  | .float x => .double x
  | .boolean b => .boolean b
  | .moment => .unsupported "time.Time"
  | .array _ => .unsupported "[]interface \x7b\x7d"
  | .rows _ => .unsupported "[]map[string]interface \x7b\x7d"
  | .table _ => .unsupported "map[string]interface \x7b\x7d"

mutual

def decodeExpr (path : List String) : Data → Decode Expr
  | .table fields => decodeExprFields path fields {}
  | _ => failure

def decodeExprFields (path : List String) : List (String × Data) → Expr → Decode Expr
  | [], e => return e
  | (key, d) :: rest, e => do
    let here := path ++ [key]
    let field := fieldOf exprFields key
    if field.isSome then take here
    let e ← match field with
      | some "int" => do pure { e with int := some (← integer d) }
      | some "float" => do pure { e with float := some (← float d) }
      | some "char" => do pure { e with char := some (← string d) }
      | some "str" => do pure { e with str := some (← string d) }
      | some "bool" => do pure { e with bool := some (← boolean d) }
      | some "ref" => do pure { e with ref := ← string d }
      | some "op" => do pure { e with op := ← string d }
      | some "l" => do pure { e with left := some (← decodeExpr here d) }
      | some "r" => do pure { e with right := some (← decodeExpr here d) }
      | some "call" => do pure { e with call := ← string d }
      | some "args" => do pure { e with args := ← decodeExprs here d }
      | _ => pure e
    decodeExprFields path rest e

def decodeExprs (path : List String) : Data → Decode (List Expr)
  | .array ds | .rows ds => decodeExprList path ds
  | _ => failure

def decodeExprList (path : List String) : List Data → Decode (List Expr)
  | [] => return []
  | d :: rest => do
    let e ← decodeExpr path d
    return e :: (← decodeExprList path rest)

end

mutual

def decodeStmt (path : List String) : Data → Decode Stmt
  | .table fields => decodeStmtFields path fields {}
  | _ => failure

def decodeStmtFields (path : List String) : List (String × Data) → Stmt → Decode Stmt
  | [], s => return s
  | (key, d) :: rest, s => do
    let here := path ++ [key]
    let field := fieldOf stmtFields key
    if field.isSome then take here
    let s ← match field with
      | some "stmt" => do pure { s with tag := ← string d }
      | some "name" => do pure { s with name := ← string d }
      | some "kind" => do pure { s with kind := ← string d }
      | some "length" => do pure { s with length := ← integer d }
      | some "values" => do pure { s with values := (← list d).map literalOf }
      | some "value" => do pure { s with value := some (← decodeExpr here d) }
      | some "args" => do pure { s with args := ← decodeExprs here d }
      | some "cond" => do pure { s with cond := some (← decodeExpr here d) }
      | some "then" => do pure { s with thenBody := ← decodeStmts here d }
      | some "else" => do pure { s with elseBody := ← decodeStmts here d }
      | some "body" => do pure { s with body := ← decodeStmts here d }
      | _ => pure s
    decodeStmtFields path rest s

def decodeStmts (path : List String) : Data → Decode (List Stmt)
  | .array ds | .rows ds => decodeStmtList path ds
  | _ => failure

def decodeStmtList (path : List String) : List Data → Decode (List Stmt)
  | [] => return []
  | d :: rest => do
    let s ← decodeStmt path d
    return s :: (← decodeStmtList path rest)

end

def decodeParam (path : List String) : Data → Decode Param :=
  record path ["name", "kind"] {} fun p name _ d => do
    match name with
    | "name" => return { p with name := ← string d }
    | _ => return { p with kind := ← string d }

def decodeFunction (path : List String) : Data → Decode Function :=
  record path ["name", "params", "returns", "body"] {} fun f name here d => do
    match name with
    | "name" => return { f with name := ← string d }
    | "params" => return { f with params := ← (← list d).mapM (decodeParam here) }
    | "returns" => return { f with returns := ← string d }
    | _ => return { f with body := ← decodeStmts here d }

def decodeMain (path : List String) (old : List Stmt) : Data → Decode (List Stmt) :=
  record path ["body"] old fun _ _ here d => decodeStmts here d

def decode : Data → Decode Draft :=
  record [] ["program", "globals", "functions", "main"] {} fun u name here d => do
    match name with
    | "program" => return { u with program := ← string d }
    | "globals" => return { u with globals := ← decodeStmts here d }
    | "functions" => return { u with functions := ← (← list d).mapM (decodeFunction here) }
    | _ => return { u with main := ← decodeMain here u.main d }

/-- Reads the unit description in a file, numbers its statements and lists the keys that mean
nothing; `none` if the file is no unit description. -/
def parse? (path : String) (source : ByteArray) : Option Draft := do
  let doc ← Toml.Document.ofBytes? source
  let (d, taken) ← (decode doc.root).run ∅
  let unknown := ((doc.untaken taken).map Toml.keyText).mergeSort fun a b => !decide (b < a)
  return { d with path := path, source := source, unknown := unknown }.locate

def malformedText (path : String) : String := s!"{path}: malformed unit: toml: invalid document"

end Jasm.Draft
