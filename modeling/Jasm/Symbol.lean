import Jasm.Value.Scalar

/-!
# Declared symbols

What a name can be declared as: a variable, a named constant, an array of fixed length, or a
function known by its signature. Operations that give a new symbol give none if they are refused;
those that write to an array in place also tell what they leave behind then.
-/

namespace Jasm

/-- How a name was declared. -/
inductive Form where
  | constant
  | variable
  | function
  | array
  deriving DecidableEq, Repr

def Form.text : Form → String
  | .constant => "Constant"
  | .variable => "Variable"
  | .function => "Function"
  | .array => "Array"

/-- A function's signature. A function that returns nothing has the return kind `none`. -/
structure Signature where
  name : String
  params : List Kind
  ret : Kind
  deriving DecidableEq, Repr, Inhabited

/-- A sequence of scalars of one kind, each of which may hold nothing. -/
structure ArrayVar where
  name : String
  kind : Kind
  elems : Array Value
  deriving DecidableEq

/-- A named declaration. -/
inductive Symbol where
  | variable (name : String) (value : Value)
  | constant (name : String) (value : Value)
  | array (a : ArrayVar)
  | function (f : Signature)
  deriving DecidableEq

namespace Symbol

instance : Inhabited Symbol := ⟨.variable "" default⟩

/-- Why an operation on a symbol is refused. -/
inductive Fault where
  | variable (name : String) (cause : Value.Fault)
  | uninitConstant (name : String)
  | arrayLength (name : String) (length : Int)
  | arrayKind (name : String) (kind : Kind)
  | index (name : String) (i : Int) (length : Nat)
  | element (name : String) (i : Int) (cause : Value.Fault)
  | assignLength (name : String) (given length : Nat)
  | assignElement (name : String) (i : Nat) (given kind : Kind)
  | argumentCount (name : String) (want given : Nat)
  | argumentKind (name : String) (position : Nat) (given want : Kind)
  deriving DecidableEq, Repr

def Fault.message : Fault → String
  | .variable name cause => s!"variable {Text.quoted name}: {cause.message}"
  | .uninitConstant name => s!"constant {Text.quoted name}: uninitialized value"
  | .arrayLength name length =>
    s!"array {Text.quoted name}: length must be positive, got {length}"
  | .arrayKind name kind =>
    s!"array {Text.quoted name}: type mismatch: invalid element kind {kind.text}"
  | .index name i length =>
    s!"array {Text.quoted name}: array index out of range: index {i}, length {length}"
  | .element name i cause => s!"array {Text.quoted name}[{i}]: {cause.message}"
  | .assignLength name given length =>
    s!"array {Text.quoted name}: type mismatch: assigning {given} elements to length {length}"
  | .assignElement name i given kind =>
    s!"array {Text.quoted name}[{i}]: type mismatch: {given.text} element in {kind.text} array"
  | .argumentCount name want given =>
    s!"call to {Text.quoted name}: type mismatch: want {want} arguments, got {given}"
  | .argumentKind name position given want =>
    s!"call to {Text.quoted name}: type mismatch: argument {position} is {given.text}" ++
      s!", want {want.text}"

def name : Symbol → String
  | .variable n _ => n
  | .constant n _ => n
  | .array a => a.name
  | .function f => f.name

def form : Symbol → Form
  | .variable .. => .variable
  | .constant .. => .constant
  | .array _ => .array
  | .function _ => .function

/-- A variable that holds nothing yet. -/
def newVariable (name : String) (kind : Kind) : Symbol := .variable name (.uninit kind)

/-- A constant holds a scalar from the start. -/
def newConstant (name : String) (value : Value) : Except Fault Symbol :=
  if value.isInit then .ok (.constant name value) else .error (.uninitConstant name)

end Symbol

namespace Signature

def arity (f : Signature) : Nat := f.params.length

/-- The kind of the result, if there is one. -/
def result? (f : Signature) : Option Kind := if f.ret = .none then none else some f.ret

def addParam (f : Signature) (kind : Kind) : Signature := { f with params := f.params ++ [kind] }

/-- The first argument, counted from `position`, whose kind differs from its parameter's. -/
def firstMismatch (name : String) : (position : Nat) → (given want : List Kind) →
    Except Symbol.Fault Unit
  | position, g :: given, w :: want =>
    if g = w then firstMismatch name (position + 1) given want
    else .error (.argumentKind name position g w)
  | _, _, _ => .ok ()

/-- Checks the kinds of a call's arguments against the parameters. -/
def checkKinds (f : Signature) (kinds : List Kind) : Except Symbol.Fault Unit :=
  if kinds.length ≠ f.arity then .error (.argumentCount f.name f.arity kinds.length)
  else firstMismatch f.name 1 kinds f.params

/-- Only the kinds of arguments matter; they need not hold anything. -/
def checkArgs (f : Signature) (args : List Value) : Except Symbol.Fault Unit :=
  f.checkKinds (args.map Value.kind)

end Signature

namespace ArrayVar

/-- The longest array that memory can be asked for: the elements take 24 bytes each, and no process
has more than 2^48 bytes. -/
def maxLength : Nat := 0x1000000000000 / 24

/-- An array of elements that hold nothing yet. -/
def new (name : String) (kind : Kind) (length : Int) : Except Symbol.Fault ArrayVar :=
  if length ≤ 0 then .error (.arrayLength name length)
  else if kind.isScalar then .ok ⟨name, kind, Array.replicate length.toNat (.uninit kind)⟩
  else .error (.arrayKind name kind)

def length (a : ArrayVar) : Nat := a.elems.size

def get (a : ArrayVar) (i : Int) : Except Symbol.Fault Value :=
  if 0 ≤ i then
    match a.elems[i.toNat]? with
    | some v => .ok v
    | none => .error (.index a.name i a.length)
  else .error (.index a.name i a.length)

/-- Replaces the element at an index by a value of the array's kind. -/
def set (a : ArrayVar) (i : Int) (v : Value) : Except Symbol.Fault ArrayVar := do
  let old ← a.get i
  match old.assign v with
  | .ok new => .ok { a with elems := a.elems.setIfInBounds i.toNat new }
  | .error cause => .error (.element a.name i cause)

/-- The first value, counted from `i`, that is not of the array's kind. -/
def firstMismatch (a : ArrayVar) : (i : Nat) → List Value → Except Symbol.Fault Unit
  | _, [] => .ok ()
  | i, v :: rest =>
    if v.kind = a.kind then a.firstMismatch (i + 1) rest
    else .error (.assignElement a.name i v.kind a.kind)

/-- Assigns to the element at an index in place. What the element is behind the assignment is what
lies in the array then, also if the assignment is refused. -/
def setAt (a : ArrayVar) (i : Int) (v : Value) : Except Symbol.Fault Unit × ArrayVar :=
  match a.get i with
  | .error f => (.error f, a)
  | .ok element =>
    let (r, element) := element.put v
    (r.mapError (.element a.name i), { a with elems := a.elems.setIfInBounds i.toNat element })

/-- Replaces all elements in place by as many values of the array's kind, after a look at each of
them. -/
def assign (a : ArrayVar) (values : List Value) : Except Symbol.Fault Unit × ArrayVar :=
  if values.length ≠ a.length then (.error (.assignLength a.name values.length a.length), a)
  else
    match a.firstMismatch 0 values with
    | .error f => (.error f, a)
    | .ok _ => (.ok (), { a with elems := values.toArray })

/-- The elements that hold something, with their indices. -/
def heldText (a : ArrayVar) : String :=
  String.join <| a.elems.toList.zipIdx.filterMap fun (v, i) =>
    if v.isInit then some s!" {i}:{v.text}," else none

end ArrayVar

namespace Symbol

/-- One line about a symbol, as dumps of the scopes show it. -/
def describe : Symbol → String
  | .variable n v =>
    s!"id: {n}, declaration: {Form.variable.text}, type: {v.kind.text}" ++
      (if v.isInit then s!", value: {v.text}" else "")
  | .constant n v =>
    s!"id: {n}, declaration: {Form.constant.text}, type: {v.kind.text}, value: {v.text}"
  | .array a =>
    s!"id: {a.name}, declaration: {Form.array.text}, type: {a.kind.text}" ++
      s!", length: {a.length}, value: \x7b{a.heldText}\x7d"
  | .function f =>
    let params := ", ".intercalate (f.params.map Kind.text)
    s!"id: {f.name}, declaration: {Form.function.text}, input_types: \x7b{params}\x7d" ++
      s!", return_type: {f.ret.text}"

/-- Stores a value into a variable; other symbols cannot be written to and stay as they are. -/
def setVariable : Symbol → Value → Except Fault Symbol
  | .variable n old, v =>
    match old.assign v with
    | .ok new => .ok (.variable n new)
    | .error cause => .error (.variable n cause)
  | s, _ => .ok s

end Symbol

end Jasm
