/-!
# Diagnostic codes and severities

A code is a number of two bytes whose thousands tell the area it belongs to. A severity is a byte,
of which three values are in use.
-/

namespace Jasm

/-- How bad a finding is. -/
inductive Severity where
  | info
  | warning
  | error
  /-- A byte that names no severity, counted from the first such byte. -/
  | other (index : Fin 253)
  deriving DecidableEq, Repr, Inhabited

namespace Severity

/-- The byte of a severity; higher is worse. -/
def rank : Severity → Nat
  | .info => 0
  | .warning => 1
  | .error => 2
  | .other i => 3 + i

/-- The severity of a byte; only the low eight bits count. -/
def ofRank (n : Nat) : Severity :=
  match n % 256 with
  | 0 => .info
  | 1 => .warning
  | 2 => .error
  | k + 3 => .other (Fin.ofNat 253 k)

def text : Severity → String
  | .info => "INFO"
  | .warning => "WARNING"
  | .error => "ERROR"
  | .other _ => "UNKNOWN"

/-- The lower-case name used in short output. -/
def label : Severity → String
  | .error => "error"
  | .warning => "warning"
  | .info | .other _ => "info"

/-- Whether this is one of the three severities in use. -/
def isValid : Severity → Bool
  | .other _ => false
  | _ => true

/-- Whether a unit with such a finding fails. -/
def isError (s : Severity) : Bool := 2 ≤ s.rank

@[simp] theorem ofRank_rank (s : Severity) : ofRank s.rank = s := by
  cases s with
  | other i =>
    have hi := i.isLt
    have hmod : (3 + i.val) % 256 = i.val + 3 := by omega
    simp only [ofRank, rank, hmod, other.injEq]
    ext
    simp [Fin.ofNat]
  | _ => rfl

end Severity

/-- The number of a kind of finding. -/
structure Code where
  number : UInt16
  deriving DecidableEq, Repr, Inhabited

namespace Code

def unknown : Code := ⟨0⟩

def unitMalformed : Code := ⟨2001⟩
def unitUnknownKind : Code := ⟨2002⟩
def unitUnknownOp : Code := ⟨2003⟩
def unitBadLiteral : Code := ⟨2004⟩
def unitUnknownStmt : Code := ⟨2005⟩
def unitMissingField : Code := ⟨2006⟩
def unitBadArrayShape : Code := ⟨2007⟩

def semaError : Code := ⟨3001⟩
def semaDuplicateSymbol : Code := ⟨3002⟩
def semaNotAddressable : Code := ⟨3003⟩
def semaAssignToConstant : Code := ⟨3004⟩
def semaUnresolvedSymbol : Code := ⟨3005⟩
def semaNotCallable : Code := ⟨3006⟩
def semaArityMismatch : Code := ⟨3007⟩
def semaReturnOutsideFn : Code := ⟨3008⟩
def semaMissingReturn : Code := ⟨3009⟩
def semaTypeMismatch : Code := ⟨3010⟩
def semaUninitRead : Code := ⟨3011⟩
def semaScopeUnderflow : Code := ⟨3012⟩
def semaDivisionByZero : Code := ⟨3013⟩
def semaTooManyLocals : Code := ⟨3014⟩
def semaIndexOutOfRange : Code := ⟨3015⟩

def genLabelProtocol : Code := ⟨4001⟩
def genSequence : Code := ⟨4002⟩
def genUnsupported : Code := ⟨4003⟩
def genArity : Code := ⟨4004⟩

def loadFailed : Code := ⟨5001⟩
def writeFailed : Code := ⟨5002⟩
def cacheFailed : Code := ⟨5003⟩

/-- What a code stands for; numbers that are not in use stand for an unknown error. -/
def title (c : Code) : String :=
  match c.number.toNat with
  | 2000 => "Unit information"
  | 2001 => "Malformed unit description"
  | 2002 => "Unknown scalar kind"
  | 2003 => "Unknown operator"
  | 2004 => "Literal does not fit its kind"
  | 2005 => "Unknown statement"
  | 2006 => "Required field is missing"
  | 2007 => "Invalid array declaration"
  | 3000 => "Semantic information"
  | 3001 => "Semantic error"
  | 3002 => "Duplicate symbol"
  | 3003 => "Symbol has no storage"
  | 3004 => "Assignment to constant"
  | 3005 => "Unresolved symbol"
  | 3006 => "Symbol is not a function"
  | 3007 => "Wrong number of arguments"
  | 3008 => "Return outside of a function"
  | 3009 => "Missing return value"
  | 3010 => "Type mismatch"
  | 3011 => "Read of uninitialized variable"
  | 3012 => "Scope underflow"
  | 3013 => "Constant division by zero"
  | 3014 => "Too many locals"
  | 3015 => "Index out of range"
  | 4000 => "Codegen information"
  | 4001 => "Label protocol violation"
  | 4002 => "Emission out of sequence"
  | 4003 => "Construct not supported by target"
  | 4004 => "Call arity mismatch"
  | 5000 => "I/O information"
  | 5001 => "Cannot load unit"
  | 5002 => "Cannot write output"
  | 5003 => "Output cache failure"
  | 6000 => "Project information"
  | 6001 => "Project manifest not found"
  | 6002 => "Invalid project manifest"
  | _ => "Unknown error"

/-- The code as it is shown: its area and its number. -/
def id (c : Code) : String :=
  match c.number.toNat / 1000 with
  | 2 => s!"UNT{c.number.toNat}"
  | 3 => s!"SEM{c.number.toNat}"
  | 4 => s!"GEN{c.number.toNat}"
  | 5 => s!"IO{c.number.toNat}"
  | 6 => s!"PRJ{c.number.toNat}"
  | _ => "E0000"

def text (c : Code) : String := s!"[{c.id}]: {c.title}"

end Code

end Jasm
