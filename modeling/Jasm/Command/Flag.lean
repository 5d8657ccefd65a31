import Jasm.Duration
import Jasm.Number.Integer

/-!
# Command line flags

The words of a command line are flags, values of flags, and arguments. A flag has a long name and
may have a letter; letters may be written together, and a value may follow its flag at once, behind
an equals sign, or as the next word. Behind `--` there are only arguments.
-/

namespace Jasm.Command

/-- What a flag does to settings of type `σ`. A switch needs no value. -/
inductive Action (σ : Type) where
  | text (set : String → σ → σ)
  | switch (set : Bool → σ → σ)
  | number (set : Int → σ → σ)
  | duration (set : Int → σ → σ)

structure Flag (σ : Type) where
  name : String
  letter : Option Char := none
  action : Action σ

/-- Why a command line is refused. -/
inductive FlagFault where
  | badSyntax (word : String)
  | unknownName (name : String)
  /-- A letter of no flag, with the letters it was found among. -/
  | unknownLetter (letter : Char) (letters : String)
  | noValue (name : String)
  | noLetterValue (letter : Char) (letters : String)
  | badValue (value flag reason : String)
  deriving DecidableEq, Repr

/-- The letter that stands in a message for the first byte of a character. -/
def leadLetter (c : Char) : Char := if c.toNat < 0x80 then c else 'Ã'

def FlagFault.message : FlagFault → String
  | .badSyntax word => s!"bad flag syntax: {word}"
  | .unknownName name => s!"unknown flag: --{name}"
  | .unknownLetter c letters =>
    s!"unknown shorthand flag: {Text.quotedLetter (leadLetter c)} in -{letters}"
  | .noValue name => s!"flag needs an argument: --{name}"
  | .noLetterValue c letters =>
    s!"flag needs an argument: {Text.quotedLetter (leadLetter c)} in -{letters}"
  | .badValue value flag reason =>
    s!"invalid argument {Text.quoted value} for {Text.quoted flag} flag: {reason}"

def parseSwitch? : String → Option Bool
  | "1" | "t" | "T" | "true" | "TRUE" | "True" => some true
  | "0" | "f" | "F" | "false" | "FALSE" | "False" => some false
  | _ => none

namespace Flag

variable {σ : Type}

def isSwitch (f : Flag σ) : Bool :=
  match f.action with
  | .switch _ => true
  | _ => false

/-- How the flag is shown in messages. -/
def shown (f : Flag σ) : String :=
  match f.letter with
  | some c => s!"-{c}, --{f.name}"
  | none => s!"--{f.name}"

def set (f : Flag σ) (value : String) (s : σ) : Except FlagFault σ :=
  let refuse (reason : String) : Except FlagFault σ := .error (.badValue value f.shown reason)
  match f.action with
  | .text put => .ok (put value s)
  | .switch put =>
    match parseSwitch? value with
    | some b => .ok (put b s)
    | none => refuse s!"strconv.ParseBool: parsing {Text.quoted value}: invalid syntax"
  | .number put =>
    match Number.parseInteger value with
    | .ok n => .ok (put n s)
    | .error e => refuse s!"strconv.ParseInt: parsing {Text.quoted value}: {e.message}"
  | .duration put =>
    match Duration.parse value with
    | .ok n => .ok (put n s)
    | .error e => refuse e.message

end Flag

/-! ## Reading a command line -/

/-- A command line that is being read. -/
structure Reading (σ : Type) where
  settings : σ
  /-- The arguments so far, the last first. -/
  arguments : List String := []
  /-- A flag that waits for its value, and what is wrong if none comes. -/
  waiting : Option (Flag σ × FlagFault) := none
  /-- Whether only arguments follow. -/
  plain : Bool := false

namespace Reading

variable {σ : Type}

def set (r : Reading σ) (f : Flag σ) (value : String) : Except FlagFault (Reading σ) := do
  return { r with settings := ← f.set value r.settings, waiting := none }

def argument (r : Reading σ) (word : String) : Reading σ :=
  { r with arguments := word :: r.arguments }

/-- Reads a word of letters. Letters that announce the flags of a test run are passed over. -/
def letters (flags : List (Flag σ)) (r : Reading σ) :
    List Char → Except FlagFault (Reading σ)
  | [] => .ok r
  | c :: rest =>
    if "test.".toList.isPrefixOf (c :: rest) then .ok r
    else match flags.find? (·.letter = some c) with
      | none => .error (.unknownLetter c (String.ofList (c :: rest)))
      | some f =>
        match rest with
        | '=' :: v :: value => r.set f (String.ofList (v :: value))
        | _ =>
          if f.isSwitch then do letters flags (← r.set f "true") rest
          else if rest.isEmpty then
            .ok { r with waiting := some (f, .noLetterValue c (String.ofList [c])) }
          else r.set f (String.ofList rest)

/-- Reads a long name, with its value if that follows at once. -/
def named (flags : List (Flag σ)) (r : Reading σ) (word : String) (text : List Char) :
    Except FlagFault (Reading σ) :=
  if text.head? = some '-' || text.head? = some '=' then .error (.badSyntax word)
  else
    let (name, value) := text.span (· ≠ '=')
    let name := String.ofList name
    match flags.find? (·.name = name) with
    | none => .error (.unknownName name)
    | some f =>
      match value with
      | _ :: value => r.set f (String.ofList value)
      | [] =>
        if f.isSwitch then r.set f "true"
        else .ok { r with waiting := some (f, .noValue name) }

def word (flags : List (Flag σ)) (r : Reading σ) (w : String) : Except FlagFault (Reading σ) :=
  match r.waiting with
  | some (f, _) => r.set f w
  | none =>
    if r.plain then .ok (r.argument w)
    else match w.toList with
      | ['-', '-'] => .ok { r with plain := true }
      | '-' :: '-' :: text => r.named flags w text
      | '-' :: c :: text => r.letters flags (c :: text)
      | _ => .ok (r.argument w)

/-- Reads a whole command line; gives the settings and the arguments. -/
def run (flags : List (Flag σ)) (start : σ) (words : List String) :
    Except FlagFault (σ × List String) := do
  let r ← words.foldlM (word flags) { settings := start }
  match r.waiting with
  | some (_, fault) => throw fault
  | none => return (r.settings, r.arguments.reverse)

end Reading

/-! ## The name of a command -/

/-- Whether a word is a flag whose value is the next word. Letters and names that are not known are
taken for such flags. -/
def takesNext {σ : Type} (flags : List (Flag σ)) (w : String) : Bool :=
  let isSwitch (p : Flag σ → Bool) : Bool := (flags.find? p).any (·.isSwitch)
  match w.toList with
  | '-' :: '-' :: text =>
    !text.contains '=' && !isSwitch (·.name = String.ofList text)
  | ['-', c] => c ≠ '=' && c.toNat < 0x80 && !isSwitch (·.letter = some c)
  | _ => false

/-- The first word that is no flag and no value of one, and the words without it. -/
def splitCommand {σ : Type} (flags : List (Flag σ)) : List String → Option (String × List String)
  | [] => none
  | w :: rest =>
    let skip (kept : List String) : Option (String × List String) → Option (String × List String) :=
      Option.map fun (name, others) => (name, kept ++ others)
    if w = "--" then none
    else if takesNext flags w then
      match rest with
      | v :: u :: rest => skip [w, v] (splitCommand flags (u :: rest))
      | _ => none
    else if w ≠ "" && !w.startsWith "-" then some (w, rest)
    else skip [w] (splitCommand flags rest)

end Jasm.Command
