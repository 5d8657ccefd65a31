import Jasm.Toml.Numeral
import Jasm.Toml.Text

/-!
# Reading a configuration file

The grammar: every item stands on lines of its own, arrays may run over several lines and end in a
comma, tables written in line may not. Control characters and the replacement character are allowed
nowhere. Reading either gives all items of the file or refuses it.

Keys have parts and values nest, so their readers take a bound on the steps. The length of the text
is always enough, since every step takes at least one character; one bound, counted down from it, is
passed on from reader to reader.
-/

namespace Jasm.Toml

namespace Reader

def spaces : Reader Unit := modify (·.dropWhile isSpace)

def keyPart : Reader String := do
  match ← get with
  | '"' :: rest => set rest; Text.line '"'
  | '\'' :: rest => set rest; Text.line '\''
  | _ =>
    let part ← run isBareKeyChar
    guard (!part.isEmpty)
    return String.ofList part

/-- Reads a key of at most `limit` parts. -/
def keyParts : (limit : Nat) → Reader (List String)
  | 0 => failure
  | limit + 1 => do
    spaces
    let part ← keyPart
    spaces
    match ← get with
    | '.' :: rest =>
      set rest
      return part :: (← keyParts limit)
    | _ => return [part]

/-- Passes over blanks, line ends and comments. -/
def gaps : (inComment : Bool) → List Char → List Char
  | _, [] => []
  | true, c :: rest => gaps (c ≠ '\n') rest
  | false, c :: rest =>
    if isSpace c || isLineEnd c then gaps false rest
    else if c = '#' then gaps true rest
    else c :: rest

def skipGaps : Reader Unit := modify (gaps false)

mutual

def value : (limit : Nat) → Reader Node
  | 0 => failure
  | limit + 1 => do
    spaces
    match ← get with
    | '[' :: rest =>
      set rest
      return .array (← items limit)
    | '\x7b' :: rest =>
      set rest
      spaces
      match ← get with
      | '\x7d' :: rest =>
        set rest
        return .table []
      | _ => return .table (← entries limit)
    | '"' :: '"' :: '"' :: rest => set rest; .string <$> Text.block '"'
    | '\'' :: '\'' :: '\'' :: rest => set rest; .string <$> Text.block '\''
    | '"' :: rest => set rest; .string <$> Text.line '"'
    | '\'' :: rest => set rest; .string <$> Text.line '\''
    | '-' :: rest => set rest; Numeral.withSign '-'
    | '+' :: rest => set rest; Numeral.withSign '+'
    | 'i' :: 'n' :: 'f' :: rest => set rest; return .float Numeral.infinity
    | 'n' :: 'a' :: 'n' :: rest => set rest; return .float Numeral.notANumber
    | 't' :: 'r' :: 'u' :: 'e' :: rest => set rest; return .boolean true
    | 'f' :: 'a' :: 'l' :: 's' :: 'e' :: rest => set rest; return .boolean false
    | c :: _ => if c.isDigit then Numeral.withDigit else failure
    | [] => failure

/-- Reads the items of an array up to its end. -/
def items : (limit : Nat) → Reader (List Node)
  | 0 => failure
  | limit + 1 => do
    skipGaps
    match ← get with
    | ']' :: rest =>
      set rest
      return []
    | _ =>
      let item ← value limit
      skipGaps
      match ← get with
      | ',' :: rest =>
        set rest
        return item :: (← items limit)
      | ']' :: rest =>
        set rest
        return [item]
      | _ => failure

/-- Reads the entries of a table written in line up to its end. -/
def entries : (limit : Nat) → Reader (List (List String × Node))
  | 0 => failure
  | limit + 1 => do
    let path ← keyParts (limit + 1)
    char '='
    let node ← value limit
    spaces
    match ← get with
    | ',' :: rest =>
      set rest
      return (path, node) :: (← entries limit)
    | '\x7d' :: rest =>
      set rest
      return [(path, node)]
    | _ => failure

end

def item (limit : Nat) : Reader Item := do
  match ← get with
  | '[' :: '[' :: rest =>
    set rest
    let path ← keyParts limit
    char ']'
    char ']'
    return .element path
  | '[' :: rest =>
    set rest
    let path ← keyParts limit
    char ']'
    return .table path
  | _ =>
    let path ← keyParts limit
    char '='
    return .pair path (← value limit)

/-- Reads the end of the line behind an item. -/
def itemEnd : Reader Unit := do
  spaces
  match ← get with
  | [] => pure ()
  | c :: _ => guard (c = '#' ∨ isLineEnd c)

/-- Reads items up to the end of the text. -/
def document : (limit : Nat) → Reader (List Item)
  | 0 => failure
  | limit + 1 => do
    skipGaps
    match ← get with
    | [] => return []
    | _ =>
      let first ← item (limit + 1)
      itemEnd
      return first :: (← document limit)

end Reader

/-- Whether a character may stand in a file: no control characters besides tabs and line feeds, and
not the character that stands for what could not be read. -/
def isPlainChar (c : Char) : Bool :=
  c = '\t' || c = '\n' || (0x20 ≤ c.toNat && c.toNat ≠ 0x7f && c.toNat ≠ 0xfffd)

/-- Whether all of a text may stand in a file. Carriage returns do so in front of line feeds. -/
def isPlainText : List Char → Bool
  | [] => true
  | '\r' :: '\n' :: rest => isPlainText rest
  | c :: rest => isPlainChar c && isPlainText rest

def items? (text : List Char) : Option (List Item) :=
  if isPlainText text then (Reader.document (text.length + 1) text).map (·.1) else none

end Jasm.Toml
