/-!
# The contents of a configuration file

A configuration file is a sequence of items: headers that open a table, headers that open one more
table of a list, and assignments of a value to a key. Keys are paths of parts. Dates and times are
only told apart from other values; nothing here reads them.
-/

namespace Jasm.Toml

/-- A value as it is written. -/
inductive Node where
  | string (s : String)
  | integer (n : Int)
  | float (x : Float)
  | boolean (b : Bool)
  | moment
  | array (items : List Node)
  | table (entries : List (List String × Node))

/-- One item of a file. -/
inductive Item where
  /-- A header `[path]`. -/
  | table (path : List String)
  /-- A header `[[path]]`. -/
  | element (path : List String)
  /-- An assignment `key = value`. -/
  | pair (key : List String) (value : Node)

/-- What is left of a text after something was read from its front. -/
abbrev Reader := StateT (List Char) Option

/-- Blanks inside a line. -/
def isSpace (c : Char) : Bool := c = ' ' || c = '\t'

/-- The characters of line ends. A carriage return only ever stands before a line feed. -/
def isLineEnd (c : Char) : Bool := c = '\n' || c = '\r'

/-- The characters of a key that needs no quotes. -/
def isBareKeyChar (c : Char) : Bool := c.isAlphanum || c = '_' || c = '-'

def isHexDigit (c : Char) : Bool :=
  c.isDigit || ('a' ≤ c && c ≤ 'f') || ('A' ≤ c && c ≤ 'F')

/-- Reads the longest run of characters of a class. -/
def Reader.run (p : Char → Bool) : Reader (List Char) := fun cs => some (cs.span p)

/-- Reads one given character. -/
def Reader.char (c : Char) : Reader Unit
  | [] => none
  | d :: rest => if d = c then some ((), rest) else none

end Jasm.Toml
