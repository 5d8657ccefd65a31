import Std.Data.HashSet
import Jasm.Text.Quoted
import Jasm.Toml.Reader

/-!
# Documents

The items of a file, put in order, make one table. A header or a dotted key creates the tables on
its way; such a table counts as implicit until something defines it, and may then be defined once.
A table written in line counts as implicit while it is being filled, so later headers and keys can
still add to it. A list of tables always means its last table. An array may be given again, which
replaces it. Everything else may be defined only once.
-/

namespace Jasm.Toml

/-- A value of a document. -/
inductive Data where
  | string (s : String)
  | integer (n : Int)
  | float (x : Float)
  | boolean (b : Bool)
  | moment
  | array (items : List Data)
  /-- A list of tables, made by headers. While a document is made, the last one comes first. -/
  | rows (tables : List Data)
  | table (fields : List (String × Data))

namespace Data

/-- Puts a field in place of one of the same name, or behind all others. -/
def putField (name : String) (d : Data) : List (String × Data) → List (String × Data)
  | [] => [(name, d)]
  | (n, e) :: rest => if n = name then (n, d) :: rest else (n, e) :: putField name d rest

/-- The fields of the table a value stands for. -/
def fields? : Data → Option (List (String × Data))
  | .table fields => some fields
  | .rows (.table fields :: _) => some fields
  | _ => none

/-- Changes the fields of the table a value stands for. -/
def withFields (fields : List (String × Data)) : Data → Data
  | .rows (_ :: others) => .rows (.table fields :: others)
  | _ => .table fields

/-- The fields of the table a path leads to. -/
def fieldsAt? : (path : List String) → Data → Option (List (String × Data))
  | [], d => d.fields?
  | name :: path, d => do fieldsAt? path (← (← d.fields?).lookup name)

/-- Changes the fields of the table a path leads to. -/
def alterAt? (f : List (String × Data) → List (String × Data)) :
    (path : List String) → Data → Option Data
  | [], d => do return d.withFields (f (← d.fields?))
  | name :: path, d => do
    let fields ← d.fields?
    let inner ← alterAt? f path (← fields.lookup name)
    return d.withFields (putField name inner fields)

mutual

/-- Puts the tables of all lists of tables in the order in which they were made. -/
def inOrder : Data → Data
  | .array items => .array (inOrderAll items)
  | .rows tables => .rows (inOrderAll tables).reverse
  | .table fields => .table (inOrderFields fields)
  | d => d

def inOrderAll : List Data → List Data
  | [] => []
  | d :: rest => d.inOrder :: inOrderAll rest

def inOrderFields : List (String × Data) → List (String × Data)
  | [] => []
  | (name, d) :: rest => (name, d.inOrder) :: inOrderFields rest

end

end Data

/-- A document while it is made. -/
structure Draft where
  root : Data := .table []
  /-- The tables that something may still define. -/
  implicit : Std.HashSet (List String) := ∅
  /-- The keys that last held an array. -/
  arrays : Std.HashSet (List String) := ∅
  /-- The keys and headers in the order of the file, the last one first. -/
  keys : List (List String) := []

namespace Draft

abbrev Build := StateT Draft Option

def markImplicit (path : List String) : Build Unit :=
  modify fun d => { d with implicit := d.implicit.insert path }

def markDefined (path : List String) : Build Unit :=
  modify fun d => { d with implicit := d.implicit.erase path }

def markKey (path : List String) : Build Unit :=
  modify fun d => { d with keys := path :: d.keys }

/-- Notes whether a key holds an array. A key whose last part is empty is taken for the table around
it. -/
def markArray (context : List String) (name : String) (isArray : Bool) : Build Unit :=
  let path := if name = "" then context else context ++ [name]
  let path := if path.isEmpty then [""] else path
  modify fun d =>
    { d with arrays := if isArray then d.arrays.insert path else d.arrays.erase path }

def put (context : List String) (name : String) (v : Data) : Build Unit := do
  let d ← get
  let root ← d.root.alterAt? (Data.putField name v) context
  set { d with root := root }

/-- Defines a name in the table of a context. -/
def define (context : List String) (name : String) (v : Data) : Build Unit := do
  let d ← get
  let fields ← d.root.fieldsAt? context
  let path := context ++ [name]
  if (fields.lookup name).isNone then put context name v
  else if d.arrays.contains path then
    markDefined path
    put context name v
  else if d.implicit.contains path then markDefined path
  else failure

/-- Creates the tables on the way along a path. -/
def enter : (done rest : List String) → Build Unit
  | _, [] => pure ()
  | done, name :: rest => do
    let d ← get
    let fields ← d.root.fieldsAt? done
    let path := done ++ [name]
    match fields.lookup name with
    | none =>
      markImplicit path
      put done name (.table [])
    | some inner => guard inner.fields?.isSome
    enter path rest

/-- Opens the table at a path, or one more table of the list there. -/
def openTable (path : List String) (isRow : Bool) : Build Unit := do
  let context := path.dropLast
  let name := path.getLastD ""
  enter [] context
  if isRow then
    let d ← get
    let fields ← d.root.fieldsAt? context
    match (fields.lookup name).getD (.rows []) with
    | .rows tables => put context name (.rows (.table [] :: tables))
    | _ => failure
  else define context name (.table [])

/-- Opens the tables that a dotted key names in front of its last part, and gives the new
context. -/
def openPrefix : (context key : List String) → Build (List String)
  | context, [] | context, [_] => return context
  | context, part :: next :: rest => do
    let context := context ++ [part]
    markImplicit context
    openTable context false
    openPrefix context (next :: rest)

def isArrayNode : Node → Bool
  | .array _ => true
  | _ => false

mutual

/-- The value of a node that stands at a name of a context. A table written in line is also opened
there, with the tables its dotted keys name; its own value, which only an array keeps, has a field
for the last part of each key. -/
def data (context : List String) (name : String) (inArray : Bool) : Node → Build Data
  | .string s => return .string s
  | .integer n => return .integer n
  | .float x => return .float x
  | .boolean b => return .boolean b
  | .moment => return .moment
  | .array nodes => do
    markArray context name true
    return .array (← dataList context name nodes)
  | .table entries => do
    let path := context ++ [name]
    markImplicit path
    openTable path inArray
    return .table (← dataFields path entries [])

def dataList (context : List String) (name : String) : List Node → Build (List Data)
  | [] => return []
  | n :: rest => do
    let first ← data context name true n
    return first :: (← dataList context name rest)

def dataFields (context : List String) :
    List (List String × Node) → List (String × Data) → Build (List (String × Data))
  | [], fields => return fields
  | (key, n) :: rest, fields => do
    let inner ← openPrefix context key
    let name := key.getLastD ""
    markKey (inner ++ [name])
    let v ← data inner name false n
    define inner name v
    markArray inner name (isArrayNode n)
    dataFields context rest (Data.putField name v fields)

end

/-- Takes in an item; the context is the path of the last header. -/
def item (context : List String) : Item → Build (List String)
  | .table path => header path false
  | .element path => header path true
  | .pair key n => do
    let _ ← dataFields context [(key, n)] []
    return context
where
  header (path : List String) (isRow : Bool) : Build (List String) := do
    openTable path isRow
    markArray path "" false
    markKey path
    return path

def addItems : (context : List String) → List Item → Build Unit
  | _, [] => pure ()
  | context, i :: rest => do addItems (← item context i) rest

end Draft

/-- A document: one table, and the keys and headers in the order of the file. -/
structure Document where
  root : Data
  keys : List (List String)

def Document.parse? (text : String) : Option Document := do
  let items ← items? text.toList
  let ((), d) ← (Draft.addItems [] items).run {}
  return ⟨d.root.inOrder, d.keys.reverse⟩

/-- Drops the mark of the byte order that may stand in front of a text. -/
def dropByteOrderMark (bytes : ByteArray) : ByteArray :=
  match (bytes.extract 0 3).toList with
  | 0xff :: 0xfe :: _ | 0xfe :: 0xff :: _ => bytes.extract 2 bytes.size
  | [0xef, 0xbb, 0xbf] => bytes.extract 3 bytes.size
  | _ => bytes

/-- Reads a document from the bytes of a file. -/
def Document.ofBytes? (bytes : ByteArray) : Option Document := do
  parse? (← String.fromUTF8? (dropByteOrderMark bytes))

/-- One part of a key as it is shown: plain if it may stand without quotes. -/
def partText (part : String) : String :=
  if part ≠ "" && part.toList.all isBareKeyChar then part
  else String.ofList ('"' :: part.toList.flatMap escaped ++ ['"'])
where
  escaped (c : Char) : List Char :=
    match c with
    | '"' => ['\\', '"']
    | '\\' => ['\\', '\\']
    | '\x08' => ['\\', 'b']
    | '\t' => ['\\', 't']
    | '\n' => ['\\', 'n']
    | '\x0c' => ['\\', 'f']
    | '\r' => ['\\', 'r']
    | c =>
      if c.toNat < 0x20 || c.toNat = 0x7f then '\\' :: 'u' :: Jasm.Text.hexDigits 4 c.toNat
      else [c]

def keyText (path : List String) : String := ".".intercalate (path.map partText)

end Jasm.Toml
