import Jasm.Text.Normal.Data

/-!
# Composed normal form

String constants are brought into the composed canonical normal form before they are written, so
that two spellings of one text give the same constant. The text is cut into segments: a starter
and what may join it. The characters of a segment are taken apart, its marks are put into the order
of their combining classes, and what composes is composed again. A segment with more than thirty
marks is broken by a joiner, so that text can be normalised with a bounded buffer.

How many marks a character brings along is counted in its compatibility decomposition, so that
joiners stand in the same places whatever form a text is brought into. Pairs are composed by the
lower halves of their code points.
-/

namespace Jasm.Text.Normal

/-! ## Hangul syllables -/

def hangulBase : Nat := 0xac00
def leadBase : Nat := 0x1100
def vowelBase : Nat := 0x1161
def tailBase : Nat := 0x11a7

/-- There are 19 leading consonants, 21 vowels and 28 trailing consonants, "none" included. -/
def hangulCount : Nat := 19 * 21 * 28

def isHangul (code : Nat) : Bool := hangulBase ≤ code && code < hangulBase + hangulCount

def isVowel (code : Nat) : Bool := vowelBase ≤ code && code < vowelBase + 21

def isTail (code : Nat) : Bool := tailBase ≤ code && code < tailBase + 28

/-- The block of the letters that syllables are spelled in. -/
def isHangulLetter (code : Nat) : Bool := 0x1100 ≤ code && code < 0x1200

def hangulParts (code : Nat) : List Nat :=
  let index := code - hangulBase
  let lead := leadBase + index / (21 * 28)
  let vowel := vowelBase + index % (21 * 28) / 28
  if index % 28 = 0 then [lead, vowel] else [lead, vowel, tailBase + index % 28]

def composeHangul (a b : Nat) : Option Nat :=
  if leadBase ≤ a && a < leadBase + 19 && isVowel b then
    some (hangulBase + ((a - leadBase) * 21 + (b - vowelBase)) * 28)
  else if isHangul a && (a - hangulBase) % 28 = 0 && isTail b && b ≠ tailBase then
    some (a + (b - tailBase))
  else none

/-! ## Taking apart -/

/-- Takes a code point apart as far as its mappings go; no chain of mappings is longer than
`steps`. -/
def expand : (steps : Nat) → (code : Nat) → List Nat
  | 0, code => [code]
  | steps + 1, code =>
    match decompositions[code]? with
    | some parts => parts.flatMap (expand steps)
    | none => [code]

/-- The full canonical decomposition of one code point. -/
def parts (code : Nat) : List Nat :=
  if code < 0xc0 then [code]
  else if isHangul code then hangulParts code
  else expand 4 code

/-! ## Marks -/

/-- Whether a code point composes with something that stands before it. -/
def isBackward (code : Nat) : Bool := isVowel code || isTail code || backward.contains code

/-- Whether a part of a character stays in the segment of what stands before it. -/
def continues (code : Nat) : Bool := combiningClass code ≠ 0 || isBackward code

/-- The marks that a character starts with. -/
def leading (code : Nat) : Nat :=
  if halfMarks.contains code then 1 else ((parts code).takeWhile continues).length

/-- The marks that a character ends in. -/
def trailing (code : Nat) : Nat :=
  match marked[code]? with
  | some n => n
  | none =>
    if halfMarks.contains code then 1 else ((parts code).reverse.takeWhile continues).length

/-! ## Segments in the order of their marks -/

/-- A part of a segment with its combining class. -/
structure Part where
  code : Nat
  cls : Nat

def Part.of (code : Nat) : Part := ⟨code, combiningClass code⟩

/-- Puts a mark behind all parts of the same or a lower class at the end of a segment, which is held
in reverse; a part of class zero goes to the end. -/
def insertPart (p : Part) : List Part → List Part
  | [] => [p]
  | q :: rest => if p.cls ≠ 0 && p.cls < q.cls then q :: insertPart p rest else p :: q :: rest

/-! ## Composing -/

/-- A segment that is being composed: what will not change any more, the part that others compose
with, and what stands behind it without having composed. All but `base` is held in reverse. -/
structure Composer where
  done : List Nat := []
  base : Part
  behind : List Part := []

namespace Composer

/-- The last part that is kept. -/
def last (c : Composer) : Part := c.behind.headD c.base

/-- Keeps a part that does not compose. -/
def keep (c : Composer) (p : Part) : Composer := { c with behind := p :: c.behind }

/-- Makes the last part the one that others compose with. -/
def rebase (c : Composer) : Composer :=
  match c.behind with
  | [] => c
  | p :: rest => ⟨rest.map Part.code ++ c.base.code :: c.done, p, []⟩

/-- Whether something stands between the base and a part that keeps them apart. -/
def blocks (c : Composer) (p : Part) : Bool :=
  !c.behind.isEmpty && c.last.cls ≠ 0 && p.cls ≤ c.last.cls

/-- Composes a part with the base if it can, where `pair` says what composes. Behind a starter that
starter becomes the base. -/
def join (pair : Nat → Nat → Option Nat) (c : Composer) (p : Part) : Composer :=
  let c := if c.last.cls = 0 then c.rebase else c
  if c.blocks p then c.keep p
  else match pair c.base.code p.code with
    | some code => { c with base := ⟨code, 0⟩ }
    | none => c.keep p

def composePair (a b : Nat) : Option Nat := compositions[(lowHalf a, lowHalf b)]?

/-- Takes in the parts of a segment. From a Hangul letter on only syllables are composed. -/
def add : (hangul : Bool) → Composer → List Part → Composer
  | _, c, [] => c
  | hangul, c, p :: rest =>
    if hangul || isHangulLetter p.code then add true (c.join composeHangul p) rest
    else if isBackward p.code then add false (c.join composePair p) rest
    else add false (c.keep p) rest

/-- The code points of the composed segment, in reverse. -/
def codes (c : Composer) : List Nat := c.behind.map Part.code ++ c.base.code :: c.done

end Composer

/-- Composes a segment; both it and the result are held in reverse. -/
def compose (segment : List Part) : List Nat :=
  match segment.reverse with
  | [] => []
  | base :: rest => (Composer.add false { base := base } rest).codes

/-! ## The normal form -/

/-- The grapheme joiner that breaks a segment. -/
def joiner : Nat := 0x34f

def maxMarks : Nat := 30

/-- A text on the way to its normal form: what is finished and the current segment, both in reverse,
and the marks counted in the segment. -/
structure Progress where
  done : List Nat := []
  segment : List Part := []
  marks : Nat := 0

namespace Progress

def flush (t : Progress) : Progress := { t with done := compose t.segment ++ t.done, segment := [] }

def put (t : Progress) (code : Nat) : Progress :=
  { t with segment := insertPart (.of code) t.segment }

/-- Takes in one part of a character; a part that joins nothing starts a segment. -/
def addPart (t : Progress) (code : Nat) : Progress :=
  if continues code then t.put code else t.flush.put code

/-- Takes in a character that was given its segment: whole, or in its parts. -/
def insert (t : Progress) (code : Nat) : Progress :=
  if parts code = [code] then t.put code else (parts code).foldl addPart t

def add (t : Progress) (code : Nat) : Progress :=
  let lead := leading code
  if lead = 0 then { t.flush with marks := trailing code }.insert code
  else if maxMarks < t.marks + lead then
    let broken := { t with segment := .of joiner :: t.segment }.flush
    { broken with marks := lead }.insert code
  else { t with marks := t.marks + lead }.insert code

end Progress

/-- The composed canonical normal form of a sequence of code points. -/
def normalize (codes : List Nat) : List Nat :=
  (codes.foldl Progress.add {}).flush.done.reverse

end Jasm.Text.Normal

namespace Jasm.Text

def normalForm (s : String) : String :=
  if s.toList.all fun c => c.toNat < 0xc0 then s
  else String.ofList ((Normal.normalize (s.toList.map Char.toNat)).map Char.ofNat)

end Jasm.Text
