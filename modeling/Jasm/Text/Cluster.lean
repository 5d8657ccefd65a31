import Jasm.Text.CodePoints

/-!
# Grapheme clusters

A reader's characters: a base with its marks, a Hangul syllable spelled in letters, a flag of two
regional indicators, an emoji joined from several. Text is only ever cut between two clusters.
The rules are the extended grapheme cluster boundaries of Unicode, version 15.
-/

namespace Jasm.Text

namespace Cluster

/-- Controls and format characters, line ends apart. -/
def controls : CodePoints := CodePoints.ofString "
0-9 b-c e-1f 7f-9f ad 61c 180e 200b e-f 28-e 60-f feff ff0-b 13430-f bca0-3 d173-a e0000-1f 80-ff
1f0-fff
"

/-- Marks and other characters that extend what stands before them. -/
def extenders : CodePoints := CodePoints.ofString "
300-6f 483-9 591-bd f c1-2 4-5 7 610-a 4b-5f 70 d6-c f-e4 7-8 a-d 711 30-4a a6-b0 eb-f3 d 816-9
b-23 5-7 9-d 59-b 98-f ca-e1 3-902 3a c 41-8 d 51-7 62-3 81 bc e c1-4 d d7 e2-3 fe a01-2 3c 41-2
7-8 b-d 51 70-1 5 81-2 bc c1-5 7-8 d e2-3 fa-f b01 3c e-f 41-4 d 55-7 62-3 82 be c0 d d7 c00 4 3c
e-40 6-8 a-d 55-6 62-3 81 bc f c2 6 c-d d5-6 e2-3 d00-1 3b-c e 41-4 d 57 62-3 81 ca f d2-4 6 f e31
4-a 47-e b1 4-c c8-e f18-9 35 7 9 71-e 80-4 6-7 d-97 9-bc c6 102d-30 2-7 9-a d-e 58-9 e-60 71-4 82
5-6 d 9d 35d-f 712-4 32-3 52-3 72-3 b4-5 7-d c6 9-d3 d 80b-d f 85-6 a9 920-2 7-8 32 9-b a17-8 b 56
8-e 60 2 5-c 73-c f b0-ce b00-3 34-a c 42 6b-73 80-1 a2-5 8-9 b-d e6 8-9 d f-f1 c2c-33 6-7 d0-2
4-e0 2-8 d f4 8-9 dc0-ff 200c d0-f0 cef-f1 d7f e0-ff 302a-f 99-a a66f-72 4-d 9e-f f0-1 802 6 b 25-6
c c4-5 e0-f1 f 926-d 47-51 80-2 b3 6-9 c-d e5 a29-e 31-2 5-6 43 c 7c b0 2-4 7-8 e-f c1 ec-d f6 be5
8 d fb1e e00-f 20-f f9e-f 101fd 2e0 376-a a01-3 5-6 c-f 38-a f e5-6 d24-7 eab-c fd-f f46-50 82-5
1001 38-46 70 3-4 f-81 b3-6 9-a c2 100-2 27-b d-34 73 80-1 b6-e c9-c f 22f-31 4 6-7 e 41 df e3-a
300-1 3b-c e 40 57 66-c 70-4 438-f 42-4 6 5e b0 3-8 a d f-c0 2-3 5af b2-5 c-d f-c0 dc-d 633-a d
f-40 ab d b0-5 7 71d-f 22-5 7-b 82f-37 9-a 930 b-c e 43 d4-7 a-b e0 a01-a 33-8 b-e 47 51-6 9-b
8a-96 8-9 c30-6 8-d f 92-a7 a-b0 2-3 5-6 d31-6 a c-d f-45 7 90-1 5 7 ef3-4 f00-1 36-a 40 2 3440
7-55 6af0-4 b30-6 f4f 8f-92 e4 bc9d-e cf00-2d 30-46 d165 7-9 e-72 b-82 5-b aa-d 242-4 a00-36 b-6c
75 84 9b-f a1-f e000-6 8-18 b-21 3-4 6-a 8f 130-6 2ae ec-f 4ec-f 8d0-6 944-a f3fb-f e0020-7f 100-ef
"

/-- Characters that belong to what follows. -/
def prependers : CodePoints := CodePoints.ofString "
600-5 dd 70f 890-1 e2 d4e 110bd cd 1c2-3 93f 41 a3a 84-9 d46 f02
"

/-- Marks that take room of their own. -/
def spacingMarks : CodePoints := CodePoints.ofString "
903 3b e-40 9-c e-f 82-3 bf-c0 7-8 b-c a03 3e-40 83 be-c0 9 b-c b02-3 40 7-8 b-c bf c1-2 6-8 a-c
c01-3 41-4 82-3 be c0-1 3-4 7-8 a-b f3 d02-3 3f-40 6-8 a-c 82-3 d0-1 8-e f2-3 e33 b3 f3e-f 7f 1031
b-c 56-7 84 715 34 b6 e-c5 7-8 923-6 9-b 30-1 3-8 a19-a 55 7 6d-72 b04 3b d-41 3-4 82 a1 6-7 a e7
a-c e f2-3 c24-b 34-5 e1 f7 a823-4 7 80-1 b4-c3 952-3 83 b4-5 a-b e-c0 a2f-30 3-4 4d eb e-f f5
be3-4 6-7 9-a c 11000 2 82 b0-2 7-8 12c 45-6 82 b3-5 f-c0 e 22c-e 32-3 5 e0-2 302-3 3f 41-4 7-8 b-d
62-3 435-7 40-1 5 b1-2 9 b-c e c1 5b0-1 8-b e 630-2 b-c e ac e-f b6 726 82c-e 38 931-5 7-8 d 40 2
d1-3 c-f e4 a39 57-8 97 c2f 3e a9 b1 4 d8a-e 93-4 6 ef5-6 f03 34-5 e-f 41 6f51-87 f0-1 d166 d
"

/-- Emoji and other pictographs. -/
def pictographs : CodePoints := CodePoints.ofString "
a9 e 203c 49 122 39 94-9 a9-a 31a-b 28 88 cf e9-f3 8-a 4c2 5aa-b b6 c0 fb-e 600-5 7-12 4-85 90-705
8-12 4 6 d 21 8 33-4 44 7 c e 53-5 7 63-7 95-7 a1 b0 f 934-5 b05-7 1b-c 50 5 3030 d 297 9 1f000-ff
10d-f 2f 6c-71 e-f 8e 91-a ad-e5 201-f 1a 2f 32-a c-f 49-3fa 400-53d 46-64f 80-ff 774-f d5-ff 80c-f
48-f 5a-f 88-f ae-ff 90c-3a c-45 7-aff c00-ffd
"

/-- What a character does at a boundary. -/
inductive Class where
  | carriageReturn
  | lineFeed
  | control
  | extend
  | zeroWidthJoiner
  | regional
  | prepend
  | spacingMark
  | leading
  | vowel
  | trailing
  | syllable
  | closedSyllable
  | pictograph
  | other
  deriving DecidableEq, Repr

def classify (c : Char) : Class :=
  let n := c.toNat
  if n = 0x0d then .carriageReturn
  else if n = 0x0a then .lineFeed
  else if n = 0x200d then .zeroWidthJoiner
  else if 0x20 ≤ n && n < 0x7f then .other
  else if controls.contains n then .control
  else if extenders.contains n then .extend
  else if 0x1f1e6 ≤ n && n ≤ 0x1f1ff then .regional
  else if prependers.contains n then .prepend
  else if spacingMarks.contains n then .spacingMark
  else if (0x1100 ≤ n && n ≤ 0x115f) || (0xa960 ≤ n && n ≤ 0xa97c) then .leading
  else if (0x1160 ≤ n && n ≤ 0x11a7) || (0xd7b0 ≤ n && n ≤ 0xd7c6) then .vowel
  else if (0x11a8 ≤ n && n ≤ 0x11ff) || (0xd7cb ≤ n && n ≤ 0xd7fb) then .trailing
  else if 0xac00 ≤ n && n ≤ 0xd7a3 then
    if (n - 0xac00) % 28 = 0 then .syllable else .closedSyllable
  else if pictographs.contains n then .pictograph
  else .other

def Class.isControl : Class → Bool
  | .carriageReturn | .lineFeed | .control => true
  | _ => false

/-- How far a cluster has come on the way to an emoji that is joined from several. -/
inductive Joining where
  | none
  /-- A pictograph and marks. -/
  | pictograph
  /-- A pictograph and marks, then one joiner. -/
  | joiner
  deriving DecidableEq, Repr

def Joining.start (c : Class) : Joining := if c = .pictograph then .pictograph else .none

def Joining.add : Joining → Class → Joining
  | .pictograph, .extend => .pictograph
  | .pictograph, .zeroWidthJoiner => .joiner
  | _, c => .start c

/-- What of the current cluster the rules can still ask for. -/
structure Context where
  last : Class
  joining : Joining
  /-- An odd number of regional indicators ends here. -/
  oddRegional : Bool

def Context.start (c : Class) : Context := ⟨c, .start c, c = .regional⟩

def Context.add (ctx : Context) (c : Class) : Context :=
  ⟨c, ctx.joining.add c, c = .regional && !ctx.oddRegional⟩

/-- Whether the next character stays in the cluster. -/
def Context.joins (ctx : Context) (next : Class) : Bool :=
  if ctx.last = .carriageReturn && next = .lineFeed then true
  else if ctx.last.isControl || next.isControl then false
  else if ctx.last = .leading then
    match next with
    | .leading | .vowel | .syllable | .closedSyllable => true
    | .extend | .zeroWidthJoiner | .spacingMark => true
    | _ => false
  else match ctx.last, next with
    | _, .extend | _, .zeroWidthJoiner | _, .spacingMark => true
    | .prepend, _ => true
    | .syllable, .vowel | .vowel, .vowel => true
    | .syllable, .trailing | .vowel, .trailing => true
    | .closedSyllable, .trailing | .trailing, .trailing => true
    | .zeroWidthJoiner, .pictograph => ctx.joining = .joiner
    | .regional, .regional => ctx.oddRegional
    | _, _ => false

/-- How many of the characters that follow stay in the cluster. -/
def Context.reach (ctx : Context) : List Char → Nat
  | [] => 0
  | c :: rest =>
    let k := classify c
    if ctx.joins k then (ctx.add k).reach rest + 1 else 0

/-- Continues a cluster, whose characters so far are held in reverse. -/
def splitFrom (ctx : Context) (current : List Char) : List Char → List (List Char)
  | [] => [current.reverse]
  | c :: rest =>
    let k := classify c
    if ctx.joins k then splitFrom (ctx.add k) (c :: current) rest
    else current.reverse :: splitFrom (.start k) [c] rest

end Cluster

/-- How many characters behind `c` belong to the cluster it starts. -/
def clusterReach (c : Char) (rest : List Char) : Nat :=
  (Cluster.Context.start (Cluster.classify c)).reach rest

/-- The grapheme clusters of a text, in order. -/
def clusters : List Char → List (List Char)
  | [] => []
  | c :: rest => Cluster.splitFrom (.start (Cluster.classify c)) [c] rest

end Jasm.Text
