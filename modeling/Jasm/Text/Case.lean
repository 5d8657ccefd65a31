import Jasm.Text.CodePoints

/-!
# Lower case

The small letter of a capital, by the simple case mappings of the Unicode character database,
version 17. Most capitals come in runs that are mapped onto a run of small letters; in some blocks
capitals and small letters alternate.
-/

namespace Jasm.Text

namespace Case

/-- Capitals that are followed by their small letter; a range holds both by turns. -/
def alternating : CodePoints := CodePoints.ofString "
100-2e 32-6 9-47 a-76 9-d 82-4 7 b 91 8 a0-4 7 c f b3-5 8 c c5 8 b-db e-ee f2-4 8-21e 22-32 b 41
6-e 370-2 6 d8-ee f7 a 460-80 a-be c1-d d0-52e 1c89 e00-94 a0-fe 2183 c60 7-b 72 5 80-e2 b-d f2
a640-6c 80-9a 722-e 32-6e 79-b e-86 b 90-2 6-a8 b4-c2 7-9 c-da f5
"

/-- A run of capitals and where their small letters start. -/
structure Run where
  first : Nat
  last : Nat
  target : Nat

/-- One run in the notation `a-b>c`. -/
def Run.ofString (word : String) : Run :=
  match word.splitOn ">" with
  | [capitals, target] =>
    let (range, _) := CodePoints.rangeOfString "" capitals
    ⟨range.1, range.2, hexNumber target⟩
  | _ => ⟨1, 0, 0⟩

/-- The other capitals. -/
def runs : Array Run := ((tableWords "
41-5a>61 c0-d6>e0 d8-de>f8 130>69 178>ff 181>253 186>254 189-18a>256 18e>1dd 18f>259 190>25b
193>260 194>263 196>269 197>268 19c>26f 19d>272 19f>275 1a6>280 1a9>283 1ae>288 1b1-1b2>28a 1b7>292
1c4>1c6 1c7>1c9 1ca>1cc 1f1>1f3 1f6>195 1f7>1bf 220>19e 23a>2c65 23d>19a 23e>2c66 243>180 244>289
245>28c 37f>3f3 386>3ac 388-38a>3ad 38c>3cc 38e-38f>3cd 391-3a1>3b1 3a3-3ab>3c3 3cf>3d7 3f4>3b8
3f9>3f2 3fd-3ff>37b 400-40f>450 410-42f>430 4c0>4cf 531-556>561 10a0-10c5>2d00 10c7>2d27 10cd>2d2d
13a0-13ef>ab70 13f0-13f5>13f8 1c90-1cba>10d0 1cbd-1cbf>10fd 1e9e>df 1f08-1f0f>1f00 1f18-1f1d>1f10
1f28-1f2f>1f20 1f38-1f3f>1f30 1f48-1f4d>1f40 1f59>1f51 1f5b>1f53 1f5d>1f55 1f5f>1f57 1f68-1f6f>1f60
1f88-1f8f>1f80 1f98-1f9f>1f90 1fa8-1faf>1fa0 1fb8-1fb9>1fb0 1fba-1fbb>1f70 1fbc>1fb3 1fc8-1fcb>1f72
1fcc>1fc3 1fd8-1fd9>1fd0 1fda-1fdb>1f76 1fe8-1fe9>1fe0 1fea-1feb>1f7a 1fec>1fe5 1ff8-1ff9>1f78
1ffa-1ffb>1f7c 1ffc>1ff3 2126>3c9 212a>6b 212b>e5 2132>214e 2160-216f>2170 24b6-24cf>24d0
2c00-2c2f>2c30 2c62>26b 2c63>1d7d 2c64>27d 2c6d>251 2c6e>271 2c6f>250 2c70>252 2c7e-2c7f>23f
a77d>1d79 a78d>265 a7aa>266 a7ab>25c a7ac>261 a7ad>26c a7ae>26a a7b0>29e a7b1>287 a7b2>29d
a7b3>ab53 a7c4>a794 a7c5>282 a7c6>1d8e a7cb>264 a7dc>19b ff21-ff3a>ff41 10400-10427>10428
104b0-104d3>104d8 10570-1057a>10597 1057c-1058a>105a3 1058c-10592>105b3 10594-10595>105bb
10c80-10cb2>10cc0 10d50-10d65>10d70 118a0-118bf>118c0 16e40-16e5f>16e60 16ea0-16eb8>16ebb
1e900-1e921>1e922
").map Run.ofString).toArray

/-- The small letter of a code point, if it is a capital. -/
def small? (n : Nat) : Option Nat :=
  match runs.find? fun r => r.first ≤ n && n ≤ r.last with
  | some r => some (r.target + (n - r.first))
  | none =>
    if alternating.ranges.any fun r => r.1 ≤ n && n ≤ r.2 && (n - r.1) % 2 = 0 then some (n + 1)
    else none

end Case

/-- The small letter of a capital; other characters are left alone. -/
def lowerChar (c : Char) : Char :=
  if c.toNat < 0x80 then c.toLower
  else ((Case.small? c.toNat).map Char.ofNat).getD c

def lower (s : String) : String := String.ofList (s.toList.map lowerChar)

end Jasm.Text
