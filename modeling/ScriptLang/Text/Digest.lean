namespace ScriptLang.Text.Digest

/-- Multiplies two words and adds the halves of the double-length product without carry. -/
def mix (x y : UInt64) : UInt64 :=
  (x * y) ^^^ UInt64.ofNat (x.toNat * y.toNat / UInt64.size)

/-- The word whose bytes these are, the lowest first. -/
def word : List UInt8 → UInt64
  | [] => 0
  | b :: bs => b.toUInt64 ||| (word bs <<< 8)

/-- The first of the two words that the folding starts from. -/
def seedLow : UInt64 := 0x243f6a8885a308d3

/-- The second of the two words that the folding starts from. -/
def seedHigh : UInt64 := 0x13198a2e03707344

/-- The word that is added to the second half of every piece. -/
def pieceKey : UInt64 := 0xa4093822299f31d0

/-- The odd multiplier of the last rounds. -/
def multiplier : UInt64 := 0xf1357aea2e62a9c5

/-- Folds so many pieces of sixteen bytes into a pair of words. -/
def absorb : Nat → List UInt8 → UInt64 × UInt64 → UInt64 × UInt64
  | 0, _, state => state
  | pieces + 1, bytes, (low, high) =>
      absorb pieces (bytes.drop 16)
        (high, mix (low ^^^ word (bytes.take 8)) (pieceKey ^^^ word ((bytes.drop 8).take 8)))

/-- Adds the first and the last few bytes, which overlap when there are not enough of them.  A
longer text adds its last sixteen bytes after all full pieces in front of its last byte. -/
def fold (bytes : List UInt8) : UInt64 × UInt64 :=
  let n := bytes.length
  let final (width : Nat) : UInt64 := word (bytes.drop (n - width))
  if n = 0 then
    (seedLow, seedHigh)
  else if n < 4 then
    (seedLow ^^^ word (bytes.take 1),
      seedHigh ^^^ ((final 1 <<< 8) ||| word ((bytes.drop (n / 2)).take 1)))
  else if n < 8 then
    (seedLow ^^^ word (bytes.take 4), seedHigh ^^^ final 4)
  else if n ≤ 16 then
    (seedLow ^^^ word (bytes.take 8), seedHigh ^^^ final 8)
  else
    let (low, high) := absorb ((n - 1) / 16) bytes (seedLow, seedHigh)
    (low ^^^ word ((bytes.drop (n - 16)).take 8), high ^^^ final 8)

/-- The digest of a run of bytes before the last rounds. -/
def ofBytes (bytes : List UInt8) : UInt64 :=
  mix (fold bytes).1 (fold bytes).2 ^^^ UInt64.ofNat bytes.length

/-- Turns a word left by 26 bits. -/
def turn (x : UInt64) : UInt64 :=
  (x <<< 26) ||| (x >>> 38)

/-- The digest of a text: that of its bytes, and of a last byte that marks its end. -/
def ofString (text : String) : UInt64 :=
  turn ((ofBytes text.toUTF8.data.toList * multiplier + 0xff) * multiplier)

end ScriptLang.Text.Digest
