namespace PipelineCompiler.Digest

/-!
# SHA-256

The secure hash standard with 256 bits, on lists of bytes.  Words are numbers below `wordLimit`, so
that digests can be worked out in the logic too.

* `rotate`, `sum`, `complement` — the operations on words;
* `pad` — the message with its padding, a whole number of blocks;
* `schedule` — the sixty-four words of a block;
* `compress` — one block worked into the chaining state;
* `sha256`, `sha256Hex` — the digest as bytes and as hexadecimal text.
-/

/-! ### Words -/

/-- How many words of thirty-two bits there are. -/
def wordLimit : Nat := 4294967296

/-- The sum of two words, without what goes beyond thirty-two bits. -/
def sum (x y : Nat) : Nat := (x + y) % wordLimit

/-- The word with all bits turned around. -/
def complement (x : Nat) : Nat := wordLimit - 1 - x

/-- Rotates a word to the right. -/
def rotate (x n : Nat) : Nat := (x >>> n) ||| (x <<< (32 - n)) % wordLimit

/-! ### Blocks -/

/-- The eight words of the chaining state. -/
structure Chain where
  a : Nat
  b : Nat
  c : Nat
  d : Nat
  e : Nat
  f : Nat
  g : Nat
  h : Nat
deriving Repr, DecidableEq

/-- The first thirty-two bits of the fractional parts of the square roots of the first eight
    primes. -/
def Chain.start : Chain :=
  ⟨0x6a09e667, 0xbb67ae85, 0x3c6ef372, 0xa54ff53a, 0x510e527f, 0x9b05688c,
    0x1f83d9ab, 0x5be0cd19⟩

/-- The first thirty-two bits of the fractional parts of the cube roots of the first sixty-four
    primes. -/
def roundConstants : List Nat := [
  0x428a2f98, 0x71374491, 0xb5c0fbcf, 0xe9b5dba5, 0x3956c25b, 0x59f111f1, 0x923f82a4, 0xab1c5ed5,
  0xd807aa98, 0x12835b01, 0x243185be, 0x550c7dc3, 0x72be5d74, 0x80deb1fe, 0x9bdc06a7, 0xc19bf174,
  0xe49b69c1, 0xefbe4786, 0x0fc19dc6, 0x240ca1cc, 0x2de92c6f, 0x4a7484aa, 0x5cb0a9dc, 0x76f988da,
  0x983e5152, 0xa831c66d, 0xb00327c8, 0xbf597fc7, 0xc6e00bf3, 0xd5a79147, 0x06ca6351, 0x14292967,
  0x27b70a85, 0x2e1b2138, 0x4d2c6dfc, 0x53380d13, 0x650a7354, 0x766a0abb, 0x81c2c92e, 0x92722c85,
  0xa2bfe8a1, 0xa81a664b, 0xc24b8b70, 0xc76c51a3, 0xd192e819, 0xd6990624, 0xf40e3585, 0x106aa070,
  0x19a4c116, 0x1e376c08, 0x2748774c, 0x34b0bcb5, 0x391c0cb3, 0x4ed8aa4a, 0x5b9cca4f, 0x682e6ff3,
  0x748f82ee, 0x78a5636f, 0x84c87814, 0x8cc70208, 0x90befffa, 0xa4506ceb, 0xbef9a3f7, 0xc67178f2]

/-- Mixes a scheduled word fifteen places back. -/
def mixEarly (x : Nat) : Nat := rotate x 7 ^^^ rotate x 18 ^^^ (x >>> 3)

/-- Mixes a scheduled word two places back. -/
def mixLate (x : Nat) : Nat := rotate x 17 ^^^ rotate x 19 ^^^ (x >>> 10)

/-- The next word after sixteen scheduled ones, given with the latest first. -/
def nextWord : List Nat → Nat
  | [_, w2, _, _, _, _, w7, _, _, _, _, _, _, _, w15, w16] =>
    sum (mixLate w2 + w7) (mixEarly w15 + w16)
  | _ => 0

/-- Schedules `count` more words; the words so far are given with the latest first. -/
def extendSchedule : (count : Nat) → List Nat → List Nat
  | 0, words => words
  | count + 1, words => extendSchedule count (nextWord (words.take 16) :: words)

/-- The sixty-four words of a block of sixteen. -/
def schedule (block : List Nat) : List Nat := (extendSchedule 48 block.reverse).reverse

/-- One round. -/
def Chain.round (s : Chain) (constant word : Nat) : Chain :=
  let mixed := rotate s.e 6 ^^^ rotate s.e 11 ^^^ rotate s.e 25
  let choice := (s.e &&& s.f) ^^^ (complement s.e &&& s.g)
  let first := s.h + mixed + choice + constant + word
  let mixed' := rotate s.a 2 ^^^ rotate s.a 13 ^^^ rotate s.a 22
  let majority := (s.a &&& s.b) ^^^ (s.a &&& s.c) ^^^ (s.b &&& s.c)
  ⟨sum first (mixed' + majority), s.a, s.b, s.c, sum s.d first, s.e, s.f, s.g⟩

/-- Word by word sum. -/
def Chain.add (s t : Chain) : Chain :=
  ⟨sum s.a t.a, sum s.b t.b, sum s.c t.c, sum s.d t.d, sum s.e t.e, sum s.f t.f, sum s.g t.g,
    sum s.h t.h⟩

/-- Works a block of sixteen words into the chaining state. -/
def compress (s : Chain) (block : List Nat) : Chain :=
  s.add ((roundConstants.zip (schedule block)).foldl (fun t step => t.round step.1 step.2) s)

/-- The words of a message of bytes, the first byte weighing most. -/
def wordsOf : List UInt8 → List Nat
  | a :: b :: c :: d :: rest =>
    ((a.toNat <<< 24) ||| (b.toNat <<< 16) ||| (c.toNat <<< 8) ||| d.toNat) :: wordsOf rest
  | _ => []

/-- The bytes of a word, the first weighing most. -/
def bytesOf (w : Nat) : List UInt8 :=
  [.ofNat (w >>> 24), .ofNat (w >>> 16), .ofNat (w >>> 8), .ofNat w]

/-- The message, a one bit, zeros, and the count of its bits in eight bytes. -/
def pad (message : List UInt8) : List UInt8 :=
  let size := message.length
  let zeros := (119 - size % 64) % 64
  message ++ 0x80 :: List.replicate zeros 0 ++
    (List.range 8).map fun i => UInt8.ofNat (8 * size / Nat.pow 256 (7 - i))

/-- Works `count` blocks of sixteen words into the chaining state. -/
def compressAll : (count : Nat) → Chain → List Nat → Chain
  | 0, s, _ => s
  | count + 1, s, words => compressAll count (compress s (words.take 16)) (words.drop 16)

/-- The digest of a message. -/
def sha256 (message : List UInt8) : List UInt8 :=
  let words := wordsOf (pad message)
  let s := compressAll (words.length / 16) Chain.start words
  [s.a, s.b, s.c, s.d, s.e, s.f, s.g, s.h].flatMap bytesOf

/-- Bytes as hexadecimal text. -/
def hexText (bytes : List UInt8) : String :=
  String.ofList (bytes.flatMap fun b =>
    [Nat.digitChar (b.toNat / 16), Nat.digitChar (b.toNat % 16)])

/-- The digest of a text in its UTF-8 form, in hexadecimal. -/
def sha256Hex (s : String) : String := hexText (sha256 s.toUTF8.data.toList)

end PipelineCompiler.Digest
