import Sentences.Draws.Walk

/-!
# Seeded draws

A seed of 64 bits gives a source through the ChaCha stream cipher with twelve rounds. The key of
eight words comes from the seed by a congruential generator with permuted output; the block counter
has 64 bits and starts at zero, and so does the stream number. Each block has sixteen words, hence
eight draws, the low half of a draw before its high half.
-/

namespace Sentences

namespace Cipher

/-- Sixteen words: the state of the cipher, and a block of its output. -/
abbrev Block := Vector UInt32 16

/-- The bits of a word moved up by `k`, those that leave it coming in again below. -/
def rotateUp (w : UInt32) (k : UInt32) : UInt32 :=
  (w <<< k) ||| (w >>> (32 - k))

/-- The bits of a word moved down by `k`, those that leave it coming in again above. -/
def rotateDown (w : UInt32) (k : UInt32) : UInt32 :=
  (w >>> k) ||| (w <<< (32 - k))

/-- One add, mix and rotate: word `a` takes up word `b`, then word `d` is mixed with `a`. -/
def mix (a b d : Fin 16) (k : UInt32) (s : Block) : Block :=
  let s := s.set a (s[a] + s[b])
  s.set d (rotateUp (s[d] ^^^ s[a]) k)

/-- A quarter of a round, on four of the words. -/
def quarterRound (s : Block) (a b c d : Fin 16) : Block :=
  (((s |> mix a b d 16) |> mix c d b 12) |> mix a b d 8) |> mix c d b 7

/-- Two rounds: the columns of the four by four square, then its diagonals. -/
def doubleRound (s : Block) : Block :=
  let s := quarterRound s 0 4 8 12
  let s := quarterRound s 1 5 9 13
  let s := quarterRound s 2 6 10 14
  let s := quarterRound s 3 7 11 15
  let s := quarterRound s 0 5 10 15
  let s := quarterRound s 1 6 11 12
  let s := quarterRound s 2 7 8 13
  quarterRound s 3 4 9 14

/-- Twelve rounds, six times two. -/
def scramble (s : Block) : Block :=
  doubleRound (doubleRound (doubleRound (doubleRound (doubleRound (doubleRound s)))))

/-- The state before the rounds: four constants, the key, the counter and the stream number zero. -/
def start (key : Vector UInt32 8) (counter : UInt64) : Block :=
  #v[0x61707865, 0x3320646e, 0x79622d32, 0x6b206574,
     key[0], key[1], key[2], key[3], key[4], key[5], key[6], key[7],
     counter.toUInt32, (counter >>> 32).toUInt32, 0, 0]

/-- The block of output for a value of the counter. -/
def block (key : Vector UInt32 8) (counter : UInt64) : Block :=
  (scramble (start key counter)).zipWith (· + ·) (start key counter)

/-- Draw number `k` of a block of output: two of its words. -/
def draw (b : Block) (k : Fin 8) : UInt64 :=
  b[2 * k.val].toUInt64 ||| (b[2 * k.val + 1].toUInt64 <<< 32)

end Cipher

namespace Seed

/-- The next state of the generator that spreads a seed over a key. -/
def step (s : UInt64) : UInt64 :=
  s * 6364136223846793005 + 11634580027462260723

/-- The word that a state of the generator gives out. -/
def word (s : UInt64) : UInt32 :=
  Cipher.rotateDown (((s >>> 18) ^^^ s) >>> 27).toUInt32 (s >>> 59).toUInt32

/-- The state of the generator after a number of steps. -/
def stepped (seed : UInt64) : Nat → UInt64
  | 0 => seed
  | k + 1 => step (stepped seed k)

/-- The key that a seed gives. -/
def key (seed : UInt64) : Vector UInt32 8 :=
  Vector.ofFn fun i => word (stepped seed (i.val + 1))

end Seed

/-- The source that a key gives. -/
def Draws.ofKey (key : Vector UInt32 8) : Draws :=
  fun k => Cipher.draw (Cipher.block key (UInt64.ofNat (k / 8))) ⟨k % 8, Nat.mod_lt k (by decide)⟩

/-- The source that a seed gives. -/
def Draws.ofSeed (seed : UInt64) : Draws :=
  Draws.ofKey (Seed.key seed)

end Sentences
