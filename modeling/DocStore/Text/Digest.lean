import DocStore.Text.Quoted

/-!
SHA-1 of a text's UTF-8 bytes, written as forty lowercase hexadecimal characters.

Bytes are padded to whole blocks of 64, a block is read as sixteen big-endian words and stretched to
eighty, and the eighty rounds stir it into five words of state.
-/

namespace DocStore.Digest

/-- The five words of state. -/
structure State where
  a : UInt32
  b : UInt32
  c : UInt32
  d : UInt32
  e : UInt32

/-- The state before the first block. -/
def State.start : State :=
  ⟨0x67452301, 0xEFCDAB89, 0x98BADCFE, 0x10325476, 0xC3D2E1F0⟩

/-- Turns a word to the left. -/
def rotate (x n : UInt32) : UInt32 :=
  (x <<< n) ||| (x >>> (32 - n))

/-- The bytes of `n` from the highest to the lowest, `count` of them. -/
def bigEndian (count n : Nat) : List UInt8 :=
  (List.range count).reverse.map fun i => UInt8.ofNat (n >>> (8 * i))

/-- The bytes, a one bit, zeros up to eight bytes below a block's end, and the length in bits. -/
def padded (bytes : List UInt8) : List UInt8 :=
  let zeros := (119 - bytes.length % 64) % 64
  bytes ++ 0x80 :: List.replicate zeros 0 ++ bigEndian 8 (8 * bytes.length)

/-- Big-endian words of a list of bytes; fewer than four bytes at the end are dropped. -/
def words : List UInt8 → List UInt32
  | a :: b :: c :: d :: rest =>
    (a.toUInt32 <<< 24 ||| b.toUInt32 <<< 16 ||| c.toUInt32 <<< 8 ||| d.toUInt32) :: words rest
  | _ => []

/-- Adds `count` words to the schedule, each from the words 3, 8, 14 and 16 places before it. -/
def stretch : Nat → Array UInt32 → Array UInt32
  | 0, schedule => schedule
  | count + 1, schedule =>
    let back (i : Nat) := schedule.getD (schedule.size - i) 0
    stretch count (schedule.push (rotate (back 3 ^^^ back 8 ^^^ back 14 ^^^ back 16) 1))

/-- The mixing function and the constant of a round. -/
def mix (round : Nat) (b c d : UInt32) : UInt32 × UInt32 :=
  if round < 20 then ((b &&& c) ||| (~~~b &&& d), 0x5A827999)
  else if round < 40 then (b ^^^ c ^^^ d, 0x6ED9EBA1)
  else if round < 60 then ((b &&& c) ||| (b &&& d) ||| (c &&& d), 0x8F1BBCDC)
  else (b ^^^ c ^^^ d, 0xCA62C1D6)

/-- Runs the rounds from number `round` on over the words that are left. -/
def rounds (round : Nat) (state : State) : List UInt32 → State
  | [] => state
  | word :: rest =>
    let (mixed, constant) := mix round state.b state.c state.d
    let a := rotate state.a 5 + mixed + state.e + constant + word
    rounds (round + 1) ⟨a, state.a, rotate state.b 30, state.c, state.d⟩ rest

/-- Stirs one block of sixteen words into the state. -/
def absorb (state : State) (block : List UInt32) : State :=
  let stirred := rounds 0 state (stretch 64 block.toArray).toList
  ⟨state.a + stirred.a, state.b + stirred.b, state.c + stirred.c, state.d + stirred.d,
    state.e + stirred.e⟩

/-- Stirs in the first `count` blocks of sixteen words, one after another. -/
def absorbAll : Nat → State → List UInt32 → State
  | 0, state, _ => state
  | count + 1, state, message => absorbAll count (absorb state (message.take 16)) (message.drop 16)

/-- Eight hexadecimal characters. -/
def hexWord (word : UInt32) : List Char :=
  (List.range 8).reverse.map fun i => Text.hexDigit ((word.toNat >>> (4 * i)) % 16)

/-- The SHA-1 of a text, in hexadecimal. -/
def ofText (text : String) : String :=
  let message := words (padded text.toUTF8.toList)
  let state := absorbAll (message.length / 16) State.start message
  String.ofList ([state.a, state.b, state.c, state.d, state.e].flatMap hexWord)

end DocStore.Digest
