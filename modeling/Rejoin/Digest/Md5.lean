/-!
# The MD5 digest

A message is a list of bytes.  It is padded to whole blocks of 64 bytes, each
block is read as sixteen little-endian words and stirred into a state of four
words in four rounds of sixteen operations.
-/

namespace Rejoin.Md5

/-- The chaining state. -/
structure State where
  a : UInt32
  b : UInt32
  c : UInt32
  d : UInt32
  deriving DecidableEq, Repr

def initial : State :=
  ⟨0x67452301, 0xefcdab89, 0x98badcfe, 0x10325476⟩

/-- The constant added by each operation: the leading 32 bits of the fraction of its sine. -/
def sines : List UInt32 :=
  [0xd76aa478, 0xe8c7b756, 0x242070db, 0xc1bdceee,
   0xf57c0faf, 0x4787c62a, 0xa8304613, 0xfd469501,
   0x698098d8, 0x8b44f7af, 0xffff5bb1, 0x895cd7be,
   0x6b901122, 0xfd987193, 0xa679438e, 0x49b40821,
   0xf61e2562, 0xc040b340, 0x265e5a51, 0xe9b6c7aa,
   0xd62f105d, 0x02441453, 0xd8a1e681, 0xe7d3fbc8,
   0x21e1cde6, 0xc33707d6, 0xf4d50d87, 0x455a14ed,
   0xa9e3e905, 0xfcefa3f8, 0x676f02d9, 0x8d2a4c8a,
   0xfffa3942, 0x8771f681, 0x6d9d6122, 0xfde5380c,
   0xa4beea44, 0x4bdecfa9, 0xf6bb4b60, 0xbebfbc70,
   0x289b7ec6, 0xeaa127fa, 0xd4ef3085, 0x04881d05,
   0xd9d4d039, 0xe6db99e5, 0x1fa27cf8, 0xc4ac5665,
   0xf4292244, 0x432aff97, 0xab9423a7, 0xfc93a039,
   0x655b59c3, 0x8f0ccc92, 0xffeff47d, 0x85845dd1,
   0x6fa87e4f, 0xfe2ce6e0, 0xa3014314, 0x4e0811a1,
   0xf7537e82, 0xbd3af235, 0x2ad7d2bb, 0xeb86d391]

/-- The rotation amounts of the four rounds; within a round they repeat. -/
def rotations : List (List UInt32) :=
  [[7, 12, 17, 22], [5, 9, 14, 20], [4, 11, 16, 23], [6, 10, 15, 21]]

def rotateLeft (word amount : UInt32) : UInt32 :=
  (word <<< amount) ||| (word >>> (32 - amount))

/-- The bits that a round combines out of the last three words of the state. -/
def blend (round : Nat) (state : State) : UInt32 :=
  match round with
  | 0 => (state.b &&& state.c) ||| (~~~state.b &&& state.d)
  | 1 => (state.d &&& state.b) ||| (~~~state.d &&& state.c)
  | 2 => state.b ^^^ state.c ^^^ state.d
  | _ => state.c ^^^ (state.b ||| ~~~state.d)

/-- The word of the block that an operation reads. -/
def wordIndex (round operation : Nat) : Nat :=
  match round with
  | 0 => operation % 16
  | 1 => (5 * operation + 1) % 16
  | 2 => (3 * operation + 5) % 16
  | _ => (7 * operation) % 16

/-- One of the sixty-four operations on a block. -/
def operate (words : List UInt32) (state : State) (operation : Nat) : State :=
  let round := operation / 16
  let sum := state.a + blend round state + sines.getD operation 0 +
    words.getD (wordIndex round operation) 0
  let amount := (rotations.getD round []).getD (operation % 4) 0
  ⟨state.d, state.b + rotateLeft sum amount, state.b, state.c⟩

/-- The state after one more block. -/
def stir (state : State) (words : List UInt32) : State :=
  let stirred := (List.range 64).foldl (operate words) state
  ⟨state.a + stirred.a, state.b + stirred.b, state.c + stirred.c, state.d + stirred.d⟩

/-- The lowest bytes of a number, least significant first. -/
def littleEndian (count value : Nat) : List UInt8 :=
  (List.range count).map (fun place => UInt8.ofNat (value / Nat.pow 256 place % 256))

/-- A marker bit, zeros up to eight bytes short of a whole block, the length in bits. -/
def padding (length : Nat) : List UInt8 :=
  0x80 :: (List.replicate ((119 - length % 64) % 64) 0 ++ littleEndian 8 (8 * length))

/-- The words of bytes, four bytes to a word. -/
def words : List UInt8 → List UInt32
  | first :: second :: third :: fourth :: rest =>
      (first.toUInt32 ||| (second.toUInt32 <<< 8) ||| (third.toUInt32 <<< 16) |||
        (fourth.toUInt32 <<< 24)) :: words rest
  | _ => []

/-- The blocks of sixteen words. -/
def blocks (input : List UInt32) : List (List UInt32) :=
  if input.isEmpty then [] else input.take 16 :: blocks (input.drop 16)
termination_by input.length
decreasing_by
  cases input with
  | nil => simp at *
  | cons word rest => simp only [List.length_drop, List.length_cons]; omega

/-- The sixteen bytes of the digest. -/
def digest (message : List UInt8) : List UInt8 :=
  let final := (blocks (words (message ++ padding message.length))).foldl stir initial
  [final.a, final.b, final.c, final.d].flatMap (fun word => littleEndian 4 word.toNat)

theorem padding_length (length : Nat) : (length + (padding length).length) % 64 = 0 := by
  simp only [padding, littleEndian, List.length_cons, List.length_append, List.length_replicate,
    List.length_map, List.length_range]
  omega

theorem digest_length (message : List UInt8) : (digest message).length = 16 := by
  simp [digest, littleEndian]

end Rejoin.Md5
