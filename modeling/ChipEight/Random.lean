/-
Random bytes from a counter and a key.

The generator is the twenty-round Threefry block on two 32-bit words. A key is
split into the next key and a key for this draw, by the blocks of the counters
(0, 0) and (0, 1); the draw takes the block of a second split and folds its two
words into one byte. So the stream depends on the seed and on the number of draws
alone.
-/
import ChipEight.Error
import ChipEight.Lane

set_option autoImplicit false

namespace ChipEight

/-- The two words of a key, or of a block. -/
structure RandomKey where
  first : UInt32
  second : UInt32
  deriving DecidableEq

namespace RandomKey

/-- Rotates a word to the left. -/
def rotate (x r : UInt32) : UInt32 :=
  (x <<< r) ||| (x >>> (32 - r))

/-- One round: add, rotate, mix. -/
def round (p : UInt32 × UInt32) (r : UInt32) : UInt32 × UInt32 :=
  let x := p.1 + p.2
  (x, rotate p.2 r ^^^ x)

/-- The rotations of the groups of four rounds, in turn. -/
def rotations (group : Nat) : List UInt32 :=
  if group % 2 = 0 then [13, 15, 26, 6] else [17, 29, 16, 24]

/-- The block of a counter under a key. After each group of rounds the next two of the
three key words are added, and the number of the group. -/
def block (key counter : RandomKey) : RandomKey :=
  let third := key.first ^^^ key.second ^^^ 0x1BD11BDA
  let word (i : Nat) : UInt32 :=
    if i % 3 = 0 then key.first else if i % 3 = 1 then key.second else third
  let p := (List.range 5).foldl
    (fun p group =>
      let q := (rotations group).foldl round p
      (q.1 + word (group + 1), q.2 + word (group + 2) + UInt32.ofNat (group + 1)))
    (counter.first + word 0, counter.second + word 1)
  ⟨p.1, p.2⟩

/-- The key of the next draw. -/
def next (key : RandomKey) : RandomKey :=
  key.block ⟨0, 0⟩

/-- The random byte of a key. -/
def byte (key : RandomKey) : UInt8 :=
  let drawKey := key.block ⟨0, 1⟩
  let bits := (drawKey.block ⟨0, 1⟩).block ⟨0, 0⟩
  (bits.first ^^^ bits.second).toUInt8

/-- A seed of sixty-four signed bits, of which the low thirty-two make the key. -/
def ofSeed (seed : Int) : Except Error RandomKey :=
  if -0x8000000000000000 ≤ seed ∧ seed < 0x8000000000000000 then
    .ok ⟨0, UInt32.ofNat (seed % 0x100000000).toNat⟩
  else .error .numberRange

end RandomKey
end ChipEight
