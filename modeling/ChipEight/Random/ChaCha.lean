import ChipEight.Bits

/-
  The ChaCha keystream with twelve rounds, a 64-bit block counter that starts at zero, and a zero
  nonce. The key is expanded from a 64-bit seed by a congruential generator whose output is
  permuted by an xor, a shift and a rotation.
-/
namespace ChipEight.ChaCha

abbrev Block := Vector (BitVec 32) 16
abbrev Key := Vector (BitVec 32) 8

def quarterRound (s : Block) (a b c d : Fin 16) : Block :=
  let half (s : Block) (first second : Nat) : Block :=
    let s := s.set a (s[a] + s[b])
    let s := s.set d ((s[d] ^^^ s[a]).rotateLeft first)
    let s := s.set c (s[c] + s[d])
    s.set b ((s[b] ^^^ s[c]).rotateLeft second)
  half (half s 16 12) 8 7

/-- A round over the columns, then a round over the diagonals. -/
def doubleRound (s : Block) : Block :=
  let s := quarterRound s 0 4 8 12
  let s := quarterRound s 1 5 9 13
  let s := quarterRound s 2 6 10 14
  let s := quarterRound s 3 7 11 15
  let s := quarterRound s 0 5 10 15
  let s := quarterRound s 1 6 11 12
  let s := quarterRound s 2 7 8 13
  quarterRound s 3 4 9 14

def initial (key : Key) (counter : BitVec 64) : Block :=
  let constants : Vector (BitVec 32) 4 := #v[0x61707865, 0x3320646e, 0x79622d32, 0x6b206574]
  constants ++ key ++ #v[counter.setWidth 32, (counter >>> 32).setWidth 32, 0, 0]

def block (key : Key) (counter : BitVec 64) : Block :=
  let start := initial key counter
  Vector.zipWith (· + ·) (Nat.repeat doubleRound 6 start) start

/-- The words of all blocks, one block after the other. -/
def keystream (key : Key) (k : Nat) : BitVec 32 :=
  (block key (BitVec.ofNat 64 (k / 16))).get ⟨k % 16, Nat.mod_lt k (by decide)⟩

def stepSeed (s : BitVec 64) : BitVec 64 := s * 6364136223846793005 + 11634580027462260723

def seedWord (s : BitVec 64) : BitVec 32 :=
  let folded : BitVec 32 := ((s >>> 18 ^^^ s) >>> 27).setWidth 32
  folded.rotateRight (s >>> 59).toNat

def keyOfSeed (seed : BitVec 64) : Key :=
  Vector.ofFn fun i => seedWord (Nat.repeat stepSeed (i + 1) seed)

end ChipEight.ChaCha
