import ChipEight.Random.ChaCha

/-
  A source of random bytes: an endless stream and how many of its bytes have been taken.
-/
namespace ChipEight

structure RandomSource where
  stream : Nat → Byte
  taken : Nat := 0

namespace RandomSource

def take (r : RandomSource) : Byte × RandomSource :=
  (r.stream r.taken, { r with taken := r.taken + 1 })

/-- The bytes of a list, from the start again when they run out. -/
def cyclic (bytes : Array Byte) : RandomSource where
  stream k := bytes[k % bytes.size]?.getD 0

/-- The low bytes of the keystream words that a seed gives. -/
def seeded (seed : BitVec 64) : RandomSource :=
  let key := ChaCha.keyOfSeed seed
  { stream := fun k => (ChaCha.keystream key k).setWidth 8 }

end RandomSource
end ChipEight
