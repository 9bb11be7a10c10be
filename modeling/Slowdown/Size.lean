/-
Sizes: the whole numbers of 64 bits, by which a policy and a reason count values.
-/

namespace Slowdown

/-- A whole number below `2^64`. -/
structure Size where
  toNat : Nat
  toNat_lt : toNat < 0x10000000000000000
  deriving DecidableEq

namespace Size

/-- The size that is a number, or the greatest size if the number is greater than all. -/
def ofNat (n : Nat) : Size := ⟨min n 0xffffffffffffffff, by omega⟩

/-- The size that is a number, if one is. -/
def ofInt? (n : Int) : Option Size :=
  if h : 0 ≤ n ∧ n < 0x10000000000000000 then some ⟨n.toNat, by omega⟩ else none

/-- Numerals are sizes; one too great for a size is the greatest. -/
instance (n : Nat) : OfNat Size n := ⟨ofNat n⟩

@[simp] theorem toNat_ofNat (n : Nat) :
    (no_index (OfNat.ofNat n) : Size).toNat = min (OfNat.ofNat n) 0xffffffffffffffff := rfl

/-- A count of values stands for its size. -/
instance : Coe Nat Size := ⟨ofNat⟩

/-- A size stands for its number. -/
instance : Coe Size Nat := ⟨toNat⟩

/-- A size is written as its number. -/
instance : ToString Size := ⟨fun n => toString n.toNat⟩

end Size

end Slowdown
