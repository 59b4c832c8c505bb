import Mathlib.Algebra.Group.Nat.Defs
import Mathlib.Order.Defs.Unbundled

-- The ways in which the modelled code stops on its own or leaves the behaviour that C++ defines.
inductive Fault
  | exit42       -- `std::exit(42)`
  | derefRend    -- a level iterator equal to `rend()` is dereferenced or erased
  | backOfEmpty  -- `back()` or `front()` of an empty vector
  deriving DecidableEq, Repr

instance Int32.isStrictTotalOrderLt : IsStrictTotalOrder Int32 (· < ·) where
  irrefl _               := Int32.lt_irrefl
  trans _ _ _            := Int32.lt_trans
  trichotomous _ _ h₁ h₂ := Decidable.byContradiction (Int32.lt_or_lt_of_ne · |>.elim h₁ h₂)

instance Int32.isStrictTotalOrderGt : IsStrictTotalOrder Int32 (· > ·) where
  irrefl _               := Int32.lt_irrefl
  trans _ _ _ h₁ h₂      := Int32.lt_trans h₂ h₁
  trichotomous _ _ h₁ h₂ := Decidable.byContradiction (Int32.lt_or_lt_of_ne · |>.elim h₂ h₁)

namespace UInt64

theorem toNat_add_of_lt {a b : UInt64} (h : a.toNat + b.toNat < 2 ^ 64) :
    (a + b).toNat = a.toNat + b.toNat := by
  rw [UInt64.toNat_add, Nat.mod_eq_of_lt h]

theorem ofNat_inj {m n : ℕ} (hm : m < 2 ^ 64) (hn : n < 2 ^ 64) : UInt64.ofNat m = .ofNat n ↔ m = n := by
  rw [← UInt64.toNat_inj, UInt64.toNat_ofNat_of_lt' hm, UInt64.toNat_ofNat_of_lt' hn]

end UInt64
