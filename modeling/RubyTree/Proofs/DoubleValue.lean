import Mathlib.Algebra.Order.Field.Power
import Mathlib.Algebra.Order.Ring.Rat
import Mathlib.Order.Monotone.Basic
import Mathlib.Tactic.Linarith
import Mathlib.Tactic.Ring
import RubyTree.Double.Basic

/-! The numbers that doubles stand for. Finite doubles are one number exactly if their bits are the
same or both are a zero. -/

namespace RubyTree

namespace Double

/-- The rational number that a double stands for, if it is finite. -/
def value? (x : Double) : Option ℚ :=
  if x.isFinite then
    some ((if x.negative then -1 else 1) * (x.significand * 2 ^ x.scale))
  else none

def Equal (x y : Double) : Prop := ∃ value, x.value? = some value ∧ y.value? = some value

def quantum : ℚ := 2 ^ (-1074 : ℤ)

theorem quantum_ne_zero : quantum ≠ 0 := zpow_ne_zero _ two_ne_zero

/-- The absolute value in units of the smallest positive double, by the magnitude bits. -/
def units (magnitude : Nat) : Nat :=
  (if magnitude / exponentBit = 0 then magnitude % exponentBit
    else magnitude % exponentBit + exponentBit) * 2 ^ (max (magnitude / exponentBit) 1 - 1)

theorem units_eq {e f : Nat} (hf : f < exponentBit) :
    units (exponentBit * e + f) = (if e = 0 then f else f + exponentBit) * 2 ^ (max e 1 - 1) := by
  have hdiv : (exponentBit * e + f) / exponentBit = e := by
    rw [Nat.mul_add_div (by decide), Nat.div_eq_of_lt hf, Nat.add_zero]
  have hmod : (exponentBit * e + f) % exponentBit = f := by
    rw [Nat.mul_add_mod, Nat.mod_eq_of_lt hf]
  rw [units, hdiv, hmod]

theorem units_succ (m : Nat) : units (m + 1) = units m + 2 ^ (max (m / exponentBit) 1 - 1) := by
  obtain ⟨e, f, hf, rfl⟩ : ∃ e f, f < exponentBit ∧ m = exponentBit * e + f :=
    ⟨m / exponentBit, m % exponentBit, Nat.mod_lt _ (by decide), (Nat.div_add_mod _ _).symm⟩
  have hdiv : (exponentBit * e + f) / exponentBit = e := by
    rw [Nat.mul_add_div (by decide), Nat.div_eq_of_lt hf, Nat.add_zero]
  rw [hdiv]
  by_cases hnext : f + 1 < exponentBit
  · rw [Nat.add_assoc, units_eq hf, units_eq hnext]
    split <;> ring
  · -- The significand is full: the next double is the first of the next exponent.
    have hfull : f + 1 = exponentBit := by omega
    have hlast : exponentBit * e + f + 1 = exponentBit * (e + 1) + 0 := by
      rw [Nat.mul_succ]
      omega
    rw [hlast, units_eq hf, units_eq (by decide), ← hfull]
    cases e with
    | zero => simp
    | succ k =>
      have hmax : max (k + 1) 1 - 1 = k := by omega
      have hmax' : max (k + 1 + 1) 1 - 1 = k + 1 := by omega
      rw [if_neg (by omega), if_neg (by omega), hmax, hmax']
      ring

theorem units_lt_succ (m : Nat) : units m < units (m + 1) := by
  have hstep : 0 < 2 ^ (max (m / exponentBit) 1 - 1) := Nat.two_pow_pos _
  rw [units_succ]
  omega

theorem units_strictMono : StrictMono units := strictMono_nat_of_lt_succ units_lt_succ

theorem units_eq_zero_iff {m : Nat} : units m = 0 ↔ m = 0 := by
  have hzero : units 0 = 0 := rfl
  rw [← hzero]
  exact units_strictMono.injective.eq_iff

theorem scale_eq (x : Double) : x.scale = ((max x.exponentField 1 - 1 : ℕ) : ℤ) + -1074 := by
  unfold scale
  rw [Int.ofNat_eq_natCast]
  omega

theorem significand_mul_scale (x : Double) :
    (x.significand * 2 ^ x.scale : ℚ) = units x.magnitude * quantum := by
  rw [scale_eq, zpow_add₀ two_ne_zero, zpow_natCast, ← quantum, ← mul_assoc, units, significand]
  push_cast
  rfl

def signed (negative : Bool) (magnitude : Nat) : ℚ :=
  (if negative then -1 else 1) * (units magnitude * quantum)

theorem value?_eq_some {x : Double} (h : x.isFinite = true) :
    x.value? = some (signed x.negative x.magnitude) := by
  rw [value?, if_pos h, significand_mul_scale, signed]

theorem units_mul_quantum_eq_iff {m n : Nat} :
    (units m * quantum : ℚ) = units n * quantum ↔ m = n := by
  rw [mul_left_inj' quantum_ne_zero, Nat.cast_inj, units_strictMono.injective.eq_iff]

theorem neg_units_mul_quantum_eq_iff {m n : Nat} :
    -(units m * quantum : ℚ) = units n * quantum ↔ m = n ∧ m = 0 := by
  rw [neg_eq_iff_add_eq_zero, ← add_mul, mul_eq_zero, or_iff_left quantum_ne_zero, ← Nat.cast_add,
    Nat.cast_eq_zero, Nat.add_eq_zero_iff, units_eq_zero_iff, units_eq_zero_iff]
  omega

theorem signed_eq_iff {a b : Bool} {m n : Nat} :
    signed a m = signed b n ↔ m = n ∧ (a = b ∨ m = 0) := by
  have hneg : units m * quantum = -(units n * quantum) ↔ m = n ∧ m = 0 := by
    rw [eq_comm, neg_units_mul_quantum_eq_iff]
    omega
  cases a <;> cases b
  · simpa [signed] using units_mul_quantum_eq_iff
  · simpa [signed] using hneg
  · simpa [signed] using neg_units_mul_quantum_eq_iff
  · simpa [signed] using units_mul_quantum_eq_iff

theorem bits_eq_iff {x y : Double} :
    x.bits = y.bits ↔ x.magnitude = y.magnitude ∧ x.negative = y.negative := by
  constructor
  · intro h
    rw [magnitude, magnitude, negative, negative, h]
    exact ⟨rfl, rfl⟩
  · rintro ⟨hmagnitude, hnegative⟩
    have hx := x.bits.toNat_lt
    have hy := y.bits.toNat_lt
    rw [negative, negative, decide_eq_decide] at hnegative
    rw [magnitude, magnitude] at hmagnitude
    unfold signBit at hmagnitude hnegative
    apply UInt64.toNat_inj.mp
    omega

/-- Equality of bits, with the two zeros taken for one, is equality of numbers. -/
theorem sameNumber_iff {x y : Double} (hx : x.isFinite = true) (hy : y.isFinite = true) :
    x.sameNumber y = true ↔ x.Equal y := by
  have hequal : x.Equal y ↔ signed y.negative y.magnitude = signed x.negative x.magnitude := by
    simp only [Equal, value?_eq_some hx, value?_eq_some hy, Option.some.injEq, exists_eq_left']
  rw [hequal, signed_eq_iff, sameNumber, Bool.or_eq_true, Bool.and_eq_true, beq_iff_eq, bits_eq_iff,
    isZero, isZero, beq_iff_eq, beq_iff_eq]
  constructor
  · rintro (⟨hm, hn⟩ | ⟨hx, hy⟩)
    · exact ⟨hm.symm, .inl hn.symm⟩
    · exact ⟨hy.trans hx.symm, .inr hy⟩
  · rintro ⟨hm, hn | hzero⟩
    · exact .inl ⟨hm.symm, hn.symm⟩
    · exact .inr ⟨hm.symm.trans hzero, hzero⟩

end Double

end RubyTree
