import Mathlib.Algebra.Order.Field.Power
import Mathlib.Algebra.Order.Ring.Rat
import Mathlib.Tactic.Linarith
import Mathlib.Tactic.LinearCombination
import Mathlib.Tactic.Ring
import RubyTree.Double.Text
import RubyTree.Proofs.DoubleValue

/-! The decimal that is printed for a double. It lies among the numbers that round to the double,
and no number rounds to doubles of two magnitudes, so the decimal tells the magnitude. -/

namespace RubyTree

namespace Double

def Decimal.value (d : Decimal) : ℚ := d.digits * 10 ^ d.exponent

/-- The unit in which the interval of a double is counted, a quarter of its last place. -/
def quarter (x : Double) : ℚ := 2 ^ (x.scale - 2)

/-- The number lies in the interval of the double; on a bound only if the significand is even. -/
def RoundedFrom (x : Double) (v : ℚ) : Prop :=
  if x.significand % 2 = 0 then x.interval.1 * x.quarter ≤ v ∧ v ≤ x.interval.2.2 * x.quarter
  else x.interval.1 * x.quarter < v ∧ v < x.interval.2.2 * x.quarter

/-! The points of a grid. -/

/-- The test that a grid point has to pass, in whole numbers: `a / b` quarters make one step. -/
def inside (x : Double) (a b d : Nat) : Bool :=
  if x.significand % 2 = 0 then
    decide (x.interval.1 * a ≤ d * b ∧ d * b ≤ x.interval.2.2 * a)
  else decide (x.interval.1 * a < d * b ∧ d * b < x.interval.2.2 * a)

theorem inside_iff {x : Double} {a b d : Nat} {e : Int} (hb : 0 < b)
    (hstep : (a : ℚ) * 10 ^ e = x.quarter * b) :
    x.inside a b d = true ↔ x.RoundedFrom (d * 10 ^ e) := by
  have hb' : (0 : ℚ) < b := Nat.cast_pos.mpr hb
  have hten : (0 : ℚ) < 10 ^ e := zpow_pos (by norm_num) e
  -- Multiplying by the positive `10 ^ e / b` turns one comparison into the other.
  have hscale (n : Nat) : (n : ℚ) * x.quarter * b = n * a * 10 ^ e := by
    rw [mul_assoc, ← hstep, mul_assoc]
  have hpoint : (d : ℚ) * 10 ^ e * b = d * b * 10 ^ e := by ring
  have hbelow (n : Nat) : (n : ℚ) * x.quarter < d * 10 ^ e ↔ n * a < d * b := by
    rw [← mul_lt_mul_iff_left₀ hb', hscale, hpoint, mul_lt_mul_iff_left₀ hten]
    exact_mod_cast Iff.rfl
  have habove (n : Nat) : (d : ℚ) * 10 ^ e < n * x.quarter ↔ d * b < n * a := by
    rw [← mul_lt_mul_iff_left₀ hb', hscale, hpoint, mul_lt_mul_iff_left₀ hten]
    exact_mod_cast Iff.rfl
  unfold inside RoundedFrom
  by_cases heven : x.significand % 2 = 0
  · rw [if_pos heven, if_pos heven, decide_eq_true_iff, ← not_lt, ← not_lt, ← not_lt, ← not_lt,
      hbelow, habove]
  · rw [if_neg heven, if_neg heven, decide_eq_true_iff, hbelow, habove]

theorem shiftRatio_one_one (e : Int) :
    ∃ a b, shiftRatio 1 1 e = (a, b) ∧ 0 < b ∧ (a : ℚ) = 2 ^ (-e) * b := by
  cases e with
  | ofNat k =>
    refine ⟨1, 1 <<< k, rfl, ?_, ?_⟩
    · rw [Nat.one_shiftLeft]
      exact Nat.two_pow_pos k
    · rw [Nat.one_shiftLeft, Nat.cast_pow, Nat.cast_one, Nat.cast_ofNat, Int.ofNat_eq_natCast,
        zpow_neg, zpow_natCast, inv_mul_cancel₀ (pow_ne_zero k two_ne_zero)]
  | negSucc k =>
    refine ⟨1 <<< (k + 1), 1, rfl, Nat.one_pos, ?_⟩
    rw [Nat.one_shiftLeft, Nat.cast_pow, Nat.cast_one, Nat.cast_ofNat, mul_one, Int.neg_negSucc,
      zpow_natCast]

/-- The quotient rounded to the nearest natural number; a tie adds the carry. -/
def nearestPoint (carry n b : Nat) : Nat :=
  if 2 * (n % b) < b then n / b else if b < 2 * (n % b) then n / b + 1 else n / b + carry

theorem nearestPoint_bounds {carry n b : Nat} (hcarry : carry ≤ 1) (hb : 0 < b) :
    2 * (nearestPoint carry n b * b) ≤ 2 * n + b ∧
      2 * n ≤ 2 * (nearestPoint carry n b * b) + b := by
  have hdiv := Nat.div_add_mod' n b
  have hmod := Nat.mod_lt n hb
  have hcases : nearestPoint carry n b = n / b ∧ 2 * (n % b) ≤ b ∨
      nearestPoint carry n b = n / b + 1 ∧ b ≤ 2 * (n % b) := by
    unfold nearestPoint
    split_ifs <;> omega
  rcases hcases with ⟨hpoint, h⟩ | ⟨hpoint, h⟩
  · rw [hpoint]
    omega
  · rw [hpoint, Nat.add_mul]
    omega

def otherPoint (carry n b : Nat) : Nat :=
  if nearestPoint carry n b = n / b then n / b + 1 else n / b

/-- The search on one grid: the point next to the double, or else the point on its other side. -/
def gridPoint? (x : Double) (carry a b : Nat) (e : Int) : Option Decimal :=
  let nearest := nearestPoint carry (4 * x.significand * a) b
  let other := otherPoint carry (4 * x.significand * a) b
  if 0 < nearest ∧ x.inside a b nearest = true then some ⟨nearest, e⟩
  else if 0 < other ∧ x.inside a b other = true then some ⟨other, e⟩
  else none

theorem onGrid?_eq (tie : Tie) (x : Double) (e : Int) :
    ∃ carry a b : Nat, carry ≤ 1 ∧ 0 < b ∧ (a : ℚ) * 10 ^ e = x.quarter * b ∧
      onGrid? tie x e = x.gridPoint? carry a b e := by
  obtain ⟨a, b, hshift, hb, hab⟩ := shiftRatio_one_one (-(x.scale - 2))
  rw [neg_neg, ← quarter] at hab
  -- The even tie adds the last bit of the quotient, the other one a step.
  have hcarry (n : Nat) : n % 2 ≤ 1 := Nat.le_of_lt_succ (Nat.mod_lt n two_pos)
  cases e with
  | ofNat k =>
    have hb' : 0 < b * Nat.pow 10 k := Nat.mul_pos hb (Nat.pow_pos (by decide))
    have hstep : (a : ℚ) * 10 ^ Int.ofNat k = x.quarter * (b * Nat.pow 10 k : ℕ) := by
      rw [hab, Int.ofNat_eq_natCast, zpow_natCast, Nat.pow_eq, Nat.cast_mul, Nat.cast_pow,
        Nat.cast_ofNat, mul_assoc]
    unfold onGrid?
    rw [hshift]
    cases tie with
    | even => exact ⟨_, a, _, hcarry (4 * x.significand * a / (b * Nat.pow 10 k)), hb', hstep, rfl⟩
    | up => exact ⟨1, a, _, Nat.le_refl 1, hb', hstep, rfl⟩
  | negSucc k =>
    have hstep : ((a * Nat.pow 10 (k + 1) : ℕ) : ℚ) * 10 ^ Int.negSucc k = x.quarter * b := by
      rw [zpow_negSucc, Nat.pow_eq, Nat.cast_mul, Nat.cast_pow, Nat.cast_ofNat, mul_assoc,
        mul_inv_cancel₀ (pow_ne_zero _ (by norm_num)), mul_one, hab]
    unfold onGrid?
    rw [hshift]
    cases tie with
    | even =>
      exact ⟨_, _, b, hcarry (4 * x.significand * (a * Nat.pow 10 (k + 1)) / b), hb, hstep, rfl⟩
    | up => exact ⟨1, _, b, Nat.le_refl 1, hb, hstep, rfl⟩

/-- A hit is positive and reads back. -/
def Hit (x : Double) (d : Decimal) : Prop := 0 < d.digits ∧ x.RoundedFrom d.value

theorem hit_of_onGrid? {tie : Tie} {x : Double} {e : Int} {d : Decimal}
    (h : onGrid? tie x e = some d) : x.Hit d := by
  obtain ⟨carry, a, b, -, hb, hstep, heq⟩ := onGrid?_eq tie x e
  rw [heq, gridPoint?] at h
  split_ifs at h with hnearest hother
  · cases h
    exact ⟨hnearest.1, (inside_iff hb hstep).mp hnearest.2⟩
  · cases h
    exact ⟨hother.1, (inside_iff hb hstep).mp hother.2⟩

theorem interval_low_lt (x : Double) : x.interval.1 ≤ 4 * x.significand - 1 := by
  show 4 * x.significand - _ ≤ _
  split <;> omega

/-- On a grid with steps below half a place the nearest point is a hit. -/
theorem onGrid?_isSome (tie : Tie) {x : Double} {e : Int} (hx : 0 < x.significand)
    (hfine : (10 : ℚ) ^ e < 2 * x.quarter) : (onGrid? tie x e).isSome = true := by
  obtain ⟨carry, a, b, hcarry, hb, hstep, heq⟩ := onGrid?_eq tie x e
  have hb' : (0 : ℚ) < b := Nat.cast_pos.mpr hb
  have hba : b < 2 * a := by
    have hten : (0 : ℚ) < 10 ^ e := zpow_pos (by norm_num) e
    have h : (b : ℚ) * 10 ^ e < 2 * a * 10 ^ e := by
      rw [mul_assoc, hstep, ← mul_assoc, mul_comm (b : ℚ)]
      exact mul_lt_mul_of_pos_right hfine hb'
    exact_mod_cast lt_of_mul_lt_mul_right h hten.le
  obtain ⟨hle, hge⟩ := nearestPoint_bounds (n := 4 * x.significand * a) hcarry hb
  have hlow : x.interval.1 * a + a ≤ 4 * x.significand * a := by
    have := interval_low_lt x
    rw [← Nat.succ_mul]
    exact Nat.mul_le_mul_right a (by omega)
  have hhigh : x.interval.2.2 * a = 4 * x.significand * a + 2 * a := Nat.add_mul _ _ _
  have hinside : x.inside a b (nearestPoint carry (4 * x.significand * a) b) = true := by
    unfold inside
    split <;> rw [decide_eq_true_iff] <;> omega
  have hpos : 0 < nearestPoint carry (4 * x.significand * a) b := by
    apply Nat.pos_of_ne_zero
    intro hzero
    rw [hzero] at hge
    omega
  rw [heq, gridPoint?, if_pos ⟨hpos, hinside⟩]
  rfl

theorem hit_searchGrid (tie : Tie) {x : Double} (hx : 0 < x.significand) (fuel : Nat) {e : Int}
    (hfine : (10 : ℚ) ^ (e - fuel) < 2 * x.quarter) : x.Hit (searchGrid tie x (fuel + 1) e) := by
  induction fuel generalizing e with
  | zero =>
    rw [Nat.cast_zero, sub_zero] at hfine
    obtain ⟨d, hd⟩ := Option.isSome_iff_exists.mp (onGrid?_isSome tie hx hfine)
    rw [searchGrid, hd]
    exact hit_of_onGrid? hd
  | succ fuel ih =>
    rw [searchGrid]
    cases hd : onGrid? tie x e with
    | some d => exact hit_of_onGrid? hd
    | none =>
      apply ih
      rwa [sub_sub, add_comm, ← Nat.cast_succ]

/-! The grid where the search starts. -/

/-- A power of ten lies below a power of two if the exponents say so by `10 ^ 3 < 2 ^ 10` above one
and by `2 ^ 33 < 10 ^ 10` below one. -/
theorem ten_zpow_lt_two_zpow {e f : Int} (hpos : 10 * e < 3 * f) (hneg : 33 * e < 10 * f) :
    (10 : ℚ) ^ e < 2 ^ f := by
  by_cases he : 0 ≤ e
  · have hcube : ((10 : ℚ) ^ e) ^ 3 < (2 ^ f) ^ 3 :=
      calc ((10 : ℚ) ^ e) ^ 3 = (10 ^ 3) ^ e := by
            rw [← zpow_natCast, ← zpow_natCast, ← zpow_mul, ← zpow_mul, mul_comm]
        _ ≤ (2 ^ 10) ^ e := zpow_le_zpow_left₀ he (by norm_num) (by norm_num)
        _ = 2 ^ (10 * e) := by rw [← zpow_natCast, ← zpow_mul]; rfl
        _ < 2 ^ (3 * f) := zpow_lt_zpow_right₀ (by norm_num) hpos
        _ = (2 ^ f) ^ 3 := by rw [← zpow_natCast, ← zpow_mul, mul_comm]; rfl
    exact lt_of_pow_lt_pow_left₀ 3 (zpow_pos two_pos f).le hcube
  · have hbase : ((2 : ℚ) ^ 33) ^ (-e) ≤ (10 ^ 10) ^ (-e) :=
      zpow_le_zpow_left₀ (by omega) (by norm_num) (by norm_num)
    rw [zpow_neg, zpow_neg, inv_le_inv₀ (zpow_pos (by norm_num) e) (zpow_pos (by norm_num) e)]
      at hbase
    have hpow : ((10 : ℚ) ^ e) ^ 10 < (2 ^ f) ^ 10 :=
      calc ((10 : ℚ) ^ e) ^ 10 = (10 ^ 10) ^ e := by
            rw [← zpow_natCast, ← zpow_natCast, ← zpow_mul, ← zpow_mul, mul_comm]
        _ ≤ (2 ^ 33) ^ e := hbase
        _ = 2 ^ (33 * e) := by rw [← zpow_natCast, ← zpow_mul]; rfl
        _ < 2 ^ (10 * f) := zpow_lt_zpow_right₀ (by norm_num) hneg
        _ = (2 ^ f) ^ 10 := by rw [← zpow_natCast, ← zpow_mul, mul_comm]; rfl
    exact lt_of_pow_lt_pow_left₀ 10 (zpow_pos two_pos f).le hpow

theorem significand_bounds (x : Double) : x.significand < 2 ^ 53 := by
  have hmod : x.magnitude % exponentBit < exponentBit := Nat.mod_lt _ (by decide)
  have hbit : exponentBit + exponentBit = 2 ^ 53 := by decide
  rw [significand]
  split <;> omega

theorem exponentField_lt (x : Double) : x.exponentField < 2048 := by
  have hmagnitude : x.magnitude < signBit := Nat.mod_lt _ (by decide)
  rw [exponentField]
  apply Nat.div_lt_of_lt_mul
  exact hmagnitude

theorem significand_pos {x : Double} (h : x.isZero = false) : 0 < x.significand := by
  have hmagnitude : x.magnitude ≠ 0 := by simpa [isZero] using h
  have hdiv := Nat.div_add_mod x.magnitude exponentBit
  rw [significand, exponentField]
  split
  · next hzero =>
    rw [hzero] at hdiv
    omega
  · exact Nat.add_pos_right _ (by decide)

theorem hit_shortest (tie : Tie) {x : Double} (h : x.isZero = false) :
    x.Hit (x.shortest tie) := by
  have hx := significand_pos h
  apply hit_searchGrid tie hx 23
  have hlog : Nat.log2 x.significand < 53 :=
    (Nat.log2_lt (Nat.ne_of_gt hx)).mpr (significand_bounds x)
  have hfield := exponentField_lt x
  have hscale : x.scale = (max x.exponentField 1 : ℕ) - 1075 := rfl
  have hhalf : 2 * x.quarter = 2 ^ (x.scale - 1) := by
    rw [quarter, ← zpow_one_add₀ two_ne_zero]
    congr 1
    omega
  rw [hhalf, Int.fdiv_eq_ediv_of_nonneg _ (by decide), Int.ofNat_eq_natCast]
  apply ten_zpow_lt_two_zpow <;> omega

/-! The numbers that round to a double lie between the midpoints to its neighbours. -/

theorem four_mul_quarter (x : Double) : 4 * x.quarter = 2 ^ x.scale := by
  rw [quarter, zpow_sub₀ two_ne_zero]
  norm_num
  ring

theorem four_mul_quarter_eq_step (x : Double) :
    4 * x.quarter = (2 ^ (max x.exponentField 1 - 1) : ℕ) * quantum := by
  rw [four_mul_quarter, scale_eq, zpow_add₀ two_ne_zero, zpow_natCast, ← quantum, Nat.cast_pow,
    Nat.cast_ofNat]

theorem significand_mul_quarter (x : Double) :
    x.significand * (4 * x.quarter) = units x.magnitude * quantum := by
  rw [four_mul_quarter, significand_mul_scale]

theorem high_mul_quarter (x : Double) :
    2 * (x.interval.2.2 * x.quarter) = (units x.magnitude + units (x.magnitude + 1)) * quantum := by
  have hhigh : x.interval.2.2 = 4 * x.significand + 2 := rfl
  have hstep := four_mul_quarter_eq_step x
  have hvalue := significand_mul_quarter x
  rw [exponentField] at hstep
  rw [hhigh, units_succ]
  push_cast at hstep ⊢
  linear_combination 2 * hvalue + hstep

/-- The step below a double is its own step, or half of it below a power of two. -/
theorem below_mul_quarter {x : Double} (h : x.isZero = false) {below : Nat}
    (hbelow : below = if x.significand = exponentBit ∧ 1 < x.exponentField then 1 else 2) :
    2 * below * x.quarter =
      (2 ^ (max ((x.magnitude - 1) / exponentBit) 1 - 1) : ℕ) * quantum := by
  have hmagnitude : x.magnitude ≠ 0 := by simpa [isZero] using h
  have hfour := four_mul_quarter_eq_step x
  have hsignificand : x.significand = if x.exponentField = 0 then x.magnitude % exponentBit
    else x.magnitude % exponentBit + exponentBit := rfl
  have hfield : x.exponentField = x.magnitude / exponentBit := rfl
  unfold exponentBit at *
  split at hbelow
  · next hpower =>
    have hstep : max x.exponentField 1 - 1 =
        max ((x.magnitude - 1) / 0x10000000000000) 1 - 1 + 1 := by
      split at hsignificand <;> omega
    rw [hstep, Nat.pow_succ] at hfour
    rw [hbelow]
    push_cast at hfour ⊢
    linear_combination hfour / 2
  · next hinner =>
    have hsame : max ((x.magnitude - 1) / 0x10000000000000) 1 = max x.exponentField 1 := by
      split at hsignificand <;> omega
    rw [hsame, ← hfour, hbelow]
    norm_num

theorem low_mul_quarter {x : Double} (h : x.isZero = false) :
    2 * (x.interval.1 * x.quarter) = (units (x.magnitude - 1) + units x.magnitude) * quantum := by
  have hmagnitude : x.magnitude ≠ 0 := by simpa [isZero] using h
  have hpositive := significand_pos h
  have hvalue := significand_mul_quarter x
  obtain ⟨below, hbelow⟩ : ∃ below, below =
      if x.significand = exponentBit ∧ 1 < x.exponentField then 1 else 2 := ⟨_, rfl⟩
  have hstep := below_mul_quarter h hbelow
  have hlow : x.interval.1 = 4 * x.significand - below := by rw [hbelow]; rfl
  have hle : below ≤ 4 * x.significand := by
    split at hbelow <;> omega
  have hsucc := units_succ (x.magnitude - 1)
  rw [Nat.sub_add_cancel (Nat.pos_of_ne_zero hmagnitude)] at hsucc
  rw [hsucc] at hvalue
  rw [hlow, hsucc, Nat.cast_sub hle]
  push_cast at hstep hvalue ⊢
  linear_combination 2 * hvalue - hstep

theorem significand_mod_two (x : Double) : x.significand % 2 = x.magnitude % 2 := by
  have hdiv := Nat.div_add_mod x.magnitude exponentBit
  have hbit : exponentBit % 2 = 0 := by decide
  have hbits : exponentBit * (x.magnitude / exponentBit) % 2 = 0 := by
    rw [Nat.mul_mod, hbit, Nat.zero_mul]
  rw [significand]
  split <;> omega

theorem RoundedFrom.bounds {x : Double} {v : ℚ} (h : x.RoundedFrom v) :
    x.interval.1 * x.quarter ≤ v ∧ v ≤ x.interval.2.2 * x.quarter := by
  unfold RoundedFrom at h
  split at h
  · exact h
  · exact ⟨h.1.le, h.2.le⟩

theorem RoundedFrom.strict_bounds {x : Double} {v : ℚ} (h : x.RoundedFrom v)
    (hodd : x.significand % 2 ≠ 0) :
    x.interval.1 * x.quarter < v ∧ v < x.interval.2.2 * x.quarter := by
  rwa [RoundedFrom, if_neg hodd] at h

theorem magnitude_le_of_roundedFrom {x y : Double} {v : ℚ} (hx : x.RoundedFrom v)
    (hy : y.RoundedFrom v) (hzero : y.isZero = false) : y.magnitude ≤ x.magnitude := by
  by_contra hlt
  rw [not_le] at hlt
  have hhigh := high_mul_quarter x
  have hlow := low_mul_quarter hzero
  have hquantum : 0 < quantum := zpow_pos two_pos _
  have hmono : units x.magnitude ≤ units (y.magnitude - 1) :=
    units_strictMono.monotone (by omega)
  have hmono' : units (x.magnitude + 1) ≤ units y.magnitude :=
    units_strictMono.monotone hlt
  -- The midpoint above `x` is the midpoint below `y`, so the two are neighbours.
  have hmeet : units (y.magnitude - 1) + units y.magnitude ≤
      units x.magnitude + units (x.magnitude + 1) := by
    have h := hx.bounds.2
    have h' := hy.bounds.1
    have hle : (units (y.magnitude - 1) + units y.magnitude : ℚ) * quantum ≤
        (units x.magnitude + units (x.magnitude + 1)) * quantum := by linarith
    exact_mod_cast le_of_mul_le_mul_right hle hquantum
  have hneighbour : y.magnitude - 1 = x.magnitude :=
    units_strictMono.injective (by omega)
  -- One of the two significands is odd, and its double leaves the midpoint out.
  have hstrict : x.interval.2.2 * x.quarter ≠ y.interval.1 * y.quarter := by
    by_cases hodd : x.significand % 2 = 0
    · have hodd' : y.significand % 2 ≠ 0 := by
        rw [significand_mod_two] at hodd ⊢
        omega
      exact ne_of_gt (lt_of_lt_of_le (hy.strict_bounds hodd').1 hx.bounds.2)
    · exact ne_of_gt (lt_of_le_of_lt hy.bounds.1 (hx.strict_bounds hodd).2)
  apply hstrict
  have hsucc : y.magnitude = x.magnitude + 1 := by omega
  rw [hneighbour, hsucc] at hlow
  linarith

theorem magnitude_eq_of_roundedFrom {x y : Double} {v : ℚ} (hx : x.RoundedFrom v)
    (hy : y.RoundedFrom v) (hxzero : x.isZero = false) (hyzero : y.isZero = false) :
    x.magnitude = y.magnitude :=
  Nat.le_antisymm (magnitude_le_of_roundedFrom hy hx hxzero)
    (magnitude_le_of_roundedFrom hx hy hyzero)

theorem magnitude_eq_of_shortest {tie : Tie} {x y : Double} (hx : x.isZero = false)
    (hy : y.isZero = false) (h : (x.shortest tie).value = (y.shortest tie).value) :
    x.magnitude = y.magnitude := by
  have hxhit := (hit_shortest tie hx).2
  rw [h] at hxhit
  exact magnitude_eq_of_roundedFrom hxhit (hit_shortest tie hy).2 hx hy

end Double

end RubyTree
