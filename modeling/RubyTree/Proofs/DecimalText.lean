import Mathlib.Algebra.Order.Field.Power
import Mathlib.Algebra.Order.Ring.Rat
import Mathlib.Data.List.TakeWhile
import Mathlib.Tactic.Ring
import RubyTree.Double.Text
import RubyTree.Proofs.DoubleValue
import RubyTree.Proofs.ShortestDecimal

/-! The text of a double, read back. A reader of decimals finds in it the decimal that was printed,
with or without an exponent, so no two doubles have one text. -/

namespace RubyTree

namespace Double

def readMantissa (s : List Char) : ℚ :=
  let fraction := (s.dropWhile (· != '.')).tail
  Nat.ofDigitChars 10 (s.takeWhile (· != '.') ++ fraction) 0 * 10 ^ (-fraction.length : ℤ)

def readExponent (s : List Char) : ℤ :=
  if s.head? = some '-' then -Nat.ofDigitChars 10 s.tail 0
  else if s.head? = some '+' then Nat.ofDigitChars 10 s.tail 0
  else Nat.ofDigitChars 10 s 0

/-- The number that a text without a sign stands for. -/
def readDecimal (s : List Char) : ℚ :=
  readMantissa (s.takeWhile (· != 'e')) * 10 ^ readExponent (s.dropWhile (· != 'e')).tail

section Separators

variable {c : Char} {s t : List Char}

theorem bne_of_notMem (h : c ∉ s) : ∀ a ∈ s, (a != c) = true := by
  intro a ha
  apply bne_iff_ne.mpr
  rintro rfl
  exact h ha

theorem takeWhile_bne (h : c ∉ s) : (s ++ c :: t).takeWhile (· != c) = s := by
  rw [List.takeWhile_append_of_pos (bne_of_notMem h), List.takeWhile_cons_of_neg (by simp),
    List.append_nil]

theorem dropWhile_bne (h : c ∉ s) : (s ++ c :: t).dropWhile (· != c) = c :: t := by
  rw [List.dropWhile_append_of_pos (bne_of_notMem h), List.dropWhile_cons_of_neg (by simp)]

theorem takeWhile_bne_self (h : c ∉ s) : s.takeWhile (· != c) = s :=
  List.takeWhile_eq_self_iff.mpr (bne_of_notMem h)

theorem dropWhile_bne_self (h : c ∉ s) : s.dropWhile (· != c) = [] :=
  List.dropWhile_eq_nil_iff.mpr (bne_of_notMem h)

theorem readMantissa_point (h : '.' ∉ s) :
    readMantissa (s ++ '.' :: t) = Nat.ofDigitChars 10 (s ++ t) 0 * 10 ^ (-t.length : ℤ) := by
  rw [readMantissa, takeWhile_bne h, dropWhile_bne h]
  rfl

theorem readMantissa_whole (h : '.' ∉ s) : readMantissa s = Nat.ofDigitChars 10 s 0 := by
  rw [readMantissa, takeWhile_bne_self h, dropWhile_bne_self h]
  simp

theorem readDecimal_plain (hs : '.' ∉ s) (hst : 'e' ∉ s ++ t) :
    readDecimal (s ++ '.' :: t) = Nat.ofDigitChars 10 (s ++ t) 0 * 10 ^ (-t.length : ℤ) := by
  have he : 'e' ∉ s ++ '.' :: t := by simpa using hst
  rw [readDecimal, takeWhile_bne_self he, dropWhile_bne_self he, readMantissa_point hs]
  simp [readExponent]

theorem readDecimal_exponent (h : 'e' ∉ s) :
    readDecimal (s ++ 'e' :: t) = readMantissa s * 10 ^ readExponent t := by
  rw [readDecimal, takeWhile_bne h, dropWhile_bne h]
  rfl

end Separators

/-! What the reader finds. -/

theorem isDigit_toDigits (n : Nat) : ∀ c ∈ Nat.toDigits 10 n, c.isDigit = true :=
  fun _ => Nat.isDigit_of_mem_toDigits (by decide) (by decide)

theorem readExponent_toDigits (n : Nat) : readExponent (Nat.toDigits 10 n) = n := by
  obtain ⟨c, cs, hcs⟩ := List.exists_cons_of_ne_nil (Nat.toDigits_ne_nil (b := 10) (n := n))
  have hc : c.isDigit = true := isDigit_toDigits n c (by simp [hcs])
  have hminus : c ≠ '-' := by
    rintro rfl
    cases hc
  have hplus : c ≠ '+' := by
    rintro rfl
    cases hc
  rw [readExponent, if_neg (by simp [hcs, hminus]), if_neg (by simp [hcs, hplus]),
    Nat.ofDigitChars_ten_toDigits]

theorem readExponent_signed (plus : Bool) {e : Int} {mark : String}
    (hmark : mark = if 0 ≤ e then (if plus then "+" else "") else "-") :
    readExponent (mark.toList ++ Nat.toDigits 10 e.natAbs) = e := by
  by_cases he : 0 ≤ e
  · rw [if_pos he] at hmark
    cases plus with
    | true =>
      have hread : readExponent ('+' :: Nat.toDigits 10 e.natAbs) = e.natAbs := by
        rw [readExponent, if_neg (by simp), if_pos List.head?_cons, List.tail_cons,
          Nat.ofDigitChars_ten_toDigits]
      rw [hmark]
      exact hread.trans (Int.natAbs_of_nonneg he)
    | false =>
      rw [hmark]
      exact (readExponent_toDigits e.natAbs).trans (Int.natAbs_of_nonneg he)
  · have hread : readExponent ('-' :: Nat.toDigits 10 e.natAbs) = -e.natAbs := by
      rw [readExponent, if_pos List.head?_cons, List.tail_cons, Nat.ofDigitChars_ten_toDigits]
    rw [if_neg he] at hmark
    rw [hmark]
    refine hread.trans ?_
    omega

section Digits

variable {digits : List Char} (hdigits : ∀ c ∈ digits, c.isDigit = true)
include hdigits

theorem notMem_digits {c : Char} (hc : c.isDigit = false) : c ∉ digits := by
  intro h
  rw [hdigits c h] at hc
  cases hc

theorem readDecimal_plainText (point : Int) :
    readDecimal (plainText digits point).toList =
      Nat.ofDigitChars 10 digits 0 * 10 ^ (point - digits.length) := by
  have hpoint : '.' ∉ digits := notMem_digits hdigits (by decide)
  have he : 'e' ∉ digits := notMem_digits hdigits (by decide)
  -- Zeros before the digits count for nothing.
  have hzeros (k : Nat) : Nat.ofDigitChars 10 (List.replicate k '0' ++ digits) 0 =
      Nat.ofDigitChars 10 digits 0 := by
    rw [Nat.ofDigitChars_append, Nat.ofDigitChars_replicate_zero, Nat.mul_zero]
  -- The point stands before the digits (with zeros between or none), behind them or among them.
  unfold plainText
  split
  · next k =>
    have htext : ("0." ++ zeros (k + 1) ++ String.ofList digits).toList =
        ['0'] ++ '.' :: (List.replicate (k + 1) '0' ++ digits) := by
      simp [zeros]
    have hlength : -((List.replicate (k + 1) '0' ++ digits).length : ℤ) =
        Int.negSucc k - digits.length := by
      rw [List.length_append, List.length_replicate]
      omega
    rw [htext, readDecimal_plain (by simp) (by simp [he]), hlength]
    exact congrArg (fun n : ℕ => (n : ℚ) * _) (hzeros (k + 2))
  · have htext : ("0." ++ String.ofList digits).toList = ['0'] ++ '.' :: digits := by simp
    have hlength : -(digits.length : ℤ) = Int.ofNat 0 - digits.length := by simp
    rw [htext, readDecimal_plain (by simp) (by simp [he]), hlength]
    exact congrArg (fun n : ℕ => (n : ℚ) * _) (hzeros 1)
  · next k hk =>
    split
    · next hle =>
      have htext : (String.ofList digits ++ zeros (k - digits.length) ++ ".0").toList =
          (digits ++ List.replicate (k - digits.length) '0') ++ '.' :: ['0'] := by
        simp [zeros]
      have htail : (digits ++ List.replicate (k - digits.length) '0') ++ ['0'] =
          digits ++ List.replicate (k - digits.length + 1) '0' := by
        rw [List.append_assoc, List.replicate_succ']
      have hpower : Int.ofNat k - digits.length = (k - digits.length : ℕ) := by
        rw [Int.ofNat_eq_natCast]
        omega
      rw [htext, readDecimal_plain (by simp [hpoint]) (by simp [he]), htail,
        Nat.ofDigitChars_append, Nat.ofDigitChars_replicate_zero, hpower, zpow_natCast]
      push_cast
      rw [List.length_singleton, Nat.cast_one, zpow_neg_one, pow_succ]
      ring
    · next hlt =>
      have htext : (String.ofList (digits.take k) ++ "." ++ String.ofList (digits.drop k)).toList =
          digits.take k ++ '.' :: digits.drop k := by
        simp
      have hlength : -((digits.drop k).length : ℤ) = Int.ofNat k - digits.length := by
        rw [List.length_drop, Int.ofNat_eq_natCast]
        omega
      have hwhole : '.' ∉ digits.take k := fun h => hpoint (List.mem_of_mem_take h)
      rw [htext, readDecimal_plain hwhole (by rwa [List.take_append_drop]),
        List.take_append_drop, hlength]

theorem readDecimal_exponentText (hne : digits ≠ []) (plus : Bool) (point : Int) :
    readDecimal (exponentText plus digits point).toList =
      Nat.ofDigitChars 10 digits 0 * 10 ^ (point - digits.length) := by
  have hpoint : '.' ∉ digits := notMem_digits hdigits (by decide)
  have he : 'e' ∉ digits := notMem_digits hdigits (by decide)
  have hlength : 0 < digits.length := List.length_pos_iff.mpr hne
  unfold exponentText
  extract_lets e mark fraction
  have hmantissa : 'e' ∉ digits.take 1 ++ fraction.toList ∧
      readMantissa (digits.take 1 ++ fraction.toList) =
        Nat.ofDigitChars 10 digits 0 * 10 ^ (1 - digits.length : ℤ) := by
    by_cases hone : digits.length ≤ 1
    · have hfraction : fraction.toList = [] := by simp [fraction, hone]
      have hpower : (1 - digits.length : ℤ) = 0 := by omega
      rw [hfraction, List.append_nil, List.take_of_length_le hone, readMantissa_whole hpoint,
        hpower, zpow_zero, mul_one]
      exact ⟨he, rfl⟩
    · have hfraction : fraction.toList = '.' :: digits.drop 1 := by
        simp [fraction, hone]
      have hpower : -((digits.drop 1).length : ℤ) = 1 - digits.length := by
        rw [List.length_drop]
        omega
      have hwhole : '.' ∉ digits.take 1 := fun h => hpoint (List.mem_of_mem_take h)
      rw [hfraction, readMantissa_point hwhole, List.take_append_drop, hpower]
      refine ⟨fun h => ?_, rfl⟩
      rcases List.mem_append.mp h with h | h
      · exact he (List.mem_of_mem_take h)
      · rcases List.mem_cons.mp h with h | h
        · cases h
        · exact he (List.mem_of_mem_drop h)
  have htext : (String.ofList (digits.take 1) ++ fraction ++ "e" ++ mark ++
      Nat.repr e.natAbs).toList =
        digits.take 1 ++ fraction.toList ++ 'e' :: (mark.toList ++ Nat.toDigits 10 e.natAbs) := by
    simp
  have hexponent : point - digits.length = 1 - digits.length + e := by omega
  rw [htext, readDecimal_exponent hmantissa.1, hmantissa.2, readExponent_signed plus rfl, hexponent,
    zpow_add₀ (by norm_num), mul_assoc]

theorem head?_plainText (hne : digits ≠ []) (point : Int) :
    ∃ c, (plainText digits point).toList.head? = some c ∧ c.isDigit = true := by
  obtain ⟨d, ds, rfl⟩ := List.exists_cons_of_ne_nil hne
  have hd : d.isDigit = true := hdigits d (by simp)
  unfold plainText
  split
  · exact ⟨'0', by simp, rfl⟩
  · exact ⟨'0', by simp, rfl⟩
  · next k hk =>
    obtain ⟨k, rfl⟩ : ∃ j, k = j + 1 := Nat.exists_eq_succ_of_ne_zero hk
    split
    · exact ⟨d, by simp, hd⟩
    · exact ⟨d, by simp, hd⟩

theorem head?_exponentText (hne : digits ≠ []) (plus : Bool) (point : Int) :
    ∃ c, (exponentText plus digits point).toList.head? = some c ∧ c.isDigit = true := by
  obtain ⟨d, ds, rfl⟩ := List.exists_cons_of_ne_nil hne
  exact ⟨d, by simp [exponentText], hdigits d (by simp)⟩

theorem newline_notMem_plainText (point : Int) : '\n' ∉ (plainText digits point).toList := by
  have hdigits' : '\n' ∉ digits := notMem_digits hdigits (by decide)
  unfold plainText
  split
  · simp [zeros, hdigits']
  · simp [hdigits']
  · next k hk =>
    have htake : '\n' ∉ digits.take k := fun h => hdigits' (List.mem_of_mem_take h)
    have hdrop : '\n' ∉ digits.drop k := fun h => hdigits' (List.mem_of_mem_drop h)
    split
    · simp [zeros, hdigits']
    · simp [htake, hdrop]

theorem newline_notMem_exponentText (plus : Bool) (point : Int) :
    '\n' ∉ (exponentText plus digits point).toList := by
  have hdigits' : '\n' ∉ digits := notMem_digits hdigits (by decide)
  have htake : '\n' ∉ digits.take 1 := fun h => hdigits' (List.mem_of_mem_take h)
  have hdrop : '\n' ∉ digits.tail := fun h => hdigits' (List.mem_of_mem_tail h)
  have hexponent : '\n' ∉ Nat.toDigits 10 (point - 1).natAbs :=
    notMem_digits (isDigit_toDigits _) (by decide)
  unfold exponentText
  extract_lets e mark fraction
  have hmark : '\n' ∉ mark.toList := by
    unfold mark
    split_ifs <;> simp
  have hfraction : '\n' ∉ fraction.toList := by
    unfold fraction
    split_ifs <;> simp [hdrop]
  simp [htake, hmark, hfraction, hexponent, e]

end Digits

def unsignedText (layout : Layout) (x : Double) : String :=
  if x.isZero then "0.0"
  else
    let decimal := x.shortest layout.tie
    let digits := Nat.toDigits 10 decimal.digits
    let point := Int.ofNat digits.length + decimal.exponent
    if layout.plainFrom ≤ point ∧ point ≤ layout.plainUpTo then plainText digits point
    else exponentText layout.exponentPlus digits point

theorem text_eq_sign_append (layout : Layout) (x : Double) :
    x.text layout = (if x.negative then "-" else "") ++ x.unsignedText layout := by
  unfold text unsignedText
  extract_lets sign decimal digits point
  by_cases hzero : x.isZero = true
  · rw [if_pos hzero, if_pos hzero]
  · rw [if_neg hzero, if_neg hzero]
    by_cases hplain : layout.plainFrom ≤ point ∧ point ≤ layout.plainUpTo
    · rw [if_pos hplain, if_pos hplain]
    · rw [if_neg hplain, if_neg hplain]

def printed (layout : Layout) (x : Double) : ℚ :=
  if x.isZero then 0 else (x.shortest layout.tie).value

theorem readDecimal_unsignedText (layout : Layout) (x : Double) :
    readDecimal (x.unsignedText layout).toList = x.printed layout := by
  unfold unsignedText printed
  by_cases hzero : x.isZero = true
  · rw [if_pos hzero, if_pos hzero]
    have hread : readDecimal ['0', '.', '0'] = (0 : ℕ) * _ :=
      readDecimal_plain (s := ['0']) (t := ['0']) (by simp) (by simp)
    rw [Nat.cast_zero, zero_mul] at hread
    exact hread
  · rw [if_neg hzero, if_neg hzero]
    extract_lets decimal digits point
    have hdigits : ∀ c ∈ digits, c.isDigit = true := isDigit_toDigits decimal.digits
    have hvalue : Nat.ofDigitChars 10 digits 0 * 10 ^ (point - digits.length) = decimal.value := by
      have hexponent : point - digits.length = decimal.exponent := add_sub_cancel_left _ _
      rw [Nat.ofDigitChars_ten_toDigits, hexponent, Decimal.value]
    split
    · rw [readDecimal_plainText hdigits, hvalue]
    · rw [readDecimal_exponentText hdigits Nat.toDigits_ne_nil, hvalue]

theorem magnitude_eq_of_printed {layout : Layout} {x y : Double}
    (h : x.printed layout = y.printed layout) : x.magnitude = y.magnitude := by
  have hpos {z : Double} (hz : ¬z.isZero = true) : 0 < (z.shortest layout.tie).value := by
    have hhit := hit_shortest layout.tie (Bool.eq_false_iff.mpr hz)
    exact mul_pos (Nat.cast_pos.mpr hhit.1) (zpow_pos (by norm_num) _)
  unfold printed at h
  split_ifs at h with hx hy hy
  · rw [isZero, beq_iff_eq] at hx hy
    rw [hx, hy]
  · exact absurd h (hpos hy).ne
  · exact absurd h (hpos hx).ne'
  · exact magnitude_eq_of_shortest (Bool.eq_false_iff.mpr hx) (Bool.eq_false_iff.mpr hy) h

theorem unsignedText_of_forms {layout : Layout} {x : Double} {P : String → Prop} (hzero : P "0.0")
    (hplain : ∀ n point, P (plainText (Nat.toDigits 10 n) point))
    (hexponent : ∀ plus n point, P (exponentText plus (Nat.toDigits 10 n) point)) :
    P (x.unsignedText layout) := by
  unfold unsignedText
  split
  · exact hzero
  · extract_lets decimal digits point
    split
    · exact hplain _ _
    · exact hexponent _ _ _

theorem head?_unsignedText (layout : Layout) (x : Double) :
    ∃ c, (x.unsignedText layout).toList.head? = some c ∧ c.isDigit = true :=
  unsignedText_of_forms (P := fun s => ∃ c, s.toList.head? = some c ∧ c.isDigit = true)
    ⟨'0', rfl, rfl⟩ (fun n => head?_plainText (isDigit_toDigits n) Nat.toDigits_ne_nil)
    (fun plus n => head?_exponentText (isDigit_toDigits n) Nat.toDigits_ne_nil plus)

theorem newline_notMem_text (layout : Layout) (x : Double) : '\n' ∉ (x.text layout).toList := by
  have hunsigned : '\n' ∉ (x.unsignedText layout).toList :=
    unsignedText_of_forms (P := fun s => '\n' ∉ s.toList) (by simp)
      (fun n => newline_notMem_plainText (isDigit_toDigits n))
      (fun plus n => newline_notMem_exponentText (isDigit_toDigits n) plus)
  rw [text_eq_sign_append, String.toList_append, List.mem_append, not_or]
  refine ⟨?_, hunsigned⟩
  split <;> simp

/-- Behind the sign stands a digit, so the text starts with a minus sign only if the double has
one. -/
theorem negative_iff_head? (layout : Layout) (x : Double) :
    x.negative = true ↔ (x.text layout).toList.head? = some '-' := by
  obtain ⟨c, hhead, hc⟩ := head?_unsignedText layout x
  rw [text_eq_sign_append, String.toList_append]
  by_cases hneg : x.negative = true
  · simp [hneg]
  · have hminus : c ≠ '-' := by
      rintro rfl
      cases hc
    simp [hneg, hhead, hminus]

theorem text_injective (layout : Layout) : Function.Injective (text layout) := by
  intro x y h
  have hnegative : x.negative = y.negative := by
    rw [Bool.eq_iff_iff, negative_iff_head? layout, negative_iff_head? layout, h]
  have hunsigned : x.unsignedText layout = y.unsignedText layout := by
    rw [text_eq_sign_append, text_eq_sign_append, hnegative] at h
    exact String.append_right_inj _ |>.mp h
  have hprinted : x.printed layout = y.printed layout := by
    rw [← readDecimal_unsignedText, ← readDecimal_unsignedText, hunsigned]
  have hbits : x.bits = y.bits := bits_eq_iff.mpr ⟨magnitude_eq_of_printed hprinted, hnegative⟩
  cases x
  cases y
  exact congrArg Double.mk hbits

end Double

end RubyTree
