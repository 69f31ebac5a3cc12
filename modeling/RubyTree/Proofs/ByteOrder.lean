import Mathlib.Algebra.Order.Ring.Nat
import RubyTree.Name

/-! Texts in the order of their characters are in the order of their bytes. The first byte of a
character tells how many follow it and holds its highest bits, the others hold six bits each with
the higher ones first; so a smaller character has the smaller byte where the two first differ, and
neither of them ends before that. -/

namespace RubyTree

namespace Utf8

def trailing (v : Nat) : Nat :=
  if v ≤ 0x7f then 0 else if v ≤ 0x7ff then 1 else if v ≤ 0xffff then 2 else 3

def leading (v : Nat) : Nat :=
  if v ≤ 0x7f then v
  else if v ≤ 0x7ff then v / 64 % 0x20 + 0xc0
  else if v ≤ 0xffff then v / 4096 % 0x10 + 0xe0
  else v / 262144 % 0x08 + 0xf0

def continuation : Nat → Nat → List UInt8
  | 0, _ => []
  | n + 1, v => UInt8.ofNat (v / 64 ^ n % 0x40 + 0x80) :: continuation n v

theorem utf8EncodeChar_eq (c : Char) :
    String.utf8EncodeChar c =
      UInt8.ofNat (leading c.val.toNat) :: continuation (trailing c.val.toNat) c.val.toNat := by
  unfold String.utf8EncodeChar leading trailing
  dsimp only
  split_ifs <;> simp [continuation]

theorem leading_lt (v : Nat) : leading v < 256 := by
  unfold leading
  split_ifs <;> omega

/-- Of two characters the smaller one has the smaller first byte, or as many bytes and less in those
that follow. -/
theorem leading_lt_or {v w : Nat} (h : v < w) (hw : w < 0x110000) :
    leading v < leading w ∨ leading v = leading w ∧ trailing v = trailing w ∧
      v % 64 ^ trailing v < w % 64 ^ trailing v := by
  unfold leading trailing
  split_ifs <;> simp only [Nat.reducePow, true_and] <;> omega

theorem compare_cons_of_lt {a b : Nat} (h : a < b) (hb : b < 256) (x y : List UInt8) :
    compare (UInt8.ofNat a :: x) (UInt8.ofNat b :: y) = .lt := by
  have hlt : UInt8.ofNat a < UInt8.ofNat b := by
    rw [UInt8.lt_iff_toNat_lt, UInt8.toNat_ofNat_of_lt' (h.trans hb), UInt8.toNat_ofNat_of_lt' hb]
    exact h
  have hbyte : compare (UInt8.ofNat a) (UInt8.ofNat b) = .lt := by
    exact if_pos hlt
  rw [List.compare_cons_cons, hbyte, Ordering.lt_then]

theorem compare_append_self (z x y : List UInt8) : compare (z ++ x) (z ++ y) = compare x y := by
  induction z with
  | nil => rfl
  | cons a z ih =>
    rw [List.cons_append, List.cons_append, List.compare_cons_cons, Std.ReflOrd.compare_self,
      Ordering.eq_then, ih]

theorem compare_continuation {n v w : Nat} (h : v % 64 ^ n < w % 64 ^ n) (x y : List UInt8) :
    compare (continuation n v ++ x) (continuation n w ++ y) = .lt := by
  induction n with
  | zero => simp [Nat.mod_one] at h
  | succ n ih =>
    rw [pow_succ, Nat.mod_mul, Nat.mod_mul] at h
    have hplace : 0 < 64 ^ n := Nat.pow_pos (by decide)
    have hv := Nat.mod_lt v hplace
    have hw := Nat.mod_lt w hplace
    rcases Nat.lt_trichotomy (v / 64 ^ n % 64) (w / 64 ^ n % 64) with hlt | heq | hgt
    · exact compare_cons_of_lt (by omega) (by omega) _ _
    · rw [heq] at h
      rw [continuation, continuation, heq]
      exact (compare_append_self [_] _ _).trans (ih (Nat.lt_of_add_lt_add_right h))
    · have hmul := Nat.mul_le_mul_left (64 ^ n) (Nat.succ_le_of_lt hgt)
      rw [Nat.mul_succ] at hmul
      omega

theorem compare_utf8EncodeChar {c d : Char} (h : c < d) (x y : List UInt8) :
    compare (String.utf8EncodeChar c ++ x) (String.utf8EncodeChar d ++ y) = .lt := by
  rw [utf8EncodeChar_eq, utf8EncodeChar_eq]
  rcases leading_lt_or (v := c.val.toNat) (w := d.val.toNat) h
      (by rcases d.valid with h | h <;> omega) with hlt | ⟨heq, hsize, hrest⟩
  · exact compare_cons_of_lt hlt (leading_lt _) _ _
  · rw [heq, ← hsize]
    exact (compare_append_self [_] _ _).trans (compare_continuation hrest x y)

theorem compare_flatMap_of_lt {l m : List Char} (h : l < m) :
    compare (l.flatMap String.utf8EncodeChar) (m.flatMap String.utf8EncodeChar) = .lt := by
  induction h with
  | nil =>
    rw [List.flatMap_cons, utf8EncodeChar_eq]
    rfl
  | rel h => exact compare_utf8EncodeChar h _ _
  | cons _ ih => exact (compare_append_self _ _ _).trans ih

/-- The bytes of a text, by which two texts are told apart and ordered. -/
def bytes (text : String) : Array UInt8 := text.toUTF8.data

theorem toList_bytes (text : String) :
    (bytes text).toList = text.toList.flatMap String.utf8EncodeChar := by
  rw [bytes, String.toUTF8_eq_toByteArray, ← String.utf8Encode_toList]
  exact List.toList_data_toByteArray

theorem compare_bytes_of_lt {s t : String} (h : s < t) :
    compare (bytes s) (bytes t) = .lt ∧ compare s t = .lt := by
  rw [Array.compare_eq_compare_toList, toList_bytes, toList_bytes]
  exact ⟨compare_flatMap_of_lt h, if_pos h⟩

/-- The bytes of two texts are in the order of their characters. -/
theorem compare_bytes (s t : String) : compare (bytes s) (bytes t) = compare s t := by
  rcases Std.lt_trichotomy s t with hlt | rfl | hgt
  · obtain ⟨hbytes, htext⟩ := compare_bytes_of_lt hlt
    rw [hbytes, htext]
  · rw [Std.ReflOrd.compare_self, Std.ReflOrd.compare_self]
  · obtain ⟨hbytes, htext⟩ := compare_bytes_of_lt hgt
    rw [Std.OrientedOrd.eq_swap, hbytes, Std.OrientedOrd.eq_swap, htext]

end Utf8

theorem Name.compare_eq (a b : Name) :
    compare a b = compare (Utf8.bytes a.text) (Utf8.bytes b.text) :=
  (Utf8.compare_bytes a.text b.text).symm

end RubyTree
