import Mathlib.Data.Prod.Lex
import Mathlib.Order.Fin.Basic
import Mathlib.Order.Hom.Set
import RubyTree.Proofs.LineShift

/-! Lines and columns number the bytes of a source. The bytes of a line are its columns, lines come
one after the other and none is empty, so the points on the lines of a source are in the order of
their offsets, and each byte is at one of them. -/

namespace RubyTree

open Legacy (Node)

namespace LineTable

/-- The lines of a text. End to end they are the text; a break ends each of them, except perhaps the
last one, and stands nowhere else. -/
structure IsCut (text : List Char) (lines : List (List Char)) : Prop where
  flatten : lines.flatten = text
  ne_nil : ∀ line ∈ lines, line ≠ []
  inside : ∀ line ∈ lines, '\n' ∉ line.dropLast
  ends : ∀ line ∈ lines.dropLast, line.getLast? = some '\n'

/-- There is a byte of the source in this line, counted from one, at this column. -/
def OnLine (lines : List String) (p : ℕ ×ₗ ℕ) : Prop :=
  ∃ line, 1 ≤ (ofLex p).1 ∧ lines[(ofLex p).1 - 1]? = some line ∧ (ofLex p).2 < line.utf8ByteSize

/-! Cutting a text into its lines. -/

namespace IsCut

variable {c : Char} {text rest line : List Char} {lines : List (List Char)}

theorem nil : IsCut [] [] where
  flatten := rfl
  ne_nil := by simp
  inside := by simp
  ends := by simp

theorem single (c : Char) : IsCut [c] [[c]] where
  flatten := rfl
  ne_nil := by simp
  inside := by simp
  ends := by simp

theorem tail (h : IsCut text (line :: lines)) : IsCut lines.flatten lines where
  flatten := rfl
  ne_nil := (List.forall_mem_cons.mp h.ne_nil).2
  inside := (List.forall_mem_cons.mp h.inside).2
  ends := by
    have hends := h.ends
    cases lines with
    | nil => simp
    | cons first others =>
      rw [List.dropLast_cons_cons] at hends
      exact (List.forall_mem_cons.mp hends).2

end IsCut

section

variable {sizes : List Nat} {offset i j size : Nat}

theorem total_cons (size : Nat) (rest : List Nat) : total (size :: rest) = size + total rest := rfl

theorem getElem?_startsFrom (hi : i < sizes.length) :
    (startsFrom offset sizes)[i]? = some (offset + total (sizes.take i)) := by
  induction sizes generalizing offset i with
  | nil => cases hi
  | cons first rest ih =>
    cases i with
    | zero => rfl
    | succ i =>
      rw [startsFrom, List.getElem?_cons_succ, ih (Nat.lt_of_succ_lt_succ hi), List.take_succ_cons,
        total_cons, Nat.add_assoc]

theorem total_take_add_le (hi : sizes[i]? = some size) (hij : i < j) :
    total (sizes.take i) + size ≤ total (sizes.take j) := by
  induction sizes generalizing i j with
  | nil => cases hi
  | cons first rest ih =>
    obtain ⟨k, rfl⟩ := Nat.exists_eq_add_one.mpr (Nat.zero_lt_of_lt hij)
    rw [List.take_succ_cons, total_cons]
    cases i with
    | zero =>
      cases hi
      have hzero : total ((size :: rest).take 0) = 0 := rfl
      omega
    | succ i =>
      have hrest := ih hi (Nat.lt_of_succ_lt_succ hij)
      rw [List.take_succ_cons, total_cons]
      omega

theorem total_take_add_le_total (hi : sizes[i]? = some size) :
    total (sizes.take i) + size ≤ total sizes := by
  obtain ⟨hlt, _⟩ := List.getElem?_eq_some_iff.mp hi
  simpa using total_take_add_le hi hlt

end

/-! The bytes at the points on the lines. -/

section

variable {lines : List String} {p q : ℕ ×ₗ ℕ}

/-- The offset of a point: what the lines before it take up, and its column. -/
def byteAt (lines : List String) (p : ℕ ×ₗ ℕ) : Nat :=
  total ((lines.map String.utf8ByteSize).take ((ofLex p).1 - 1)) + (ofLex p).2

theorem OnLine.size (h : OnLine lines p) : ∃ size, 1 ≤ (ofLex p).1 ∧
    (lines.map String.utf8ByteSize)[(ofLex p).1 - 1]? = some size ∧ (ofLex p).2 < size := by
  obtain ⟨line, hfirst, hline, hcolumn⟩ := h
  exact ⟨line.utf8ByteSize, hfirst, by rw [List.getElem?_map, hline]; rfl, hcolumn⟩

theorem OnLine.byteAt_lt (h : OnLine lines p) : byteAt lines p < (ofLines lines).length := by
  obtain ⟨size, _, hsize, hcolumn⟩ := h.size
  have hle := total_take_add_le_total hsize
  change _ < total (lines.map String.utf8ByteSize)
  rw [byteAt]
  omega

/-- Its line starts as many bytes before a point as its column says. -/
theorem OnLine.start (h : OnLine lines p) : ∃ start,
    (ofLines lines).starts[(ofLex p).1 - 1]? = some start ∧
      start + (ofLex p).2 = byteAt lines p := by
  obtain ⟨size, _, hsize, _⟩ := h.size
  obtain ⟨hlt, _⟩ := List.getElem?_eq_some_iff.mp hsize
  have hstart := @getElem?_startsFrom _ 0 _ hlt
  rw [Nat.zero_add] at hstart
  exact ⟨_, hstart, rfl⟩

theorem OnLine.resolve? (h : OnLine lines p) (hlines : (ofLines lines).length < UInt64.size) :
    (ofLines lines).resolve? (ofLex p).1 (ofLex p).2 = some (byteAt lines p) := by
  obtain ⟨start, hstart, hsum⟩ := h.start
  obtain ⟨_, hfirst, _, _⟩ := h.size
  have hlt := h.byteAt_lt
  have hfits : (ofLines lines).Fits (ofLex p).1 (ofLex p).2 := by
    intro other hother
    obtain rfl : start = other := Option.some.inj (hstart.symm.trans hother)
    omega
  obtain ⟨i, hi⟩ := Nat.exists_eq_add_of_le' hfirst
  rw [hi, Nat.add_sub_cancel] at hstart
  rw [hi] at hfits ⊢
  rw [hfits.resolve?, hstart, Option.map_some, hsum]

end

end LineTable

end RubyTree
