import RubyTree.Proofs.Relocation
import RubyTree.Proofs.SourceLines

/-! Whole lines in front of a source move everything behind them down by as many lines and bytes. A
conversion moves along with its source, and unknown spans stay unknown: no node with known bounds is
at the null span. All this holds as long as no offset leaves the word. -/

namespace RubyTree

open Canonical
open Legacy (Node)

def Position.shiftLines (lines : Nat) (p : Position) : Position :=
  { p with firstLine := p.firstLine + lines, lastLine := p.lastLine + lines }

/-- Lines are counted from one wherever something is known. -/
def Position.CountsLines (p : Position) : Prop :=
  p.isDegenerate = true ∨ 1 ≤ p.firstLine ∧ 1 ≤ p.lastLine

instance (p : Position) : Decidable p.CountsLines := inferInstanceAs (Decidable (_ ∨ _))

theorem Position.shiftLines_isDegenerate (lines : Nat) (p : Position) :
    (p.shiftLines lines).isDegenerate = p.isDegenerate := by
  rw [Bool.eq_iff_iff]
  simp [Position.shiftLines, Position.isDegenerate]

namespace Span

def shift (bytes : Nat) (s : Span) : Span :=
  if s.isNull then s else ⟨s.start + bytes, s.length⟩

variable {bytes : Nat} {s t : Span}

theorem isNull_eq_false_iff : s.isNull = false ↔ s.start ≠ 0 ∨ s.length ≠ 0 := by
  simp [isNull, or_iff_not_imp_left]

theorem shift_of_isNull (h : s.isNull = true) : s.shift bytes = s := if_pos h

theorem shift_of_isNull_eq_false (h : s.isNull = false) :
    s.shift bytes = ⟨s.start + bytes, s.length⟩ := by
  rw [shift, if_neg (by simp [h])]

theorem isNull_shift : (s.shift bytes).isNull = s.isNull := by
  cases h : s.isNull with
  | true => rw [shift_of_isNull h, h]
  | false =>
    rw [shift_of_isNull_eq_false h, isNull_eq_false_iff]
    have hs := isNull_eq_false_iff.mp h
    simp only
    omega

theorem cover_of_known (hs : s.isNull = false) (ht : t.isNull = false) :
    s.cover t = ofBounds (min s.start t.start) (max s.stop t.stop) := by
  simp [cover, hs, ht]

theorem isNull_cover_eq_false (hs : s.isNull = false) (ht : t.isNull = false) :
    (s.cover t).isNull = false := by
  rw [cover_of_known hs ht]
  rw [isNull_eq_false_iff] at hs ht ⊢
  simp only [ofBounds, stop]
  omega

theorem shift_cover : (s.cover t).shift bytes = (s.shift bytes).cover (t.shift bytes) := by
  cases hs : s.isNull with
  | true => simp [cover, hs, shift_of_isNull]
  | false =>
    cases ht : t.isNull with
    | true => simp [cover, hs, ht, isNull_shift, shift_of_isNull]
    | false =>
      have hs' : (s.shift bytes).isNull = false := isNull_shift.trans hs
      have ht' : (t.shift bytes).isNull = false := isNull_shift.trans ht
      rw [shift_of_isNull_eq_false (isNull_cover_eq_false hs ht), cover_of_known hs ht,
        cover_of_known hs' ht', shift_of_isNull_eq_false hs, shift_of_isNull_eq_false ht]
      simp only [ofBounds, stop, Span.mk.injEq]
      omega

end Span

namespace LineTable

variable {front : String} (back : String) {p : Position}

theorem span?_shift (h : WholeLines front.toList) (hfirst : 1 ≤ p.firstLine)
    (hlast : 1 ≤ p.lastLine)
    (hfitsFirst : (ofSource (front ++ back)).Fits (p.firstLine + front.toList.count '\n')
      p.firstColumn)
    (hfitsLast : (ofSource (front ++ back)).Fits (p.lastLine + front.toList.count '\n')
      p.lastColumn) :
    (ofSource (front ++ back)).span? (p.shiftLines (front.toList.count '\n')) =
      ((ofSource back).span? p).map fun s => ⟨s.start + front.utf8ByteSize, s.length⟩ := by
  have hlength : (ofSource (front ++ back)).length =
      front.utf8ByteSize + (ofSource back).length := by
    rw [length_ofSource, length_ofSource, String.utf8ByteSize_append]
  simp only [span?, Position.shiftLines, resolve?_ofSource_append h hfirst hfitsFirst,
    resolve?_ofSource_append h hlast hfitsLast, hlength]
  cases (ofSource back).resolve? p.firstLine p.firstColumn with
  | none => rfl
  | some start =>
    cases (ofSource back).resolve? p.lastLine p.lastColumn with
    | none => rfl
    | some stop =>
      have hiff : (start + front.utf8ByteSize ≤ stop + front.utf8ByteSize ∧
            stop + front.utf8ByteSize ≤ front.utf8ByteSize + (ofSource back).length) ↔
          (start ≤ stop ∧ stop ≤ (ofSource back).length) := by omega
      simp only [Option.map_some, Option.bind_eq_bind, Option.bind_some, hiff]
      split
      · simp only [Option.map_some, Span.ofBounds, Nat.add_sub_add_right]
      · rfl

theorem eq_of_resolve?_zero {source : String} {line column : Nat}
    (hfits : (ofSource source).Fits line column)
    (h : (ofSource source).resolve? line column = some 0) : line = 1 ∧ column = 0 := by
  cases line with
  | zero => cases h
  | succ i =>
    rw [hfits.resolve?] at h
    obtain ⟨start, hstart, hzero⟩ := Option.map_eq_some_iff.mp h
    have hi := le_of_starts_ofSource hstart
    omega

theorem isNull_eq_false_of_span? {source : String} {s : Span} (hp : p.isDegenerate = false)
    (hfits : (ofSource source).FitsBounds p) (h : (ofSource source).span? p = some s) :
    s.isNull = false := by
  simp only [span?, Option.bind_eq_bind, Option.bind_eq_some_iff] at h
  obtain ⟨start, hstart, stop, hstop, h⟩ := h
  obtain ⟨hfitsFirst, hfitsLast⟩ := hfits.resolve_left (by simp [hp])
  split at h
  · next hle =>
    cases h
    by_contra hnull
    simp only [Span.isNull, Span.ofBounds, Bool.not_eq_false, Bool.and_eq_true, beq_iff_eq] at hnull
    obtain rfl : start = 0 := hnull.1
    obtain rfl : stop = 0 := by omega
    have hfirst := eq_of_resolve?_zero hfitsFirst hstart
    have hlast := eq_of_resolve?_zero hfitsLast hstop
    simp [Position.isDegenerate, hfirst, hlast] at hp
  · cases h

theorem toOption_span_shift {n n' : Node} (h : WholeLines front.toList)
    (hn : n.position.CountsLines)
    (hn' : n'.position = n.position.shiftLines (front.toList.count '\n'))
    (hfits : (ofSource (front ++ back)).FitsBounds
      (n.position.shiftLines (front.toList.count '\n'))) :
    ((ofSource (front ++ back)).span n').toOption =
      ((ofSource back).span n).toOption.map (Span.shift front.utf8ByteSize) := by
  unfold span
  rw [hn', Position.shiftLines_isDegenerate]
  cases hp : n.position.isDegenerate with
  | true => rfl
  | false =>
    obtain ⟨hfirst, hlast⟩ := hn.resolve_left (by simp [hp])
    obtain ⟨hfitsFirst, hfitsLast⟩ :=
      hfits.resolve_left (by simp [Position.shiftLines_isDegenerate, hp])
    rw [span?_shift back h hfirst hlast hfitsFirst hfitsLast]
    cases hs : (ofSource back).span? n.position with
    | none => rfl
    | some s =>
      have hback : (ofSource back).FitsBounds n.position :=
        .inr ⟨hfitsFirst.of_append h hfirst, hfitsLast.of_append h hlast⟩
      have hknown := isNull_eq_false_of_span? hp hback hs
      exact congrArg some (Span.shift_of_isNull_eq_false hknown).symm

end LineTable

theorem isOk_eq_isSome_toOption {α : Type} (x : Result α) : x.isOk = x.toOption.isSome := by
  cases x <;> rfl

section

variable {front : String} (back : String) (options : Options) {root : Node}
  (hfront : LineTable.WholeLines front.toList) (hroot : ∀ p ∈ root.positions, p.CountsLines)
  (hfits : ∀ p ∈ root.positions, (LineTable.ofSource (front ++ back)).FitsBounds
    (p.shiftLines (front.toList.count '\n')))

def Coupling.shiftLines : Coupling :=
  .sameBut (Position.shiftLines (front.toList.count '\n')) id (.ofSource back)
    (.ofSource (front ++ back)) options root
    (root.mapPositions (Position.shiftLines (front.toList.count '\n'))) fun n n' h => by
      have hmem := h.2.1.position_mem
      rw [isOk_eq_isSome_toOption, isOk_eq_isSome_toOption,
        LineTable.toOption_span_shift back hfront (hroot _ hmem) h.position_eq.symm (hfits _ hmem),
        Option.isSome_map]

def Coupling.Alignment.shiftLines :
    (Coupling.shiftLines back options hfront hroot hfits).Alignment where
  position := Position.shiftLines (front.toList.count '\n')
  position' := id
  span := Span.shift front.utf8ByteSize
  span' := id
  positions n n' h := h.position_eq
  null := rfl
  located n n' s s' h := by
    have hmem := h.nodes.2.1.position_mem
    have hspan := LineTable.toOption_span_shift back hfront (hroot _ hmem)
      h.nodes.position_eq.symm (hfits _ hmem)
    have hleft : (LineTable.ofSource back).span n = .ok s := h.left
    have hright : (LineTable.ofSource (front ++ back)).span n' = .ok s' := h.right
    rw [hleft, hright] at hspan
    exact (Option.some.inj hspan).symm
  cover := by
    rintro s _ u _ rfl rfl
    exact Span.shift_cover
  frozen := rfl

end

end RubyTree
