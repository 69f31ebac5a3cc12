import RubyTree.Conversion.Calls
import RubyTree.Proofs.Everywhere

/-! The flags of argument lists and arrays. They are computed from the arguments of a legacy node,
and say how many splats there are among the trees that these are converted to. -/

namespace RubyTree

open Canonical

namespace Canonical

namespace Kind

def countsSplats : Kind → Bool
  | argumentsNode | arrayNode => true
  | _ => false

end Kind

namespace Tree

def isSplat (t : Tree) : Bool := t.kind == .splatNode

end Tree

/-- The flags of an argument list tell whether there are splats among the arguments, and whether
there are several, and nothing else. -/
structure Flags.TellSplats (flags : Flags) (arguments : List Tree) : Prop where
  one : flags.contains Flags.containsSplat = true ↔ 1 ≤ arguments.countP Tree.isSplat
  several : flags.contains Flags.containsMultipleSplats = true ↔
    2 ≤ arguments.countP Tree.isSplat
  nothingElse : flags &&& ~~~(Flags.containsSplat ||| Flags.containsMultipleSplats) = 0

/-- The flags of a node tell the splats among its children, if it is of a kind that counts them. -/
structure Tree.SplatsFlagged (t : Tree) : Prop where
  arguments : t.kind = .argumentsNode → ∃ flags arguments, t.flags? = some flags ∧
    t.trees? "arguments" = some arguments ∧ flags.TellSplats arguments
  array : t.kind = .arrayNode → ∃ flags elements, t.flags? = some flags ∧
    t.trees? "elements" = some elements ∧
      (flags.contains Flags.arrayContainsSplat = true ↔ 1 ≤ elements.countP Tree.isSplat)

section

variable {kind : Kind} {fields : Fields kind.fields} {location : Span} {trees : List Tree}

theorem splatsFlagged_of_not_countsSplats (h : kind.countsSplats = false) :
    (Tree.mk kind fields location).SplatsFlagged := by
  constructor
  · rintro rfl
    cases h
  · rintro rfl
    cases h

theorem Tree.SplatsFlagged.withLocation {t : Tree} (h : t.SplatsFlagged) :
    (t.withLocation location).SplatsFlagged := by
  cases t
  exact ⟨h.arguments, h.array⟩

theorem splatsFlagged_arguments {flags : Flags} (h : flags.TellSplats trees) :
    (Tree.arguments flags trees location).SplatsFlagged where
  arguments _ := ⟨flags, trees, rfl, rfl, h⟩
  array hkind := by cases hkind

theorem splatsFlagged_array {flags : Flags}
    (h : flags.contains Flags.arrayContainsSplat = true ↔ 1 ≤ trees.countP Tree.isSplat) :
    (Tree.array flags trees location).SplatsFlagged where
  arguments hkind := by cases hkind
  array _ := ⟨flags, trees, rfl, rfl, h⟩

theorem tellSplats_empty (h : trees.countP Tree.isSplat = 0) : Flags.empty.TellSplats trees where
  one := by rw [h]; decide
  several := by rw [h]; decide
  nothingElse := by decide

end

end Canonical

namespace Context

variable {arguments : List Argument} {trees : List Tree}

theorem splatCount_eq (h : trees.map Tree.isSplat = arguments.map Argument.isSplat) :
    trees.countP Tree.isSplat = Argument.splatCount arguments := by
  have hcount := congrArg (List.countP id) h
  simpa only [Argument.splatCount, List.countP_map, Function.id_comp] using hcount

/-- The flags are computed from the arguments before these are converted. -/
theorem splatFlags_tellSplats (h : trees.map Tree.isSplat = arguments.map Argument.isSplat) :
    (splatFlags arguments).TellSplats trees := by
  have hcount := splatCount_eq h
  unfold splatFlags
  split
  · next hzero => exact tellSplats_empty (hcount.trans hzero)
  · next hone =>
    rw [hone] at hcount
    constructor
    · rw [hcount]; decide
    · rw [hcount]; decide
    · decide
  · next hzero hone =>
    have hmany : 2 ≤ trees.countP Tree.isSplat := by
      have hzero : Argument.splatCount arguments ≠ 0 := hzero
      have hone : Argument.splatCount arguments ≠ 1 := hone
      omega
    constructor
    · exact iff_of_true (by decide) (by omega)
    · exact iff_of_true (by decide) hmany
    · decide

theorem arrayFlags_tell (h : trees.map Tree.isSplat = arguments.map Argument.isSplat) :
    Flags.contains (if arguments.any Argument.isSplat then Flags.arrayContainsSplat
      else Flags.empty) Flags.arrayContainsSplat = true ↔ 1 ≤ trees.countP Tree.isSplat := by
  rw [splatCount_eq h, Argument.splatCount]
  split
  · next hany =>
    refine iff_of_true (by decide) ?_
    obtain ⟨a, ha, hsplat⟩ := List.any_eq_true.mp hany
    exact List.countP_pos_iff.mpr ⟨a, ha, hsplat⟩
  · next hany =>
    refine iff_of_false (by decide) fun hcount => hany ?_
    obtain ⟨a, ha, hsplat⟩ := List.countP_pos_iff.mp hcount
    exact List.any_eq_true.mpr ⟨a, ha, hsplat⟩

end Context

end RubyTree
