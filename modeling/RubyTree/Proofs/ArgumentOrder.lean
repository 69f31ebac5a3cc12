import Mathlib.Data.List.Forall2
import RubyTree.Arguments
import RubyTree.Legacy.Build
import RubyTree.Proofs.Descent

/-! The arguments that a node stands for, in source order. The grammar of argument lists is stated
on the tree alone; a node is laid out exactly if it belongs to the grammar, and then as it says. -/

namespace RubyTree

open Legacy (Node Child Shape)
open Legacy.Node (node?_eq_ok_iff nodesAt_eq_ok_iff kind_mem_kinds height_lt_of_mem_children)

theorem mapM_eq_ok_iff {α β : Type} {f : α → Result β} {as : List α} {bs : List β} :
    as.mapM f = .ok bs ↔ List.Forall₂ (fun a b => f a = .ok b) as bs := by
  induction as generalizing bs with
  | nil => rw [List.mapM_nil, pure_eq_ok_iff, List.forall₂_nil_left_iff]
  | cons a as ih =>
    simp only [List.mapM_cons, bind_eq_ok_iff, pure_eq_ok_iff, ih, List.forall₂_cons_left_iff]
    constructor
    · rintro ⟨b, hb, rest, hrest, rfl⟩
      exact ⟨b, rest, hb, hrest, rfl⟩
    · rintro ⟨b, rest, hb, hrest, rfl⟩
      exact ⟨b, hb, rest, hrest, rfl⟩

namespace Legacy.Node

variable {n m : Node} {shape : Shape}

def WellTyped (n : Node) : Prop := ∃ shape, n.shape = .ok shape

theorem shape_of_LIST (hkind : n.kind = .LIST) :
    n.shape = .ok shape ↔ ∃ elements : List Node, n.children = elements.map .node ∧
      shape = .list elements := by
  have hshape : n.shape = n.nodesAt 0 n.children >>= fun elements => pure (.list elements) := by
    rw [Node.shape, hkind]
    rfl
  rw [hshape, bind_eq_ok_iff]
  refine exists_congr fun elements => ?_
  rw [nodesAt_eq_ok_iff, pure_eq_ok_iff]

theorem shape_of_SPLAT (hkind : n.kind = .SPLAT) :
    n.shape = .ok shape ↔ ∃ body, n.child 0 = .ofNode? body ∧ shape = .wrapper body := by
  have hshape : n.shape = n.node? 0 >>= fun body => pure (.wrapper body) := by
    rw [Node.shape, hkind]
  rw [hshape, bind_eq_ok_iff]
  refine exists_congr fun body => ?_
  rw [node?_eq_ok_iff, pure_eq_ok_iff]

theorem shape_of_pair (hkind : n.kind = .ARGSCAT ∨ n.kind = .ARGSPUSH ∨ n.kind = .BLOCK_PASS) :
    n.shape = .ok shape ↔ ∃ left right, n.child 0 = .ofNode? left ∧ n.child 1 = .ofNode? right ∧
      shape = .pair left right := by
  have hshape : n.shape = n.node? 0 >>= fun left => n.node? 1 >>= fun right =>
      pure (.pair left right) := by
    unfold Node.shape
    rcases hkind with hkind | hkind | hkind <;> rw [hkind]
  rw [hshape, bind_eq_ok_iff]
  refine exists_congr fun left => ?_
  rw [bind_eq_ok_iff, ← exists_and_left]
  refine exists_congr fun right => ?_
  rw [node?_eq_ok_iff, node?_eq_ok_iff, pure_eq_ok_iff]

theorem height_lt_of_child {i : Nat} (h : n.child i = .node m) : m.height < n.height := by
  have hbelow : n.Below fun m => m.height < n.height := fun _ hm => height_lt_of_mem_children hm
  exact hbelow.child h

end Legacy.Node

namespace Argument

def isBlock : Argument → Bool
  | .block .. => true
  | _ => false

inductive Element (element : Node) : Argument → Prop where
  | splat {value : Node} (hkind : element.kind = .SPLAT) (hbody : element.child 0 = .node value) :
      Element element (.splat value (some element))
  | positional (hslots : element.WellTyped)
      (hplain : element.kind = .SPLAT → ∀ value, element.child 0 ≠ .node value) :
      Element element (.positional element)

mutual

/-- The arguments of a node that passes no block. -/
inductive Sequence : Node → List Argument → Prop where
  | list {n : Node} {elements : List Node} {arguments : List Argument} (hkind : n.kind = .LIST)
      (hchildren : n.children = elements.map .node)
      (helements : List.Forall₂ Element elements arguments) : Sequence n arguments
  | empty {n : Node} (hkind : n.kind = .ZLIST) : Sequence n []
  | splat {n value : Node} (hkind : n.kind = .SPLAT) (hbody : n.child 0 = .node value) :
      Sequence n [.splat value (some n)]
  /-- A list behind the front goes on with its elements. -/
  | catList {n tail : Node} {before after : List Argument} (hkind : n.kind = .ARGSCAT)
      (hfront : FrontSequence (n.child 0) before) (htail : n.child 1 = .node tail)
      (hlist : tail.kind = .LIST) (hafter : Sequence tail after) : Sequence n (before ++ after)
  /-- Any other node behind the front is splatted. -/
  | catSplat {n tail : Node} {before : List Argument} (hkind : n.kind = .ARGSCAT)
      (hfront : FrontSequence (n.child 0) before) (htail : n.child 1 = .node tail)
      (hlist : tail.kind ≠ .LIST) : Sequence n (before ++ [.splat tail none])
  | push {n last : Node} {before : List Argument} (hkind : n.kind = .ARGSPUSH)
      (hfront : FrontSequence (n.child 0) before) (hlast : n.child 1 = .node last) :
      Sequence n (before ++ [.positional last])

inductive FrontSequence : Child → List Argument → Prop where
  | absent : FrontSequence .nil []
  | present {n : Node} {arguments : List Argument} (h : Sequence n arguments) :
      FrontSequence (.node n) arguments

end

/-- The arguments of a node. Only the outermost node may pass a block, behind all the others. -/
inductive OuterSequence (n : Node) : List Argument → Prop where
  | plain {arguments : List Argument} (h : Sequence n arguments) : OuterSequence n arguments
  | passing {before : List Argument} {value : Option Node} (hkind : n.kind = .BLOCK_PASS)
      (hfront : FrontSequence (n.child 0) before) (hvalue : n.child 1 = .ofNode? value) :
      OuterSequence n (before ++ [.block value n])

section

variable {n : Node} {a : Argument} {arguments : List Argument} {bound : Nat} {outermost : Bool}

theorem ofElement_eq_ok_iff {element : Node} :
    ofElement element = .ok a ↔ Element element a := by
  unfold ofElement
  rw [bind_eq_ok_iff]
  constructor
  · rintro ⟨shape, hshape, h⟩
    split at h
    · next value =>
      split at h
      · next hkind =>
        cases h
        obtain ⟨body, hbody, hsame⟩ := (Legacy.Node.shape_of_SPLAT hkind).mp hshape
        cases hsame
        exact .splat hkind hbody
      · next hkind =>
        cases h
        exact .positional ⟨_, hshape⟩ fun hsplat => absurd hsplat hkind
    · next hother =>
      cases h
      refine .positional ⟨_, hshape⟩ fun hkind value hvalue => ?_
      have hsplat := (Legacy.Node.shape_of_SPLAT hkind).mpr ⟨some value, hvalue, rfl⟩
      exact hother value (Except.ok.inj (hshape.symm.trans hsplat))
  · intro h
    cases h with
    | @splat value hkind hbody =>
      refine ⟨_, (Legacy.Node.shape_of_SPLAT hkind).mpr ⟨some value, hbody, rfl⟩, ?_⟩
      exact if_pos hkind
    | positional hslots hplain =>
      obtain ⟨shape, hshape⟩ := hslots
      refine ⟨shape, hshape, ?_⟩
      split
      · next value =>
        refine if_neg fun hkind => ?_
        obtain ⟨body, hbody, hsame⟩ := (Legacy.Node.shape_of_SPLAT hkind).mp hshape
        cases hsame
        exact hplain hkind value hbody
      · rfl

theorem mapM_ofElement_eq_ok_iff {elements : List Node} :
    elements.mapM ofElement = .ok arguments ↔ List.Forall₂ Element elements arguments := by
  simp only [mapM_eq_ok_iff, ofElement_eq_ok_iff]

theorem ofFront_eq_ok_iff {inner : Node → Result (List Argument)} {i : Nat} {front : Option Node}
    (hfront : n.child i = .ofNode? front)
    (hinner : ∀ m arguments, n.child i = .node m →
      (inner m = .ok arguments ↔ Sequence m arguments)) :
    ofFront inner front = .ok arguments ↔ FrontSequence (n.child i) arguments := by
  rw [hfront]
  cases front with
  | none =>
    rw [ofFront, pure_eq_ok_iff]
    constructor
    · rintro rfl
      exact .absent
    · intro h
      cases h
      rfl
  | some m =>
    rw [ofFront, hinner m arguments hfront]
    constructor
    · exact .present
    · intro h
      cases h with
      | present h => exact h

theorem FrontSequence.slot {c : Child} (h : FrontSequence c arguments) :
    ∃ front, c = .ofNode? front := by
  cases h with
  | absent => exact ⟨none, rfl⟩
  | @present n _ h => exact ⟨some n, rfl⟩

/-! One step of laying out, by the kind of the node. -/

theorem ofNodeWithin_of_LIST (hkind : n.kind = .LIST) :
    ofNodeWithin (bound + 1) outermost n = .ok arguments ↔
      ∃ elements : List Node, n.children = elements.map .node ∧
        List.Forall₂ Element elements arguments := by
  rw [ofNodeWithin, bind_eq_ok_iff]
  simp only [Legacy.Node.shape_of_LIST hkind]
  constructor
  · rintro ⟨_, ⟨elements, hchildren, rfl⟩, h⟩
    exact ⟨elements, hchildren, mapM_ofElement_eq_ok_iff.mp h⟩
  · rintro ⟨elements, hchildren, h⟩
    exact ⟨_, ⟨elements, hchildren, rfl⟩, mapM_ofElement_eq_ok_iff.mpr h⟩

theorem ofNodeWithin_of_ZLIST (hkind : n.kind = .ZLIST) :
    ofNodeWithin (bound + 1) outermost n = .ok [] := by
  have hshape : n.shape = .ok (.list []) := by
    rw [Legacy.Node.shape, hkind]
    rfl
  rw [ofNodeWithin, hshape]
  rfl

theorem ofNodeWithin_of_SPLAT (hkind : n.kind = .SPLAT) :
    ofNodeWithin (bound + 1) outermost n = .ok arguments ↔
      ∃ value, n.child 0 = .node value ∧ arguments = [.splat value (some n)] := by
  rw [ofNodeWithin, bind_eq_ok_iff]
  simp only [Legacy.Node.shape_of_SPLAT hkind]
  constructor
  · rintro ⟨_, ⟨body, hbody, rfl⟩, h⟩
    dsimp only at h
    rw [if_pos hkind] at h
    cases body with
    | none => cases h
    | some value => exact ⟨value, hbody, pure_eq_ok_iff.mp h⟩
  · rintro ⟨value, hbody, rfl⟩
    exact ⟨_, ⟨some value, hbody, rfl⟩, if_pos hkind⟩

section

variable (hinner : ∀ i m arguments, n.child i = .node m →
  (ofNodeWithin bound false m = .ok arguments ↔ Sequence m arguments))
include hinner

theorem ofNodeWithin_of_ARGSCAT (hkind : n.kind = .ARGSCAT) :
    ofNodeWithin (bound + 1) outermost n = .ok arguments ↔
      ∃ before tail, FrontSequence (n.child 0) before ∧ n.child 1 = .node tail ∧
        (if tail.kind = .LIST then ∃ after, Sequence tail after ∧ arguments = before ++ after
          else arguments = before ++ [.splat tail none]) := by
  rw [ofNodeWithin, bind_eq_ok_iff]
  simp only [Legacy.Node.shape_of_pair (.inl hkind)]
  constructor
  · rintro ⟨_, ⟨left, right, hleft, hright, rfl⟩, h⟩
    simp only [hkind] at h
    obtain ⟨before, hbefore, h⟩ := bind_eq_ok_iff.mp h
    have hfront := (ofFront_eq_ok_iff hleft (hinner 0)).mp hbefore
    cases right with
    | none => cases h
    | some tail =>
      refine ⟨before, tail, hfront, hright, ?_⟩
      dsimp only at h
      split at h
      · next hlist =>
        obtain ⟨after, hafter, h⟩ := bind_eq_ok_iff.mp h
        rw [if_pos hlist]
        exact ⟨after, (hinner 1 tail after hright).mp hafter, pure_eq_ok_iff.mp h⟩
      · next hlist =>
        rw [if_neg hlist]
        exact pure_eq_ok_iff.mp h
  · rintro ⟨before, tail, hfront, htail, h⟩
    obtain ⟨left, hleft⟩ := hfront.slot
    have hbefore := (ofFront_eq_ok_iff hleft (hinner 0)).mpr hfront
    refine ⟨_, ⟨left, some tail, hleft, htail, rfl⟩, ?_⟩
    simp only [hkind]
    refine bind_eq_ok_iff.mpr ⟨before, hbefore, ?_⟩
    split at h
    · next hlist =>
      obtain ⟨after, hafter, rfl⟩ := h
      rw [if_pos hlist]
      exact bind_eq_ok_iff.mpr ⟨after, (hinner 1 tail after htail).mpr hafter, rfl⟩
    · next hlist =>
      rw [if_neg hlist]
      exact pure_eq_ok_iff.mpr h

theorem ofNodeWithin_of_ARGSPUSH (hkind : n.kind = .ARGSPUSH) :
    ofNodeWithin (bound + 1) outermost n = .ok arguments ↔
      ∃ before last, FrontSequence (n.child 0) before ∧ n.child 1 = .node last ∧
        arguments = before ++ [.positional last] := by
  rw [ofNodeWithin, bind_eq_ok_iff]
  simp only [Legacy.Node.shape_of_pair (.inr (.inl hkind))]
  constructor
  · rintro ⟨_, ⟨left, right, hleft, hright, rfl⟩, h⟩
    simp only [hkind] at h
    obtain ⟨before, hbefore, h⟩ := bind_eq_ok_iff.mp h
    have hfront := (ofFront_eq_ok_iff hleft (hinner 0)).mp hbefore
    cases right with
    | none => cases h
    | some last => exact ⟨before, last, hfront, hright, pure_eq_ok_iff.mp h⟩
  · rintro ⟨before, last, hfront, hlast, rfl⟩
    obtain ⟨left, hleft⟩ := hfront.slot
    have hbefore := (ofFront_eq_ok_iff hleft (hinner 0)).mpr hfront
    refine ⟨_, ⟨left, some last, hleft, hlast, rfl⟩, ?_⟩
    simp only [hkind]
    exact bind_eq_ok_iff.mpr ⟨before, hbefore, rfl⟩

theorem ofNodeWithin_of_BLOCK_PASS (hkind : n.kind = .BLOCK_PASS) :
    ofNodeWithin (bound + 1) outermost n = .ok arguments ↔
      outermost = true ∧ ∃ before value, FrontSequence (n.child 0) before ∧
        n.child 1 = .ofNode? value ∧ arguments = before ++ [.block value n] := by
  rw [ofNodeWithin, bind_eq_ok_iff]
  simp only [Legacy.Node.shape_of_pair (.inr (.inr hkind))]
  constructor
  · rintro ⟨_, ⟨left, right, hleft, hright, rfl⟩, h⟩
    simp only [hkind] at h
    split at h
    · next houtermost =>
      obtain ⟨before, hbefore, h⟩ := bind_eq_ok_iff.mp h
      have hfront := (ofFront_eq_ok_iff hleft (hinner 0)).mp hbefore
      exact ⟨houtermost, before, right, hfront, hright, pure_eq_ok_iff.mp h⟩
    · cases h
  · rintro ⟨houtermost, before, value, hfront, hvalue, rfl⟩
    obtain ⟨left, hleft⟩ := hfront.slot
    have hbefore := (ofFront_eq_ok_iff hleft (hinner 0)).mpr hfront
    refine ⟨_, ⟨left, value, hleft, hvalue, rfl⟩, ?_⟩
    simp only [hkind]
    rw [if_pos houtermost]
    exact bind_eq_ok_iff.mpr ⟨before, hbefore, rfl⟩

end

theorem kind_of_ofNodeWithin (h : ofNodeWithin (bound + 1) outermost n = .ok arguments) :
    n.kind ∈ [.LIST, .ZLIST, .SPLAT, .ARGSCAT, .ARGSPUSH, .BLOCK_PASS] := by
  rw [ofNodeWithin] at h
  obtain ⟨shape, hshape, h⟩ := bind_eq_ok_iff.mp h
  have hkinds := kind_mem_kinds _ hshape
  cases shape with
  | list elements =>
    simp only [Shape.kinds, List.mem_cons, List.not_mem_nil, or_false] at hkinds
    rcases hkinds with hkind | hkind <;> simp [hkind]
  | wrapper body =>
    dsimp only at h
    split at h
    · next hkind => simp [hkind]
    · cases h
  | pair left right =>
    dsimp only at h
    split at h
    · next hkind => simp [hkind]
    · next hkind => simp [hkind]
    · next hkind => simp [hkind]
    · cases h
  | _ => cases h

theorem ofNodeWithin_eq_ok_iff (hn : n.height ≤ bound) :
    ofNodeWithin bound outermost n = .ok arguments ↔
      if outermost then OuterSequence n arguments else Sequence n arguments := by
  -- By induction on the bound, with one step lemma for each kind of node.
  induction bound generalizing n outermost arguments with
  | zero => exact absurd (Legacy.Node.height_pos n) (by omega)
  | succ bound ih =>
    have hinner (i : Nat) (m : Node) (arguments : List Argument) (hm : n.child i = .node m) :
        ofNodeWithin bound false m = .ok arguments ↔ Sequence m arguments := by
      have hlt := Legacy.Node.height_lt_of_child hm
      exact ih (by omega)
    constructor
    · intro h
      have hplain (hs : Sequence n arguments) :
          if outermost then OuterSequence n arguments else Sequence n arguments := by
        split
        · exact .plain hs
        · exact hs
      have hkinds := kind_of_ofNodeWithin h
      simp only [List.mem_cons, List.not_mem_nil, or_false] at hkinds
      obtain hkind | hkind | hkind | hkind | hkind | hkind := hkinds
      · obtain ⟨elements, hchildren, helements⟩ := (ofNodeWithin_of_LIST hkind).mp h
        exact hplain (.list hkind hchildren helements)
      · rw [ofNodeWithin_of_ZLIST hkind] at h
        cases h
        exact hplain (.empty hkind)
      · obtain ⟨value, hbody, rfl⟩ := (ofNodeWithin_of_SPLAT hkind).mp h
        exact hplain (.splat hkind hbody)
      · obtain ⟨before, tail, hfront, htail, h⟩ := (ofNodeWithin_of_ARGSCAT hinner hkind).mp h
        split at h
        · next hlist =>
          obtain ⟨after, hafter, rfl⟩ := h
          exact hplain (.catList hkind hfront htail hlist hafter)
        · next hlist =>
          subst h
          exact hplain (.catSplat hkind hfront htail hlist)
      · obtain ⟨before, last, hfront, hlast, rfl⟩ := (ofNodeWithin_of_ARGSPUSH hinner hkind).mp h
        exact hplain (.push hkind hfront hlast)
      · obtain ⟨houtermost, before, value, hfront, hvalue, rfl⟩ :=
          (ofNodeWithin_of_BLOCK_PASS hinner hkind).mp h
        rw [if_pos houtermost]
        exact .passing hkind hfront hvalue
    · intro h
      have hplain (hs : Sequence n arguments) :
          ofNodeWithin (bound + 1) outermost n = .ok arguments := by
        cases hs with
        | list hkind hchildren helements =>
          exact (ofNodeWithin_of_LIST hkind).mpr ⟨_, hchildren, helements⟩
        | empty hkind => exact ofNodeWithin_of_ZLIST hkind
        | splat hkind hbody => exact (ofNodeWithin_of_SPLAT hkind).mpr ⟨_, hbody, rfl⟩
        | catList hkind hfront htail hlist hafter =>
          refine (ofNodeWithin_of_ARGSCAT hinner hkind).mpr ⟨_, _, hfront, htail, ?_⟩
          rw [if_pos hlist]
          exact ⟨_, hafter, rfl⟩
        | catSplat hkind hfront htail hlist =>
          refine (ofNodeWithin_of_ARGSCAT hinner hkind).mpr ⟨_, _, hfront, htail, ?_⟩
          rw [if_neg hlist]
        | push hkind hfront hlast =>
          exact (ofNodeWithin_of_ARGSPUSH hinner hkind).mpr ⟨_, _, hfront, hlast, rfl⟩
      split at h
      · next houtermost =>
        cases h with
        | plain hs => exact hplain hs
        | passing hkind hfront hvalue =>
          exact (ofNodeWithin_of_BLOCK_PASS hinner hkind).mpr
            ⟨houtermost, _, _, hfront, hvalue, rfl⟩
      · exact hplain h

theorem ofNode_eq_ok_iff : ofNode n = .ok arguments ↔ OuterSequence n arguments :=
  ofNodeWithin_eq_ok_iff (Nat.le_refl _)

/-! Block arguments. -/

theorem not_isBlock_of_elements {elements : List Node}
    (h : List.Forall₂ Element elements arguments) : ∀ a ∈ arguments, a.isBlock = false := by
  induction h with
  | nil => simp
  | cons helement _ ih =>
    refine List.forall_mem_cons.mpr ⟨?_, ih⟩
    cases helement <;> rfl

mutual

theorem Sequence.not_isBlock {n : Node} {arguments : List Argument} :
    Sequence n arguments → ∀ a ∈ arguments, a.isBlock = false
  | .list _ _ helements => not_isBlock_of_elements helements
  | .empty _ => by simp
  | .splat _ _ => by simp [isBlock]
  | .catList _ hfront _ _ hafter => by
    simpa [or_imp, forall_and] using ⟨hfront.not_isBlock, hafter.not_isBlock⟩
  | .catSplat _ hfront _ _ => by
    simpa [or_imp, forall_and, isBlock] using hfront.not_isBlock
  | .push _ hfront _ => by
    simpa [or_imp, forall_and, isBlock] using hfront.not_isBlock

theorem FrontSequence.not_isBlock {c : Child} {arguments : List Argument} :
    FrontSequence c arguments → ∀ a ∈ arguments, a.isBlock = false
  | .absent => by simp
  | .present h => h.not_isBlock

end

theorem Sequence.kind_ne (h : Sequence n arguments) : n.kind ≠ .BLOCK_PASS := by
  cases h with
  | list hkind | empty hkind | splat hkind | catList hkind | catSplat hkind | push hkind =>
    rw [hkind]
    decide

def ofPassed (passed : Option (Option Node × Node)) : List Argument :=
  (passed.map fun passed => .block passed.1 passed.2).toList

theorem splitBlock_append {others : List Argument} (hothers : ∀ a ∈ others, a.isBlock = false)
    (passed : Option (Option Node × Node)) :
    splitBlock (others ++ ofPassed passed) = (others, passed) := by
  induction others with
  | nil => cases passed <;> rfl
  | cons a others ih =>
    obtain ⟨ha, hrest⟩ := List.forall_mem_cons.mp hothers
    cases a with
    | block value pass => cases ha
    | positional | splat =>
      rw [List.cons_append, splitBlock, ih hrest]
      simp

theorem countP_isBlock_append {others : List Argument}
    (hothers : ∀ a ∈ others, a.isBlock = false) (passed : Option (Option Node × Node)) :
    (others ++ ofPassed passed).countP isBlock = if passed.isSome then 1 else 0 := by
  have hnone : others.countP isBlock = 0 := List.countP_eq_zero.mpr (by simpa using hothers)
  rw [List.countP_append, hnone, Nat.zero_add]
  cases passed <;> rfl

theorem eq_nil_of_isBlock {others front back : List Argument}
    (hothers : ∀ a ∈ others, a.isBlock = false) {passed : Option (Option Node × Node)}
    (h : others ++ ofPassed passed = front ++ a :: back) (ha : a.isBlock = true) : back = [] := by
  obtain rfl | ⟨init, last, rfl⟩ := List.eq_nil_or_concat back
  · rfl
  · exfalso
    have hmem : a ∈ others := by
      cases passed with
      | none =>
        rw [ofPassed, Option.map_none, Option.toList_none, List.append_nil] at h
        simp [h]
      | some pair =>
        have hsnoc : others ++ [.block pair.1 pair.2] = (front ++ a :: init) ++ [last] := by
          simpa [ofPassed] using h
        rw [(List.append_inj' hsnoc rfl).1]
        simp
    rw [hothers a hmem] at ha
    cases ha

/-- A block argument stands at the end, and only where the outermost node passes one. -/
theorem OuterSequence.splits (h : OuterSequence n arguments) :
    ∃ others passed, arguments = others ++ ofPassed passed ∧
      (∀ a ∈ others, a.isBlock = false) ∧ (passed.isSome = true ↔ n.kind = .BLOCK_PASS) := by
  cases h with
  | plain h => exact ⟨arguments, none, by simp [ofPassed], h.not_isBlock, by simp [h.kind_ne]⟩
  | @passing before value hkind hfront hvalue =>
    exact ⟨before, some (value, n), rfl, hfront.not_isBlock, by simp [hkind]⟩

end

/-- A node is laid out exactly if it belongs to the grammar of argument lists, and then as that
says. A block argument is the only one, stands last and is what is split off; there is one exactly
if the node passes a block. -/
theorem ofNode_sequence (n : Node) (arguments : List Argument) :
    (ofNode n = .ok arguments ↔ OuterSequence n arguments) ∧
      (ofNode n = .ok arguments →
        arguments.countP isBlock ≤ 1 ∧
          (∀ front a back, arguments = front ++ a :: back → a.isBlock = true → back = []) ∧
          ((∃ a ∈ arguments, a.isBlock = true) ↔ n.kind = .BLOCK_PASS) ∧
          (∀ a ∈ (splitBlock arguments).1, a.isBlock = false) ∧
          arguments = (splitBlock arguments).1 ++ ofPassed (splitBlock arguments).2) := by
  refine ⟨ofNode_eq_ok_iff, fun h => ?_⟩
  obtain ⟨others, passed, rfl, hothers, hpassed⟩ := (ofNode_eq_ok_iff.mp h).splits
  have hcount := countP_isBlock_append hothers passed
  rw [splitBlock_append hothers]
  refine ⟨?_, fun front a back hsplit ha => eq_nil_of_isBlock hothers hsplit ha, ?_, hothers, rfl⟩
  · rw [hcount]
    split <;> omega
  · rw [← hpassed, ← List.countP_pos_iff, hcount]
    cases passed <;> simp

/-- `f(a, *b, &c)`. -/
def splatThenBlock : Node :=
  let front := Node.make .ARGSCAT
    [.node (Legacy.Build.list [Legacy.Build.named .VCALL ⟨"a"⟩ default] default),
      .node (Legacy.Build.named .VCALL ⟨"b"⟩ default)] default
  .make .BLOCK_PASS [.node front, .node (Legacy.Build.named .VCALL ⟨"c"⟩ default)] default

theorem ofNode_sequence_splatThenBlock :
    ∃ a b c, ofNode splatThenBlock =
        .ok [.positional a, .splat b none, .block (some c) splatThenBlock] ∧
      OuterSequence splatThenBlock
        [.positional a, .splat b none, .block (some c) splatThenBlock] ∧
      [positional a, splat b none, block (some c) splatThenBlock].countP isBlock ≤ 1 := by
  obtain ⟨a, b, c, h⟩ : ∃ a b c, ofNode splatThenBlock =
    .ok [.positional a, .splat b none, .block (some c) splatThenBlock] := ⟨_, _, _, rfl⟩
  exact ⟨a, b, c, h, (ofNode_sequence _ _).1.mp h, ((ofNode_sequence _ _).2 h).1⟩

end Argument

end RubyTree
