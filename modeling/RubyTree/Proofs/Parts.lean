import RubyTree.Conversion.Context
import RubyTree.Arguments
import RubyTree.Parameters
import RubyTree.Proofs.Descent

/-! Argument lists, destructurings, parameter lists and bodies are put together from nodes that lie
below the node they are read from. -/

namespace RubyTree

open Legacy (Node)
open Legacy.Node (Closed Optional optional_none optional_some)

variable {D : Node → Prop} {n : Node}

namespace Argument

/-- The nodes that an argument is converted from are in the set. -/
def All (D : Node → Prop) : Argument → Prop
  | .positional n => D n
  | .splat value _ => D value
  | .block value _ => Optional D value

theorem ofElement_all (hD : Closed D) (hn : D n) : Yields (ofElement n) (All D) := by
  unfold ofElement
  refine .bind (Legacy.Node.Below.shape hD (hD n hn)) fun shape hshape => ?_
  split
  · next value =>
    split
    · exact .pure (hshape value rfl)
    · exact .pure hn
  · exact .pure hn

theorem ofFront_all {inner : Node → Result (List Argument)}
    (h : ∀ m, D m → Yields (inner m) fun arguments => ∀ a ∈ arguments, a.All D)
    {front : Option Node} (hfront : Optional D front) :
    Yields (ofFront inner front) fun arguments => ∀ a ∈ arguments, a.All D := by
  cases front with
  | none => exact .pure (by simp)
  | some m => exact h m (hfront m rfl)

theorem ofNodeWithin_all (hD : Closed D) (bound : Nat) (outermost : Bool) (hn : n.Below D) :
    Yields (ofNodeWithin bound outermost n) fun arguments => ∀ a ∈ arguments, a.All D := by
  induction bound generalizing outermost n with
  | zero => exact .throw
  | succ bound ih =>
    have hfront : ∀ left, Optional D left → Yields (ofFront (ofNodeWithin bound false) left)
        fun arguments => ∀ a ∈ arguments, a.All D :=
      fun left hleft => ofFront_all (fun m hm => ih false (hD m hm)) hleft
    unfold ofNodeWithin
    refine .bind (hn.shape hD) fun shape hshape => ?_
    split
    · exact .mapM fun element h => ofElement_all hD (hshape element h)
    · next body =>
      split
      · split
        · next value => exact .pure (by simpa [All] using hshape value rfl)
        · exact .throw
      · exact .throw
    · next left right =>
      obtain ⟨hleft, hright⟩ := hshape
      split
      · refine .bind (hfront left hleft) fun before hbefore => ?_
        split
        · exact .throw
        · next tail =>
          split
          · refine .bind (ih false (hD tail (hright tail rfl))) fun after hafter => .pure ?_
            simpa [or_imp, forall_and] using ⟨hbefore, hafter⟩
          · refine .pure ?_
            simpa [or_imp, forall_and, All] using ⟨hbefore, hright tail rfl⟩
      · refine .bind (hfront left hleft) fun before hbefore => ?_
        split
        · exact .throw
        · next last =>
          refine .pure ?_
          simpa [or_imp, forall_and, All] using ⟨hbefore, hright last rfl⟩
      · split
        · refine .bind (hfront left hleft) fun before hbefore => .pure ?_
          simpa [or_imp, forall_and, All] using ⟨hbefore, hright⟩
        · exact .throw
      · exact .throw
    · exact .throw

theorem ofNode_all (hD : Closed D) (hn : n.Below D) :
    Yields (ofNode n) fun arguments => ∀ a ∈ arguments, a.All D :=
  ofNodeWithin_all hD n.height true hn

theorem splitBlock_all {arguments : List Argument} (h : ∀ a ∈ arguments, a.All D) :
    (∀ a ∈ (splitBlock arguments).1, a.All D) ∧
      ∀ value pass, (splitBlock arguments).2 = some (value, pass) → Optional D value := by
  fun_induction splitBlock arguments with
  | case1 => simp
  | case2 value pass =>
    refine ⟨by simp, fun v p hv => ?_⟩
    simp only [Option.some.injEq, Prod.mk.injEq] at hv
    exact hv.1 ▸ h (.block value pass) (by simp)
  | case3 argument rest _ others passed hsplit ih =>
    obtain ⟨hothers, hpassed⟩ := ih fun a ha => h a (by simp [ha])
    rw [hsplit] at hothers hpassed
    refine ⟨?_, hpassed⟩
    simpa using ⟨h argument (by simp), hothers⟩

end Argument

def GroupRest.All (D : Node → Prop) : Option GroupRest → Prop
  | some (.named n) => D n
  | _ => True

mutual

def Target.All (D : Node → Prop) : Target → Prop
  | .simple n => D n
  | .group group => group.All D

/-- The simple targets of a group are in the set, at every depth. -/
def TargetGroup.All (D : Node → Prop) : TargetGroup → Prop
  | .mk _ lefts rest rights => Target.AllOf D lefts ∧ GroupRest.All D rest ∧ Target.AllOf D rights

def Target.AllOf (D : Node → Prop) : List Target → Prop
  | [] => True
  | target :: targets => target.All D ∧ Target.AllOf D targets

end

theorem Target.allOf_iff {targets : List Target} :
    Target.AllOf D targets ↔ ∀ target ∈ targets, target.All D := by
  induction targets with
  | nil => simp [Target.AllOf]
  | cons target targets ih => simp [Target.AllOf, ih]

namespace TargetGroup

theorem simple_all {style : TargetStyle} (hn : D n) : Yields (simple style n) D := by
  unfold simple
  split
  · unfold Node.expectKind
    split
    · exact .pure hn
    · exact .throw
  · split
    · exact .pure hn
    · split
      · exact .throw
      · exact .throw

theorem listElements_all (hn : n.Below D) :
    Yields (listElements n) fun elements => ∀ m ∈ elements, D m := by
  unfold listElements
  exact .bind hn.expectKind fun list hlist => hlist.2.nodesFrom

section

variable {inner : Node → Result TargetGroup} {style : TargetStyle}

theorem targetOf_all (h : ∀ m, D m → Yields (inner m) (All D)) (hn : D n) :
    Yields (targetOf inner style n) (Target.All D) := by
  unfold targetOf
  split
  · exact .bind (h n hn) fun group hgroup => .pure hgroup
  · exact .bind (simple_all hn) fun node hnode => .pure hnode

theorem targetsOf_all (hD : Closed D) (h : ∀ m, D m → Yields (inner m) (All D))
    {list : Option Node} (hlist : Optional D list) :
    Yields (targetsOf inner style list) (Target.AllOf D) := by
  cases list with
  | none => exact .pure trivial
  | some list =>
    refine .bind (listElements_all (hD list (hlist list rfl))) fun elements helements => ?_
    exact (Yields.mapM fun element he => targetOf_all h (helements element he)).mono
      fun targets => Target.allOf_iff.mpr

theorem restOf_all {rest : Legacy.RestSlot} (hrest : rest.All D) :
    Yields (restOf style rest) (GroupRest.All D) := by
  cases rest with
  | absent => exact .pure trivial
  | anonymous => exact .pure trivial
  | target node => exact .bind (simple_all hrest) fun node hnode => .pure hnode

end

theorem ofNodeWithin_all (hD : Closed D) (bound : Nat) (style : TargetStyle) (hn : n.Below D) :
    Yields (ofNodeWithin bound style n) (All D) := by
  induction bound generalizing n with
  | zero => exact .throw
  | succ bound ih =>
    have hinner : ∀ m, D m → Yields (ofNodeWithin bound style m) (All D) :=
      fun m hm => ih (hD m hm)
    unfold ofNodeWithin
    refine .bind hn.expectKind fun masgn hmasgn => ?_
    refine .bind (hmasgn.2.shape hD) fun shape hshape => ?_
    split
    · next value head rest posts =>
      obtain ⟨-, hhead, hrest, hposts⟩ := hshape
      exact .bind (targetsOf_all hD hinner hhead) fun lefts hlefts =>
        .bind (restOf_all hrest) fun rest hrest =>
        .bind (targetsOf_all hD hinner hposts) fun rights hrights =>
        .pure ⟨hlefts, hrest, hrights⟩
    · exact .throw

theorem ofNode_all (hD : Closed D) (style : TargetStyle) (hn : n.Below D) :
    Yields (ofNode style n) (All D) :=
  ofNodeWithin_all hD n.height style hn

end TargetGroup

def RequiredParameter.All (D : Node → Prop) : RequiredParameter → Prop
  | .name _ => True
  | .group value => value.All D

namespace Parameters

/-- The nodes that the parameters are converted from are in the set. -/
structure All (D : Node → Prop) (p : Parameters) : Prop where
  requireds : ∀ q ∈ p.requireds, q.All D
  optionals : ∀ q ∈ p.optionals, D q.value
  posts : ∀ q ∈ p.posts, q.All D
  keywords : ∀ q ∈ p.keywords, Optional D q.value

theorem chainWithin_all (hD : Closed D) {kind : Legacy.Kind} (bound : Nat) {link : Option Node}
    (h : Optional D link) :
    Yields (chainWithin kind bound link) fun bodies => ∀ m ∈ bodies, D m := by
  induction bound generalizing link with
  | zero =>
    cases link with
    | none => exact .pure (by simp)
    | some n => exact .throw
  | succ bound ih =>
    cases link with
    | none => exact .pure (by simp)
    | some n =>
      unfold chainWithin
      refine .bind (Legacy.Node.Below.expectKind (hD n (h n rfl))) fun link hlink => ?_
      refine .bind (hlink.2.shape hD) fun shape hshape => ?_
      split
      · next body next =>
        refine .bind (ih hshape.2) fun bodies hbodies => .pure ?_
        simpa using ⟨hshape.1, hbodies⟩
      · exact .throw

theorem chain_all (hD : Closed D) {kind : Legacy.Kind} {link : Option Node}
    (h : Optional D link) : Yields (chain kind link) fun bodies => ∀ m ∈ bodies, D m := by
  cases link with
  | none => exact .pure (by simp)
  | some n => exact chainWithin_all hD n.height h

theorem groups_all (hD : Closed D) {init : Option Node} (h : Optional D init) :
    Yields (groups init) fun found => ∀ group ∈ found, group.All D := by
  cases init with
  | none => exact .pure (by simp)
  | some n =>
    have hn := hD n (h n rfl)
    refine .bind (hn.shape hD) fun shape hshape => ?_
    split
    · exact .mapM fun m hm => TargetGroup.ofNode_all hD .parameter (hD m (hshape m hm))
    · exact .bind (TargetGroup.ofNode_all hD .parameter hn) fun group hgroup =>
        .pure (by simpa using hgroup)

theorem optionalsAt_all (hD : Closed D) {args : Node} {table : Legacy.Table} {cursor : Nat}
    {links : List Node} (h : ∀ m ∈ links, D m) :
    Yields (optionalsAt args table cursor links) fun found => ∀ p ∈ found.1, D p.value := by
  induction links generalizing cursor with
  | nil => exact .pure (by simp)
  | cons link rest ih =>
    unfold optionalsAt
    refine .bind (Legacy.Node.Below.expectKind (hD link (h link (by simp)))) fun link hlink => ?_
    refine .bind (hlink.2.shape hD) fun shape hshape => ?_
    split
    · next name value _ =>
      refine .after fun cursor _ => .bind (ih fun m hm => h m (by simp [hm])) ?_
      intro found hfound
      exact .pure (by simpa using ⟨hshape value rfl, hfound⟩)
    · exact .throw

theorem keywordsAt_all (hD : Closed D) {args : Node} {table : Legacy.Table} {cursor : Nat}
    {links : List Node} (h : ∀ m ∈ links, D m) :
    Yields (keywordsAt args table cursor links) fun found =>
      ∀ p ∈ found.1, Optional D p.value := by
  induction links generalizing cursor with
  | nil => exact .pure (by simp)
  | cons link rest ih =>
    unfold keywordsAt
    refine .bind (Legacy.Node.Below.expectKind (hD link (h link (by simp)))) fun link hlink => ?_
    refine .bind (hlink.2.shape hD) fun shape hshape => ?_
    split
    · next name value required =>
      split
      · exact .throw
      · refine .after fun cursor _ => .bind (ih fun m hm => h m (by simp [hm])) ?_
        intro found hfound
        exact .pure (by simpa using ⟨hshape, hfound⟩)
    · exact .throw

theorem fillSlots_all {slots : Legacy.Table} {groups : List TargetGroup}
    (h : ∀ group ∈ groups, group.All D) : ∀ q ∈ fillSlots slots groups, q.All D := by
  fun_induction fillSlots slots groups with
  | case1 groups => simpa [RequiredParameter.All] using h
  | case2 name slots groups ih => simpa [RequiredParameter.All] using ih h
  | case3 slots ih => exact ih (by simp)
  | case4 slots group groups ih =>
    simpa [RequiredParameter.All] using ⟨h group (by simp), ih fun g hg => h g (by simp [hg])⟩

theorem ofDescriptor_all (hD : Closed D) {table : Legacy.Table} {args : Node}
    {d : Legacy.Descriptor} (hd : d.All D) : Yields (ofDescriptor table args d) (All D) := by
  unfold ofDescriptor
  refine .after fun preSlots _ => .bind (groups_all hD hd.preInit) fun preGroups hpre => ?_
  refine .bind (chain_all hD hd.optionals) fun links hlinks => ?_
  refine .bind (optionalsAt_all hD hlinks) fun optionals hoptionals => ?_
  refine .after fun rest _ => .after fun postSlots _ => ?_
  refine .bind (groups_all hD hd.postInit) fun postGroups hpost => ?_
  refine .bind (chain_all hD hd.keywords) fun links hlinks => ?_
  refine .bind (keywordsAt_all hD hlinks) fun keywords hkeywords => ?_
  refine .after fun keywordRest _ => .after fun block _ => .pure ?_
  exact ⟨fillSlots_all hpre, hoptionals, fillSlots_all hpost, hkeywords⟩

theorem ofNode_all (hD : Closed D) {table : Legacy.Table} (hn : n.Below D) :
    Yields (ofNode table n) fun found => ∀ p, found = some p → p.All D := by
  unfold ofNode
  refine .bind hn.expectKind fun args hargs => ?_
  refine .bind hargs.2.descriptor fun d hd => ?_
  split
  · exact .pure (by simp)
  · exact .bind (ofDescriptor_all hD hd) fun p hp => .pure (by simpa using hp)

end Parameters

namespace Legacy.Node

theorem scopeParts_all (hD : Closed D) (hn : n.Below D) :
    Yields n.scopeParts fun parts => Optional D parts.2.1 ∧ Optional D parts.2.2 := by
  unfold scopeParts
  refine .bind hn.expectKind fun scope hscope => ?_
  refine .bind (hscope.2.shape hD) fun shape hshape => ?_
  split
  · exact .pure hshape
  · exact .throw

theorem sequence_all (hD : Closed D) (hn : D n) :
    Yields n.sequence fun statements => ∀ m ∈ statements, D m := by
  unfold sequence
  refine .bind (Below.shape hD (hD n hn)) fun shape hshape => ?_
  split
  · exact .pure hshape
  · exact .pure (by simpa using hn)

/-- The elements of a list, which is left out only if there are none. -/
def Lists (elements : List Node) : Option Node → Prop
  | none => elements = []
  | some list => list.kind = .LIST ∧ list.children = elements.map .node

theorem shape_of_BLOCK {shape : Legacy.Shape} (hkind : n.kind = .BLOCK) :
    n.shape = .ok shape ↔ ∃ statements : List Node, n.children = statements.map .node ∧
      shape = .block statements := by
  simp only [Node.shape, hkind, bind_eq_ok_iff, nodesFrom, List.drop_zero, nodesAt_eq_ok_iff,
    pure_eq_ok_iff]

theorem sequence_eq_ok_iff {statements : List Node} :
    n.sequence = .ok statements ↔ if n.kind = .BLOCK then n.children = statements.map .node
      else (∃ shape, n.shape = .ok shape) ∧ statements = [n] := by
  rw [sequence, bind_eq_ok_iff]
  by_cases hkind : n.kind = .BLOCK
  · simp only [if_pos hkind, shape_of_BLOCK hkind]
    constructor
    · rintro ⟨_, ⟨found, hchildren, rfl⟩, h⟩
      cases h
      exact hchildren
    · intro hchildren
      exact ⟨_, ⟨statements, hchildren, rfl⟩, rfl⟩
  · have hother (shape : Legacy.Shape) (hshape : n.shape = .ok shape) (found : List Node) :
        shape ≠ .block found := by
      rintro rfl
      exact hkind (List.mem_singleton.mp (kind_mem_kinds _ hshape))
    rw [if_neg hkind, ← exists_and_right]
    refine exists_congr fun shape => and_congr_right fun hshape => ?_
    split
    · next found => exact absurd rfl (hother _ hshape found)
    · exact pure_eq_ok_iff

end Legacy.Node

end RubyTree
