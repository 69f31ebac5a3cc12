import RubyTree.Proofs.ArgumentOrder
import RubyTree.Proofs.Bound
import RubyTree.Proofs.Depth
import RubyTree.Proofs.Everywhere
import RubyTree.Proofs.ParameterDecoding

/-! Destructurings. What a `MASGN` binds is read at every depth as it was written, and becomes a
tree of the same nesting with the same names from left to right. -/

namespace RubyTree

open Canonical (Tree Fields Value Field FieldSort)
open Legacy (Node Child)

/-! A destructuring by itself, without the nodes that it was read from. -/

mutual

inductive TargetOutline where
  | simple (node : Node)
  | group (value : GroupOutline)

inductive GroupOutline where
  | mk (lefts : List TargetOutline) (rest : Option GroupRest) (rights : List TargetOutline)

end

namespace GroupRest

def child : Option GroupRest → Child
  | none => .nil
  | some .anonymous => .marker .anonymousRest
  | some (.named n) => .node n

def slot : Option GroupRest → Legacy.RestSlot
  | none => .absent
  | some .anonymous => .anonymous
  | some (.named n) => .target n

def leaves : Option GroupRest → List Node
  | some (.named n) => [n]
  | _ => []

theorem bindingCount_eq_length (rest : Option GroupRest) :
    bindingCount rest = (leaves rest).length := by
  match rest with
  | none => rfl
  | some .anonymous => rfl
  | some (.named n) => rfl

end GroupRest

mutual

/-- The assignments that a destructuring is made of, from left to right. -/
def GroupOutline.leaves : GroupOutline → List Node
  | .mk lefts rest rights =>
    TargetOutline.leavesOf lefts ++ GroupRest.leaves rest ++ TargetOutline.leavesOf rights

def TargetOutline.leavesOf : List TargetOutline → List Node
  | [] => []
  | target :: targets => target.leaves ++ TargetOutline.leavesOf targets

def TargetOutline.leaves : TargetOutline → List Node
  | .simple n => [n]
  | .group value => value.leaves

end

theorem GroupOutline.forall_mem_leaves {P : Node → Prop} {lefts rights : List TargetOutline}
    {rest : Option GroupRest} :
    (∀ m ∈ (GroupOutline.mk lefts rest rights).leaves, P m) ↔
      (∀ m ∈ TargetOutline.leavesOf lefts, P m) ∧ (∀ m ∈ GroupRest.leaves rest, P m) ∧
        ∀ m ∈ TargetOutline.leavesOf rights, P m := by
  simp [GroupOutline.leaves, or_imp, forall_and]

mutual

def TargetGroup.outline : TargetGroup → GroupOutline
  | .mk _ lefts rest rights => .mk (Target.outlines lefts) rest (Target.outlines rights)

def Target.outlines : List Target → List TargetOutline
  | [] => []
  | target :: targets => target.outline :: Target.outlines targets

def Target.outline : Target → TargetOutline
  | .simple n => .simple n
  | .group value => .group value.outline

end

mutual

theorem TargetGroup.bindingCount_eq_length :
    (group : TargetGroup) → group.bindingCount = group.outline.leaves.length
  | .mk n lefts rest rights => by
    rw [TargetGroup.bindingCount, TargetGroup.outline, GroupOutline.leaves, List.length_append,
      List.length_append, Target.bindingCountList_eq_length lefts, GroupRest.bindingCount_eq_length,
      Target.bindingCountList_eq_length rights]

theorem Target.bindingCountList_eq_length : (targets : List Target) →
    TargetGroup.bindingCountList targets = (TargetOutline.leavesOf (Target.outlines targets)).length
  | [] => by
    rw [TargetGroup.bindingCountList, Target.outlines, TargetOutline.leavesOf, List.length_nil]
  | target :: targets => by
    rw [TargetGroup.bindingCountList, Target.outlines, TargetOutline.leavesOf, List.length_append,
      target.bindingCount_eq_length, Target.bindingCountList_eq_length targets]

theorem Target.bindingCount_eq_length :
    (target : Target) → TargetGroup.bindingCountTarget target = target.outline.leaves.length
  | .simple n => by
    rw [TargetGroup.bindingCountTarget, Target.outline, TargetOutline.leaves,
      List.length_singleton]
  | .group value => by
    rw [TargetGroup.bindingCountTarget, Target.outline, TargetOutline.leaves,
      value.bindingCount_eq_length]

end

/-! How it is written. Behind the rest, a `POSTARG` may be used also where nothing follows. -/

/-- The slot holds a rest, together with the elements that follow it. -/
def Legacy.Child.Tail (slot splat : Child) (elements : List Node) : Prop :=
  slot = splat ∧ elements = [] ∨
    ∃ post list, slot = .node post ∧ post.kind = .POSTARG ∧ post.child 0 = splat ∧
      post.child 1 = .node list ∧ Legacy.Node.Lists elements (some list)

mutual

def GroupOutline.Encoded : GroupOutline → Node → Prop
  | .mk lefts rest rights, n => ∃ value head ls rs, n.kind = .MASGN ∧ n.child 0 = .ofNode? value ∧
      n.child 1 = .ofNode? head ∧ Legacy.Node.Lists ls head ∧ TargetOutline.AllEncoded lefts ls ∧
      (n.child 2).Tail (GroupRest.child rest) rs ∧ TargetOutline.AllEncoded rights rs

def TargetOutline.AllEncoded : List TargetOutline → List Node → Prop
  | [], nodes => nodes = []
  | target :: targets, nodes => ∃ n ns,
      target.Encoded n ∧ TargetOutline.AllEncoded targets ns ∧ nodes = n :: ns

def TargetOutline.Encoded : TargetOutline → Node → Prop
  | .simple m, n => n = m
  | .group value, n => value.Encoded n

end

def TargetStyle.Admits : TargetStyle → Node → Prop
  | .parameter, n => n.kind = .LASGN ∨ n.kind = .DASGN
  | .assignment, n => n.kind.isSimpleAssignment = true

namespace TargetStyle

variable {style : TargetStyle} {n : Node}

theorem Admits.simple (h : style.Admits n) : TargetGroup.simple style n = .ok n := by
  cases style with
  | parameter =>
    have hkind : n.kind ∈ [.DASGN, .LASGN] := by simpa [Admits, or_comm] using h
    exact Legacy.Node.expectKind_eq_ok_iff.mpr ⟨hkind, rfl⟩
  | assignment =>
    have hkind : n.kind.isSimpleAssignment = true := h
    simp [TargetGroup.simple, hkind, pure_eq_ok_iff]

theorem Admits.kind_ne (h : style.Admits n) : n.kind ≠ .MASGN ∧ n.kind ≠ .POSTARG := by
  have hassignment : n.kind.isSimpleAssignment = true := by
    cases style with
    | parameter => obtain h | h := h <;> rw [h] <;> rfl
    | assignment => exact h
  constructor
  all_goals
    intro hkind
    rw [hkind] at hassignment
    cases hassignment

end TargetStyle

/-! Reading. -/

namespace Legacy.Node

variable {n : Node} {rest : Option GroupRest}

theorem restSlot_of_child {i : Nat} (h : n.child i = GroupRest.child rest) :
    n.restSlot i = .ok (GroupRest.slot rest) := by
  match rest with
  | none => simp [restSlot, h, GroupRest.child, GroupRest.slot, pure_eq_ok_iff]
  | some .anonymous => simp [restSlot, h, GroupRest.child, GroupRest.slot, pure_eq_ok_iff]
  | some (.named m) =>
    have hnode : n.node i = .ok m := node_eq_ok_iff.mpr h
    simp only [restSlot, h, GroupRest.child, GroupRest.slot, hnode]
    rfl

theorem multiAssignShape_of_slots {value head : Option Node} {elements : List Node}
    (hvalue : n.child 0 = .ofNode? value) (hhead : n.child 1 = .ofNode? head)
    (htail : (n.child 2).Tail (GroupRest.child rest) elements)
    (hrest : ∀ m ∈ GroupRest.leaves rest, m.kind ≠ .POSTARG) :
    ∃ posts, n.multiAssignShape = .ok (.multiAssign value head (GroupRest.slot rest) posts) ∧
      Lists elements posts := by
  obtain ⟨hslot, rfl⟩ | ⟨post, list, hslot, hpost, hsplat, hposts, hlist⟩ := htail
  · refine ⟨none, ?_, rfl⟩
    have hread : n.restSlot 2 = .ok (GroupRest.slot rest) := restSlot_of_child hslot
    simp only [multiAssignShape, node?_eq_ok_iff.mpr hvalue, node?_eq_ok_iff.mpr hhead, hread]
    match rest with
    | none => simp only [hslot, GroupRest.child]; rfl
    | some .anonymous => simp only [hslot, GroupRest.child]; rfl
    | some (.named m) =>
      have hm : m.kind ≠ .POSTARG := hrest m (by simp [GroupRest.leaves])
      simp only [hslot, GroupRest.child, hm]
      rfl
  · refine ⟨some list, ?_, hlist⟩
    simp only [multiAssignShape, node?_eq_ok_iff.mpr hvalue, node?_eq_ok_iff.mpr hhead, hslot,
      hpost, restSlot_of_child hsplat, node_eq_ok_iff.mpr hposts]
    rfl

end Legacy.Node

namespace TargetGroup

variable {style : TargetStyle} {n : Node}

theorem targetsOf_of_lists {inner : Node → Result TargetGroup} {elements : List Node}
    {list : Option Node} (h : Legacy.Node.Lists elements list) :
    targetsOf inner style list = elements.mapM (targetOf inner style) := by
  cases list with
  | none =>
    have hnone : elements = [] := h
    rw [hnone]
    rfl
  | some list =>
    obtain ⟨hkind, hchildren⟩ := h
    have hlist : listElements list = .ok elements := by
      rw [listElements, Legacy.Node.expectKind_of_kind hkind]
      apply Legacy.Node.nodesAt_eq_ok_iff.mpr
      rw [List.drop_zero, hchildren]
    rw [targetsOf, hlist]
    rfl

theorem restOf_slot {rest : Option GroupRest} (h : ∀ m ∈ GroupRest.leaves rest, style.Admits m) :
    restOf style (GroupRest.slot rest) = .ok rest := by
  match rest with
  | none => rfl
  | some .anonymous => rfl
  | some (.named m) =>
    have hm : style.Admits m := h m (by simp [GroupRest.leaves])
    rw [GroupRest.slot, restOf, hm.simple]
    rfl

theorem ofNode_of_shape {value head posts : Option Node} {rest : Legacy.RestSlot}
    (hkind : n.kind = .MASGN) (hshape : n.shape = .ok (.multiAssign value head rest posts)) :
    ofNode style n = (do
      let lefts ← targetsOf (ofNode style) style head
      let rest ← restOf style rest
      let rights ← targetsOf (ofNode style) style posts
      pure (.mk n lefts rest rights)) := by
  -- The bound is high enough for every group inside.
  obtain ⟨bound, hbound⟩ := Nat.exists_eq_add_one.mpr n.height_pos
  have hclosed := Legacy.Node.closed_height_le bound
  have hbelow : n.Below (·.height ≤ bound) := by
    intro m hm
    have := Legacy.Node.height_lt_of_mem_children hm
    omega
  have hinner (m : Node) (hm : m.height ≤ bound) : ofNodeWithin bound style m = ofNode style m :=
    ofNodeWithin_eq ⟨hm, Nat.le_refl _⟩
  obtain ⟨_, hhead, _, hposts⟩ := hbelow.shape hclosed _ hshape
  rw [ofNode, hbound, ofNodeWithin, Legacy.Node.expectKind_of_kind hkind]
  show n.shape >>= _ = _
  rw [hshape]
  show (targetsOf (ofNodeWithin bound style) style head >>= _) = _
  rw [targetsOf_congr hclosed hinner hhead, targetsOf_congr hclosed hinner hposts]

end TargetGroup

theorem GroupOutline.shape_of_encoded {style : TargetStyle} {lefts rights : List TargetOutline}
    {rest : Option GroupRest} {n : Node} (h : (GroupOutline.mk lefts rest rights).Encoded n)
    (hadmits : ∀ m ∈ (GroupOutline.mk lefts rest rights).leaves, style.Admits m) :
    n.kind = .MASGN ∧ ∃ value head posts ls rs,
      n.shape = .ok (.multiAssign value head (GroupRest.slot rest) posts) ∧
        Legacy.Node.Lists ls head ∧ TargetOutline.AllEncoded lefts ls ∧
        Legacy.Node.Lists rs posts ∧ TargetOutline.AllEncoded rights rs := by
  rw [GroupOutline.Encoded] at h
  obtain ⟨value, head, ls, rs, hkind, hvalue, hhead, hls, hlefts, htail, hrights⟩ := h
  obtain ⟨_, hrest, _⟩ := GroupOutline.forall_mem_leaves.mp hadmits
  have hpost (m : Node) (hm : m ∈ GroupRest.leaves rest) : m.kind ≠ .POSTARG :=
    (hrest m hm).kind_ne.2
  obtain ⟨posts, hshape, hposts⟩ :=
    Legacy.Node.multiAssignShape_of_slots hvalue hhead htail hpost
  refine ⟨hkind, value, head, posts, ls, rs, ?_, hls, hlefts, hposts, hrights⟩
  rw [Legacy.Node.shape, hkind]
  exact hshape

mutual

theorem GroupOutline.ofNode_returns {style : TargetStyle} : (d : GroupOutline) → {n : Node} →
    d.Encoded n → (∀ m ∈ d.leaves, style.Admits m) →
      Returns (TargetGroup.ofNode style n) fun group => group.node = n ∧ group.outline = d
  | .mk lefts rest rights, n, h, hadmits => by
    obtain ⟨hkind, value, head, posts, ls, rs, hshape, hls, hlefts, hrs, hrights⟩ :=
      GroupOutline.shape_of_encoded h hadmits
    obtain ⟨hleft, hrest, hright⟩ := GroupOutline.forall_mem_leaves.mp hadmits
    have hleft := TargetOutline.mapM_targetOf_returns lefts hlefts hleft
    have hright := TargetOutline.mapM_targetOf_returns rights hrights hright
    rw [TargetGroup.ofNode_of_shape hkind hshape, TargetGroup.targetsOf_of_lists hls,
      TargetGroup.targetsOf_of_lists hrs]
    refine .bind hleft fun left hleft => .after (TargetGroup.restOf_slot hrest) ?_
    refine .bind hright fun right hright => .pure ⟨rfl, ?_⟩
    rw [TargetGroup.outline, hleft, hright]

theorem TargetOutline.mapM_targetOf_returns {style : TargetStyle} :
    (targets : List TargetOutline) → {nodes : List Node} →
    TargetOutline.AllEncoded targets nodes →
    (∀ m ∈ TargetOutline.leavesOf targets, style.Admits m) →
      Returns (nodes.mapM (TargetGroup.targetOf (TargetGroup.ofNode style) style))
        (Target.outlines · = targets)
  | [], nodes, h, _ => by
    rw [TargetOutline.AllEncoded] at h
    rw [h, List.mapM_nil]
    refine .pure ?_
    rw [Target.outlines]
  | target :: targets, nodes, h, hadmits => by
    rw [TargetOutline.AllEncoded] at h
    rw [TargetOutline.leavesOf] at hadmits
    obtain ⟨n, ns, hn, hns, rfl⟩ := h
    rw [List.mapM_cons]
    refine .bind (TargetOutline.targetOf_returns target hn fun m hm => hadmits m (by simp [hm]))
      fun found hfound => ?_
    refine .bind (TargetOutline.mapM_targetOf_returns targets hns fun m hm =>
      hadmits m (by simp [hm])) fun others hothers => .pure ?_
    rw [Target.outlines, hfound, hothers]

theorem TargetOutline.targetOf_returns {style : TargetStyle} : (target : TargetOutline) →
    {n : Node} → target.Encoded n → (∀ m ∈ target.leaves, style.Admits m) →
      Returns (TargetGroup.targetOf (TargetGroup.ofNode style) style n) (·.outline = target)
  | .simple m, n, h, hadmits => by
    rw [TargetOutline.Encoded] at h
    rw [TargetOutline.leaves] at hadmits
    subst h
    have hn : style.Admits n := hadmits n (by simp)
    rw [TargetGroup.targetOf, if_neg hn.kind_ne.1, hn.simple]
    refine .pure ?_
    rw [Target.outline]
  | .group value, n, h, hadmits => by
    rw [TargetOutline.Encoded] at h
    rw [TargetOutline.leaves] at hadmits
    have hkind : n.kind = .MASGN := by
      obtain ⟨lefts, rest, rights⟩ := value
      exact (GroupOutline.shape_of_encoded h hadmits).1
    rw [TargetGroup.targetOf, if_pos hkind]
    refine .bind (value.ofNode_returns h hadmits) fun group hgroup => .pure ?_
    rw [Target.outline, hgroup.2]

end

/-! Every destructuring can be written. -/

theorem Legacy.Node.lists_listSlot (elements : List Node) (position : Position) :
    Lists elements (Layout.listSlot elements position) := by
  cases elements with
  | nil => rfl
  | cons m ms => exact ⟨rfl, children_list (m :: ms) position⟩

theorem Legacy.Child.tail_tailSlot (splat : Child) (elements : List Node) (p q : Position) :
    (Layout.tailSlot splat (Layout.listSlot elements p) q).Tail splat elements := by
  cases elements with
  | nil => exact .inl ⟨rfl, rfl⟩
  | cons m ms =>
    exact .inr ⟨_, _, rfl, rfl, rfl, rfl, Legacy.Node.lists_listSlot (m :: ms) p⟩

mutual

def GroupOutline.toNode : GroupOutline → Node
  | .mk lefts rest rights =>
    Legacy.Build.multiAssign none (Layout.listSlot (TargetOutline.toNodes lefts) default)
      (Layout.tailSlot (GroupRest.child rest)
        (Layout.listSlot (TargetOutline.toNodes rights) default) default) default

def TargetOutline.toNodes : List TargetOutline → List Node
  | [] => []
  | target :: targets => target.toNode :: TargetOutline.toNodes targets

def TargetOutline.toNode : TargetOutline → Node
  | .simple n => n
  | .group value => value.toNode

end

mutual

theorem GroupOutline.encoded_toNode : (d : GroupOutline) → d.Encoded d.toNode
  | .mk lefts rest rights => by
    rw [GroupOutline.Encoded, GroupOutline.toNode]
    exact ⟨none, _, _, _, rfl, rfl, rfl, Legacy.Node.lists_listSlot _ _,
      TargetOutline.allEncoded_toNodes lefts, Legacy.Child.tail_tailSlot _ _ _ _,
      TargetOutline.allEncoded_toNodes rights⟩

theorem TargetOutline.allEncoded_toNodes : (targets : List TargetOutline) →
    TargetOutline.AllEncoded targets (TargetOutline.toNodes targets)
  | [] => by
    rw [TargetOutline.AllEncoded, TargetOutline.toNodes]
  | target :: targets => by
    rw [TargetOutline.AllEncoded, TargetOutline.toNodes]
    exact ⟨_, _, target.encoded_toNode, TargetOutline.allEncoded_toNodes targets, rfl⟩

theorem TargetOutline.encoded_toNode : (target : TargetOutline) → target.Encoded target.toNode
  | .simple n => by
    rw [TargetOutline.Encoded, TargetOutline.toNode]
  | .group value => by
    rw [TargetOutline.Encoded, TargetOutline.toNode]
    exact value.encoded_toNode

end

/-! The tree. -/

/-- The name that an assignment gives a value to; that of a constant path stands behind the path. -/
def Legacy.Node.targetName? (n : Node) : Option Name :=
  match n.child 0, n.child 1 with
  | .name name, _ => some name
  | .node _, .name name => some name
  | _, _ => none

namespace Canonical.Tree

mutual

/-- The targets of a destructuring from left to right. Any other tree is a target by itself. -/
def leafTargets : Tree → List Tree
  | .mk kind fields location =>
    if kind = .multiTargetNode ∨ kind = .splatNode then fieldTargets fields
    else [.mk kind fields location]

def fieldTargets : {fields : List Field} → Fields fields → List Tree
  | _, .nil => []
  | _, .cons value values => valueTargets value ++ fieldTargets values

def valueTargets : {sort : FieldSort} → Value sort → List Tree
  | _, .tree t => leafTargets t
  | _, .optTree (some t) => leafTargets t
  | _, .trees ts => leafTargetsOf ts
  | _, _ => []

def leafTargetsOf : List Tree → List Tree
  | [] => []
  | t :: ts => leafTargets t ++ leafTargetsOf ts

end

theorem leafTargets_multiTarget (lefts : List Tree) (rest : Option Tree) (rights : List Tree)
    (location : Span) : (multiTarget lefts rest rights location).leafTargets =
      leafTargetsOf lefts ++ (rest.elim [] leafTargets ++ leafTargetsOf rights) := by
  cases rest <;> simp [multiTarget, leafTargets, fieldTargets, valueTargets]

theorem leafTargets_splat (expression : Option Tree) (location : Span) :
    (splat expression location).leafTargets = expression.elim [] leafTargets := by
  cases expression <;> simp [splat, leafTargets, fieldTargets, valueTargets]

/-- A target by itself, for the variable or constant of the assignment. -/
structure Targets (t : Tree) (n : Node) : Prop where
  isLeaf : t.leafTargets = [t]
  sameName : ∃ name, n.targetName? = some name ∧ t.name? = some name

end Canonical.Tree

namespace Legacy.Node

variable {n : Node} {name : Name}

theorem child_of_assignShape {value : Option Node} {required : Bool}
    (h : n.assignShape = .ok (.assign name value required)) : n.child 0 = .name name := by
  obtain ⟨found, hfound, h⟩ := bind_eq_ok_iff.mp h
  split at h
  · cases h
    exact name_eq_ok_iff.mp hfound
  · obtain ⟨_, _, h⟩ := bind_eq_ok_iff.mp h
    cases h
    exact name_eq_ok_iff.mp hfound

theorem child_of_assign {value : Option Node} {required : Bool}
    (h : n.shape = .ok (.assign name value required)) : n.child 0 = .name name := by
  have hkind := kind_mem_kinds _ h
  simp only [Shape.kinds, List.mem_cons, List.not_mem_nil, or_false] at hkind
  obtain hkind | hkind | hkind | hkind | hkind | hkind := hkind
  case inr.inr.inr.inr.inr =>
    simp only [Node.shape, hkind, constAssignShape] at h
    split at h
    · obtain ⟨_, _, h⟩ := bind_eq_ok_iff.mp h
      obtain ⟨_, _, h⟩ := bind_eq_ok_iff.mp h
      cases h
    · exact child_of_assignShape h
  all_goals
    simp only [Node.shape, hkind] at h
    exact child_of_assignShape h

theorem child_of_constPathAssign {path : Node} {value : Option Node}
    (h : n.shape = .ok (.constPathAssign path name value)) :
    n.child 0 = .node path ∧ n.child 1 = .name name := by
  have hkind := List.mem_singleton.mp (kind_mem_kinds _ h)
  simp only [Node.shape, hkind, constAssignShape] at h
  split at h
  · next hchild =>
    obtain ⟨_, hname, h⟩ := bind_eq_ok_iff.mp h
    obtain ⟨_, _, h⟩ := bind_eq_ok_iff.mp h
    cases h
    exact ⟨hchild, name_eq_ok_iff.mp hname⟩
  · obtain ⟨_, _, h⟩ := bind_eq_ok_iff.mp h
    split at h
    · cases h
    · obtain ⟨_, _, h⟩ := bind_eq_ok_iff.mp h
      cases h

end Legacy.Node

namespace Context

variable {c : Context} {style : TargetStyle} {n : Node} {t : Tree}

theorem targets_of_assigned? {name : Name} {var : Canonical.Variable} (location : Span)
    (hchild : n.child 0 = .name name) (hvar : c.assigned? n.kind name = some var) :
    (Tree.target location var).Targets n := by
  have hname : n.targetName? = some name := by simp [Legacy.Node.targetName?, hchild]
  have htarget : (Tree.target location var).name? = some name := by
    unfold assigned? at hvar
    split at hvar
    all_goals cases hvar
    all_goals simp [Tree.target, Tree.name?, Fields.get?, Value.name?]
  refine ⟨?_, name, hname, htarget⟩
  cases var <;> simp [Tree.target, Tree.leafTargets]

theorem targets_of_assignmentTarget (h : c.assignmentTarget n = .ok t) : t.Targets n := by
  obtain ⟨location, _, h⟩ := bind_eq_ok_iff.mp h
  obtain ⟨shape, hshape, h⟩ := bind_eq_ok_iff.mp h
  split at h
  · next name _ _ =>
    have hchild := Legacy.Node.child_of_assign hshape
    split at h
    · next var hvar =>
      cases h
      exact targets_of_assigned? location hchild hvar
    · cases h
  · next path name _ =>
    obtain ⟨hpath, hname⟩ := Legacy.Node.child_of_constPathAssign hshape
    obtain ⟨parent, _, h⟩ := bind_eq_ok_iff.mp h
    cases h
    refine ⟨by simp [Tree.constantPathTarget, Tree.leafTargets], name, ?_, ?_⟩
    · simp [Legacy.Node.targetName?, hpath, hname]
    · simp [Tree.constantPathTarget, Tree.name?, Fields.get?, Value.name?]
  · split at h <;> cases h

theorem targets_of_simpleTarget (h : c.simpleTarget style n = .ok t) : t.Targets n := by
  cases style with
  | assignment => exact targets_of_assignmentTarget h
  | parameter =>
    obtain ⟨name, hname, h⟩ := bind_eq_ok_iff.mp h
    cases h
    refine ⟨by simp [Tree.requiredParameter, Tree.leafTargets], name, ?_, ?_⟩
    · simp [Legacy.Node.targetName?, Legacy.Node.name_eq_ok_iff.mp hname]
    · simp [Tree.requiredParameter, Tree.name?, Fields.get?, Value.name?]

end Context

def GroupRest.Nested : Option GroupRest → Option Tree → Prop
  | none, rest => rest = none
  | some .anonymous, rest => ∃ location, rest = some (.splat none location)
  | some (.named n), rest => ∃ t location, rest = some (.splat (some t) location) ∧ t.Targets n

mutual

/-- The tree is nested as the destructuring is, with a target in the place of every assignment. -/
def GroupOutline.Nested : GroupOutline → Tree → Prop
  | .mk lefts rest rights, t => ∃ ls r rs location, t = .multiTarget ls r rs location ∧
      TargetOutline.AllNested lefts ls ∧ GroupRest.Nested rest r ∧
      TargetOutline.AllNested rights rs

def TargetOutline.AllNested : List TargetOutline → List Tree → Prop
  | [], trees => trees = []
  | target :: targets, trees => ∃ t ts,
      target.Nested t ∧ TargetOutline.AllNested targets ts ∧ trees = t :: ts

def TargetOutline.Nested : TargetOutline → Tree → Prop
  | .simple n, t => t.Targets n
  | .group value, t => value.Nested t

end

namespace Context

variable {c : Context} {style : TargetStyle}

theorem restTarget_nested (rest : Option GroupRest) :
    Yields (c.restTarget style rest) (GroupRest.Nested rest) := by
  match rest with
  | none => exact .pure rfl
  | some .anonymous => exact .pure ⟨_, rfl⟩
  | some (.named n) => exact .after fun t ht => .pure ⟨t, _, rfl, targets_of_simpleTarget ht⟩

mutual

theorem targetGroup_nested :
    (group : TargetGroup) → Yields (c.targetGroup style group) group.outline.Nested
  | .mk n lefts rest rights => by
    rw [targetGroup, TargetGroup.outline]
    refine .bind (targets_nested lefts) fun ls hls => ?_
    refine .bind (restTarget_nested rest) fun r hr => ?_
    refine .bind (targets_nested rights) fun rs hrs => .after fun location _ => .pure ?_
    rw [GroupOutline.Nested]
    exact ⟨ls, r, rs, location, rfl, hls, hr, hrs⟩

theorem targets_nested : (targets : List Target) →
    Yields (c.targets style targets) (TargetOutline.AllNested (Target.outlines targets))
  | [] => by
    rw [Context.targets, Target.outlines]
    refine .pure ?_
    rw [TargetOutline.AllNested]
  | target :: targets => by
    rw [Context.targets, Target.outlines]
    refine .bind (target_nested target) fun t ht => ?_
    refine .bind (targets_nested targets) fun ts hts => .pure ?_
    rw [TargetOutline.AllNested]
    exact ⟨t, ts, ht, hts, rfl⟩

theorem target_nested :
    (target : Target) → Yields (c.target style target) target.outline.Nested
  | .simple n => by
    rw [Context.target, Target.outline]
    intro t ht
    rw [TargetOutline.Nested]
    exact targets_of_simpleTarget ht
  | .group value => by
    rw [Context.target, Target.outline]
    intro t ht
    rw [TargetOutline.Nested]
    exact targetGroup_nested value t ht

end

end Context

/-! The targets of a tree with that nesting are those of the assignments, in order. -/

abbrev Legacy.Node.AllTargeted (nodes : List Node) (trees : List Tree) : Prop :=
  List.Forall₂ (fun n t => t.Targets n) nodes trees

theorem GroupRest.allTargeted (rest : Option GroupRest) {r : Option Tree}
    (h : GroupRest.Nested rest r) :
    Legacy.Node.AllTargeted (GroupRest.leaves rest) (r.elim [] Tree.leafTargets) := by
  match rest with
  | none =>
    cases h
    exact .nil
  | some .anonymous =>
    obtain ⟨location, rfl⟩ := h
    rw [Option.elim_some, Tree.leafTargets_splat]
    exact .nil
  | some (.named n) =>
    obtain ⟨t, location, rfl, ht⟩ := h
    rw [Option.elim_some, Tree.leafTargets_splat, Option.elim_some, ht.isLeaf]
    exact .cons ht .nil

mutual

theorem GroupOutline.allTargeted : (d : GroupOutline) → {t : Tree} → d.Nested t →
    Legacy.Node.AllTargeted d.leaves t.leafTargets
  | .mk lefts rest rights, t, h => by
    rw [GroupOutline.Nested] at h
    obtain ⟨ls, r, rs, location, rfl, hls, hr, hrs⟩ := h
    rw [GroupOutline.leaves, Tree.leafTargets_multiTarget, List.append_assoc]
    have hrest := GroupRest.allTargeted rest hr
    exact List.rel_append (TargetOutline.allTargetedOf lefts hls)
      (List.rel_append hrest (TargetOutline.allTargetedOf rights hrs))

theorem TargetOutline.allTargetedOf : (targets : List TargetOutline) → {trees : List Tree} →
    TargetOutline.AllNested targets trees →
      Legacy.Node.AllTargeted (TargetOutline.leavesOf targets) (Tree.leafTargetsOf trees)
  | [], trees, h => by
    rw [TargetOutline.AllNested] at h
    rw [h, TargetOutline.leavesOf, Tree.leafTargetsOf]
    exact .nil
  | target :: targets, trees, h => by
    rw [TargetOutline.AllNested] at h
    obtain ⟨t, ts, ht, hts, rfl⟩ := h
    rw [TargetOutline.leavesOf, Tree.leafTargetsOf]
    exact List.rel_append (target.allTargeted ht) (TargetOutline.allTargetedOf targets hts)

theorem TargetOutline.allTargeted : (target : TargetOutline) → {t : Tree} → target.Nested t →
    Legacy.Node.AllTargeted target.leaves t.leafTargets
  | .simple n, t, h => by
    rw [TargetOutline.Nested] at h
    rw [TargetOutline.leaves, h.isLeaf]
    exact .cons h .nil
  | .group value, t, h => by
    rw [TargetOutline.Nested] at h
    rw [TargetOutline.leaves]
    exact value.allTargeted h

end

/-- A destructuring is read at every depth as it was written. It binds as many names as it has
assignments, and what it becomes has one target for each of them, nested and named as they are. -/
theorem GroupOutline.read_as_written (style : TargetStyle) (d : GroupOutline)
    (hadmits : ∀ m ∈ d.leaves, style.Admits m) :
    (∃ n, d.Encoded n) ∧ ∀ n, d.Encoded n → ∃ group, TargetGroup.ofNode style n = .ok group ∧
      group.node = n ∧ group.outline = d ∧ group.bindingCount = d.leaves.length ∧
      ∀ (c : Context) (t : Tree), c.targetGroup style group = .ok t →
        d.Nested t ∧ t.leafTargets.length = group.bindingCount ∧
          List.Forall₂ (fun m leaf => ∃ name, m.targetName? = some name ∧ leaf.name? = some name)
            d.leaves t.leafTargets := by
  refine ⟨⟨d.toNode, d.encoded_toNode⟩, ?_⟩
  intro n hn
  obtain ⟨group, hgroup, hnode, houtline⟩ := d.ofNode_returns hn hadmits
  have hcount : group.bindingCount = d.leaves.length := by
    rw [group.bindingCount_eq_length, houtline]
  refine ⟨group, hgroup, hnode, houtline, hcount, ?_⟩
  intro c t ht
  have hnested : d.Nested t := houtline ▸ Context.targetGroup_nested group t ht
  have htargets := d.allTargeted hnested
  refine ⟨hnested, ?_, htargets.imp fun _ _ h => h.sameName⟩
  rw [hcount, htargets.length_eq]

/-- `a, (@b, *$c), *, D::E`. -/
def GroupOutline.nestedPair : GroupOutline :=
  let assign (kind : Legacy.Kind) (name : String) : Node :=
    Legacy.Build.assign kind ⟨name⟩ none default
  let path : Node := .make .COLON2 [.node (Legacy.Build.named .CONST ⟨"D"⟩ default), .name ⟨"E"⟩]
    default
  .mk
    [.simple (assign .LASGN "a"),
      .group (.mk [.simple (assign .IASGN "@b")] (some (.named (assign .GASGN "$c"))) [])]
    (some .anonymous)
    [.simple (.make .CDECL [.node path, .name ⟨"E"⟩, .nil] default)]

theorem GroupOutline.read_as_written_nestedPair :
    (∀ m ∈ nestedPair.leaves, TargetStyle.assignment.Admits m) ∧
      nestedPair.Encoded nestedPair.toNode ∧
      ∃ group t, TargetGroup.ofNode .assignment nestedPair.toNode = .ok group ∧
        group.outline = nestedPair ∧ group.bindingCount = 4 ∧
        (Context.whole ⟨[], 0⟩ {} []).targetGroup .assignment group = .ok t ∧
        nestedPair.Nested t ∧ t.leafTargets.length = 4 := by
  have hadmits : ∀ m ∈ nestedPair.leaves, TargetStyle.assignment.Admits m := by
    have hleaves : nestedPair.leaves.all (·.kind.isSimpleAssignment) = true := rfl
    exact fun m hm => List.all_eq_true.mp hleaves m hm
  obtain ⟨_, hread⟩ := GroupOutline.read_as_written .assignment nestedPair hadmits
  have hencoded := nestedPair.encoded_toNode
  obtain ⟨group, hgroup, _, houtline, hcount, hconvert⟩ := hread nestedPair.toNode hencoded
  have hfour : group.bindingCount = 4 := hcount
  obtain ⟨t, ht⟩ : ∃ t, (TargetGroup.ofNode .assignment nestedPair.toNode >>=
      (Context.whole ⟨[], 0⟩ {} []).targetGroup .assignment) = .ok t := ⟨_, rfl⟩
  rw [hgroup] at ht
  obtain ⟨hnested, hlength, _⟩ := hconvert _ t ht
  exact ⟨hadmits, hencoded, group, t, hgroup, houtline, hfour, ht, hnested, hlength.trans hfour⟩

end RubyTree
