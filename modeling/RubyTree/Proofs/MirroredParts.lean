import RubyTree.Arguments
import RubyTree.Conversion.Context
import RubyTree.Parameters
import RubyTree.Proofs.Depth
import RubyTree.Proofs.MirroredNodes

/-! Argument lists, destructurings, parameter lists and bodies of mirrored nodes are laid out alike.
What is converted later is related by `D`; nodes kept for their location only correspond. -/

namespace RubyTree

open Legacy (Node)
open Legacy.Node (Mirroring within_max_left within_max_right)

variable {N O D : Node → Node → Prop} {q : Accord} {n n' : Node}

namespace Argument

inductive Mirrored (N D : Node → Node → Prop) : Argument → Argument → Prop where
  | positional {m m' : Node} (h : D m m') : Mirrored N D (.positional m) (.positional m')
  | splat {value value' : Node} {wrapper wrapper' : Option Node} (hvalue : D value value')
      (hwrapper : Option.Rel N wrapper wrapper') :
      Mirrored N D (.splat value wrapper) (.splat value' wrapper')
  | block {value value' : Option Node} {pass pass' : Node} (hvalue : Option.Rel D value value')
      (hpass : N pass pass') : Mirrored N D (.block value pass) (.block value' pass')

theorem Mirrored.isSplat {a a' : Argument} (h : a.Mirrored N D a') : a'.isSplat = a.isSplat := by
  cases h with
  | positional _ => rfl
  | splat _ _ => rfl
  | block _ _ => rfl

theorem ofElement_mirrored (hD : Mirroring N O D) (hn : D n n') :
    RubyTree.Mirrored N q (Mirrored N D) (ofElement n) (ofElement n') := by
  have hb := hD n n' hn
  refine .bind (hb.shape hD) fun shape shape' hshape => ?_
  cases hshape with
  | wrapper h =>
    cases h with
    | none => exact .pure (.positional hn)
    | some hvalue =>
      dsimp only
      rw [hb.kind]
      split
      · exact .pure (.splat hvalue (.some hb.self))
      · exact .pure (.positional hn)
  | _ => exact .pure (.positional hn)

theorem ofFront_mirrored {inner inner' : Node → Result (List Argument)}
    (h : ∀ m m', D m m' →
      RubyTree.Mirrored N q (List.Forall₂ (Mirrored N D)) (inner m) (inner' m'))
    {front front' : Option Node} (hfront : Option.Rel D front front') :
    RubyTree.Mirrored N q (List.Forall₂ (Mirrored N D)) (ofFront inner front)
      (ofFront inner' front') := by
  cases hfront with
  | none => exact .pure .nil
  | some hm => exact h _ _ hm

theorem ofNodeWithin_mirrored (hD : Mirroring N O D) (bound : Nat) (outermost : Bool)
    (hn : n.Mirrored N (n.Inside O D) n') :
    RubyTree.Mirrored N q (List.Forall₂ (Mirrored N D)) (ofNodeWithin bound outermost n)
      (ofNodeWithin bound outermost n') := by
  induction bound generalizing outermost n n' with
  | zero => exact .unexpected hn.self rfl
  | succ bound ih =>
    have hfront : ∀ left left', Option.Rel D left left' →
        RubyTree.Mirrored N q (List.Forall₂ (Mirrored N D))
          (ofFront (ofNodeWithin bound false) left) (ofFront (ofNodeWithin bound false) left') :=
      fun left left' h => ofFront_mirrored (fun m m' hm => ih false (hD m m' hm)) h
    unfold ofNodeWithin
    refine .bind (hn.shape hD) fun shape shape' hshape => ?_
    cases hshape with
    | list h => exact .mapM h fun _ _ hm => ofElement_mirrored hD hm
    | wrapper h =>
      dsimp only
      rw [hn.kind]
      split
      · cases h with
        | none => exact .unexpected hn.self rfl
        | some hvalue => exact .pure (.cons (.splat hvalue (.some hn.self)) .nil)
      · exact .unexpected hn.self rfl
    | @pair left left' right right' hleft hright =>
      have hplain : n.kind.isFlipFlop = false →
          Option.Rel D left left' ∧ Option.Rel D right right' := by
        intro hkind
        rw [Legacy.Node.inside_of_not_isFlipFlop hkind] at hleft hright
        exact ⟨hleft, hright⟩
      dsimp only
      rw [hn.kind]
      split
      · next hkind =>
        obtain ⟨hleft, hright⟩ := hplain (by rw [hkind]; rfl)
        refine .bind (hfront left left' hleft) fun before before' hbefore => ?_
        cases hright with
        | none => exact .unexpected hn.self rfl
        | @some tail tail' htail =>
          have hb := hD tail tail' htail
          dsimp only
          rw [hb.kind]
          split
          · refine .bind (ih false hb) fun after after' hafter => .pure ?_
            exact List.rel_append hbefore hafter
          · exact .pure (List.rel_append hbefore (.cons (.splat htail .none) .nil))
      · next hkind =>
        obtain ⟨hleft, hright⟩ := hplain (by rw [hkind]; rfl)
        refine .bind (hfront left left' hleft) fun before before' hbefore => ?_
        cases hright with
        | none => exact .unexpected hn.self rfl
        | some hlast => exact .pure (List.rel_append hbefore (.cons (.positional hlast) .nil))
      · next hkind =>
        obtain ⟨hleft, hright⟩ := hplain (by rw [hkind]; rfl)
        split
        · refine .bind (hfront left left' hleft) fun before before' hbefore => .pure ?_
          exact List.rel_append hbefore (.cons (.block hright hn.self) .nil)
        · exact .unexpected hn.self rfl
      · exact .unexpected hn.self rfl
    | _ => exact .unexpected hn.self rfl

theorem ofNode_mirrored (hD : Mirroring N O D) (hn : n.Mirrored N (n.Inside O D) n') :
    RubyTree.Mirrored N q (List.Forall₂ (Mirrored N D)) (ofNode n) (ofNode n') := by
  unfold ofNode
  rw [ofNodeWithin_eq (within_max_left n n'), ofNodeWithin_eq (within_max_right n n')]
  exact ofNodeWithin_mirrored hD _ true hn

theorem isSplat_mirrored {arguments arguments' : List Argument}
    (h : List.Forall₂ (Mirrored N D) arguments arguments') :
    arguments'.map isSplat = arguments.map isSplat := by
  induction h with
  | nil => rfl
  | cons ha _ ih => simp only [List.map_cons, ha.isSplat, ih]

def PassedMirrored (N D : Node → Node → Prop) (p p' : Option Node × Node) : Prop :=
  Option.Rel D p.1 p'.1 ∧ N p.2 p'.2

theorem splitBlock_mirrored {arguments arguments' : List Argument}
    (h : List.Forall₂ (Mirrored N D) arguments arguments') :
    List.Forall₂ (Mirrored N D) (splitBlock arguments).1 (splitBlock arguments').1 ∧
      Option.Rel (PassedMirrored N D) (splitBlock arguments).2 (splitBlock arguments').2 := by
  induction h with
  | nil => exact ⟨.nil, .none⟩
  | @cons a a' rest rest' ha hrest ih =>
    -- A block is split off only when nothing stands behind it.
    have hkeep :
        List.Forall₂ (Mirrored N D) (a :: (splitBlock rest).1) (a' :: (splitBlock rest').1) ∧
          Option.Rel (PassedMirrored N D) (splitBlock rest).2 (splitBlock rest').2 :=
      ⟨.cons ha ih.1, ih.2⟩
    cases ha with
    | positional _ => simpa only [splitBlock] using hkeep
    | splat _ _ => simpa only [splitBlock] using hkeep
    | block hvalue hpass =>
      cases hrest with
      | nil => exact ⟨.nil, .some ⟨hvalue, hpass⟩⟩
      | cons _ _ => exact hkeep

end Argument

inductive GroupRest.Mirrored (D : Node → Node → Prop) : GroupRest → GroupRest → Prop where
  | named {n n' : Node} (h : D n n') : Mirrored D (.named n) (.named n')
  | anonymous : Mirrored D .anonymous .anonymous

mutual

inductive Target.Mirrored (N D : Node → Node → Prop) : Target → Target → Prop where
  | simple {n n' : Node} (h : D n n') : Target.Mirrored N D (.simple n) (.simple n')
  | group {g g' : TargetGroup} (h : TargetGroup.Mirrored N D g g') :
      Target.Mirrored N D (.group g) (.group g')

inductive TargetGroup.Mirrored (N D : Node → Node → Prop) : TargetGroup → TargetGroup → Prop where
  | mk {n n' : Node} {lefts lefts' rights rights' : List Target} {rest rest' : Option GroupRest}
      (self : N n n') (hlefts : Target.MirroredAll N D lefts lefts')
      (hrest : Option.Rel (GroupRest.Mirrored D) rest rest')
      (hrights : Target.MirroredAll N D rights rights') :
      TargetGroup.Mirrored N D (.mk n lefts rest rights) (.mk n' lefts' rest' rights')

inductive Target.MirroredAll (N D : Node → Node → Prop) : List Target → List Target → Prop where
  | nil : Target.MirroredAll N D [] []
  | cons {t t' : Target} {ts ts' : List Target} (head : Target.Mirrored N D t t')
      (tail : Target.MirroredAll N D ts ts') : Target.MirroredAll N D (t :: ts) (t' :: ts')

end

theorem Target.mirroredAll_of_forall₂ {ts ts' : List Target}
    (h : List.Forall₂ (Target.Mirrored N D) ts ts') : Target.MirroredAll N D ts ts' := by
  induction h with
  | nil => exact .nil
  | cons head _ ih => exact .cons head ih

namespace TargetGroup

theorem bindingCount_rest {rest rest' : Option GroupRest}
    (h : Option.Rel (GroupRest.Mirrored D) rest rest') :
    GroupRest.bindingCount rest' = GroupRest.bindingCount rest := by
  cases h with
  | none => rfl
  | some h =>
    cases h with
    | named _ => rfl
    | anonymous => rfl

mutual

theorem Mirrored.bindingCount :
    {g g' : TargetGroup} → g.Mirrored N D g' → g'.bindingCount = g.bindingCount
  | _, _, .mk _ lefts rest rights => by
    simp only [TargetGroup.bindingCount, bindingCountList_mirrored lefts, bindingCount_rest rest,
      bindingCountList_mirrored rights]

theorem bindingCountList_mirrored :
    {ts ts' : List Target} → Target.MirroredAll N D ts ts' →
      bindingCountList ts' = bindingCountList ts
  | _, _, .nil => rfl
  | _, _, .cons head tail => by
    simp only [bindingCountList, bindingCountTarget_mirrored head, bindingCountList_mirrored tail]

theorem bindingCountTarget_mirrored :
    {t t' : Target} → t.Mirrored N D t' → bindingCountTarget t' = bindingCountTarget t
  | _, _, .simple _ => rfl
  | _, _, .group h => by simp only [bindingCountTarget, Mirrored.bindingCount h]

end

theorem simple_mirrored (hD : Mirroring N O D) {style : TargetStyle} (hn : D n n') :
    RubyTree.Mirrored N q D (simple style n) (simple style n') := by
  have hb := hD n n' hn
  cases style with
  | parameter =>
    refine hb.expectKind.mono fun m m' hm => ?_
    obtain ⟨rfl, rfl, _⟩ := hm
    exact hn
  | assignment =>
    simp only [simple, hb.kind]
    split
    · exact .pure hn
    · split
      · next hkind => exact .notSupported hb.self (by rw [hkind]; rfl)
      · exact .unexpected hb.self rfl

theorem listElements_mirrored (hn : n.Mirrored N (n.Inside O D) n') :
    RubyTree.Mirrored N q (List.Forall₂ D) (listElements n) (listElements n') :=
  hn.ofKind fun hkind => (hn.opened (by rw [List.mem_singleton.mp hkind]; rfl)).nodesFrom

section

variable {inner : Node → Result TargetGroup} {style : TargetStyle}

theorem targetOf_mirrored (hD : Mirroring N O D)
    (h : ∀ m m', D m m' → RubyTree.Mirrored N q (Mirrored N D) (inner m) (inner m'))
    (hn : D n n') :
    RubyTree.Mirrored N q (Target.Mirrored N D) (targetOf inner style n)
      (targetOf inner style n') := by
  unfold targetOf
  rw [(hD n n' hn).kind]
  split
  · exact .bind (h n n' hn) fun _ _ hgroup => .pure (.group hgroup)
  · exact .bind (simple_mirrored hD hn) fun _ _ hnode => .pure (.simple hnode)

theorem targetsOf_mirrored (hD : Mirroring N O D)
    (h : ∀ m m', D m m' → RubyTree.Mirrored N q (Mirrored N D) (inner m) (inner m'))
    {list list' : Option Node} (hlist : Option.Rel D list list') :
    RubyTree.Mirrored N q (Target.MirroredAll N D) (targetsOf inner style list)
      (targetsOf inner style list') := by
  cases hlist with
  | none => exact .pure .nil
  | some hm =>
    refine .bind (listElements_mirrored (hD _ _ hm)) fun elements elements' helements => ?_
    exact (RubyTree.Mirrored.mapM helements fun _ _ he => targetOf_mirrored hD h he).mono
      fun _ _ => Target.mirroredAll_of_forall₂

theorem restOf_mirrored (hD : Mirroring N O D) {rest rest' : Legacy.RestSlot}
    (hrest : rest.Mirrored D rest') :
    RubyTree.Mirrored N q (Option.Rel (GroupRest.Mirrored D)) (restOf style rest)
      (restOf style rest') := by
  cases hrest with
  | absent => exact .pure .none
  | anonymous => exact .pure (.some .anonymous)
  | target h => exact .bind (simple_mirrored hD h) fun _ _ hm => .pure (.some (.named hm))

end

theorem ofNodeWithin_mirrored (hD : Mirroring N O D) (bound : Nat) (style : TargetStyle)
    (hn : n.Mirrored N (n.Inside O D) n') :
    RubyTree.Mirrored N q (Mirrored N D) (ofNodeWithin bound style n)
      (ofNodeWithin bound style n') := by
  induction bound generalizing n n' with
  | zero => exact .unexpected hn.self rfl
  | succ bound ih =>
    have hinner : ∀ m m', D m m' →
        RubyTree.Mirrored N q (Mirrored N D) (ofNodeWithin bound style m)
          (ofNodeWithin bound style m') :=
      fun m m' hm => ih (hD m m' hm)
    unfold ofNodeWithin
    refine hn.ofKind fun _ => .bind (hn.shape hD) fun shape shape' hshape => ?_
    cases hshape with
    | multiAssign _ hhead hrest hposts =>
      exact .bind (targetsOf_mirrored hD hinner hhead) fun _ _ hlefts =>
        .bind (restOf_mirrored hD hrest) fun _ _ hrest =>
        .bind (targetsOf_mirrored hD hinner hposts) fun _ _ hrights =>
        .pure (.mk hn.self hlefts hrest hrights)
    | _ => exact .unexpected hn.self rfl

theorem ofNode_mirrored (hD : Mirroring N O D) (style : TargetStyle)
    (hn : n.Mirrored N (n.Inside O D) n') :
    RubyTree.Mirrored N q (Mirrored N D) (ofNode style n) (ofNode style n') := by
  unfold ofNode
  rw [ofNodeWithin_eq (within_max_left n n'), ofNodeWithin_eq (within_max_right n n')]
  exact ofNodeWithin_mirrored hD _ style hn

end TargetGroup

inductive RequiredParameter.Mirrored (N D : Node → Node → Prop) :
    RequiredParameter → RequiredParameter → Prop where
  | name (s : Name) : Mirrored N D (.name s) (.name s)
  | group {g g' : TargetGroup} (h : g.Mirrored N D g') : Mirrored N D (.group g) (.group g')

structure OptionalParameter.Mirrored (D : Node → Node → Prop) (p p' : OptionalParameter) :
    Prop where
  name : p'.name = p.name
  value : D p.value p'.value

structure KeywordParameter.Mirrored (D : Node → Node → Prop) (p p' : KeywordParameter) :
    Prop where
  name : p'.name = p.name
  value : Option.Rel D p.value p'.value

structure Parameters.Mirrored (N D : Node → Node → Prop) (p p' : Parameters) : Prop where
  requireds : List.Forall₂ (RequiredParameter.Mirrored N D) p.requireds p'.requireds
  optionals : List.Forall₂ (OptionalParameter.Mirrored D) p.optionals p'.optionals
  rest : p'.rest = p.rest
  posts : List.Forall₂ (RequiredParameter.Mirrored N D) p.posts p'.posts
  keywords : List.Forall₂ (KeywordParameter.Mirrored D) p.keywords p'.keywords
  keywordRest : p'.keywordRest = p.keywordRest
  block : p'.block = p.block
  blockLocals : p'.blockLocals = p.blockLocals

theorem Legacy.Descriptor.Mirrored.isEmpty {d d' : Legacy.Descriptor} (h : d.Mirrored D d') :
    d'.isEmpty = d.isEmpty := by
  have hnone : ∀ {o o' : Option Node}, Option.Rel D o o' → o'.isNone = o.isNone := by
    rintro _ _ (_ | _) <;> rfl
  have hkeywordRest := h.keywordRest
  unfold Legacy.Descriptor.isEmpty
  rw [h.preCount, hnone h.preInit, hnone h.optionals, h.firstPost, h.postCount, hnone h.postInit,
    h.rest, hnone h.keywords, h.block]
  generalize d.keywordRest = rest at hkeywordRest
  generalize d'.keywordRest = rest' at hkeywordRest
  cases hkeywordRest <;> rfl

namespace Parameters

variable {table : Legacy.Table} {cursor : Nat}

theorem slots_mirrored (hn : N n n') {count : Nat} :
    RubyTree.Mirrored N q Eq (slots n table cursor count) (slots n' table cursor count) := by
  unfold slots
  split
  · exact .pure rfl
  · exact .unexpected hn rfl

theorem skipSlot_mirrored (hn : N n n') :
    RubyTree.Mirrored N q Eq (skipSlot n table cursor) (skipSlot n' table cursor) :=
  .same (slots_mirrored hn) fun _ => .pure rfl

theorem chainWithin_mirrored (hD : Mirroring N O D) {kind : Legacy.Kind} (bound : Nat)
    {link link' : Option Node} (h : Option.Rel D link link') :
    RubyTree.Mirrored N q (List.Forall₂ D) (chainWithin kind bound link)
      (chainWithin kind bound link') := by
  induction bound generalizing link link' with
  | zero =>
    cases h with
    | none => exact .pure .nil
    | some hm => exact .unexpected (hD _ _ hm).self rfl
  | succ bound ih =>
    cases h with
    | none => exact .pure .nil
    | some hm =>
      have hb := hD _ _ hm
      unfold chainWithin
      refine hb.ofKind fun _ => .bind (hb.shape hD) fun shape shape' hshape => ?_
      cases hshape with
      | paramLink hbody hnext =>
        exact .bind (ih hnext) fun _ _ hbodies => .pure (.cons hbody hbodies)
      | _ => exact .unexpected hb.self rfl

theorem chain_mirrored (hD : Mirroring N O D) {kind : Legacy.Kind} {link link' : Option Node}
    (h : Option.Rel D link link') :
    RubyTree.Mirrored N q (List.Forall₂ D) (chain kind link) (chain kind link') := by
  cases h with
  | none => exact .pure .nil
  | some hm =>
    simp only [chain]
    rw [chainWithin_eq (Legacy.Node.optional_some (within_max_left _ _)),
      chainWithin_eq (Legacy.Node.optional_some (within_max_right _ _))]
    exact chainWithin_mirrored hD _ (.some hm)

theorem groups_mirrored (hD : Mirroring N O D) {init init' : Option Node}
    (h : Option.Rel D init init') :
    RubyTree.Mirrored N q (List.Forall₂ (TargetGroup.Mirrored N D)) (groups init)
      (groups init') := by
  cases h with
  | none => exact .pure .nil
  | some hm =>
    have hb := hD _ _ hm
    refine .bind (hb.shape hD) fun shape shape' hshape => ?_
    cases hshape with
    | block hs => exact .mapM hs fun _ _ h => TargetGroup.ofNode_mirrored hD .parameter (hD _ _ h)
    | _ =>
      exact .bind (TargetGroup.ofNode_mirrored hD .parameter hb) fun _ _ hgroup =>
        .pure (.cons hgroup .nil)

theorem optionalsAt_mirrored (hD : Mirroring N O D) (hn : N n n') {links links' : List Node}
    (h : List.Forall₂ D links links') :
    RubyTree.Mirrored N q
      (fun r r' => List.Forall₂ (OptionalParameter.Mirrored D) r.1 r'.1 ∧ r'.2 = r.2)
      (optionalsAt n table cursor links) (optionalsAt n' table cursor links') := by
  induction h generalizing cursor with
  | nil => exact .pure ⟨.nil, rfl⟩
  | cons hlink _ ih =>
    have hb := hD _ _ hlink
    unfold optionalsAt
    refine hb.ofKind fun _ => .bind (hb.shape hD) fun shape shape' hshape => ?_
    cases hshape with
    | assign name hvalue _ =>
      cases hvalue with
      | none => exact .unexpected hb.self rfl
      | some hvalue =>
        refine .same (skipSlot_mirrored hn) fun cursor => .bind ih ?_
        rintro ⟨found, last⟩ ⟨found', _⟩ ⟨hfound, rfl⟩
        exact .pure ⟨.cons ⟨rfl, hvalue⟩ hfound, rfl⟩
    | _ => exact .unexpected hb.self rfl

theorem keywordsAt_mirrored (hD : Mirroring N O D) (hn : N n n') {links links' : List Node}
    (h : List.Forall₂ D links links') :
    RubyTree.Mirrored N q
      (fun r r' => List.Forall₂ (KeywordParameter.Mirrored D) r.1 r'.1 ∧ r'.2 = r.2)
      (keywordsAt n table cursor links) (keywordsAt n' table cursor links') := by
  induction h generalizing cursor with
  | nil => exact .pure ⟨.nil, rfl⟩
  | cons hlink _ ih =>
    have hb := hD _ _ hlink
    unfold keywordsAt
    refine hb.ofKind fun _ => .bind (hb.shape hD) fun shape shape' hshape => ?_
    cases hshape with
    | @assign value value' name hvalue required =>
      have hnone : value'.isNone = value.isNone := by cases hvalue <;> rfl
      dsimp only
      rw [hnone]
      split
      · exact .unexpected hb.self rfl
      · refine .same (skipSlot_mirrored hn) fun cursor => .bind ih ?_
        rintro ⟨found, last⟩ ⟨found', _⟩ ⟨hfound, rfl⟩
        exact .pure ⟨.cons ⟨rfl, hvalue⟩ hfound, rfl⟩
    | _ => exact .unexpected hb.self rfl

theorem restAt_mirrored (hn : N n n') (rest : Legacy.RestParameter) :
    RubyTree.Mirrored N q Eq (restAt n table cursor rest) (restAt n' table cursor rest) := by
  cases rest with
  | named name => exact .same (skipSlot_mirrored hn) fun _ => .pure rfl
  | _ => exact .pure rfl

theorem keywordRestAt_mirrored (hD : Mirroring N O D) (hn : N n n')
    {rest rest' : Legacy.KeywordRest} (h : rest.Mirrored D rest') :
    RubyTree.Mirrored N q Eq (keywordRestAt n table cursor rest)
      (keywordRestAt n' table cursor rest') := by
  cases h with
  | variableNode hm =>
    refine .same (hD _ _ hm).name? fun name => ?_
    cases name with
    | none => exact .pure rfl
    | some name => exact .same (skipSlot_mirrored hn) fun _ => .pure rfl
  | _ => exact .pure rfl

theorem blockAt_mirrored (hn : N n n') (block : Option Name) :
    RubyTree.Mirrored N q Eq (blockAt n table cursor block) (blockAt n' table cursor block) := by
  cases block with
  | none => exact .pure rfl
  | some name => exact .same (skipSlot_mirrored hn) fun _ => .pure rfl

theorem fillSlots_mirrored {slots : Legacy.Table} {groups groups' : List TargetGroup}
    (h : List.Forall₂ (TargetGroup.Mirrored N D) groups groups') :
    List.Forall₂ (RequiredParameter.Mirrored N D) (fillSlots slots groups)
      (fillSlots slots groups') := by
  induction slots generalizing groups groups' with
  | nil =>
    simp only [fillSlots, List.forall₂_map_left_iff, List.forall₂_map_right_iff]
    exact h.imp fun _ _ hgroup => .group hgroup
  | cons slot slots ih =>
    cases slot with
    | some name => exact .cons (.name name) (ih h)
    | none =>
      cases h with
      | nil => exact ih .nil
      | cons hgroup htail => exact .cons (.group hgroup) (ih htail)

theorem bindingCount_mirrored {groups groups' : List TargetGroup}
    (h : List.Forall₂ (TargetGroup.Mirrored N D) groups groups') :
    bindingCount groups' = bindingCount groups := by
  induction h with
  | nil => rfl
  | cons hgroup _ ih =>
    simp only [bindingCount, List.foldr_cons] at ih ⊢
    rw [hgroup.bindingCount, ih]

theorem ofDescriptor_mirrored (hD : Mirroring N O D) (hn : N n n') {d d' : Legacy.Descriptor}
    (hd : d.Mirrored D d') :
    RubyTree.Mirrored N q (Mirrored N D) (ofDescriptor table n d) (ofDescriptor table n' d') := by
  unfold ofDescriptor
  rw [hd.preCount, hd.postCount, hd.rest, hd.block]
  refine .same (slots_mirrored hn) fun preSlots => ?_
  refine .bind (groups_mirrored hD hd.preInit) fun preGroups preGroups' hpre => ?_
  refine .bind (chain_mirrored hD hd.optionals) fun links links' hlinks => ?_
  refine .bind (optionalsAt_mirrored hD hn hlinks) ?_
  rintro ⟨optionals, cursor⟩ ⟨optionals', _⟩ ⟨hoptionals, rfl⟩
  refine .same (restAt_mirrored hn d.rest) fun (rest, cursor) => ?_
  refine .same (slots_mirrored hn) fun postSlots => ?_
  refine .bind (groups_mirrored hD hd.postInit) fun postGroups postGroups' hpost => ?_
  refine .bind (chain_mirrored hD hd.keywords) fun links links' hlinks => ?_
  refine .bind (keywordsAt_mirrored hD hn hlinks) ?_
  rintro ⟨keywords, cursor⟩ ⟨keywords', _⟩ ⟨hkeywords, rfl⟩
  have hempty : keywords'.isEmpty = keywords.isEmpty := by cases hkeywords <;> rfl
  dsimp only
  rw [hempty, bindingCount_mirrored hpre, bindingCount_mirrored hpost]
  refine .same (keywordRestAt_mirrored hD hn hd.keywordRest) fun (keywordRest, cursor) => ?_
  refine .same (blockAt_mirrored hn d.block) fun (block, cursor) => .pure ?_
  exact ⟨fillSlots_mirrored hpre, hoptionals, rfl, fillSlots_mirrored hpost, hkeywords, rfl, rfl,
    rfl⟩

theorem ofNode_mirrored (hD : Mirroring N O D) (hn : n.Mirrored N (n.Inside O D) n') :
    RubyTree.Mirrored N q (Option.Rel (Mirrored N D)) (ofNode table n) (ofNode table n') := by
  unfold ofNode
  refine hn.ofKind fun hkind => ?_
  have hb := hn.opened (by rw [List.mem_singleton.mp hkind]; rfl)
  refine .bind (hb.descriptor hD) fun d d' hd => ?_
  rw [hd.isEmpty]
  split
  · exact .pure .none
  · exact .bind (ofDescriptor_mirrored hD hn.self hd) fun _ _ hp => .pure (.some hp)

end Parameters

namespace Legacy.Node

theorem scopeParts_mirrored (hD : Mirroring N O D) (hn : n.Mirrored N (n.Inside O D) n') :
    RubyTree.Mirrored N q
      (fun p p' => p'.1 = p.1 ∧ Option.Rel D p.2.1 p'.2.1 ∧ Option.Rel D p.2.2 p'.2.2)
      n.scopeParts n'.scopeParts := by
  unfold scopeParts
  refine hn.ofKind fun _ => .bind (hn.shape hD) fun shape shape' hshape => ?_
  cases hshape with
  | scope table hargs hbody => exact .pure ⟨rfl, hargs, hbody⟩
  | _ => exact .unexpected hn.self rfl

theorem sequence_mirrored (hD : Mirroring N O D) (hn : D n n') :
    RubyTree.Mirrored N q (List.Forall₂ D) n.sequence n'.sequence := by
  unfold sequence
  refine .bind ((hD n n' hn).shape hD) fun shape shape' hshape => ?_
  cases hshape with
  | block h => exact .pure h
  | _ => exact .pure (.cons hn .nil)

end Legacy.Node

end RubyTree
