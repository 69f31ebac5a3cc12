import RubyTree.Conversion
import RubyTree.Proofs.Descent

/-! Nested arguments, destructurings and chains of clauses are read to the height of the node they
start from; reading them with any larger bound gives the same. -/

namespace RubyTree

open Legacy (Node)
open Legacy.Node (Closed Optional closed_height_le height_pos height_lt_of_mem_children)

def Legacy.Node.Within (bound other : Nat) (n : Node) : Prop := n.height ≤ bound ∧ n.height ≤ other

namespace Legacy.Node

variable {n : Node} {bound other : Nat}

theorem closed_within : Closed (Within bound other) :=
  (closed_height_le bound).and (closed_height_le other)

theorem Within.below (hn : n.Within (bound + 1) (other + 1)) : n.Below (Within bound other) := by
  intro m hm
  have hlt := height_lt_of_mem_children hm
  obtain ⟨hb, ho⟩ := hn
  exact ⟨by omega, by omega⟩

theorem Within.succ (hn : n.Within bound other) : ∃ b o, bound = b + 1 ∧ other = o + 1 := by
  have hpos := height_pos n
  obtain ⟨hb, ho⟩ := hn
  exact ⟨bound - 1, other - 1, by omega, by omega⟩

theorem within_max_left (n m : Node) : n.Within n.height (max n.height m.height) :=
  ⟨Nat.le_refl _, Nat.le_max_left _ _⟩

theorem within_max_right (n m : Node) : m.Within m.height (max n.height m.height) :=
  ⟨Nat.le_refl _, Nat.le_max_right _ _⟩

end Legacy.Node

open Legacy.Node (Within closed_within)

variable {n : Node} {bound other : Nat}

namespace Argument

theorem ofFront_congr {D : Node → Prop} {inner inner' : Node → Result (List Argument)}
    (h : ∀ m, D m → inner m = inner' m) {front : Option Node} (hfront : Optional D front) :
    ofFront inner front = ofFront inner' front := by
  cases front with
  | none => rfl
  | some m => exact h m (hfront m rfl)

theorem ofNodeWithin_eq {outermost : Bool} (hn : n.Within bound other) :
    ofNodeWithin bound outermost n = ofNodeWithin other outermost n := by
  induction bound generalizing other outermost n with
  | zero =>
    obtain ⟨_, _, h, _⟩ := hn.succ
    cases h
  | succ bound ih =>
    obtain ⟨_, other, _, rfl⟩ := hn.succ
    have hfront (left : Option Node) (hleft : Optional (Within bound other) left) :
        ofFront (ofNodeWithin bound false) left = ofFront (ofNodeWithin other false) left :=
      ofFront_congr (fun m hm => ih hm) hleft
    unfold ofNodeWithin
    refine (hn.below.shape closed_within).bind_congr fun shape hs => ?_
    cases shape with
    | pair left right =>
      dsimp only
      rw [hfront left hs.1]
      cases right with
      | none => rfl
      | some tail => simp only [ih (hs.2 tail rfl)]
    | _ => rfl

end Argument

namespace TargetGroup

theorem targetsOf_congr {D : Node → Prop} (hD : Closed D) {style : TargetStyle}
    {inner inner' : Node → Result TargetGroup} (h : ∀ m, D m → inner m = inner' m)
    {list : Option Node} (hlist : Optional D list) :
    targetsOf inner style list = targetsOf inner' style list := by
  cases list with
  | none => rfl
  | some list =>
    have helements : Yields (listElements list) fun elements => ∀ m ∈ elements, D m :=
      .bind (hD list (hlist list rfl)).expectKind fun _ hm => hm.2.nodesFrom
    refine helements.bind_congr fun elements hs => mapM_congr fun m hm => ?_
    simp only [targetOf, h m (hs m hm)]

theorem ofNodeWithin_eq {style : TargetStyle} (hn : n.Within bound other) :
    ofNodeWithin bound style n = ofNodeWithin other style n := by
  induction bound generalizing other n with
  | zero =>
    obtain ⟨_, _, h, _⟩ := hn.succ
    cases h
  | succ bound ih =>
    obtain ⟨_, other, _, rfl⟩ := hn.succ
    have hinner (m : Node) (hm : m.Within bound other) :
        ofNodeWithin bound style m = ofNodeWithin other style m := ih hm
    unfold ofNodeWithin
    refine hn.below.expectKind.bind_congr fun m hm => ?_
    refine (hm.2.shape closed_within).bind_congr fun shape hs => ?_
    cases shape with
    | multiAssign value head rest posts =>
      dsimp only
      rw [targetsOf_congr closed_within hinner hs.2.1,
        targetsOf_congr closed_within hinner hs.2.2.2]
    | _ => rfl

end TargetGroup

theorem Parameters.chainWithin_eq {kind : Legacy.Kind} {link : Option Node}
    (hlink : Optional (Within bound other) link) :
    chainWithin kind bound link = chainWithin kind other link := by
  induction bound generalizing other link with
  | zero =>
    cases link with
    | none => simp only [chainWithin]
    | some n =>
      obtain ⟨_, _, h, _⟩ := (hlink n rfl).succ
      cases h
  | succ bound ih =>
    cases link with
    | none => simp only [chainWithin]
    | some n =>
      obtain ⟨_, other, _, rfl⟩ := (hlink n rfl).succ
      unfold chainWithin
      refine (hlink n rfl).below.expectKind.bind_congr fun m hm => ?_
      refine (hm.2.shape closed_within).bind_congr fun shape hs => ?_
      cases shape with
      | paramLink body next => simp only [ih hs.2]
      | _ => rfl

namespace Context

variable {c : Context} {o : Option Node}

theorem clausesWithin_eq (ho : Optional (Within bound other) o) :
    c.clausesWithin bound o = c.clausesWithin other o := by
  induction bound generalizing other o with
  | zero =>
    cases o with
    | none => simp only [clausesWithin]
    | some n =>
      obtain ⟨_, _, h, _⟩ := (ho n rfl).succ
      cases h
  | succ bound ih =>
    cases o with
    | none => simp only [clausesWithin]
    | some n =>
      obtain ⟨_, other, _, rfl⟩ := (ho n rfl).succ
      unfold clausesWithin
      split
      · refine ((ho n rfl).below.shape closed_within).bind_congr fun shape hs => ?_
        cases shape with
        | when conditions body next => simp only [ih hs.2.2]
        | _ => rfl
      · rfl

theorem rescueClauseWithin_eq (ho : Optional (Within bound other) o) :
    c.rescueClauseWithin bound o = c.rescueClauseWithin other o := by
  induction bound generalizing other o with
  | zero =>
    cases o with
    | none => simp only [rescueClauseWithin]
    | some n =>
      obtain ⟨_, _, h, _⟩ := (ho n rfl).succ
      cases h
  | succ bound ih =>
    cases o with
    | none => simp only [rescueClauseWithin]
    | some n =>
      obtain ⟨_, other, _, rfl⟩ := (ho n rfl).succ
      unfold rescueClauseWithin
      refine (ho n rfl).below.expectKind.bind_congr fun m hm => ?_
      refine (hm.2.shape closed_within).bind_congr fun shape hs => ?_
      cases shape with
      | rescueClause exceptions body next => simp only [ih hs.2.2]
      | _ => rfl

end Context

end RubyTree
