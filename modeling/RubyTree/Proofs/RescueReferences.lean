import Mathlib.Logic.Relation
import RubyTree.Proofs.ConvertedNodes

/-! Exceptions that a clause stores. `rescue => e` is written as an assignment in front of the body,
which becomes the reference of the clause and is left out of its statements. The exception itself is
no expression, so a tree is only made where no other node that is converted reads it. -/

namespace RubyTree

open Canonical (Tree Variable)
open Legacy (Node Child Kind)

/-- The variable that an assignment of this kind writes to. -/
inductive Scope.Assigned (scope : Scope) (name : Name) : Kind → Variable → Prop where
  | outer : Assigned scope name .LASGN (.localVariable name (scope.depth name))
  | inner : Assigned scope name .DASGN (.localVariable name (scope.depth name))
  | ofInstance : Assigned scope name .IASGN (.instanceVariable name)
  | ofClass : Assigned scope name .CVASGN (.classVariable name)
  | global : Assigned scope name .GASGN (.globalVariable name)
  | constant : Assigned scope name .CDECL (.constant name)

namespace Legacy.Node

/-- The statements of a body: those of a `BLOCK`, or the body itself. -/
inductive Comprises (body : Node) : List Node → Prop where
  | block {statements : List Node} (hkind : body.kind = .BLOCK)
      (hchildren : body.children = statements.map .node) : Comprises body statements
  | single (hkind : body.kind ≠ .BLOCK) : Comprises body [body]

/-- The statement stores the current exception in the variable of this name. -/
structure Stores (n : Node) (name : Name) : Prop where
  kind : n.kind ∈ [.LASGN, .DASGN, .IASGN, .CVASGN, .GASGN, .CDECL]
  name : n.child 0 = .name name
  value : ∃ value, n.child 1 = .node value ∧ value.kind = .ERRINFO

/-- The second node is converted in the course of converting the first. -/
def Reaches (options : Options) : Node → Node → Prop :=
  Relation.ReflTransGen fun n m => m ∈ n.operands options

end Legacy.Node

/-- The reference and the statements of a clause with this body. -/
inductive Context.Handles (c : Context) : Option Node → Option Tree → Option Tree → Prop where
  | empty : Handles c none none none
  | storedOnly {body first : Node} {name : Name} {location : Span} {var : Variable}
      (hbody : body.Comprises [first]) (hfirst : first.Stores name)
      (hlocation : c.span first = .ok location) (hvar : c.scope.Assigned name first.kind var) :
      Handles c (some body) (some (.target location var)) none
  | stored {body first : Node} {rest : List Node} {name : Name} {location place : Span}
      {var : Variable} {retained : List Tree} (hbody : body.Comprises (first :: rest))
      (hfirst : first.Stores name) (hlocation : c.span first = .ok location)
      (hvar : c.scope.Assigned name first.kind var) (hrest : rest ≠ [])
      (hretained : List.Forall₂ (fun m t => c.node m = .ok t) rest retained)
      (hplace : c.span body = .ok place) :
      Handles c (some body) (some (.target location var)) (some (.statements retained place))
  | kept {body : Node} {statements : Option Tree}
      (hfirst : ∀ first rest name, body.Comprises (first :: rest) → ¬first.Stores name)
      (hstatements : c.statements (some body) = .ok statements) :
      Handles c (some body) none statements

namespace Legacy.Node

variable {n m : Node} {lines : LineTable} {options : Options} {scope : Scope}

theorem comprises_of_sequence {statements : List Node} (h : n.sequence = .ok statements) :
    n.Comprises statements := by
  have h := sequence_eq_ok_iff.mp h
  by_cases hkind : n.kind = .BLOCK
  · rw [if_pos hkind] at h
    exact .block hkind h
  · rw [if_neg hkind] at h
    obtain ⟨-, rfl⟩ := h
    exact .single hkind

theorem Comprises.unique {statements others : List Node} (h : n.Comprises statements)
    (h' : n.Comprises others) : others = statements := by
  cases h with
  | block hkind hchildren =>
    cases h' with
    | block _ hothers =>
      have hmap := hothers.symm.trans hchildren
      exact List.map_injective_iff.mpr (fun _ _ => Child.node.inj) hmap
    | single hother => exact absurd hkind hother
  | single hkind =>
    cases h' with
    | block hother _ => exact absurd hother hkind
    | single _ => rfl

theorem Comprises.sequence {statements : List Node} (h : n.Comprises statements)
    (hshape : n.kind ≠ .BLOCK → ∃ shape, n.shape = .ok shape) : n.sequence = .ok statements := by
  apply sequence_eq_ok_iff.mpr
  cases h with
  | block hkind hchildren =>
    rw [if_pos hkind]
    exact hchildren
  | single hkind =>
    rw [if_neg hkind]
    exact ⟨hshape hkind, rfl⟩

theorem stores_iff {name : Name} :
    n.Stores name ↔ Context.bindsException n = true ∧ n.child 0 = .name name := by
  rw [Context.bindsException_iff, Kind.isSimpleAssignment_iff]
  constructor
  · intro h
    exact ⟨⟨h.kind, h.value⟩, h.name⟩
  · rintro ⟨⟨hkind, hvalue⟩, hname⟩
    exact ⟨hkind, hname, hvalue⟩

theorem exists_stores_of_shape {shape : Shape} (h : Context.bindsException n = true)
    (hshape : n.shape = .ok shape) : ∃ name, n.Stores name := by
  obtain ⟨name, _, hname, _⟩ := (Context.shape_of_bindsException h).mp hshape
  exact ⟨name, stores_iff.mpr ⟨h, hname⟩⟩

theorem Stores.shape {name : Name} (h : n.Stores name) :
    ∃ value, n.shape = .ok (.assign name (some value) false) := by
  obtain ⟨value, hvalue, _⟩ := h.value
  have hbinds := (stores_iff.mp h).1
  exact ⟨value, (Context.shape_of_bindsException hbinds).mpr ⟨name, value, h.name, hvalue, rfl⟩⟩

theorem Stores.sequence {first : Node} {rest : List Node} {name : Name} (h : first.Stores name)
    (hbody : n.Comprises (first :: rest)) : n.sequence = .ok (first :: rest) := by
  refine hbody.sequence fun hkind => ?_
  cases hbody with
  | block hother => exact absurd hother hkind
  | single =>
    obtain ⟨value, hshape⟩ := h.shape
    exact ⟨_, hshape⟩

theorem exists_sequence {shape : Shape} (hshape : n.shape = .ok shape) :
    ∃ statements, n.sequence = .ok statements := by
  by_cases hkind : n.kind = .BLOCK
  · obtain ⟨statements, hchildren, _⟩ := (shape_of_BLOCK hkind).mp hshape
    exact ⟨statements, (Comprises.block hkind hchildren).sequence (absurd hkind)⟩
  · exact ⟨[n], (Comprises.single hkind).sequence fun _ => ⟨shape, hshape⟩⟩

end Legacy.Node

namespace Context

variable {c : Context} {n body : Node} {reference statements : Option Tree}

theorem assigned?_eq_some_iff {kind : Kind} {name : Name} {var : Variable} :
    c.assigned? kind name = some var ↔ c.scope.Assigned name kind var := by
  constructor
  · intro h
    unfold assigned? at h
    split at h
    all_goals cases h
    all_goals constructor
  · intro h
    cases h <;> rfl

theorem assignmentTarget_of_stores {name : Name} {t : Tree} (h : n.Stores name) :
    c.assignmentTarget n = .ok t ↔ ∃ location var, c.span n = .ok location ∧
      c.scope.Assigned name n.kind var ∧ t = .target location var := by
  obtain ⟨value, hshape⟩ := h.shape
  simp only [assignmentTarget, bind_eq_ok_iff, hshape]
  constructor
  · rintro ⟨location, hlocation, _, hfound, h⟩
    cases hfound
    cases hvar : c.assigned? n.kind name with
    | none =>
      simp only [hvar] at h
      cases h
    | some var =>
      simp only [hvar] at h
      exact ⟨location, var, hlocation, assigned?_eq_some_iff.mp hvar, pure_eq_ok_iff.mp h⟩
  · rintro ⟨location, var, hlocation, hvar, rfl⟩
    refine ⟨location, hlocation, _, rfl, ?_⟩
    simp only [assigned?_eq_some_iff.mpr hvar]
    rfl

theorem handles_of_rescueBody {o : Option Node}
    (h : c.rescueBody o = .ok (reference, statements)) : c.Handles o reference statements := by
  -- By the first statement: it is dropped exactly if it stores the exception.
  cases o with
  | none =>
    cases h
    exact .empty
  | some body =>
    obtain ⟨list, hlist, h⟩ := bind_eq_ok_iff.mp h
    have hbody := Legacy.Node.comprises_of_sequence hlist
    cases list with
    | nil =>
      obtain ⟨found, hfound, h⟩ := bind_eq_ok_iff.mp h
      cases h
      exact .kept (fun first rest name hother => nomatch hbody.unique hother) hfound
    | cons first rest =>
      by_cases hbinds : bindsException first = true
      · simp only [if_pos hbinds] at h
        obtain ⟨target, htarget, h⟩ := bind_eq_ok_iff.mp h
        obtain ⟨name, hfirst⟩ : ∃ name, first.Stores name := by
          obtain ⟨_, _, hrest⟩ := bind_eq_ok_iff.mp htarget
          obtain ⟨_, hshape, _⟩ := bind_eq_ok_iff.mp hrest
          exact Legacy.Node.exists_stores_of_shape hbinds hshape
        obtain ⟨location, var, hlocation, hvar, rfl⟩ :=
          (assignmentTarget_of_stores hfirst).mp htarget
        cases rest with
        | nil =>
          cases h
          exact .storedOnly hbody hfirst hlocation hvar
        | cons second rest =>
          obtain ⟨retained, hretained, h⟩ := bind_eq_ok_iff.mp h
          obtain ⟨place, hplace, h⟩ := bind_eq_ok_iff.mp h
          cases h
          exact .stored hbody hfirst hlocation hvar (List.cons_ne_nil _ _)
            (mapM_eq_ok_iff.mp hretained) hplace
      · simp only [if_neg hbinds] at h
        obtain ⟨found, hfound, h⟩ := bind_eq_ok_iff.mp h
        cases h
        refine .kept (fun other _ name hother hstores => ?_) hfound
        cases hbody.unique hother
        exact hbinds (Legacy.Node.stores_iff.mp hstores).1

/-- A first statement that cannot be a target is no expression either. -/
theorem exists_stores_of_statements {lines : LineTable} {options : Options} {scope : Scope}
    {first : Node} {rest : List Node} (hbody : body.Comprises (first :: rest))
    (hbinds : bindsException first = true)
    (h : (whole lines options scope).statements (some body) = .ok statements) :
    ∃ name, first.Stores name := by
  obtain ⟨shape, hshape, h⟩ := bind_eq_ok_iff.mp h
  cases hbody with
  | single hkind => exact Legacy.Node.exists_stores_of_shape hbinds hshape
  | block hkind hchildren =>
    have hblock := (Legacy.Node.shape_of_BLOCK hkind).mpr ⟨first :: rest, hchildren, rfl⟩
    cases hblock.symm.trans hshape
    obtain ⟨t, ht, _⟩ := bind_eq_ok_iff.mp h
    obtain ⟨location, _, ht⟩ := (Legacy.Node.convert_eq_ok_iff hblock).mp ht
    obtain ⟨trees, htrees, _⟩ := bind_eq_ok_iff.mp ht
    obtain ⟨tree, _, hfirst, _, _⟩ := List.forall₂_cons_left_iff.mp (mapM_eq_ok_iff.mp htrees)
    obtain ⟨_, shape, _, hshape⟩ := Legacy.Node.exists_shape_of_convert hfirst
    exact Legacy.Node.exists_stores_of_shape hbinds hshape

theorem rescueBody_of_handles {lines : LineTable} {options : Options} {scope : Scope}
    {o : Option Node} (h : (whole lines options scope).Handles o reference statements) :
    (whole lines options scope).rescueBody o = .ok (reference, statements) := by
  cases h with
  | empty => rfl
  | storedOnly hbody hfirst hlocation hvar =>
    refine bind_eq_ok_iff.mpr ⟨_, hfirst.sequence hbody, ?_⟩
    simp only [if_pos (Legacy.Node.stores_iff.mp hfirst).1]
    exact bind_eq_ok_iff.mpr
      ⟨_, (assignmentTarget_of_stores hfirst).mpr ⟨_, _, hlocation, hvar, rfl⟩, rfl⟩
  | stored hbody hfirst hlocation hvar hrest hretained hplace =>
    refine bind_eq_ok_iff.mpr ⟨_, hfirst.sequence hbody, ?_⟩
    simp only [if_pos (Legacy.Node.stores_iff.mp hfirst).1]
    refine bind_eq_ok_iff.mpr
      ⟨_, (assignmentTarget_of_stores hfirst).mpr ⟨_, _, hlocation, hvar, rfl⟩, ?_⟩
    rw [if_neg (by simpa using hrest)]
    exact bind_eq_ok_iff.mpr
      ⟨_, mapM_eq_ok_iff.mpr hretained, bind_eq_ok_iff.mpr ⟨_, hplace, rfl⟩⟩
  | @kept body statements hfirst hstatements =>
    obtain ⟨shape, hshape, _⟩ := bind_eq_ok_iff.mp hstatements
    obtain ⟨list, hlist⟩ := Legacy.Node.exists_sequence hshape
    refine bind_eq_ok_iff.mpr ⟨list, hlist, ?_⟩
    cases list with
    | nil => exact bind_eq_ok_iff.mpr ⟨_, hstatements, rfl⟩
    | cons first rest =>
      have hbody := Legacy.Node.comprises_of_sequence hlist
      have hbinds : ¬bindsException first = true := by
        intro hbinds
        obtain ⟨name, hstores⟩ := exists_stores_of_statements hbody hbinds hstatements
        exact hfirst first rest name hbody hstores
      simp only [if_neg hbinds]
      exact bind_eq_ok_iff.mpr ⟨_, hstatements, rfl⟩

end Context

namespace Legacy.Node

variable {n m : Node} {lines : LineTable} {options : Options} {scope : Scope}

theorem convert_ne_ok_of_ERRINFO (hkind : n.kind = .ERRINFO) {pending : Option Tree} {t : Tree} :
    n.convert lines options scope pending ≠ .ok t := by
  intro h
  rw [convert_unfold, Context.step, hkind] at h
  split at h
  · cases h
  · obtain ⟨location, _, h⟩ := bind_eq_ok_iff.mp h
    obtain ⟨shape, hshape, h⟩ := bind_eq_ok_iff.mp h
    have hleaf : n.shape = .ok .leaf := by simp only [Node.shape, hkind]; rfl
    cases hleaf.symm.trans hshape
    simp only [Context.shaped, Context.leaf, hkind] at h
    cases h

theorem converts_of_mem_operands
    (h : (Context.whole lines options scope).Converts n) (hm : m ∈ n.operands options) :
    (Context.whole lines options scope).Converts m := by
  obtain ⟨inner, pending, t, ht⟩ := h
  have hstep := (convert_unfold lines options inner n pending).symm.trans ht
  exact (Footprint.step n pending).asks rfl hstep m hm

theorem Reaches.converts (h : n.Reaches options m)
    (hn : (Context.whole lines options scope).Converts n) :
    (Context.whole lines options scope).Converts m := by
  -- By induction on the way to it: every node that is reached has been converted.
  induction h with
  | refl => exact hn
  | tail _ hm ih => exact converts_of_mem_operands ih hm

theorem Reaches.kind_ne (h : n.Reaches options m)
    (hn : (Context.whole lines options scope).Converts n) : m.kind ≠ .ERRINFO := by
  intro hkind
  obtain ⟨_, _, _, hm⟩ := h.converts hn
  exact convert_ne_ok_of_ERRINFO hkind hm

/-- The reference and the statements of a clause are those that its body calls for. `$!` is no
expression, and neither the body nor any other node that is converted has it among the nodes that
are converted for it. -/
theorem rescueClause?_handles {t : Tree}
    (h : (Context.whole lines options scope).rescueClause? (some n) = .ok (some t)) :
    (∃ body exceptions reference statements consequent location, n.kind = .RESBODY ∧
      n.child 1 = .ofNode? body ∧
      t = .rescue exceptions reference statements consequent location ∧
      (∀ r s, (Context.whole lines options scope).Handles body r s ↔
        r = reference ∧ s = statements) ∧
      Footprint options (handlerNodes body) (·.rescueBody body) ∧
      ∀ m ∈ handlerNodes body, ∀ k, m.Reaches options k → k.kind ≠ .ERRINFO) ∧
    (∀ (m : Node) scope pending t, m.kind = .ERRINFO →
      m.convert lines options scope pending ≠ .ok t) ∧
    (∀ (m : Node) pending, Footprint options (m.operands options) (·.step m pending)) ∧
    ∀ (m : Node) scope pending t, m.convert lines options scope pending = .ok t →
      ∀ k, m.Reaches options k → k.kind ≠ .ERRINFO := by
  refine ⟨?_, fun m scope pending t hkind => convert_ne_ok_of_ERRINFO hkind, Footprint.step, ?_⟩
  · obtain ⟨hkind, body, next, exceptions, reference, statements, consequent, location, hbody, _,
      _, hstatements, _, _, ht⟩ := Context.rescueClause?_eq_ok h
    cases ht
    refine ⟨body, exceptions, reference, statements, consequent, location, hkind, hbody, rfl,
      fun r s => ?_, Footprint.rescueBody body, fun m hm k hk => ?_⟩
    · constructor
      · intro hhandles
        cases hstatements.symm.trans (Context.rescueBody_of_handles hhandles)
        exact ⟨rfl, rfl⟩
      · rintro ⟨rfl, rfl⟩
        exact Context.handles_of_rescueBody hstatements
    · exact hk.kind_ne ((Footprint.rescueBody body).asks rfl hstatements m hm)
  · intro m inner pending t ht k hk
    have hm : (Context.whole lines options scope).Converts m := ⟨inner, pending, t, ht⟩
    exact hk.kind_ne hm

/-- `rescue => e; a; b`, with `e` one scope further out. -/
def storedError : Node :=
  let call (name : String) : Node := Build.named .VCALL ⟨name⟩ default
  let binding := Node.make .LASGN [.name ⟨"e"⟩, .node (.make .ERRINFO [] default)] default
  .make .RESBODY [.nil, .node (Build.block [binding, call "a", call "b"] default), .nil] default

theorem rescueClause?_handles_storedError :
    ∃ t, (Context.whole ⟨[], 0⟩ {} [[], [some ⟨"e"⟩]]).rescueClause? (some storedError) =
        .ok (some t) ∧
      ∃ exceptions retained consequent first place location, retained.length = 2 ∧
        t = .rescue exceptions (some (.target first (.localVariable ⟨"e"⟩ 1)))
          (some (.statements retained place)) consequent location := by
  obtain ⟨t, ht⟩ : ∃ t, (Context.whole ⟨[], 0⟩ {} [[], [some ⟨"e"⟩]]).rescueClause?
      (some storedError) = .ok (some t) := ⟨_, rfl⟩
  obtain ⟨⟨body, exceptions, reference, statements, consequent, location, _, hbody, rfl, hhandles,
    _⟩, _⟩ := rescueClause?_handles ht
  refine ⟨_, ht, ?_⟩
  cases ofNode?_inj (o := some _) hbody
  obtain ⟨rfl, rfl⟩ := (hhandles _ _).mp (.stored (.block rfl rfl)
    ⟨by decide, rfl, _, rfl, rfl⟩ rfl .outer (List.cons_ne_nil _ _)
    (.cons rfl (.cons rfl .nil)) rfl)
  exact ⟨_, _, _, _, _, _, rfl, rfl⟩

end Legacy.Node

end RubyTree
