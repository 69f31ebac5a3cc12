import RubyTree.Proofs.ArgumentOrder
import RubyTree.Proofs.Bound
import RubyTree.Proofs.Depth

/-! Exceptions. A `RESCUE` or `ENSURE` is one `begin` wherever it stands: by itself, inside a
`BEGIN` or as the body of a scope. An `ENSURE` adds its clause to those of the `RESCUE` inside it,
and a chain of clauses keeps its length and its order. -/

namespace RubyTree

open Canonical (Tree)
open Legacy (Node Child Table)

namespace Legacy.Node

variable {n : Node} {shape : Legacy.Shape}

theorem shape_of_BEGIN (hkind : n.kind = .BEGIN) :
    n.shape = .ok shape ↔ ∃ body, n.child 0 = .ofNode? body ∧ shape = .begin body := by
  simp only [Node.shape, hkind, bind_eq_ok_iff, node?_eq_ok_iff, pure_eq_ok_iff]

theorem shape_of_RESCUE (hkind : n.kind = .RESCUE) :
    n.shape = .ok shape ↔ ∃ body clause otherwise, n.child 0 = .ofNode? body ∧
      n.child 1 = .ofNode? clause ∧ n.child 2 = .ofNode? otherwise ∧
      shape = .rescue body clause otherwise := by
  simp only [Node.shape, hkind, bind_eq_ok_iff, node?_eq_ok_iff, pure_eq_ok_iff, exists_and_left]

theorem shape_of_ENSURE (hkind : n.kind = .ENSURE) :
    n.shape = .ok shape ↔ ∃ body ensured, n.child 0 = .ofNode? body ∧
      n.child 1 = .ofNode? ensured ∧ shape = .ensure body ensured := by
  simp only [Node.shape, hkind, bind_eq_ok_iff, node?_eq_ok_iff, pure_eq_ok_iff, exists_and_left]

theorem shape_of_RESBODY (hkind : n.kind = .RESBODY) :
    n.shape = .ok shape ↔ ∃ exceptions body next, n.child 0 = .ofNode? exceptions ∧
      n.child 1 = .ofNode? body ∧ n.child 2 = .ofNode? next ∧
      shape = .rescueClause exceptions body next := by
  simp only [Node.shape, hkind, bind_eq_ok_iff, node?_eq_ok_iff, pure_eq_ok_iff, exists_and_left]

/-- The clauses of a chain, each in the last slot of the one before it. -/
inductive Linked : Child → List Node → Prop where
  | done : Linked .nil []
  | link {n : Node} {rest : List Node} (hkind : n.kind = .RESBODY)
      (hrest : Linked (n.child 2) rest) : Linked (.node n) (n :: rest)

theorem Linked.unique {slot : Child} {clauses others : List Node} (h : Linked slot clauses)
    (h' : Linked slot others) : others = clauses := by
  induction h generalizing others with
  | done =>
    cases h'
    rfl
  | link hkind hrest ih =>
    cases h' with
    | link _ hrest' => rw [ih hrest']

end Legacy.Node

theorem Legacy.Kind.isSimpleAssignment_iff {kind : Legacy.Kind} :
    kind.isSimpleAssignment = true ↔
      kind ∈ [.LASGN, .DASGN, .IASGN, .CVASGN, .GASGN, .CDECL] := by
  constructor
  · intro h
    unfold Legacy.Kind.isSimpleAssignment at h
    split at h
    all_goals first
      | decide
      | cases h
  · intro h
    simp only [List.mem_cons, List.not_mem_nil, or_false] at h
    obtain rfl | rfl | rfl | rfl | rfl | rfl := h <;> rfl

namespace Context

/-- What a clause is selected by, in the order of its argument list. -/
inductive Selects (c : Context) : Child → List Tree → Prop where
  | any : Selects c .nil []
  | listed {list : Node} {arguments : List Argument} {trees : List Tree}
      (harguments : Argument.OuterSequence list arguments)
      (htrees : List.Forall₂ (fun a t => c.argument list a = .ok t) arguments trees) :
      Selects c (.node list) trees

/-- The trees of clauses, each of them the consequent of the one before it. -/
inductive Chained (c : Context) : List Node → Option Tree → Prop where
  | done : Chained c [] none
  | clause {n : Node} {rest : List Node} {body : Option Node} {exceptions : List Tree}
      {reference statements consequent : Option Tree} {location : Span}
      (hexceptions : c.Selects (n.child 0) exceptions) (hslot : n.child 1 = .ofNode? body)
      (hbody : c.rescueBody body = .ok (reference, statements))
      (hlocation : c.span n = .ok location) (hrest : Chained c rest consequent) :
      Chained c (n :: rest) (some (.rescue exceptions reference statements consequent location))

section

variable {c : Context} {n : Node}

theorem selects_of_elements? {i : Nat} {list : Option Node} (hlist : n.child i = .ofNode? list)
    {trees : List Tree} (h : c.elements? list = .ok trees) : c.Selects (n.child i) trees := by
  rw [hlist]
  cases list with
  | none =>
    cases h
    exact .any
  | some list =>
    obtain ⟨arguments, harguments, htrees⟩ := bind_eq_ok_iff.mp h
    exact .listed (Argument.ofNode_eq_ok_iff.mp harguments) (mapM_eq_ok_iff.mp htrees)

theorem rescueClauseWithin_eq_rescueClause? {bound : Nat} {o : Option Node}
    (ho : Legacy.Node.Optional (·.height ≤ bound) o) :
    c.rescueClauseWithin bound o = c.rescueClause? o := by
  cases o with
  | none => simp only [rescueClauseWithin, rescueClause?]
  | some m => exact rescueClauseWithin_eq (Legacy.Node.optional_some ⟨ho m rfl, Nat.le_refl _⟩)

theorem rescueClause?_eq_ok {t : Option Tree} (h : c.rescueClause? (some n) = .ok t) :
    n.kind = .RESBODY ∧ ∃ body next exceptions reference statements consequent location,
      n.child 1 = .ofNode? body ∧ n.child 2 = .ofNode? next ∧ c.Selects (n.child 0) exceptions ∧
        c.rescueBody body = .ok (reference, statements) ∧
        c.rescueClause? next = .ok consequent ∧ c.span n = .ok location ∧
        t = some (.rescue exceptions reference statements consequent location) := by
  obtain ⟨bound, hbound⟩ := Nat.exists_eq_add_one.mpr n.height_pos
  simp only [rescueClause?, hbound, rescueClauseWithin, bind_eq_ok_iff,
    Legacy.Node.expectKind_eq_ok_iff, List.mem_singleton] at h
  obtain ⟨_, ⟨hkind, rfl⟩, shape, hshape, h⟩ := h
  obtain ⟨list, body, next, hlist, hbody, hslot, rfl⟩ :=
    (Legacy.Node.shape_of_RESBODY hkind).mp hshape
  have hnext : c.rescueClauseWithin bound next = c.rescueClause? next := by
    apply rescueClauseWithin_eq_rescueClause?
    rintro m rfl
    have := Legacy.Node.height_lt_of_child hslot
    omega
  simp only [bind_eq_ok_iff, pure_eq_ok_iff, Prod.exists, hnext] at h
  obtain ⟨exceptions, hexceptions, reference, statements, hstatements, consequent, hconsequent,
    location, hlocation, rfl⟩ := h
  exact ⟨hkind, body, next, exceptions, reference, statements, consequent, location, hbody, hslot,
    selects_of_elements? hlist hexceptions, hstatements, hconsequent, hlocation, rfl⟩

theorem chained_of_rescueClause? {o : Option Node} {t : Option Tree}
    (h : c.rescueClause? o = .ok t) :
    ∃ clauses, Legacy.Node.Linked (.ofNode? o) clauses ∧ c.Chained clauses t := by
  -- By induction on the height: the chain of nodes is converted clause by clause.
  cases o with
  | none =>
    cases h
    exact ⟨[], .done, .done⟩
  | some n =>
    induction hheight : n.height using Nat.strongRecOn generalizing n t with
    | ind height ih =>
      obtain ⟨hkind, body, next, _, _, _, _, _, hbody, hslot, hexceptions, hstatements, hnext,
        hlocation, rfl⟩ := rescueClause?_eq_ok h
      cases next with
      | none =>
        cases hnext
        have hrest : Legacy.Node.Linked (n.child 2) [] := hslot ▸ .done
        exact ⟨[n], .link hkind hrest, .clause hexceptions hbody hstatements hlocation .done⟩
      | some m =>
        have hlt : m.height < height := hheight ▸ Legacy.Node.height_lt_of_child hslot
        obtain ⟨rest, hrest, hchained⟩ := ih m.height hlt m hnext rfl
        exact ⟨n :: rest, .link hkind (hslot.symm ▸ hrest),
          .clause hexceptions hbody hstatements hlocation hchained⟩

/-! The assignment that stores the exception. -/

theorem bindsException_iff : bindsException n = true ↔ n.kind.isSimpleAssignment = true ∧
    ∃ value, n.child 1 = .node value ∧ value.kind = .ERRINFO := by
  rw [bindsException, Bool.and_eq_true]
  refine and_congr_right fun _ => ?_
  split
  · next value hvalue => simp [hvalue]
  · next hother =>
    constructor
    · intro h
      cases h
    · rintro ⟨value, hvalue, _⟩
      exact absurd hvalue (hother value)

theorem shape_of_bindsException {shape : Legacy.Shape} (h : bindsException n = true) :
    n.shape = .ok shape ↔ ∃ name value, n.child 0 = .name name ∧ n.child 1 = .node value ∧
      shape = .assign name (some value) false := by
  obtain ⟨hkind, value, hvalue, _⟩ := bindsException_iff.mp h
  have hmarker : ¬n.marker? 1 = some .requiredKeyword := by simp [Legacy.Node.marker?, hvalue]
  have hnode : n.node? 1 = .ok (some value) := Legacy.Node.node?_eq_ok_iff.mpr hvalue
  have hassign : n.assignShape = .ok shape ↔ ∃ name value, n.child 0 = .name name ∧
      n.child 1 = .node value ∧ shape = .assign name (some value) false := by
    simp only [Legacy.Node.assignShape, bind_eq_ok_iff, if_neg hmarker]
    constructor
    · rintro ⟨name, hname, _, hfound, h⟩
      cases hnode.symm.trans hfound
      cases h
      exact ⟨name, value, Legacy.Node.name_eq_ok_iff.mp hname, hvalue, rfl⟩
    · rintro ⟨name, found, hname, hfound, rfl⟩
      cases hvalue.symm.trans hfound
      exact ⟨name, Legacy.Node.name_eq_ok_iff.mpr hname, _, hnode, rfl⟩
  have hconst : n.constAssignShape = .ok shape ↔ ∃ name value, n.child 0 = .name name ∧
      n.child 1 = .node value ∧ shape = .assign name (some value) false := by
    unfold Legacy.Node.constAssignShape
    split
    · next path hpath =>
      -- A path leaves its name in the slot, and an exception is no name.
      simp [bind_eq_ok_iff, Legacy.Node.name_eq_ok_iff, hvalue, hpath]
    · exact hassign
  have hkind := Legacy.Kind.isSimpleAssignment_iff.mp hkind
  simp only [List.mem_cons, List.not_mem_nil, or_false] at hkind
  obtain hkind | hkind | hkind | hkind | hkind | hkind := hkind <;>
    simp only [Legacy.Node.shape, hkind]
  all_goals first
    | exact hassign
    | exact hconst

/-! What the clauses of a `begin` are. -/

theorem rescueParts_eq_ok {parts : BeginParts} (hkind : n.kind = .RESCUE)
    (h : c.rescueParts n = .ok parts) :
    ∃ body statements clauses rescueClause elseClause, n.child 0 = .ofNode? body ∧
      c.statements body = .ok statements ∧ Legacy.Node.Linked (n.child 1) clauses ∧
      c.Chained clauses rescueClause ∧ parts = { statements, rescueClause, elseClause } := by
  obtain ⟨shape, hshape, h⟩ := bind_eq_ok_iff.mp h
  obtain ⟨body, clause, otherwise, hbody, hclause, _, rfl⟩ :=
    (Legacy.Node.shape_of_RESCUE hkind).mp hshape
  simp only [bind_eq_ok_iff, pure_eq_ok_iff] at h
  obtain ⟨statements, hstatements, rescueClause, hrescue, elseClause, _, rfl⟩ := h
  obtain ⟨clauses, hlinked, hchained⟩ := chained_of_rescueClause? hrescue
  exact ⟨body, statements, clauses, rescueClause, elseClause, hbody, hstatements,
    hclause.symm ▸ hlinked, hchained, rfl⟩

theorem beginParts_of_RESCUE {parts : BeginParts} (hkind : n.kind = .RESCUE)
    (h : c.beginParts n = .ok parts) : c.rescueParts n = .ok parts := by
  obtain ⟨shape, hshape, h⟩ := bind_eq_ok_iff.mp h
  obtain ⟨body, clause, otherwise, _, _, _, rfl⟩ := (Legacy.Node.shape_of_RESCUE hkind).mp hshape
  exact h

theorem beginParts_of_ENSURE {parts : BeginParts} (hkind : n.kind = .ENSURE)
    (h : c.beginParts n = .ok parts) :
    ∃ body ensured inner statements location, n.child 0 = .ofNode? body ∧
      n.child 1 = .ofNode? ensured ∧ c.ensuredParts body = .ok inner ∧
      c.spanOf? ensured = .ok location ∧ c.statements ensured = .ok statements ∧
      parts = { inner with ensureClause := some (.ensureClause statements location) } := by
  obtain ⟨shape, hshape, h⟩ := bind_eq_ok_iff.mp h
  obtain ⟨body, ensured, hbody, hensured, rfl⟩ := (Legacy.Node.shape_of_ENSURE hkind).mp hshape
  simp only [ensureClause, bind_eq_ok_iff, pure_eq_ok_iff] at h
  obtain ⟨inner, hinner, _, ⟨location, hlocation, statements, hstatements, rfl⟩, rfl⟩ := h
  exact ⟨body, ensured, inner, statements, location, hbody, hensured, hinner, hlocation,
    hstatements, rfl⟩

end

end Context

namespace Legacy.Node

variable {lines : LineTable} {options : Options} {scope : Scope} {n : Node} {t : Tree}

theorem parts_of_convert (hkind : n.kind = .RESCUE ∨ n.kind = .ENSURE)
    (h : n.convert lines options scope none = .ok t) :
    ∃ location parts, lines.span n = .ok location ∧
      (Context.whole lines options scope).beginParts n = .ok parts ∧ t = parts.tree location := by
  rw [convert_unfold, Context.step, if_neg (by simp)] at h
  obtain ⟨location, hlocation, h⟩ := bind_eq_ok_iff.mp h
  obtain ⟨shape, hshape, h⟩ := bind_eq_ok_iff.mp h
  refine ⟨location, ?_⟩
  obtain hkind | hkind := hkind
  · obtain ⟨_, _, _, _, _, _, rfl⟩ := (shape_of_RESCUE hkind).mp hshape
    obtain ⟨parts, hparts, h⟩ := bind_eq_ok_iff.mp h
    exact ⟨parts, hlocation, hparts, pure_eq_ok_iff.mp h⟩
  · obtain ⟨_, _, _, _, rfl⟩ := (shape_of_ENSURE hkind).mp hshape
    obtain ⟨parts, hparts, h⟩ := bind_eq_ok_iff.mp h
    exact ⟨parts, hlocation, hparts, pure_eq_ok_iff.mp h⟩

theorem handlesExceptions_of_kind (hkind : n.kind = .RESCUE ∨ n.kind = .ENSURE) :
    Context.handlesExceptions n = true := by
  simpa [Context.handlesExceptions] using hkind

section

variable (hkind : n.kind = .RESCUE ∨ n.kind = .ENSURE)
  (h : n.convert lines options scope none = .ok t)
include hkind h

theorem convert_BEGIN_of_convert {m : Node} {location : Span} (hm : m.kind = .BEGIN)
    (hslot : m.child 0 = .node n) (hspan : lines.span m = .ok location) :
    m.convert lines options scope none = .ok (t.withLocation location) := by
  obtain ⟨_, parts, _, hparts, rfl⟩ := parts_of_convert hkind h
  rw [convert_eq_ok_iff ((shape_of_BEGIN hm).mpr ⟨some n, hslot, rfl⟩)]
  refine ⟨location, hspan, ?_⟩
  simp only [Context.shaped, Context.beginBody, handlesExceptions_of_kind hkind, if_true, hparts]
  rfl

theorem scopeBody_of_convert : (Context.whole lines options scope).scopeBody (some n) =
    .ok (some t) := by
  obtain ⟨location, parts, hspan, hparts, rfl⟩ := parts_of_convert hkind h
  simp only [Context.scopeBody, handlesExceptions_of_kind hkind, if_true, hparts,
    Context.span_whole, hspan]
  rfl

theorem blockParts_of_convert {outer : Scope} {table : Table} {s : Node} {args : Option Node}
    (hscope : scope = table :: outer) (hs : s.scopeParts = .ok (table, args, some n))
    {parts : List Name × Option Tree × Option Tree} :
    (Context.whole lines options outer).blockParts s = .ok parts ↔ ∃ parameters,
      (Context.whole lines options scope).parametersIn table Context.blockParameters args =
          .ok parameters ∧
        parts = (Parameters.names table, parameters, some t) := by
  subst hscope
  have hbody := scopeBody_of_convert hkind h
  simp only [Context.blockParts, hs, Context.nested_whole, bind_eq_ok_iff, pure_eq_ok_iff, hbody,
    Except.ok.injEq, exists_eq_left']

theorem block_of_convert {outer : Scope} {table : Table} {s : Node} {args : Option Node}
    (hscope : scope = table :: outer) (hs : s.scopeParts = .ok (table, args, some n)) {u : Tree} :
    (Context.whole lines options outer).block s = .ok u ↔ ∃ parameters location,
      (Context.whole lines options scope).parametersIn table Context.blockParameters args =
          .ok parameters ∧
        lines.span s = .ok location ∧
        u = .block (Parameters.names table) parameters (some t) location := by
  simp only [Context.block, bind_eq_ok_iff, blockParts_of_convert hkind h hscope hs,
    pure_eq_ok_iff, Context.span_whole]
  constructor
  · rintro ⟨_, ⟨parameters, hparameters, rfl⟩, location, hlocation, rfl⟩
    exact ⟨parameters, location, hparameters, hlocation, rfl⟩
  · rintro ⟨parameters, location, hparameters, hlocation, rfl⟩
    exact ⟨_, ⟨parameters, hparameters, rfl⟩, location, hlocation, rfl⟩

theorem lambda_of_convert {outer : Scope} {table : Table} {s m : Node} {args : Option Node}
    (hscope : scope = table :: outer) (hs : s.scopeParts = .ok (table, args, some n))
    (hm : m.kind = .LAMBDA) (hshape : m.shape = .ok (.wrapper (some s))) {u : Tree} :
    m.convert lines options outer none = .ok u ↔ ∃ parameters location,
      (Context.whole lines options scope).parametersIn table Context.blockParameters args =
          .ok parameters ∧
        lines.span m = .ok location ∧
        u = .lambda (Parameters.names table) parameters (some t) location := by
  simp only [convert_eq_ok_iff hshape, Context.shaped, Context.wrapper, hm, Context.lambda,
    bind_eq_ok_iff, blockParts_of_convert hkind h hscope hs, pure_eq_ok_iff]
  constructor
  · rintro ⟨location, hlocation, _, ⟨parameters, hparameters, rfl⟩, rfl⟩
    exact ⟨parameters, location, hparameters, hlocation, rfl⟩
  · rintro ⟨parameters, location, hparameters, hlocation, rfl⟩
    exact ⟨location, hlocation, _, ⟨parameters, hparameters, rfl⟩, rfl⟩

theorem method_of_convert {outer : Scope} {table : Table} {s m : Node} {args : Option Node}
    (hscope : scope = [table]) (hs : s.scopeParts = .ok (table, args, some n))
    {receiver : Option Node} {name : Name} (hshape : m.shape = .ok (.definition receiver name s))
    {u : Tree} :
    m.convert lines options outer none = .ok u ↔ ∃ owner parameters location,
      (Context.whole lines options outer).node? receiver = .ok owner ∧
        (Context.whole lines options scope).parametersIn table Context.parameters args =
          .ok parameters ∧
        lines.span m = .ok location ∧
        u = .method name owner parameters (some t) (Parameters.names table) location := by
  subst hscope
  have hbody := scopeBody_of_convert hkind h
  simp only [convert_eq_ok_iff hshape, Context.shaped, Context.method, hs, Context.fresh_whole,
    bind_eq_ok_iff, pure_eq_ok_iff, hbody, Except.ok.injEq, exists_eq_left']
  constructor
  · rintro ⟨location, hlocation, owner, howner, parameters, hparameters, rfl⟩
    exact ⟨owner, parameters, location, howner, hparameters, hlocation, rfl⟩
  · rintro ⟨owner, parameters, location, howner, hparameters, hlocation, rfl⟩
    exact ⟨location, hlocation, owner, howner, parameters, hparameters, rfl⟩

theorem class_of_convert {outer : Scope} {table : Table} {s m : Node} {args : Option Node}
    (hscope : scope = [table]) (hs : s.scopeParts = .ok (table, args, some n))
    {path : Node} {superclass : Option Node}
    (hshape : m.shape = .ok (.classDefinition path superclass s)) {u : Tree} :
    m.convert lines options outer none = .ok u ↔ ∃ constantPath name parent location,
      (Context.whole lines options outer).definitionPath path = .ok (constantPath, name) ∧
        (Context.whole lines options outer).node? superclass = .ok parent ∧
        lines.span m = .ok location ∧
        u = .classDefinition (Parameters.names table) constantPath parent (some t) name
          location := by
  subst hscope
  have hbody := scopeBody_of_convert hkind h
  have hdefinition : (Context.whole lines options outer).definitionBody s =
      .ok (Parameters.names table, some t) := by
    simp only [Context.definitionBody, hs, Context.fresh_whole]
    simp [bind_eq_ok_iff, hbody]
  simp only [convert_eq_ok_iff hshape, Context.shaped, Context.classDefinition, hdefinition,
    bind_eq_ok_iff, pure_eq_ok_iff, Prod.exists, Except.ok.injEq, Prod.mk.injEq]
  constructor
  · rintro ⟨location, hlocation, constantPath, name, hpath, parent, hparent, _, _, ⟨rfl, rfl⟩, rfl⟩
    exact ⟨constantPath, name, parent, location, hpath, hparent, hlocation, rfl⟩
  · rintro ⟨constantPath, name, parent, location, hpath, hparent, hlocation, rfl⟩
    exact ⟨location, hlocation, constantPath, name, hpath, parent, hparent, _, _, ⟨rfl, rfl⟩, rfl⟩

theorem kind_of_convert : t.kind = .beginNode := by
  obtain ⟨location, parts, _, _, rfl⟩ := parts_of_convert hkind h
  rfl

end

/-- The tree of a `RESCUE`: its body and the one chain of clauses that it has. -/
def Rescued (lines : LineTable) (options : Options) (scope : Scope) (n : Node) (t : Tree) : Prop :=
  ∃ body statements rescueClause elseClause clauses, n.child 0 = .ofNode? body ∧
    (Context.whole lines options scope).statements body = .ok statements ∧
    Linked (n.child 1) clauses ∧ (∀ others, Linked (n.child 1) others → others = clauses) ∧
    (Context.whole lines options scope).Chained clauses rescueClause ∧
    t = .begin statements rescueClause elseClause none t.location

/-- The tree of an `ENSURE`: what a `RESCUE` inside it has by itself, or only the statements of
another body, and in either case the ensured statements. -/
def Ensured (lines : LineTable) (options : Options) (scope : Scope) (n : Node) (t : Tree) : Prop :=
  ∃ body ensured statements rescueClause elseClause final location,
    n.child 0 = .ofNode? body ∧ n.child 1 = .ofNode? ensured ∧
    (Context.whole lines options scope).statements ensured = .ok final ∧
    (Context.whole lines options scope).spanOf? ensured = .ok location ∧
    t = .begin statements rescueClause elseClause (some (.ensureClause final location))
      t.location ∧
    (∀ r u, body = some r → r.kind = .RESCUE → r.convert lines options scope none = .ok u →
      u = .begin statements rescueClause elseClause none u.location) ∧
    (Optional (·.kind ≠ .RESCUE) body →
      (Context.whole lines options scope).statements body = .ok statements ∧
        rescueClause = none ∧ elseClause = none)

theorem rescued_of_convert (hkind : n.kind = .RESCUE)
    (h : n.convert lines options scope none = .ok t) : Rescued lines options scope n t := by
  obtain ⟨location, parts, _, hparts, rfl⟩ := parts_of_convert (.inl hkind) h
  have hrescue := Context.beginParts_of_RESCUE hkind hparts
  obtain ⟨body, statements, clauses, rescueClause, elseClause, hbody, hstatements, hlinked,
    hchained, rfl⟩ := Context.rescueParts_eq_ok hkind hrescue
  exact ⟨body, statements, rescueClause, elseClause, clauses, hbody, hstatements, hlinked,
    fun _ => hlinked.unique, hchained, rfl⟩

theorem eq_of_ensuredParts_of_RESCUE {r : Node} {u : Tree} {inner : BeginParts}
    (hr : r.kind = .RESCUE) (hinner : (Context.whole lines options scope).ensuredParts (some r) =
      .ok inner) (hu : r.convert lines options scope none = .ok u) :
    u = .begin inner.statements inner.rescueClause inner.elseClause none u.location := by
  obtain ⟨location, parts, _, hparts, rfl⟩ := parts_of_convert (.inl hr) hu
  have hrescue := Context.beginParts_of_RESCUE hr hparts
  have hsame : inner = parts := by
    rw [Context.ensuredParts, if_pos hr, hrescue] at hinner
    exact (Except.ok.inj hinner).symm
  obtain ⟨_, _, _, _, _, _, _, _, _, rfl⟩ := Context.rescueParts_eq_ok hr hrescue
  rw [hsame]
  rfl

theorem ensuredParts_of_not_RESCUE {c : Context} {body : Option Node} {inner : BeginParts}
    (hbody : Optional (·.kind ≠ .RESCUE) body) (hinner : c.ensuredParts body = .ok inner) :
    c.statements body = .ok inner.statements ∧ inner.rescueClause = none ∧
      inner.elseClause = none := by
  cases body with
  | none =>
    cases hinner
    exact ⟨rfl, rfl, rfl⟩
  | some r =>
    rw [Context.ensuredParts, if_neg (hbody r rfl)] at hinner
    obtain ⟨statements, hstatements, hinner⟩ := bind_eq_ok_iff.mp hinner
    cases hinner
    exact ⟨hstatements, rfl, rfl⟩

theorem ensured_of_convert (hkind : n.kind = .ENSURE)
    (h : n.convert lines options scope none = .ok t) : Ensured lines options scope n t := by
  obtain ⟨_, parts, _, hparts, rfl⟩ := parts_of_convert (.inr hkind) h
  obtain ⟨body, ensured, inner, final, location, hbody, hensured, hinner, hlocation, hfinal, rfl⟩ :=
    Context.beginParts_of_ENSURE hkind hparts
  refine ⟨body, ensured, inner.statements, inner.rescueClause, inner.elseClause, final, location,
    hbody, hensured, hfinal, hlocation, rfl, ?_, ?_⟩
  · rintro r u rfl hr hu
    exact eq_of_ensuredParts_of_RESCUE hr hinner hu
  · intro hother
    exact ensuredParts_of_not_RESCUE hother hinner

/-- What the tree of a `RESCUE` or `ENSURE` is made of and where else it is found, given the scope
that the node was converted in. -/
structure Flattened (lines : LineTable) (options : Options) (scope : Scope) (n : Node) (t : Tree) :
    Prop where
  isBegin : t.kind = .beginNode
  rescued : n.kind = .RESCUE → Rescued lines options scope n t
  ensured : n.kind = .ENSURE → Ensured lines options scope n t
  inBegin : ∀ m location, m.kind = .BEGIN → m.child 0 = .node n → lines.span m = .ok location →
    m.convert lines options scope none = .ok (t.withLocation location)
  inBlock : ∀ outer table s args, scope = table :: outer →
    s.scopeParts = .ok (table, args, some n) → ∀ u,
      (Context.whole lines options outer).block s = .ok u ↔ ∃ parameters location,
        (Context.whole lines options scope).parametersIn table Context.blockParameters args =
            .ok parameters ∧
          lines.span s = .ok location ∧
          u = .block (Parameters.names table) parameters (some t) location
  inLambda : ∀ outer table s m args, scope = table :: outer →
    s.scopeParts = .ok (table, args, some n) → m.kind = .LAMBDA →
    m.shape = .ok (.wrapper (some s)) → ∀ u,
      m.convert lines options outer none = .ok u ↔ ∃ parameters location,
        (Context.whole lines options scope).parametersIn table Context.blockParameters args =
            .ok parameters ∧
          lines.span m = .ok location ∧
          u = .lambda (Parameters.names table) parameters (some t) location
  inMethod : ∀ outer table s m args receiver name, scope = [table] →
    s.scopeParts = .ok (table, args, some n) → m.shape = .ok (.definition receiver name s) → ∀ u,
      m.convert lines options outer none = .ok u ↔ ∃ owner parameters location,
        (Context.whole lines options outer).node? receiver = .ok owner ∧
          (Context.whole lines options scope).parametersIn table Context.parameters args =
            .ok parameters ∧
          lines.span m = .ok location ∧
          u = .method name owner parameters (some t) (Parameters.names table) location
  inClass : ∀ outer table s m args path superclass, scope = [table] →
    s.scopeParts = .ok (table, args, some n) →
    m.shape = .ok (.classDefinition path superclass s) → ∀ u,
      m.convert lines options outer none = .ok u ↔ ∃ constantPath name parent location,
        (Context.whole lines options outer).definitionPath path = .ok (constantPath, name) ∧
          (Context.whole lines options outer).node? superclass = .ok parent ∧
          lines.span m = .ok location ∧
          u = .classDefinition (Parameters.names table) constantPath parent (some t) name location

/-- A `RESCUE` or `ENSURE` is the same `begin` by itself, in a `BEGIN` and as a body. -/
theorem convert_flattened (hkind : n.kind = .RESCUE ∨ n.kind = .ENSURE)
    (h : n.convert lines options scope none = .ok t) : Flattened lines options scope n t where
  isBegin := kind_of_convert hkind h
  rescued hrescue := rescued_of_convert hrescue h
  ensured hensure := ensured_of_convert hensure h
  inBegin _ _ hm hslot hspan := convert_BEGIN_of_convert hkind h hm hslot hspan
  inBlock _ _ _ _ hscope hs _ := block_of_convert hkind h hscope hs
  inLambda _ _ _ _ _ hscope hs hm hshape _ := lambda_of_convert hkind h hscope hs hm hshape
  inMethod _ _ _ _ _ _ _ hscope hs hshape _ := method_of_convert hkind h hscope hs hshape
  inClass _ _ _ _ _ _ _ hscope hs hshape _ := class_of_convert hkind h hscope hs hshape

/-- `a; rescue *b, c; d; rescue; e; ensure; f`, the first clause by a splat. -/
def protectedBody : Node :=
  let call (name : String) : Node := Build.named .VCALL ⟨name⟩ default
  let anything := Node.make .RESBODY [.nil, .node (call "e"), .nil] default
  let splat := Node.make .SPLAT [.node (call "b")] default
  let exceptions := Node.make .ARGSPUSH [.node splat, .node (call "c")] default
  let clause := Node.make .RESBODY [.node exceptions, .node (call "d"), .node anything] default
  let rescue := Node.make .RESCUE [.node (call "a"), .node clause, .nil] default
  .make .ENSURE [.node rescue, .node (call "f")] default

theorem convert_flattened_protectedBody :
    ∃ t, protectedBody.kind = .ENSURE ∧
      protectedBody.convert ⟨[], 0⟩ {} [[]] none = .ok t ∧
      Flattened ⟨[], 0⟩ {} [[]] protectedBody t := by
  obtain ⟨t, ht⟩ : ∃ t, protectedBody.convert ⟨[], 0⟩ {} [[]] none = .ok t := ⟨_, rfl⟩
  exact ⟨t, rfl, ht, convert_flattened (.inr rfl) ht⟩

end Legacy.Node

end RubyTree
