import RubyTree.Proofs.ExceptionClauses

/-! A `case`. Its `when` clauses hang together through their last slots; what stands there in place
of a clause is the `else`. The chain is laid out as a list, with nothing lost on the way. -/

namespace RubyTree

open Canonical (Tree)
open Legacy (Node Child)

namespace Legacy.Node

variable {n : Node} {shape : Legacy.Shape}

theorem shape_of_CASE (hkind : n.kind = .CASE ∨ n.kind = .CASE2) :
    n.shape = .ok shape ↔ ∃ subject clauses, n.child 0 = .ofNode? subject ∧
      n.child 1 = .ofNode? clauses ∧ shape = .case subject clauses := by
  obtain hkind | hkind := hkind
  all_goals
    simp only [Node.shape, hkind, bind_eq_ok_iff, node?_eq_ok_iff, pure_eq_ok_iff, exists_and_left]

theorem shape_of_WHEN (hkind : n.kind = .WHEN) :
    n.shape = .ok shape ↔ ∃ conditions body next, n.child 0 = .ofNode? conditions ∧
      n.child 1 = .ofNode? body ∧ n.child 2 = .ofNode? next ∧
      shape = .when conditions body next := by
  simp only [Node.shape, hkind, bind_eq_ok_iff, node?_eq_ok_iff, pure_eq_ok_iff, exists_and_left]

/-- The clauses that are reached from a slot, each in the last slot of the one before it, and the
node of another kind that ends them, if any. -/
inductive CaseChain : Child → List Node → Option Node → Prop where
  | done : CaseChain .nil [] none
  | otherwise {n : Node} (hkind : n.kind ≠ .WHEN) : CaseChain (.node n) [] (some n)
  | clause {n : Node} {rest : List Node} {last : Option Node} (hkind : n.kind = .WHEN)
      (hrest : CaseChain (n.child 2) rest last) : CaseChain (.node n) (n :: rest) last

theorem CaseChain.slot {slot : Child} {clauses : List Node} {last : Option Node}
    (h : CaseChain slot clauses last) : ∃ o, slot = .ofNode? o := by
  cases h with
  | done => exact ⟨none, rfl⟩
  | @otherwise n => exact ⟨some n, rfl⟩
  | @clause n => exact ⟨some n, rfl⟩

end Legacy.Node

namespace Context

variable {c : Context} {n : Node}

theorem elements?_eq_ok_iff {list : Option Node} {trees : List Tree} :
    c.elements? list = .ok trees ↔ c.Selects (.ofNode? list) trees := by
  cases list with
  | none =>
    constructor
    · intro h
      cases h
      exact .any
    · intro h
      cases h
      rfl
  | some list =>
    rw [elements?, elements, bind_eq_ok_iff]
    constructor
    · rintro ⟨arguments, harguments, htrees⟩
      exact .listed (Argument.ofNode_eq_ok_iff.mp harguments) (mapM_eq_ok_iff.mp htrees)
    · intro h
      cases h with
      | listed harguments htrees =>
        exact ⟨_, Argument.ofNode_eq_ok_iff.mpr harguments, mapM_eq_ok_iff.mpr htrees⟩

def Clause (c : Context) (n : Node) (t : Tree) : Prop :=
  ∃ body conditions statements location, c.Selects (n.child 0) conditions ∧
    n.child 1 = .ofNode? body ∧ c.statements body = .ok statements ∧ c.span n = .ok location ∧
    t = .whenClause conditions statements location

/-- The `else` of a chain, which there is exactly if something ends the chain. -/
inductive Otherwise (c : Context) : Option Node → Option Tree → Prop where
  | absent : Otherwise c none none
  | present {n : Node} {statements : Option Tree} (h : c.statements (some n) = .ok statements) :
      Otherwise c (some n) (some (.elseClause statements .null))

theorem clausesWithin_eq_clauses {bound : Nat} {o : Option Node}
    (ho : Legacy.Node.Optional (·.height ≤ bound) o) : c.clausesWithin bound o = c.clauses o := by
  cases o with
  | none => simp only [clausesWithin, clauses]
  | some m => exact clausesWithin_eq (Legacy.Node.optional_some ⟨ho m rfl, Nat.le_refl _⟩)

/-! One link of a chain. -/

theorem clauses_of_WHEN (hkind : n.kind = .WHEN) {trees : List Tree} {otherwise : Option Tree} :
    c.clauses (some n) = .ok (trees, otherwise) ↔ ∃ next t rest, n.child 2 = .ofNode? next ∧
      c.Clause n t ∧ c.clauses next = .ok (rest, otherwise) ∧ trees = t :: rest := by
  obtain ⟨bound, hbound⟩ := Nat.exists_eq_add_one.mpr n.height_pos
  have hnext (next : Option Node) (hslot : n.child 2 = .ofNode? next) :
      c.clausesWithin bound next = c.clauses next := by
    apply clausesWithin_eq_clauses
    rintro m rfl
    have := Legacy.Node.height_lt_of_child hslot
    omega
  rw [clauses, hbound, clausesWithin, if_pos hkind, bind_eq_ok_iff]
  simp only [Legacy.Node.shape_of_WHEN hkind]
  constructor
  · rintro ⟨_, ⟨list, body, next, hlist, hbody, hslot, rfl⟩, h⟩
    simp only [bind_eq_ok_iff, pure_eq_ok_iff, hnext next hslot] at h
    obtain ⟨conditions, hconditions, statements, hstatements, location, hlocation,
      ⟨rest, found⟩, hrest, hsame⟩ := h
    cases hsame
    refine ⟨next, _, rest, hslot, ?_, hrest, rfl⟩
    exact ⟨body, conditions, statements, location, hlist ▸ elements?_eq_ok_iff.mp hconditions,
      hbody, hstatements, hlocation, rfl⟩
  · rintro ⟨next, _, rest, hslot, ⟨body, conditions, statements, location, hselects, hbody,
      hstatements, hlocation, rfl⟩, hrest, rfl⟩
    obtain ⟨list, hlist⟩ : ∃ list, n.child 0 = .ofNode? list := by
      generalize n.child 0 = slot at hselects
      cases hselects with
      | any => exact ⟨none, rfl⟩
      | @listed list => exact ⟨some list, rfl⟩
    rw [hlist] at hselects
    refine ⟨_, ⟨list, body, next, hlist, hbody, hslot, rfl⟩, ?_⟩
    simp only [bind_eq_ok_iff, pure_eq_ok_iff, hnext next hslot]
    exact ⟨conditions, elements?_eq_ok_iff.mpr hselects, statements, hstatements, location,
      hlocation, _, hrest, rfl⟩

theorem clauses_of_not_WHEN (hkind : n.kind ≠ .WHEN) {trees : List Tree}
    {otherwise : Option Tree} :
    c.clauses (some n) = .ok (trees, otherwise) ↔ trees = [] ∧ c.Otherwise (some n) otherwise := by
  obtain ⟨bound, hbound⟩ := Nat.exists_eq_add_one.mpr n.height_pos
  rw [clauses, hbound, clausesWithin, if_neg hkind]
  simp only [bind_eq_ok_iff, pure_eq_ok_iff, Prod.mk.injEq]
  constructor
  · rintro ⟨statements, hstatements, rfl, rfl⟩
    exact ⟨rfl, .present hstatements⟩
  · rintro ⟨rfl, h⟩
    cases h with
    | present hstatements => exact ⟨_, hstatements, rfl, rfl⟩

theorem clauses_eq_ok_iff {slot : Child} {clauses : List Node} {last : Option Node}
    (h : Legacy.Node.CaseChain slot clauses last) {o : Option Node} (ho : slot = .ofNode? o)
    {trees : List Tree} {otherwise : Option Tree} :
    c.clauses o = .ok (trees, otherwise) ↔
      List.Forall₂ c.Clause clauses trees ∧ c.Otherwise last otherwise := by
  -- By induction on the chain: one tree for each clause, and the `else` at its end.
  induction h generalizing o trees with
  | done =>
    cases o with
    | some m => cases ho
    | none =>
      rw [Context.clauses, pure_eq_ok_iff, List.forall₂_nil_left_iff, Prod.mk.injEq]
      refine and_congr_right fun _ => ⟨?_, ?_⟩
      · rintro rfl
        exact .absent
      · intro h
        cases h
        rfl
  | otherwise hkind =>
    cases o with
    | none => cases ho
    | some m =>
      cases ho
      rw [clauses_of_not_WHEN hkind, List.forall₂_nil_left_iff]
  | @clause n rest last hkind hrest ih =>
    cases o with
    | none => cases ho
    | some m =>
      cases ho
      obtain ⟨next, hnext⟩ := hrest.slot
      simp only [clauses_of_WHEN hkind, List.forall₂_cons_left_iff]
      constructor
      · rintro ⟨found, t, trees, hfound, ht, htrees, rfl⟩
        obtain ⟨hclauses, hlast⟩ := (ih hfound).mp htrees
        exact ⟨⟨t, trees, ht, hclauses, rfl⟩, hlast⟩
      · rintro ⟨⟨t, trees, ht, hclauses, rfl⟩, hlast⟩
        exact ⟨next, t, trees, hnext, ht, (ih hnext).mpr ⟨hclauses, hlast⟩, rfl⟩

end Context

/-! What is enough for a `case` to be converted. -/

namespace Legacy.Node

def Converts (lines : LineTable) (options : Options) (scope : Scope) (n : Node) : Prop :=
  ∃ t, n.convert lines options scope none = .ok t

end Legacy.Node

theorem exists_forall₂ {α β : Type} {R : α → β → Prop} {as : List α} (h : ∀ a ∈ as, ∃ b, R a b) :
    ∃ bs, List.Forall₂ R as bs := by
  induction as with
  | nil => exact ⟨[], .nil⟩
  | cons a as ih =>
    obtain ⟨ha, has⟩ := List.forall_mem_cons.mp h
    obtain ⟨b, hb⟩ := ha
    obtain ⟨bs, hbs⟩ := ih has
    exact ⟨b :: bs, .cons hb hbs⟩

section

variable (lines : LineTable) (options : Options) (scope : Scope)

def Argument.Converts : Argument → Prop
  | .positional n => n.Converts lines options scope
  | .splat value wrapper => value.Converts lines options scope ∧
    Legacy.Node.Optional (fun n => ∃ s, lines.span n = .ok s) wrapper
  | .block value _ => Legacy.Node.Optional (Legacy.Node.Converts lines options scope) value

namespace Legacy.Node

/-- The arguments that the node stands for are converted, and it passes no block. -/
def ListConverts (list : Node) : Prop :=
  list.kind ≠ .BLOCK_PASS ∧ ∃ arguments, Argument.OuterSequence list arguments ∧
    ∀ a ∈ arguments, a.Converts lines options scope

structure ClauseConverts (n : Node) : Prop where
  conditions : ∃ list, n.child 0 = .ofNode? list ∧
    Optional (ListConverts lines options scope) list
  body : ∃ body, n.child 1 = .ofNode? body ∧ Optional (Converts lines options scope) body
  position : ∃ s, lines.span n = .ok s

end Legacy.Node

end

namespace Context

variable {lines : LineTable} {options : Options} {scope : Scope} {n : Node}

theorem exists_node? {o : Option Node}
    (h : Legacy.Node.Optional (Legacy.Node.Converts lines options scope) o) :
    ∃ t, (whole lines options scope).node? o = .ok t := by
  cases o with
  | none => exact ⟨none, rfl⟩
  | some n =>
    obtain ⟨t, ht⟩ := h n rfl
    exact ⟨some t, bind_eq_ok_iff.mpr ⟨t, ht, rfl⟩⟩

theorem exists_statements {o : Option Node}
    (h : Legacy.Node.Optional (Legacy.Node.Converts lines options scope) o) :
    ∃ t, (whole lines options scope).statements o = .ok t := by
  cases o with
  | none => exact ⟨none, rfl⟩
  | some n =>
    obtain ⟨t, ht⟩ := h n rfl
    have hnode : (whole lines options scope).node n = .ok t := ht
    obtain ⟨location, shape, hlocation, hshape⟩ := Legacy.Node.exists_shape_of_convert ht
    simp only [statements, hshape, hnode, span_whole, hlocation]
    cases shape with
    | begin body => cases body <;> exact ⟨_, rfl⟩
    | _ => exact ⟨_, rfl⟩

theorem exists_argument (list : Node) {a : Argument} (ha : a.Converts lines options scope)
    (hblock : a.isBlock = false) : ∃ t, (whole lines options scope).argument list a = .ok t := by
  cases a with
  | positional n => exact ha
  | splat value wrapper =>
    obtain ⟨⟨t, ht⟩, hwrapper⟩ := ha
    have hnode : (whole lines options scope).node value = .ok t := ht
    simp only [argument, hnode]
    cases wrapper with
    | none => exact ⟨_, rfl⟩
    | some wrapper =>
      obtain ⟨s, hs⟩ := hwrapper wrapper rfl
      simp only [spanOf?, span_whole, hs]
      exact ⟨_, rfl⟩
  | block value pass => cases hblock

theorem exists_selects {list : Option Node}
    (h : Legacy.Node.Optional (Legacy.Node.ListConverts lines options scope) list) :
    ∃ trees, (whole lines options scope).Selects (.ofNode? list) trees := by
  cases list with
  | none => exact ⟨[], .any⟩
  | some list =>
    obtain ⟨hkind, arguments, harguments, hconverts⟩ := h list rfl
    have hblock : ∀ a ∈ arguments, a.isBlock = false := by
      cases harguments with
      | plain hs => exact hs.not_isBlock
      | passing hpass => exact absurd hpass hkind
    obtain ⟨trees, htrees⟩ := exists_forall₂ fun a ha =>
      exists_argument list (hconverts a ha) (hblock a ha)
    exact ⟨trees, .listed harguments htrees⟩

theorem exists_clause (h : n.ClauseConverts lines options scope) :
    ∃ t, (whole lines options scope).Clause n t := by
  obtain ⟨⟨list, hlist, hconditions⟩, ⟨body, hslot, hbody⟩, location, hlocation⟩ := h
  obtain ⟨conditions, hselects⟩ := exists_selects hconditions
  obtain ⟨statements, hstatements⟩ := exists_statements hbody
  exact ⟨_, body, conditions, statements, location, hlist ▸ hselects, hslot, hstatements, hlocation,
    rfl⟩

theorem exists_otherwise {last : Option Node}
    (h : Legacy.Node.Optional (Legacy.Node.Converts lines options scope) last) :
    ∃ t, (whole lines options scope).Otherwise last t := by
  cases last with
  | none => exact ⟨none, .absent⟩
  | some n =>
    obtain ⟨statements, hstatements⟩ := exists_statements h
    exact ⟨_, .present hstatements⟩

end Context

namespace Legacy.Node

variable {lines : LineTable} {options : Options} {scope : Scope} {n : Node} {clauses : List Node}
  {last : Option Node}

/-- The tree of a `case`: its subject, one `when` for each clause and the `else` of the chain. -/
def CaseTree (lines : LineTable) (options : Options) (scope : Scope) (n : Node)
    (clauses : List Node) (last : Option Node) (t : Tree) : Prop :=
  ∃ subject predicate conditions consequent location, n.child 0 = .ofNode? subject ∧
    (Context.whole lines options scope).node? subject = .ok predicate ∧
    List.Forall₂ (Context.whole lines options scope).Clause clauses conditions ∧
    (Context.whole lines options scope).Otherwise last consequent ∧ lines.span n = .ok location ∧
    t = .caseWhen predicate conditions consequent location

theorem convert_eq_ok_iff_caseTree (hkind : n.kind = .CASE ∨ n.kind = .CASE2)
    (hchain : CaseChain (n.child 1) clauses last) {t : Tree} :
    n.convert lines options scope none = .ok t ↔
      CaseTree lines options scope n clauses last t := by
  obtain ⟨first, hfirst⟩ := hchain.slot
  constructor
  · intro h
    obtain ⟨_, shape, _, hshape⟩ := exists_shape_of_convert h
    rw [convert_eq_ok_iff hshape] at h
    obtain ⟨location, hlocation, h⟩ := h
    obtain ⟨subject, slot, hsubject, hslot, rfl⟩ := (shape_of_CASE hkind).mp hshape
    simp only [Context.shaped, Context.caseWhen, bind_eq_ok_iff, pure_eq_ok_iff, Prod.exists] at h
    obtain ⟨conditions, consequent, hclauses, predicate, hpredicate, rfl⟩ := h
    obtain ⟨hconditions, hconsequent⟩ := (Context.clauses_eq_ok_iff hchain hslot).mp hclauses
    exact ⟨subject, predicate, conditions, consequent, location, hsubject, hpredicate, hconditions,
      hconsequent, hlocation, rfl⟩
  · rintro ⟨subject, predicate, conditions, consequent, location, hsubject, hpredicate, hconditions,
      hconsequent, hlocation, rfl⟩
    have hclauses := (Context.clauses_eq_ok_iff hchain hfirst).mpr ⟨hconditions, hconsequent⟩
    rw [convert_eq_ok_iff ((shape_of_CASE hkind).mpr ⟨subject, first, hsubject, hfirst, rfl⟩)]
    refine ⟨location, hlocation, ?_⟩
    simp only [Context.shaped, Context.caseWhen, hclauses, hpredicate]
    rfl

/-- A `case` has one `when` for each clause of its chain, made from that clause, and an `else`
exactly if something else ends the chain. It is converted if the parts of all of them are and no
clause is selected by a list that passes a block. -/
theorem convert_caseChain (hkind : n.kind = .CASE ∨ n.kind = .CASE2)
    (hchain : CaseChain (n.child 1) clauses last) :
    (∀ t, n.convert lines options scope none = .ok t ↔
        CaseTree lines options scope n clauses last t) ∧
      ((∃ subject, n.child 0 = .ofNode? subject ∧
          Optional (Converts lines options scope) subject) →
        (∀ clause ∈ clauses, clause.ClauseConverts lines options scope) →
        Optional (Converts lines options scope) last → (∃ s, lines.span n = .ok s) →
        n.Converts lines options scope) := by
  refine ⟨fun t => convert_eq_ok_iff_caseTree hkind hchain, ?_⟩
  rintro ⟨subject, hslot, hsubject⟩ hclauses hlast ⟨location, hlocation⟩
  obtain ⟨predicate, hpredicate⟩ := Context.exists_node? hsubject
  obtain ⟨conditions, hconditions⟩ := exists_forall₂ fun clause hclause =>
    Context.exists_clause (hclauses clause hclause)
  obtain ⟨consequent, hconsequent⟩ := Context.exists_otherwise hlast
  refine ⟨_, (convert_eq_ok_iff_caseTree hkind hchain).mpr ⟨subject, predicate, conditions,
    consequent, location, hslot, hpredicate, hconditions, hconsequent, hlocation, rfl⟩⟩

/-- `when *b, c then d`, in front of another clause. -/
def whenSplat (next : Node) : Node :=
  let call (name : String) : Node := Build.named .VCALL ⟨name⟩ default
  let splat := Node.make .SPLAT [.node (call "b")] default
  let conditions := Node.make .ARGSPUSH [.node splat, .node (call "c")] default
  .make .WHEN [.node conditions, .node (call "d"), .node next] default

/-- `when e`, with nothing to run, in front of an `else`. -/
def whenIdle (otherwise : Node) : Node :=
  let conditions := Build.list [Build.named .VCALL ⟨"e"⟩ default] default
  .make .WHEN [.node conditions, .nil, .node otherwise] default

theorem convert_caseChain_twoClauses :
    let last := Build.named .VCALL ⟨"f"⟩ default
    let clauses := [whenSplat (whenIdle last), whenIdle last]
    let n := Node.make .CASE
      [.node (Build.named .VCALL ⟨"a"⟩ default), .node (whenSplat (whenIdle last))] default
    CaseChain (n.child 1) clauses (some last) ∧ ∃ t, n.convert ⟨[], 0⟩ {} [[]] none = .ok t ∧
      CaseTree ⟨[], 0⟩ {} [[]] n clauses (some last) t := by
  intro last clauses n
  have hchain : CaseChain (n.child 1) clauses (some last) :=
    .clause rfl (.clause rfl (.otherwise (by decide)))
  obtain ⟨htree, hconverts⟩ := @convert_caseChain ⟨[], 0⟩ {} [[]] n clauses _ (.inl rfl) hchain
  have hsplat : (whenSplat (whenIdle last)).ClauseConverts ⟨[], 0⟩ {} [[]] := by
    have harguments := Argument.ofNode_eq_ok_iff.mp
      (rfl : Argument.ofNode (Node.make .ARGSPUSH [.node (.make .SPLAT
        [.node (Build.named .VCALL ⟨"b"⟩ default)] default),
        .node (Build.named .VCALL ⟨"c"⟩ default)] default) = .ok [.splat _ _, .positional _])
    refine ⟨⟨some _, rfl, optional_some ⟨by decide, _, harguments, ?_⟩⟩,
      ⟨some _, rfl, optional_some ⟨_, rfl⟩⟩, _, rfl⟩
    exact List.forall_mem_cons.mpr ⟨⟨⟨_, rfl⟩, optional_some ⟨_, rfl⟩⟩,
      List.forall_mem_singleton.mpr ⟨_, rfl⟩⟩
  have hidle : (whenIdle last).ClauseConverts ⟨[], 0⟩ {} [[]] := by
    have harguments := Argument.ofNode_eq_ok_iff.mp
      (rfl : Argument.ofNode (Build.list [Build.named .VCALL ⟨"e"⟩ default] default) =
        .ok [.positional _])
    refine ⟨⟨some _, rfl, optional_some ⟨by decide, _, harguments, ?_⟩⟩,
      ⟨none, rfl, optional_none⟩, _, rfl⟩
    exact List.forall_mem_singleton.mpr ⟨_, rfl⟩
  have hclauses : ∀ clause ∈ clauses, clause.ClauseConverts ⟨[], 0⟩ {} [[]] :=
    List.forall_mem_cons.mpr ⟨hsplat, List.forall_mem_singleton.mpr hidle⟩
  obtain ⟨t, ht⟩ := hconverts ⟨some _, rfl, optional_some ⟨_, rfl⟩⟩ hclauses
    (optional_some ⟨_, rfl⟩) ⟨_, rfl⟩
  exact ⟨hchain, t, ht, (htree t).mp ht⟩

end Legacy.Node

end RubyTree
