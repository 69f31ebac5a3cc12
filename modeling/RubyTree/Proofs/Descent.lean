import RubyTree.Legacy.Shape
import RubyTree.Proofs.Outcome

/-! What is read from the slots of a legacy node lies below it. A set of nodes is closed when it
holds the children of its members; the parts of a node's shape stay in a closed set that holds the
children of the node. -/

namespace RubyTree

namespace Legacy

namespace Node

/-- Every child of `n` that is a node is in the set. -/
def Below (D : Node → Prop) (n : Node) : Prop := ∀ m, .node m ∈ n.children → D m

def Closed (D : Node → Prop) : Prop := ∀ n, D n → n.Below D

def Optional (D : Node → Prop) (o : Option Node) : Prop := ∀ m, o = some m → D m

/-- The nodes of a tree, its root included. -/
inductive Contains (root : Node) : Node → Prop where
  | root : Contains root root
  | child {n m : Node} (h : Contains root n) (hm : .node m ∈ n.children) : Contains root m

theorem closed_contains (root : Node) : Closed (Contains root) := fun _ hn _ hm => .child hn hm

theorem height_pos (n : Node) : 0 < n.height := by
  obtain ⟨kind, children, position⟩ := n
  exact Nat.succ_pos _

theorem height_le_heightList {m : Node} {children : List Child} (h : .node m ∈ children) :
    m.height ≤ heightList children := by
  induction children with
  | nil => simp at h
  | cons child rest ih =>
    simp only [heightList]
    rcases List.mem_cons.mp h with rfl | h
    · simp only [heightChild]
      omega
    · have := ih h
      omega

theorem height_lt_of_mem_children {n m : Node} (h : .node m ∈ n.children) :
    m.height < n.height := by
  obtain ⟨kind, children, position⟩ := n
  have hm : m.height ≤ heightList children := height_le_heightList h
  simp only [height]
  omega

theorem closed_height_le (bound : Nat) : Closed fun n => n.height ≤ bound := by
  intro n hn m hm
  have := height_lt_of_mem_children hm
  omega

theorem Closed.and {D E : Node → Prop} (hD : Closed D) (hE : Closed E) :
    Closed fun n => D n ∧ E n :=
  fun n hn m hm => ⟨hD n hn.1 m hm, hE n hn.2 m hm⟩

section

variable {D : Node → Prop} {n : Node}

theorem optional_none : Optional D none := by
  intro m hm
  cases hm

theorem optional_some {m : Node} (h : D m) : Optional D (some m) := by
  intro k hk
  cases hk
  exact h

theorem Below.child (hn : n.Below D) {i : Nat} {m : Node} (h : n.child i = .node m) : D m := by
  apply hn
  unfold Node.child at h
  cases hc : n.children[i]? with
  | none => simp [hc] at h
  | some c =>
    simp only [hc, Option.getD_some] at h
    exact h ▸ List.mem_of_getElem? hc

theorem Below.expectKind (hn : n.Below D) {kinds : List Kind} :
    Yields (n.expectKind kinds) fun m => m = n ∧ m.Below D := by
  unfold Node.expectKind
  split
  · exact .pure ⟨rfl, hn⟩
  · exact .throw

theorem Below.node (hn : n.Below D) {i : Nat} : Yields (n.node i) D := by
  unfold Node.node
  split
  · next m h => exact .pure (hn.child h)
  · exact .throw

theorem Below.node? (hn : n.Below D) {i : Nat} : Yields (n.node? i) (Optional D) := by
  unfold Node.node?
  split
  · exact .pure optional_none
  · next m h => exact .pure (optional_some (hn.child h))
  · exact .throw

theorem nodesAt_yields {children : List Child} (h : ∀ m, .node m ∈ children → D m) {i : Nat} :
    Yields (n.nodesAt i children) fun ms => ∀ m ∈ ms, D m := by
  induction children generalizing i with
  | nil => exact .pure (by simp)
  | cons child rest ih =>
    cases child with
    | node m =>
      refine .bind (ih fun k hk => h k (by simp [hk])) fun ms hms => .pure ?_
      simpa using ⟨h m (by simp), hms⟩
    | _ => exact .throw

theorem Below.nodesFrom (hn : n.Below D) {i : Nat} :
    Yields (n.nodesFrom i) fun ms => ∀ m ∈ ms, D m :=
  nodesAt_yields fun m hm => hn m (List.mem_of_mem_drop hm)

end

section

variable {n m : Node} {i : Nat}

theorem expectKind_eq_ok_iff {kinds : List Kind} :
    n.expectKind kinds = .ok m ↔ n.kind ∈ kinds ∧ m = n := by
  unfold Node.expectKind
  constructor
  · intro h
    split at h
    · next hkind => exact ⟨hkind, pure_eq_ok_iff.mp h⟩
    · cases h
  · rintro ⟨hkind, rfl⟩
    exact if_pos hkind

theorem expectKind_of_kind {kind : Kind} (h : n.kind = kind) : n.expectKind [kind] = .ok n :=
  expectKind_eq_ok_iff.mpr ⟨List.mem_singleton.mpr h, rfl⟩

theorem name_eq_ok_iff {s : Name} : n.name i = .ok s ↔ n.child i = .name s := by
  unfold Node.name
  constructor
  · intro h
    split at h
    · next hchild =>
      cases h
      exact hchild
    · cases h
  · intro h
    rw [h]
    rfl

theorem node_eq_ok_iff : n.node i = .ok m ↔ n.child i = .node m := by
  unfold Node.node
  constructor
  · intro h
    split at h
    · next hchild =>
      cases h
      exact hchild
    · cases h
  · intro h
    rw [h]
    rfl

theorem ofNode?_inj {o o' : Option Node} (h : Child.ofNode? o = .ofNode? o') : o = o' := by
  cases o <;> cases o' <;> cases h <;> rfl

theorem node?_eq_ok_iff {o : Option Node} : n.node? i = .ok o ↔ n.child i = .ofNode? o := by
  unfold Node.node?
  constructor
  · intro h
    split at h
    · next hchild =>
      cases h
      exact hchild
    · next hchild =>
      cases h
      exact hchild
    · cases h
  · intro h
    rw [h]
    cases o <;> rfl

theorem nodesAt_eq_ok_iff {children : List Child} {ms : List Node} :
    n.nodesAt i children = .ok ms ↔ children = ms.map .node := by
  induction children generalizing i ms with
  | nil =>
    constructor
    · intro h
      cases h
      rfl
    · intro h
      rw [List.map_eq_nil_iff.mp h.symm]
      rfl
  | cons child rest ih =>
    cases child with
    | node m =>
      rw [nodesAt, bind_eq_ok_iff]
      constructor
      · rintro ⟨others, hothers, h⟩
        cases h
        rw [List.map_cons, ih.mp hothers]
      · intro h
        obtain ⟨first, others, rfl, hfirst, hothers⟩ := List.map_eq_cons_iff.mp h.symm
        cases hfirst
        exact ⟨others, ih.mpr hothers.symm, rfl⟩
    | _ =>
      constructor
      · intro h
        cases h
      · intro h
        obtain ⟨_, _, _, hfirst, _⟩ := List.map_eq_cons_iff.mp h.symm
        cases hfirst

theorem dropTerminator_concat_nil (children : List Child) :
    dropTerminator (children ++ [.nil]) = children := by
  induction children with
  | nil => rfl
  | cons child rest ih =>
    rw [List.cons_append, dropTerminator, ih]
    simp

theorem dropTerminator_concat_of_not_isNil {children : List Child} {last : Child}
    (h : last.isNil = false) : dropTerminator (children ++ [last]) = children ++ [last] := by
  induction children with
  | nil => cases last <;> first | rfl | cases h
  | cons child rest ih =>
    rw [List.cons_append, dropTerminator, ih]
    simp

end

end Node

open Node (Optional Closed)

def RestSlot.All (D : Node → Prop) : RestSlot → Prop
  | .target n => D n
  | _ => True

structure Descriptor.All (D : Node → Prop) (d : Descriptor) : Prop where
  preInit : Optional D d.preInit
  optionals : Optional D d.optionals
  postInit : Optional D d.postInit
  keywords : Optional D d.keywords

def NameOperand.All (D : Node → Prop) : NameOperand → Prop
  | .node n => D n
  | .name _ => True

def Shape.All (D : Node → Prop) : Shape → Prop
  | .scope _ args body => Optional D args ∧ Optional D body
  | .block statements => ∀ n ∈ statements, D n
  | .conditional condition body otherwise => D condition ∧ Optional D body ∧ Optional D otherwise
  | .case subject clauses => Optional D subject ∧ Optional D clauses
  | .when conditions body next => Optional D conditions ∧ Optional D body ∧ Optional D next
  | .loop condition body _ => D condition ∧ Optional D body
  | .iter callee inner => D callee ∧ D inner
  | .forIn collection inner => D collection ∧ D inner
  | .jump value => Optional D value
  | .begin body => Optional D body
  | .rescue body clause otherwise => Optional D body ∧ Optional D clause ∧ Optional D otherwise
  | .rescueClause exceptions body next =>
    Optional D exceptions ∧ Optional D body ∧ Optional D next
  | .ensure body ensured => Optional D body ∧ Optional D ensured
  | .pair left right => Optional D left ∧ Optional D right
  | .multiAssign value head rest posts =>
    Optional D value ∧ Optional D head ∧ rest.All D ∧ Optional D posts
  | .assign _ value _ => Optional D value
  | .constPathAssign path _ value => D path ∧ Optional D value
  | .indexOpAssign receiver _ index value => D receiver ∧ Optional D index ∧ D value
  | .attrOpAssign receiver _ _ _ value => D receiver ∧ D value
  | .conditionalAssign _ assignment => D assignment
  | .constOpAssign path _ value => D path ∧ D value
  | .call receiver _ args => Optional D receiver ∧ Optional D args
  | .invoke args => Optional D args
  | .list elements => ∀ n ∈ elements, D n
  | .hash pairs => Optional D pairs
  | .variableName _ => True
  | .literal _ => True
  | .symbol _ => True
  | .interpolation _ head tail _ => Optional D head ∧ Optional D tail
  | .wrapper body => Optional D body
  | .matchOperator regexp value captures => D regexp ∧ D value ∧ Optional D captures
  | .definition receiver _ inner => Optional D receiver ∧ D inner
  | .alias newName oldName => D newName ∧ D oldName
  | .globalAlias _ _ => True
  | .undef names => ∀ operand ∈ names, operand.All D
  | .classDefinition path superclass inner => D path ∧ Optional D superclass ∧ D inner
  | .moduleDefinition path inner => D path ∧ D inner
  | .singletonClass receiver inner => D receiver ∧ D inner
  | .colon parent _ => Optional D parent
  | .params descriptor => descriptor.All D
  | .paramLink body next => D body ∧ Optional D next
  | .postArg rest posts => rest.All D ∧ D posts
  | .leaf => True
  | .unsupported => True

namespace Node

section

variable {D : Node → Prop} {n : Node}

theorem Below.restSlot (hn : n.Below D) {i : Nat} : Yields (n.restSlot i) (RestSlot.All D) := by
  unfold Node.restSlot
  split
  · exact .pure trivial
  · exact .pure trivial
  · exact .bind hn.node fun m hm => .pure hm

/-- The slots of a `POSTARG` are read through the node that holds it, so the set must be closed. -/
theorem Below.multiAssignShape (hD : Closed D) (hn : n.Below D) :
    Yields n.multiAssignShape (Shape.All D) := by
  unfold Node.multiAssignShape
  refine .bind hn.node? fun value hvalue => .bind hn.node? fun head hhead => ?_
  split
  · next args hargs =>
    split
    · have hb := hD args (hn.child hargs)
      exact .bind hb.restSlot fun rest hrest => .bind hb.node fun posts hposts =>
        .pure ⟨hvalue, hhead, hrest, optional_some hposts⟩
    · exact .bind hn.restSlot fun rest hrest => .pure ⟨hvalue, hhead, hrest, optional_none⟩
  · exact .bind hn.restSlot fun rest hrest => .pure ⟨hvalue, hhead, hrest, optional_none⟩

theorem Below.assignShape (hn : n.Below D) : Yields n.assignShape (Shape.All D) := by
  unfold Node.assignShape
  refine .after fun name _ => ?_
  split
  · exact .pure optional_none
  · exact .bind hn.node? fun value hvalue => .pure hvalue

theorem Below.constAssignShape (hn : n.Below D) : Yields n.constAssignShape (Shape.All D) := by
  unfold Node.constAssignShape
  split
  · next path hpath =>
    exact .after fun name _ => .bind hn.node? fun value hvalue => .pure ⟨hn.child hpath, hvalue⟩
  · exact hn.assignShape

theorem symbolShape_all : Yields n.symbolShape (Shape.All D) := by
  unfold Node.symbolShape
  split
  · exact .pure trivial
  · exact .after fun name _ => .pure trivial

theorem Below.interpolationShape (hn : n.Below D) :
    Yields n.interpolationShape (Shape.All D) := by
  unfold Node.interpolationShape
  refine .after fun leading _ => .bind hn.node? fun head hhead => ?_
  refine .bind hn.node? fun tail htail => ?_
  split
  · exact .pure ⟨hhead, htail⟩
  · exact .after fun options _ => .pure ⟨hhead, htail⟩

theorem nameOperandsAt_all {children : List Child} (h : ∀ m, .node m ∈ children → D m)
    {i : Nat} : Yields (n.nameOperandsAt i children) fun operands =>
      ∀ operand ∈ operands, operand.All D := by
  induction children generalizing i with
  | nil => exact .pure (by simp)
  | cons child rest ih =>
    replace ih := fun {i} => @ih (fun m hm => h m (by simp [hm])) i
    cases child with
    | node m =>
      refine .bind ih fun operands hoperands => .pure ?_
      simpa using ⟨h m (by simp), hoperands⟩
    | name s =>
      refine .bind ih fun operands hoperands => .pure ?_
      simpa using ⟨trivial, hoperands⟩
    | _ => exact .throw

theorem Below.nameOperands (hn : n.Below D) :
    Yields (n.nameOperandsAt 0 n.children) fun operands => ∀ operand ∈ operands, operand.All D :=
  nameOperandsAt_all hn

theorem Below.descriptor (hn : n.Below D) : Yields n.descriptor (Descriptor.All D) := by
  unfold Node.descriptor
  exact .after fun rest _ => .after fun keywordRest _ => .after fun preCount _ =>
    .bind hn.node? fun preInit hpre => .bind hn.node? fun optionals hoptionals =>
    .after fun firstPost _ => .after fun postCount _ => .bind hn.node? fun postInit hpost =>
    .bind hn.node? fun keywords hkeywords => .after fun block _ =>
    .pure ⟨hpre, hoptionals, hpost, hkeywords⟩

theorem Below.shape (hD : Closed D) (hn : n.Below D) : Yields n.shape (Shape.All D) := by
  unfold Node.shape
  split
  all_goals with_reducible
    first
    | exact hn.multiAssignShape hD
    | exact hn.assignShape
    | exact hn.constAssignShape
    | exact symbolShape_all
    | exact hn.interpolationShape
    | skip
  -- What is left reads its slots one after the other and puts them together.
  all_goals with_reducible
    repeat first
      | refine .bind hn.node fun _ _ => ?_
      | refine .bind hn.node? fun _ _ => ?_
      | refine .bind hn.nodesFrom fun _ _ => ?_
      | refine .bind hn.restSlot fun _ _ => ?_
      | refine .bind hn.descriptor fun _ _ => ?_
      | refine .bind hn.nameOperands fun _ _ => ?_
      | refine .after fun _ _ => ?_
    refine .pure ?_
  all_goals simp_all [Shape.All, optional_none, optional_some]

end

end Node

def Shape.kinds : Shape → List Kind
  | .scope .. => [.SCOPE]
  | .block _ => [.BLOCK]
  | .conditional .. => [.IF, .UNLESS]
  | .case .. => [.CASE, .CASE2]
  | .when .. => [.WHEN]
  | .loop .. => [.WHILE, .UNTIL]
  | .iter .. => [.ITER]
  | .forIn .. => [.FOR]
  | .jump _ => [.BREAK, .NEXT, .RETURN]
  | .begin _ => [.BEGIN]
  | .rescue .. => [.RESCUE]
  | .rescueClause .. => [.RESBODY]
  | .ensure .. => [.ENSURE]
  | .pair .. => [.AND, .OR, .DOT2, .DOT3, .FLIP2, .FLIP3, .ARGSCAT, .ARGSPUSH, .BLOCK_PASS]
  | .multiAssign .. => [.MASGN]
  | .assign .. => [.LASGN, .DASGN, .IASGN, .CVASGN, .GASGN, .CDECL]
  | .constPathAssign .. => [.CDECL]
  | .indexOpAssign .. => [.OP_ASGN1]
  | .attrOpAssign .. => [.OP_ASGN2]
  | .conditionalAssign .. => [.OP_ASGN_AND, .OP_ASGN_OR]
  | .constOpAssign .. => [.OP_CDECL]
  | .call .. => [.CALL, .OPCALL, .QCALL, .ATTRASGN, .FCALL, .VCALL]
  | .invoke _ => [.SUPER, .YIELD]
  | .list _ => [.LIST, .ZLIST]
  | .hash _ => [.HASH]
  | .variableName _ => [.LVAR, .DVAR, .IVAR, .GVAR, .CVAR, .CONST, .NTH_REF, .BACK_REF]
  | .literal _ =>
    [.INTEGER, .FLOAT, .RATIONAL, .IMAGINARY, .STR, .XSTR, .REGX, .MATCH, .FILE]
  | .symbol _ => [.SYM]
  | .interpolation .. => [.DSTR, .DXSTR, .DSYM, .DREGX]
  | .wrapper _ => [.EVSTR, .ONCE, .DEFINED, .SPLAT, .POSTEXE, .LAMBDA]
  | .matchOperator .. => [.MATCH2, .MATCH3]
  | .definition .. => [.DEFN, .DEFS]
  | .alias .. => [.ALIAS]
  | .globalAlias .. => [.VALIAS]
  | .undef _ => [.UNDEF]
  | .classDefinition .. => [.CLASS]
  | .moduleDefinition .. => [.MODULE]
  | .singletonClass .. => [.SCLASS]
  | .colon .. => [.COLON2, .COLON3]
  | .params _ => [.ARGS]
  | .paramLink .. => [.OPT_ARG, .KW_ARG]
  | .postArg .. => [.POSTARG]
  | .leaf =>
    [.SELF, .NIL, .TRUE, .FALSE, .REDO, .RETRY, .ZSUPER, .ERRINFO, .LINE, .ENCODING]
  | .unsupported => [.CASE3, .IN, .FOR_MASGN, .ARYPTN, .FNDPTN, .HSHPTN, .ERROR, .ARGS_AUX]

namespace Node

variable {n : Node}

theorem multiAssignShape_kinds : Yields n.multiAssignShape fun shape => shape.kinds = [.MASGN] := by
  unfold Node.multiAssignShape
  refine .after fun _ _ => .after fun _ _ => ?_
  split
  · split
    · exact .after fun _ _ => .after fun _ _ => .pure rfl
    · exact .after fun _ _ => .pure rfl
  · exact .after fun _ _ => .pure rfl

theorem assignShape_kinds : Yields n.assignShape fun shape =>
    shape.kinds = [.LASGN, .DASGN, .IASGN, .CVASGN, .GASGN, .CDECL] := by
  unfold Node.assignShape
  refine .after fun _ _ => ?_
  split
  · exact .pure rfl
  · exact .after fun _ _ => .pure rfl

theorem constAssignShape_kinds : Yields n.constAssignShape fun shape => .CDECL ∈ shape.kinds := by
  unfold Node.constAssignShape
  split
  · exact .after fun _ _ => .after fun _ _ => .pure (by simp [Shape.kinds])
  · exact assignShape_kinds.mono fun shape h => by simp [h]

theorem symbolShape_kinds : Yields n.symbolShape fun shape => shape.kinds = [.SYM] := by
  unfold Node.symbolShape
  split
  · exact .pure rfl
  · exact .after fun _ _ => .pure rfl

theorem interpolationShape_kinds : Yields n.interpolationShape fun shape =>
    shape.kinds = [.DSTR, .DXSTR, .DSYM, .DREGX] := by
  unfold Node.interpolationShape
  refine .after fun _ _ => .after fun _ _ => .after fun _ _ => ?_
  split
  · exact .pure rfl
  · exact .after fun _ _ => .pure rfl

theorem kind_mem_kinds : Yields n.shape fun shape => n.kind ∈ shape.kinds := by
  unfold Node.shape
  cases n.kind
  all_goals with_reducible
    first
    | exact multiAssignShape_kinds.mono fun shape h => by simp [h]
    | exact assignShape_kinds.mono fun shape h => by simp [h]
    | exact constAssignShape_kinds
    | exact symbolShape_kinds.mono fun shape h => by simp [h]
    | exact interpolationShape_kinds.mono fun shape h => by simp [h]
    | skip
  all_goals with_reducible
    repeat refine .after fun _ _ => ?_
    refine .pure ?_
  all_goals simp [Shape.kinds]

theorem node?_of_shape {o : Option Node} (h : n.shape = .ok (.hash o)) : n.node? 0 = .ok o := by
  have hkind := List.mem_singleton.mp (kind_mem_kinds _ h)
  simp only [Node.shape, hkind] at h
  obtain ⟨found, hfound, h⟩ := bind_eq_ok_iff.mp h
  cases h
  exact hfound

theorem literal_of_shape {value : Literal} (h : n.shape = .ok (.literal value)) :
    n.literal 0 = .ok value := by
  have hkind := kind_mem_kinds _ h
  simp only [Shape.kinds, List.mem_cons, List.not_mem_nil, or_false] at hkind
  unfold Node.shape at h
  rcases hkind with hk | hk | hk | hk | hk | hk | hk | hk | hk
  all_goals
    rw [hk] at h
    obtain ⟨found, hfound, h⟩ := bind_eq_ok_iff.mp h
    cases h
    exact hfound

end Node

end Legacy

end RubyTree
