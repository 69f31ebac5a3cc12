import RubyTree.Conversion
import RubyTree.Proofs.Descent

/-! The kinds of trees that nodes of a legacy kind are converted to. They are few, and there are
none for nodes that only their parents take apart. -/

namespace RubyTree

open Canonical (Tree Variable)
open Legacy (Node Shape)

/-- What a node of the kind can become. -/
def Legacy.Kind.forms : Legacy.Kind → List Canonical.Kind
  | .BLOCK => [.statementsNode]
  | .IF => [.ifNode]
  | .UNLESS => [.unlessNode]
  | .CASE | .CASE2 => [.caseNode]
  | .WHILE => [.whileNode]
  | .UNTIL => [.untilNode]
  | .ITER => [.callNode, .superNode, .forwardingSuperNode]
  | .FOR => [.forNode]
  | .BREAK => [.breakNode]
  | .NEXT => [.nextNode]
  | .RETURN => [.returnNode]
  | .REDO => [.redoNode]
  | .RETRY => [.retryNode]
  | .BEGIN | .RESCUE | .ENSURE => [.beginNode]
  | .AND => [.andNode]
  | .OR => [.orNode]
  | .DOT2 | .DOT3 => [.rangeNode]
  | .FLIP2 | .FLIP3 => [.flipFlopNode]
  | .MASGN => [.multiWriteNode]
  | .LASGN | .DASGN => [.localVariableWriteNode]
  | .IASGN => [.instanceVariableWriteNode]
  | .CVASGN => [.classVariableWriteNode]
  | .GASGN => [.globalVariableWriteNode]
  | .CDECL => [.constantWriteNode, .constantPathWriteNode]
  | .OP_ASGN1 => [.indexOrWriteNode, .indexAndWriteNode, .indexOperatorWriteNode]
  | .OP_ASGN2 => [.callOrWriteNode, .callAndWriteNode, .callOperatorWriteNode]
  | .OP_ASGN_AND =>
    [.localVariableAndWriteNode, .instanceVariableAndWriteNode, .classVariableAndWriteNode,
      .globalVariableAndWriteNode, .constantAndWriteNode]
  | .OP_ASGN_OR =>
    [.localVariableOrWriteNode, .instanceVariableOrWriteNode, .classVariableOrWriteNode,
      .globalVariableOrWriteNode, .constantOrWriteNode]
  | .OP_CDECL =>
    [.constantPathOrWriteNode, .constantPathAndWriteNode, .constantPathOperatorWriteNode]
  | .CALL | .OPCALL | .QCALL | .FCALL | .VCALL | .ATTRASGN => [.callNode]
  | .SUPER => [.superNode]
  | .ZSUPER => [.forwardingSuperNode]
  | .YIELD => [.yieldNode]
  | .LIST | .ZLIST | .SPLAT | .ARGSCAT | .ARGSPUSH => [.arrayNode]
  | .HASH => [.hashNode]
  | .LVAR | .DVAR => [.localVariableReadNode]
  | .IVAR => [.instanceVariableReadNode]
  | .CVAR => [.classVariableReadNode]
  | .GVAR => [.globalVariableReadNode]
  | .CONST => [.constantReadNode]
  | .NTH_REF => [.numberedReferenceNode]
  | .BACK_REF => [.backReferenceNode]
  | .MATCH => [.matchLastLineNode]
  | .MATCH2 | .MATCH3 => [.callNode, .matchWriteNode]
  | .INTEGER | .FLOAT | .RATIONAL => [.integerNode, .floatNode, .rationalNode]
  | .IMAGINARY => [.imaginaryNode]
  | .STR => [.stringNode]
  | .XSTR => [.xStringNode]
  | .REGX => [.regularExpressionNode]
  | .SYM => [.symbolNode]
  | .DSTR => [.interpolatedStringNode]
  | .DXSTR => [.interpolatedXStringNode]
  | .DSYM => [.interpolatedSymbolNode]
  | .DREGX | .ONCE => [.interpolatedRegularExpressionNode]
  | .DEFN | .DEFS => [.defNode]
  | .ALIAS => [.aliasMethodNode]
  | .VALIAS => [.aliasGlobalVariableNode]
  | .UNDEF => [.undefNode]
  | .CLASS => [.classNode]
  | .MODULE => [.moduleNode]
  | .SCLASS => [.singletonClassNode]
  | .COLON2 | .COLON3 => [.constantPathNode]
  | .SELF => [.selfNode]
  | .NIL => [.nilNode]
  | .TRUE => [.trueNode]
  | .FALSE => [.falseNode]
  | .DEFINED => [.definedNode]
  | .POSTEXE => [.postExecutionNode]
  | .LAMBDA => [.lambdaNode]
  | .LINE => [.sourceLineNode]
  | .FILE => [.sourceFileNode]
  | .ENCODING => [.sourceEncodingNode]
  | _ => []

namespace Legacy.Kind

variable {kind : Legacy.Kind} {kinds : List Legacy.Kind} {form : Canonical.Kind}

theorem mem_forms (h : kind ∈ kinds) (hforms : kinds.all (form ∈ ·.forms) = true) :
    form ∈ kind.forms := by
  simpa using List.all_eq_true.mp hforms kind h

theorem mem_forms_of_eq {other : Legacy.Kind} (h : kind = other)
    (hform : decide (form ∈ other.forms) = true) : form ∈ kind.forms := by
  rw [h]
  exact of_decide_eq_true hform

theorem forms_of_takesBlock (h : kind.takesBlock = true) : kind.forms ⊆ ITER.forms := by
  cases kind with
  | CALL | OPCALL | QCALL | FCALL | VCALL | SUPER | ZSUPER => decide
  | _ => cases h

theorem forms_of_path (h : kind ∈ [.COLON2, .COLON3]) : kind.forms = [.constantPathNode] := by
  simp only [List.mem_cons, List.not_mem_nil, or_false] at h
  obtain rfl | rfl := h
  · rfl
  · rfl

theorem constantPathNode_mem_forms_iff :
    .constantPathNode ∈ kind.forms ↔ kind ∈ [.COLON2, .COLON3] := by
  constructor
  · cases kind <;> decide
  · intro h
    rw [forms_of_path h]
    exact List.mem_singleton_self _

end Legacy.Kind

open Legacy.Kind (mem_forms mem_forms_of_eq)

namespace Context

variable {c : Context} {n : Node} {o : Option Node} {pending : Option Tree} {location : Span}

theorem array_kind (h : .arrayNode ∈ n.kind.forms) :
    Yields (c.array n location) (·.kind ∈ n.kind.forms) :=
  .after fun _ _ => .after fun _ _ => .pure h

theorem conditional_kind {condition : Node} {body otherwise : Option Node}
    (h : n.kind ∈ [.IF, .UNLESS]) :
    Yields (c.conditional n condition body otherwise location) (·.kind ∈ n.kind.forms) := by
  refine .after fun _ _ => .after fun _ _ => ?_
  split
  · next hif => exact .after fun _ _ => .pure (mem_forms_of_eq hif rfl)
  · next hif =>
    have hunless : n.kind = .UNLESS := by simpa [hif] using h
    exact .after fun _ _ => .pure (mem_forms_of_eq hunless rfl)

theorem loop_kind {condition : Node} {postCondition : Bool} (h : n.kind ∈ [.WHILE, .UNTIL]) :
    Yields (c.loop n condition o postCondition location) (·.kind ∈ n.kind.forms) := by
  refine .after fun _ _ => .after fun _ _ => ?_
  dsimp only
  split
  · next hwhile => exact .pure (mem_forms_of_eq hwhile rfl)
  · next hwhile =>
    have huntil : n.kind = .UNTIL := by simpa [hwhile] using h
    exact .pure (mem_forms_of_eq huntil rfl)

theorem forLoop_kind {collection scope : Node} (h : n.kind = .FOR) :
    Yields (c.forLoop collection scope location) (·.kind ∈ n.kind.forms) := by
  refine .after fun (_, args, body) _ => ?_
  cases args with
  | none => exact .throw
  | some args =>
    exact .after fun _ _ => .after fun _ _ => .after fun _ _ => .after fun _ _ =>
      .after fun _ _ => .pure (mem_forms_of_eq h rfl)

theorem jump_kind (h : n.kind ∈ [.BREAK, .NEXT, .RETURN]) :
    Yields (c.jump n o location) (·.kind ∈ n.kind.forms) := by
  refine .after fun arguments _ => ?_
  dsimp only
  split
  · next hbreak => exact .pure (mem_forms_of_eq hbreak rfl)
  · next hnext => exact .pure (mem_forms_of_eq hnext rfl)
  · have hreturn : n.kind = .RETURN := by simp_all
    exact .pure (mem_forms_of_eq hreturn rfl)

theorem pair_kind {left right : Option Node} :
    Yields (c.pair n left right location) (·.kind ∈ n.kind.forms) := by
  unfold pair
  split
  case h_7 | h_8 =>
    next hkind => exact array_kind (mem_forms_of_eq hkind rfl)
  case h_9 => exact .throw
  all_goals
    next hkind => exact .after fun _ _ => .after fun _ _ => .pure (mem_forms_of_eq hkind rfl)

/-! Variables. -/

theorem write_kind {name : Name} :
    Yields (c.write n name o location) (·.kind ∈ n.kind.forms) := by
  refine .after fun value _ => ?_
  unfold assigned?
  cases hkind : n.kind with
  | LASGN | DASGN | IASGN | CVASGN | GASGN | CDECL => exact .pure (mem_forms_of_eq rfl rfl)
  | _ => exact .throw

theorem andWrite_kind {value : Tree} (var : Variable) (h : n.kind = .OP_ASGN_AND) :
    (Tree.andWrite value location var).kind ∈ n.kind.forms := by
  cases var <;> exact mem_forms_of_eq h rfl

theorem orWrite_kind {value : Tree} (var : Variable) (h : n.kind = .OP_ASGN_OR) :
    (Tree.orWrite value location var).kind ∈ n.kind.forms := by
  cases var <;> exact mem_forms_of_eq h rfl

theorem conditionalWrite_kind {assignment : Node} (h : n.kind ∈ [.OP_ASGN_AND, .OP_ASGN_OR]) :
    Yields (c.conditionalWrite n assignment location) (·.kind ∈ n.kind.forms) := by
  refine .after fun shape _ => ?_
  split
  · refine .after fun value _ => ?_
    split
    · next var _ =>
      split
      · next hand => exact .pure (andWrite_kind var hand)
      · next hand =>
        have hor : n.kind = .OP_ASGN_OR := by simpa [hand] using h
        exact .pure (orWrite_kind var hor)
    · exact .throw
  · exact .throw

theorem read_kind {name : Name} : Yields (c.read n name location) (·.kind ∈ n.kind.forms) := by
  unfold Context.read
  split
  case h_7 hkind =>
    split
    · exact .pure (mem_forms_of_eq hkind rfl)
    · exact .throw
  case h_9 => exact .throw
  all_goals
    next hkind => exact .pure (mem_forms_of_eq hkind rfl)

/-! Literals. -/

theorem numeric?_kind {value : Literal} {t : Tree} (h : n.kind ∈ [.INTEGER, .FLOAT, .RATIONAL])
    (ht : numeric? location value = some t) : t.kind ∈ n.kind.forms := by
  unfold numeric? at ht
  split at ht
  · cases ht
    exact mem_forms h rfl
  · cases ht
    exact mem_forms h rfl
  · cases ht
    exact mem_forms h rfl
  · cases ht

theorem literal_kind {value : Literal} :
    Yields (c.literal n value location) (·.kind ∈ n.kind.forms) := by
  unfold Context.literal
  split
  case h_1 | h_2 | h_3 =>
    next hkind =>
    split
    · next t ht => exact .pure (numeric?_kind (by simp [hkind]) ht)
    · exact .throw
  case h_4 hkind =>
    split
    · exact .pure (mem_forms_of_eq hkind rfl)
    · exact .throw
  case h_10 => exact .throw
  all_goals
    next hkind => exact .pure (mem_forms_of_eq hkind rfl)

theorem interpolation_kind {leading : Option String} {head tail : Option Node} {bits : UInt32}
    (h : n.kind ∈ [.DSTR, .DXSTR, .DSYM, .DREGX]) :
    Yields (c.interpolation n leading head tail bits location) (·.kind ∈ n.kind.forms) := by
  refine .after fun parts _ => ?_
  split
  · next hkind => exact .pure (mem_forms_of_eq hkind rfl)
  · next hkind => exact .pure (mem_forms_of_eq hkind rfl)
  · next hkind => exact .pure (mem_forms_of_eq hkind rfl)
  · have hregexp : n.kind = .DREGX := by simp_all
    exact .pure (mem_forms_of_eq hregexp rfl)

theorem once?_kind {t u : Tree} (h : Tree.once? location t = some u) :
    u.kind = .interpolatedRegularExpressionNode := by
  cases t with
  | mk kind fields _ =>
    cases kind with
    | interpolatedRegularExpressionNode =>
      cases fields with
      | cons value values =>
        cases value with
        | flags flags =>
          cases h
          rfl
    | _ => cases h

theorem wrapper_kind : Yields (c.wrapper n o location) (·.kind ∈ n.kind.forms) := by
  unfold wrapper
  split
  · next hkind =>
    refine .after fun inner _ => ?_
    split
    · next t ht => exact .pure (once?_kind ht ▸ mem_forms_of_eq hkind rfl)
    · exact .throw
  · next hkind => exact .after fun _ _ => .pure (mem_forms_of_eq hkind rfl)
  · next hkind =>
    cases o with
    | none => exact .throw
    | some scope => exact .after fun _ _ => .after fun _ _ => .pure (mem_forms_of_eq hkind rfl)
  · next hkind =>
    cases o with
    | none => exact .throw
    | some scope => exact .after fun _ _ => .pure (mem_forms_of_eq hkind rfl)
  · next hkind => exact array_kind (mem_forms_of_eq hkind rfl)
  · exact .throw

/-! Calls and operators. -/

theorem indexOpWrite_kind {operator : Name} {receiver value : Tree}
    {arguments block : Option Tree} (h : n.kind = .OP_ASGN1) :
    (Tree.indexOpWrite operator receiver arguments block value location).kind ∈ n.kind.forms := by
  unfold Tree.indexOpWrite
  split
  · exact mem_forms_of_eq h rfl
  · split
    · exact mem_forms_of_eq h rfl
    · exact mem_forms_of_eq h rfl

theorem callOpWrite_kind {operator readName writeName : Name} {flags : Canonical.Flags}
    {receiver value : Tree} (h : n.kind = .OP_ASGN2) :
    (Tree.callOpWrite operator flags receiver readName writeName value location).kind ∈
      n.kind.forms := by
  unfold Tree.callOpWrite
  split
  · exact mem_forms_of_eq h rfl
  · split
    · exact mem_forms_of_eq h rfl
    · exact mem_forms_of_eq h rfl

theorem constantPathOpWrite_kind {operator : Name} {target value : Tree}
    (h : n.kind = .OP_CDECL) :
    (Tree.constantPathOpWrite operator target value location).kind ∈ n.kind.forms := by
  unfold Tree.constantPathOpWrite
  split
  · exact mem_forms_of_eq h rfl
  · split
    · exact mem_forms_of_eq h rfl
    · exact mem_forms_of_eq h rfl

theorem invoke_kind (h : n.kind ∈ [.SUPER, .YIELD]) :
    Yields (c.invoke n o pending location) (·.kind ∈ n.kind.forms) := by
  refine .after fun _ _ => ?_
  dsimp only
  split
  · next hsuper => exact .pure (mem_forms_of_eq hsuper rfl)
  · next hsuper =>
    have hyield : n.kind = .YIELD := by simpa [hsuper] using h
    split
    · exact .throw
    · exact .pure (mem_forms_of_eq hyield rfl)

theorem matchOperator_kind {regexp value : Node} (h : n.kind ∈ [.MATCH2, .MATCH3]) :
    Yields (c.matchOperator n regexp value o location) (·.kind ∈ n.kind.forms) := by
  refine .after fun receiver _ => .after fun argument _ => .after fun span _ => ?_
  cases o with
  | none => exact .pure (mem_forms h rfl)
  | some captures => exact .after fun _ _ => .after fun _ _ => .pure (mem_forms h rfl)

theorem leaf_kind : Yields (leaf n pending location) (·.kind ∈ n.kind.forms) := by
  unfold leaf
  split
  case h_10 => exact .throw
  all_goals
    next hkind => exact .pure (mem_forms_of_eq hkind rfl)

/-! Nodes. -/

/-- An `ITER` is what the call in it is, and only a call takes the block. -/
theorem shaped_kind {shape : Shape} (h : n.kind ∈ shape.kinds)
    (hcall : ∀ m block, Yields (c.convert c.scope m (some block)) fun t =>
      m.kind.takesBlock = true ∧ t.kind ∈ m.kind.forms) :
    Yields (c.shaped n pending location shape) (·.kind ∈ n.kind.forms) := by
  cases shape with
  | block => exact .after fun _ _ => .pure (mem_forms h rfl)
  | conditional => exact conditional_kind h
  | case => exact .after fun _ _ => .after fun _ _ => .pure (mem_forms h rfl)
  | loop => exact loop_kind h
  | iter call scope =>
    refine .after fun block _ => .bind (hcall call block) fun t ht => .pure ?_
    cases t with
    | mk kind fields _ =>
      rw [List.mem_singleton.mp h]
      exact Legacy.Kind.forms_of_takesBlock ht.1 ht.2
  | forIn => exact forLoop_kind (List.mem_singleton.mp h)
  | jump => exact jump_kind h
  | begin | rescue | ensure => exact .after fun _ _ => .pure (mem_forms h rfl)
  | pair => exact pair_kind
  | multiAssign =>
    exact .after fun _ _ => .after fun _ _ => .after fun _ _ => .after fun _ _ =>
      .after fun _ _ => .pure (mem_forms h rfl)
  | assign =>
    unfold shaped
    dsimp only
    split
    · exact .throw
    · exact write_kind
  | constPathAssign => exact .after fun _ _ => .after fun _ _ => .pure (mem_forms h rfl)
  | indexOpAssign =>
    exact .after fun _ _ => .after fun _ _ => .after fun _ _ =>
      .pure (indexOpWrite_kind (List.mem_singleton.mp h))
  | attrOpAssign =>
    exact .after fun _ _ => .after fun _ _ => .pure (callOpWrite_kind (List.mem_singleton.mp h))
  | conditionalAssign => exact conditionalWrite_kind h
  | constOpAssign =>
    exact .after fun _ _ => .after fun _ _ =>
      .pure (constantPathOpWrite_kind (List.mem_singleton.mp h))
  | call => exact .after fun _ _ => .after fun _ _ => .pure (mem_forms h rfl)
  | invoke => exact invoke_kind h
  | list => exact array_kind (mem_forms h rfl)
  | hash => exact .after fun _ _ => .pure (mem_forms h rfl)
  | variableName => exact read_kind
  | literal => exact literal_kind
  | symbol => exact .pure (mem_forms h rfl)
  | interpolation => exact interpolation_kind h
  | wrapper => exact wrapper_kind
  | matchOperator => exact matchOperator_kind h
  | definition =>
    exact .after fun _ _ => .after fun _ _ => .after fun _ _ => .after fun _ _ =>
      .pure (mem_forms h rfl)
  | «alias» => exact .after fun _ _ => .after fun _ _ => .pure (mem_forms h rfl)
  | globalAlias => exact .pure (mem_forms h rfl)
  | undef => exact .after fun _ _ => .pure (mem_forms h rfl)
  | classDefinition =>
    exact .after fun _ _ => .after fun _ _ => .after fun _ _ => .pure (mem_forms h rfl)
  | moduleDefinition => exact .after fun _ _ => .after fun _ _ => .pure (mem_forms h rfl)
  | singletonClass => exact .after fun _ _ => .after fun _ _ => .pure (mem_forms h rfl)
  | colon => exact .after fun _ _ => .pure (mem_forms h rfl)
  | leaf => exact leaf_kind
  | _ => exact .throw

theorem step_eq_ok {t : Tree} (h : c.step n pending = .ok t) :
    ∃ location shape, n.shape = .ok shape ∧ c.shaped n pending location shape = .ok t ∧
      (pending.isSome = true → n.kind.takesBlock = true) := by
  unfold Context.step at h
  split at h
  · cases h
  · next hblock =>
    obtain ⟨location, _, h⟩ := bind_eq_ok_iff.mp h
    obtain ⟨shape, hshape, h⟩ := bind_eq_ok_iff.mp h
    exact ⟨location, shape, hshape, h, by simpa using hblock⟩

end Context

namespace Legacy.Node

variable {lines : LineTable} {options : Options} {scope : Scope} {n : Node}
  {pending : Option Tree}

theorem convertWithin_kind (bound : Nat) :
    Yields (convertWithin lines options bound scope n pending) fun t =>
      (pending.isSome = true → n.kind.takesBlock = true) ∧ t.kind ∈ n.kind.forms := by
  -- By induction on the bound: an `ITER` has the kind of the call in it.
  induction bound generalizing scope n pending with
  | zero => exact .throw
  | succ bound ih =>
    intro t ht
    obtain ⟨location, shape, hshape, hshaped, htakes⟩ := Context.step_eq_ok ht
    refine ⟨htakes, Context.shaped_kind (kind_mem_kinds _ hshape) ?_ t hshaped⟩
    exact fun m block => ih.mono fun u hu => ⟨hu.1 rfl, hu.2⟩

theorem convertWithin_kind_eq (bound : Nat) {form : Canonical.Kind}
    (hforms : n.kind.forms = [form]) :
    Yields (convertWithin lines options bound scope n pending) (·.kind = form) :=
  (convertWithin_kind bound).mono fun _ ht => List.mem_singleton.mp (hforms ▸ ht.2)

/-- With a block to attach, the tree is that of a call. -/
theorem convertWithin_kind_of_pending (bound : Nat) (h : pending.isSome = true) :
    Yields (convertWithin lines options bound scope n pending) (·.kind ∈ Kind.ITER.forms) :=
  (convertWithin_kind bound).mono fun _ ht => Kind.forms_of_takesBlock (ht.1 h) ht.2

theorem convert_kind :
    Yields (n.convert lines options scope pending) (·.kind ∈ n.kind.forms) :=
  (convertWithin_kind n.height).mono fun _ ht => ht.2

end Legacy.Node

end RubyTree
