import Mathlib.Data.Set.Insert
import RubyTree.Proofs.Destructuring
import RubyTree.Proofs.ExceptionClauses
import RubyTree.Proofs.Footprint
import RubyTree.Proofs.Operands

/-! The nodes that the conversion of a node asks for. Many slots hold nodes that are only taken
apart, so these are not simply the children: the set is given here shape by shape, and each step of
the conversion is shown to have it as its footprint. -/

namespace RubyTree

open Canonical (Tree)
open Legacy (Node Shape Table)

def optionNodes (Q : Node → Set Node) : Option Node → Set Node
  | none => ∅
  | some n => Q n

def slotNodes (o : Option Node) : Set Node := {m | o = some m}

/-- The node of a body. An empty `BEGIN` stands for no statements and is not converted. -/
def bodyNodes (o : Option Node) : Set Node := {m | o = some m ∧ m.shape ≠ .ok (.begin none)}

def Argument.nodes : Argument → Set Node
  | .positional n => {n}
  | .splat value _ => {value}
  | .block value _ => slotNodes value

def Argument.nodesAmong (arguments : List Argument) : Set Node :=
  {m | ∃ a ∈ arguments, m ∈ a.nodes}

def listNodes (list : Node) : Set Node := nodesOf (Argument.ofNode list) Argument.nodesAmong

def jumpNodes (value : Node) : Set Node :=
  if value.kind ∈ [.LIST, .ZLIST, .SPLAT, .ARGSCAT, .ARGSPUSH] then listNodes value else {value}

def pairNodes (o : Option Node) : Set Node :=
  {m | ∃ pairs, o = some pairs ∧ .node m ∈ pairs.children}

def parentNodes (path : Node) : Set Node :=
  nodesOf path.shape fun
    | .colon parent _ => slotNodes parent
    | _ => ∅

/-- The parent of the path that a constant is assigned at. No other target has an operand. -/
def targetNodes (n : Node) : Set Node :=
  nodesOf n.shape fun
    | .constPathAssign path _ _ => parentNodes path
    | _ => ∅

def TargetStyle.nodes (style : TargetStyle) (leaves : List Node) : Set Node :=
  {m | style = .assignment ∧ ∃ n ∈ leaves, m ∈ targetNodes n}

def groupNodes (n : Node) : Set Node :=
  nodesOf (TargetGroup.ofNode .assignment n) fun group =>
    TargetStyle.assignment.nodes group.outline.leaves

def Parameters.nodes (p : Parameters) : Set Node :=
  {m | ∃ q ∈ p.optionals, m = q.value} ∪ {m | ∃ q ∈ p.keywords, q.value = some m}

def parameterNodes (table : Table) : Option Node → Set Node
  | none => ∅
  | some args => nodesOf (Parameters.ofNode table args) fun
    | none => ∅
    | some p => p.nodes

/-- The operands and bodies of a chain of `when` clauses and of the `else` that ends it. -/
inductive ClauseNode : Option Node → Node → Prop where
  | condition {n m : Node} {conditions body next : Option Node} (hkind : n.kind = .WHEN)
      (hshape : n.shape = .ok (.when conditions body next))
      (hm : m ∈ optionNodes listNodes conditions) : ClauseNode (some n) m
  | body {n m : Node} {conditions body next : Option Node} (hkind : n.kind = .WHEN)
      (hshape : n.shape = .ok (.when conditions body next)) (hm : m ∈ bodyNodes body) :
      ClauseNode (some n) m
  | next {n m : Node} {conditions body next : Option Node} (hkind : n.kind = .WHEN)
      (hshape : n.shape = .ok (.when conditions body next)) (hm : ClauseNode next m) :
      ClauseNode (some n) m
  | otherwise {n m : Node} (hkind : n.kind ≠ .WHEN) (hm : m ∈ bodyNodes (some n)) :
      ClauseNode (some n) m

/-- The statements of a `rescue` clause, without the one that stores the exception. -/
def handlerNodes : Option Node → Set Node
  | none => ∅
  | some body => nodesOf body.sequence fun
    | first :: rest =>
      if Context.bindsException first then {m | m ∈ rest} else bodyNodes (some body)
    | [] => bodyNodes (some body)

inductive RescueNode : Option Node → Node → Prop where
  | exceptions {n m : Node} {exceptions body next : Option Node}
      (hshape : n.shape = .ok (.rescueClause exceptions body next))
      (hm : m ∈ optionNodes listNodes exceptions) : RescueNode (some n) m
  | body {n m : Node} {exceptions body next : Option Node}
      (hshape : n.shape = .ok (.rescueClause exceptions body next)) (hm : m ∈ handlerNodes body) :
      RescueNode (some n) m
  | next {n m : Node} {exceptions body next : Option Node}
      (hshape : n.shape = .ok (.rescueClause exceptions body next)) (hm : RescueNode next m) :
      RescueNode (some n) m

def rescueNodes (n : Node) : Set Node :=
  nodesOf n.shape fun
    | .rescue body clause otherwise =>
      bodyNodes body ∪ ({m | RescueNode clause m} ∪ bodyNodes otherwise)
    | _ => ∅

def ensuredNodes : Option Node → Set Node
  | none => ∅
  | some body => if body.kind = .RESCUE then rescueNodes body else bodyNodes (some body)

def beginNodes (n : Node) : Set Node :=
  nodesOf n.shape fun
    | .ensure body ensured => ensuredNodes body ∪ bodyNodes ensured
    | .rescue .. => rescueNodes n
    | _ => ∅

def protectedNodes : Option Node → Set Node
  | none => ∅
  | some body => if Context.handlesExceptions body then beginNodes body else bodyNodes (some body)

def fragmentNodes (n : Node) : Set Node :=
  nodesOf n.shape fun
    | .wrapper body => if n.kind = .EVSTR then bodyNodes body else {n}
    | _ => {n}

def tailNodes : Option Node → Set Node
  | none => ∅
  | some list => nodesOf (list.nodesFrom 0) fun nodes => {m | ∃ n ∈ nodes, m ∈ fragmentNodes n}

def blockNodes (scope : Node) : Set Node :=
  nodesOf scope.scopeParts fun (table, args, body) =>
    parameterNodes table args ∪ protectedNodes body

def definitionNodes (scope : Node) : Set Node :=
  nodesOf scope.scopeParts fun (_, _, body) => protectedNodes body

def postExecutionNodes : Option Node → Set Node
  | none => ∅
  | some scope => nodesOf scope.scopeParts fun (_, _, body) => bodyNodes body

/-- The path that a class or module is declared at. A bare name is not converted. -/
def pathNodes (path : Node) : Set Node :=
  nodesOf path.shape fun
    | .colon parent _ => if path.kind = .COLON2 ∧ parent.isNone then ∅ else {path}
    | _ => ∅

def indexNodes (d : Legacy.Descriptor) : Set Node :=
  match d.preInit with
  | none => ∅
  | some init => if init.kind = .MASGN then groupNodes init else targetNodes init

def forNodes (collection scope : Node) : Set Node :=
  nodesOf scope.scopeParts fun
    | (_, none, _) => ∅
    | (_, some args, body) =>
      nodesOf args.descriptor fun d => indexNodes d ∪ ({collection} ∪ bodyNodes body)

/-- The value of a conditional assignment. The assignment itself is not converted. -/
def valueNodes (assignment : Node) : Set Node :=
  nodesOf assignment.shape fun
    | .assign _ value _ => slotNodes value
    | _ => ∅

def boundNodes (options : Options) (operand : Node) : Set Node := {options.operand operand}

def Legacy.NameOperand.nodes : Legacy.NameOperand → Set Node
  | .node n => {n}
  | .name _ => ∅

/-- The nodes that are converted for a node of a given shape. -/
def shapeNodes (options : Options) (n : Node) : Shape → Set Node
  | .block statements => {m | m ∈ statements}
  | .conditional condition body otherwise => {condition} ∪ (bodyNodes body ∪ bodyNodes otherwise)
  | .case subject clauses => {m | ClauseNode clauses m} ∪ slotNodes subject
  | .loop condition body _ => {condition} ∪ bodyNodes body
  | .iter call scope => blockNodes scope ∪ {call}
  | .forIn collection scope => forNodes collection scope
  | .jump value => optionNodes jumpNodes value
  | .begin body => protectedNodes body
  | .rescue .. | .ensure .. => beginNodes n
  | .pair left right =>
    match n.kind with
    | .AND | .OR | .DOT2 | .DOT3 => slotNodes left ∪ slotNodes right
    | .FLIP2 | .FLIP3 =>
      optionNodes (boundNodes options) left ∪ optionNodes (boundNodes options) right
    | .ARGSCAT | .ARGSPUSH => listNodes n
    | _ => ∅
  | .multiAssign value _ _ _ => slotNodes value ∪ groupNodes n
  | .assign _ value _ => slotNodes value
  | .constPathAssign path _ value => {path} ∪ slotNodes value
  | .indexOpAssign receiver _ index value => {receiver} ∪ (optionNodes listNodes index ∪ {value})
  | .attrOpAssign receiver _ _ _ value => {receiver} ∪ {value}
  | .conditionalAssign _ assignment => valueNodes assignment
  | .constOpAssign path _ value => {path} ∪ {value}
  | .call receiver _ args => optionNodes listNodes args ∪ slotNodes receiver
  | .invoke args => optionNodes listNodes args
  | .list _ => listNodes n
  | .hash pairs => pairNodes pairs
  | .interpolation _ head tail _ => optionNodes fragmentNodes head ∪ tailNodes tail
  | .wrapper body =>
    match n.kind with
    | .ONCE | .DEFINED => slotNodes body
    | .POSTEXE => postExecutionNodes body
    | .LAMBDA => optionNodes blockNodes body
    | .SPLAT => listNodes n
    | _ => ∅
  | .matchOperator regexp value _ => {regexp} ∪ {value}
  | .definition receiver _ scope => slotNodes receiver ∪ blockNodes scope
  | .alias newName oldName => {newName} ∪ {oldName}
  | .undef names => {m | ∃ name ∈ names, m ∈ name.nodes}
  | .classDefinition path superclass scope =>
    pathNodes path ∪ (slotNodes superclass ∪ definitionNodes scope)
  | .moduleDefinition path scope => pathNodes path ∪ definitionNodes scope
  | .singletonClass receiver scope => {receiver} ∪ definitionNodes scope
  | .colon parent _ => slotNodes parent
  | _ => ∅

def Legacy.Node.operands (options : Options) (n : Node) : Set Node :=
  nodesOf n.shape (shapeNodes options n)

@[simp] theorem slotNodes_none : slotNodes none = ∅ := by
  ext m
  simp [slotNodes]

@[simp] theorem slotNodes_some (n : Node) : slotNodes (some n) = {n} := by
  ext m
  simp [slotNodes, eq_comm]

@[simp] theorem bodyNodes_none : bodyNodes none = ∅ := by
  ext m
  simp [bodyNodes]

theorem bodyNodes_some {n : Node} (h : n.shape ≠ .ok (.begin none)) : bodyNodes (some n) = {n} := by
  ext m
  simp only [bodyNodes, Option.some.injEq, Set.mem_ofPred_eq, Set.mem_singleton_iff]
  constructor
  · rintro ⟨rfl, _⟩
    rfl
  · rintro rfl
    exact ⟨rfl, h⟩

theorem bodyNodes_of_idle {n : Node} (h : n.shape = .ok (.begin none)) :
    bodyNodes (some n) = ∅ := by
  ext m
  simp only [bodyNodes, Option.some.injEq, Set.mem_ofPred_eq, Set.mem_empty_iff_false, iff_false]
  rintro ⟨rfl, hm⟩
  exact hm h

theorem Legacy.Node.mem_children_iff {n m : Node} :
    .node m ∈ n.children ↔ ∃ i < n.children.length, n.child i = .node m := by
  rw [List.mem_iff_getElem]
  constructor
  · rintro ⟨i, hi, h⟩
    exact ⟨i, hi, by rw [child, List.getElem?_eq_getElem hi, h]; rfl⟩
  · rintro ⟨i, hi, h⟩
    rw [child, List.getElem?_eq_getElem hi] at h
    exact ⟨i, hi, h⟩

theorem pairNodes_some {pairs : Node} (h : pairs.children.length % 2 = 0) :
    pairNodes (some pairs) = {m | ∃ k ∈ List.range (pairs.children.length / 2),
      m ∈ {m | pairs.child (2 * k) = .node m ∨ pairs.child (2 * k + 1) = .node m}} := by
  ext m
  simp only [pairNodes, Option.some.injEq, exists_eq_left', Set.mem_ofPred_eq,
    Legacy.Node.mem_children_iff, List.mem_range]
  constructor
  · rintro ⟨i, hi, hm⟩
    have hk : i = 2 * (i / 2) ∨ i = 2 * (i / 2) + 1 := by omega
    refine ⟨i / 2, by omega, ?_⟩
    cases hk with
    | inl hk => exact .inl (hk ▸ hm)
    | inr hk => exact .inr (hk ▸ hm)
  · rintro ⟨k, hk, hm | hm⟩
    · exact ⟨2 * k, by omega, hm⟩
    · exact ⟨2 * k + 1, by omega, hm⟩

theorem TargetStyle.nodes_nil (style : TargetStyle) : style.nodes [] = ∅ := by
  ext m
  simp [TargetStyle.nodes]

theorem TargetStyle.nodes_append (style : TargetStyle) (leaves others : List Node) :
    style.nodes (leaves ++ others) = style.nodes leaves ∪ style.nodes others := by
  ext m
  simp only [TargetStyle.nodes, List.mem_append, Set.mem_ofPred_eq, Set.mem_union, or_and_right,
    exists_or, and_or_left]

theorem clauseNode_none : {m | ClauseNode none m} = ∅ := by
  ext m
  simp only [Set.mem_ofPred_eq, Set.mem_empty_iff_false, iff_false]
  rintro ⟨⟩

theorem clauseNode_of_WHEN {n : Node} {conditions body next : Option Node} (hkind : n.kind = .WHEN)
    (hshape : n.shape = .ok (.when conditions body next)) :
    {m | ClauseNode (some n) m} =
      optionNodes listNodes conditions ∪ (bodyNodes body ∪ {m | ClauseNode next m}) := by
  ext m
  constructor
  · intro h
    cases h with
    | condition _ hfound hm =>
      cases hshape.symm.trans hfound
      exact .inl hm
    | body _ hfound hm =>
      cases hshape.symm.trans hfound
      exact .inr (.inl hm)
    | next _ hfound hm =>
      cases hshape.symm.trans hfound
      exact .inr (.inr hm)
    | otherwise hother => exact absurd hkind hother
  · rintro (hm | hm | hm)
    · exact .condition hkind hshape hm
    · exact .body hkind hshape hm
    · exact .next hkind hshape hm

theorem clauseNode_of_not_WHEN {n : Node} (hkind : n.kind ≠ .WHEN) :
    {m | ClauseNode (some n) m} = bodyNodes (some n) := by
  ext m
  constructor
  · intro h
    cases h with
    | condition hother | body hother | next hother => exact absurd hother hkind
    | otherwise _ hm => exact hm
  · intro hm
    exact .otherwise hkind hm

theorem targetNodes_of_binding {n : Node} (h : Context.bindsException n = true) :
    targetNodes n = ∅ := by
  ext m
  simp only [Set.mem_empty_iff_false, iff_false]
  rintro ⟨shape, hshape, hm⟩
  obtain ⟨name, value, _, _, rfl⟩ := (Context.shape_of_bindsException h).mp hshape
  exact hm

theorem rescueNode_none : {m | RescueNode none m} = ∅ := by
  ext m
  simp only [Set.mem_ofPred_eq, Set.mem_empty_iff_false, iff_false]
  rintro ⟨⟩

theorem rescueNode_some {n : Node} {exceptions body next : Option Node}
    (hshape : n.shape = .ok (.rescueClause exceptions body next)) :
    {m | RescueNode (some n) m} =
      optionNodes listNodes exceptions ∪ (handlerNodes body ∪ {m | RescueNode next m}) := by
  ext m
  constructor
  · intro h
    cases h with
    | exceptions hfound hm =>
      cases hshape.symm.trans hfound
      exact .inl hm
    | body hfound hm =>
      cases hshape.symm.trans hfound
      exact .inr (.inl hm)
    | next hfound hm =>
      cases hshape.symm.trans hfound
      exact .inr (.inr hm)
  · rintro (hm | hm | hm)
    · exact .exceptions hshape hm
    · exact .body hshape hm
    · exact .next hshape hm

namespace Footprint

variable {options : Options} {n : Node} {o : Option Node} {location : Span}

theorem node? (o : Option Node) : Footprint options (slotNodes o) (·.node? o) := by
  cases o with
  | none => exact (const (pure none)).of_eq slotNodes_none.symm
  | some n => exact ((node n).andThen fun _ => .const _).of_eq (slotNodes_some n).symm

theorem required (parent : Node) (e : Expectation) (o : Option Node) :
    Footprint options (slotNodes o) (·.required parent e o) := by
  cases o with
  | none => exact throw
  | some n => exact (node n).of_eq (slotNodes_some n).symm

theorem statements (o : Option Node) : Footprint options (bodyNodes o) (·.statements o) := by
  cases o with
  | none => exact (const (pure none)).of_eq bodyNodes_none.symm
  | some n =>
    unfold Context.statements
    refine .read fun shape hshape => ?_
    by_cases hidle : shape = .begin none
    · subst hidle
      exact (const (pure none)).of_eq (bodyNodes_of_idle hshape).symm
    · have hn : bodyNodes (some n) = {n} := bodyNodes_some fun h => by
        cases hshape.symm.trans h
        exact hidle rfl
      rw [hn]
      cases shape with
      | begin body =>
        cases body with
        | none => exact absurd rfl hidle
        | some body => exact (node n).andThen fun _ => (span n).andThen fun _ => .const _
      | block => exact (node n).andThen fun _ => .const _
      | _ => exact (node n).andThen fun _ => (span n).andThen fun _ => .const _

theorem elseClause (n : Node) : Footprint options (bodyNodes (some n)) (·.elseClause n) :=
  (statements (some n)).andThen fun _ => (span n).andThen fun _ => .const _

theorem elseClause? (o : Option Node) : Footprint options (bodyNodes o) (·.elseClause? o) := by
  cases o with
  | none => exact (const (pure none)).of_eq bodyNodes_none.symm
  | some n => exact (elseClause n).andThen fun _ => .const _

/-! Arguments and calls. -/

theorem argument (args : Node) (a : Argument) : Footprint options a.nodes (·.argument args a) := by
  cases a with
  | positional n => exact node n
  | splat value wrapper =>
    exact (node value).andThen fun _ => (spanOf? wrapper).andThen fun _ => .const _
  | block value pass => exact throw

theorem arguments (args : Node) (arguments : List Argument) :
    Footprint options (Argument.nodesAmong arguments) fun c => arguments.mapM (c.argument args) :=
  .mapM fun a _ => argument args a

theorem elements (list : Node) : Footprint options (listNodes list) (·.elements list) :=
  .reads fun found => arguments list found

theorem elements? (o : Option Node) :
    Footprint options (optionNodes listNodes o) (·.elements? o) := by
  cases o with
  | none => exact const (pure [])
  | some list => exact elements list

theorem argumentsTree (args : Node) (list : List Argument) :
    Footprint options (Argument.nodesAmong list) (·.argumentsTree args list) :=
  (arguments args list).andThen fun _ => (span args).andThen fun _ => .const _

theorem blockArgument? (passed : Option (Option Node × Node)) :
    Footprint options {m | ∃ pass, passed = some (some m, pass)} (·.blockArgument? passed) := by
  cases passed with
  | none => exact (const (pure none)).of_eq (by ext m; simp)
  | some pair =>
    obtain ⟨value, pass⟩ := pair
    have h : Footprint options (slotNodes value) (·.blockArgument? (some (value, pass))) :=
      (node? value).andThen fun _ => (span pass).andThen fun _ => .const _
    exact h.of_eq (by ext m; simp [slotNodes])

theorem callArguments (o : Option Node) :
    Footprint options (optionNodes listNodes o) (·.callArguments o) := by
  cases o with
  | none => exact const (pure (none, none))
  | some args =>
    refine .read fun found hfound => ?_
    obtain ⟨others, passed, rfl, hothers, -⟩ := (Argument.ofNode_eq_ok_iff.mp hfound).splits
    have hnodes : optionNodes listNodes (some args) =
        {m | ∃ pass, passed = some (some m, pass)} ∪ Argument.nodesAmong others := by
      refine (nodesOf_ok hfound _).trans ?_
      ext m
      cases passed with
      | none => simp [Argument.nodesAmong, Argument.ofPassed]
      | some passed =>
        obtain ⟨value, pass⟩ := passed
        simp [Argument.nodesAmong, Argument.ofPassed, Argument.nodes, slotNodes, or_comm]
    rw [Argument.splitBlock_append hothers, hnodes]
    refine (blockArgument? passed).bind fun block => ?_
    cases others with
    | nil => exact (const (pure (none, block))).of_eq (by ext m; simp [Argument.nodesAmong])
    | cons a others => exact (argumentsTree args (a :: others)).andThen fun _ => .const _

theorem jumpArguments (value : Node) :
    Footprint options (jumpNodes value) (·.jumpArguments value) := by
  by_cases hkind : value.kind ∈ [.LIST, .ZLIST, .SPLAT, .ARGSCAT, .ARGSPUSH]
  · have heq (c : Context) : c.jumpArguments value =
        Argument.ofNode value >>= fun found => c.argumentsTree value found := by
      simp only [List.mem_cons, List.not_mem_nil, or_false] at hkind
      unfold Context.jumpArguments
      obtain hkind | hkind | hkind | hkind | hkind := hkind
      all_goals simp only [hkind]
    simp only [heq, jumpNodes, if_pos hkind]
    exact .reads fun found => argumentsTree value found
  · have heq (c : Context) : c.jumpArguments value =
        c.node value >>= fun tree => c.span value >>= fun location =>
          pure (.arguments Canonical.Flags.empty [tree] location) := by
      simp only [List.mem_cons, List.not_mem_nil, or_false, not_or] at hkind
      unfold Context.jumpArguments
      split <;> simp_all only [not_true_eq_false, false_and, and_false]
    simp only [heq, jumpNodes, if_neg hkind]
    exact (node value).andThen fun _ => (span value).andThen fun _ => .const _

theorem jumpArguments? (o : Option Node) :
    Footprint options (optionNodes jumpNodes o) (·.jumpArguments? o) := by
  cases o with
  | none => exact const (pure none)
  | some value => exact (jumpArguments value).andThen fun _ => .const _

theorem array (list : Node) : Footprint options (listNodes list) (·.array list location) :=
  .reads fun found => (arguments list found).andThen fun _ => .const _

theorem hashElement (pairs : Node) (i : Nat) :
    Footprint options {m | pairs.child i = .node m ∨ pairs.child (i + 1) = .node m}
      (·.hashElement pairs i) := by
  refine .read fun value hvalue => .read fun key hkey => ?_
  have hvalue := Legacy.Node.node_eq_ok_iff.mp hvalue
  have hkey := Legacy.Node.node?_eq_ok_iff.mp hkey
  cases key with
  | none =>
    refine ((node value).andThen fun _ => .const _).of_eq ?_
    ext m
    simp [hvalue, hkey, Legacy.Child.ofNode?, eq_comm]
  | some key =>
    refine ((span key).after fun _ => (span value).after fun _ => (node key).bind fun _ =>
      (node value).andThen fun _ => .const _).of_eq ?_
    ext m
    simp [hvalue, hkey, Legacy.Child.ofNode?, eq_comm, or_comm]

theorem hashElements (o : Option Node) : Footprint options (pairNodes o) (·.hashElements o) := by
  cases o with
  | none => exact (const (pure [])).of_eq (by ext m; simp [pairNodes])
  | some pairs =>
    refine .read fun found hfound => ?_
    obtain ⟨-, rfl⟩ := Legacy.Node.expectKind_eq_ok_iff.mp hfound
    by_cases heven : found.children.length % 2 = 0
    · simp only [if_pos heven]
      exact (Footprint.mapM fun k _ => hashElement found (2 * k)).of_eq (pairNodes_some heven).symm
    · simp only [if_neg heven]
      exact throw

theorem call (receiver : Option Node) (name : Name) (args : Option Node) (pending : Option Tree) :
    Footprint options (optionNodes listNodes args ∪ slotNodes receiver)
      (·.call n receiver name args pending location) :=
  (callArguments args).bind fun _ => (node? receiver).andThen fun _ => .const _

theorem invoke (args : Option Node) (pending : Option Tree) :
    Footprint options (optionNodes listNodes args) (·.invoke n args pending location) :=
  (callArguments args).andThen fun _ => .const _

theorem matchOperator (regexp value : Node) (captured : Option Node) :
    Footprint options ({regexp} ∪ {value})
      (·.matchOperator n regexp value captured location) := by
  by_cases hkind : n.kind = .MATCH2
  · simp only [Context.matchOperator, if_pos hkind]
    exact (node regexp).bind fun _ => (node value).andThen fun _ => (span value).after fun _ =>
      .of_agree fun h => by simp only [funext h.capture]
  · simp only [Context.matchOperator, if_neg hkind]
    rw [Set.union_comm]
    exact (node value).bind fun _ => (node regexp).andThen fun _ => (span regexp).after fun _ =>
      .of_agree fun h => by simp only [funext h.capture]

/-! Variables and targets. -/

theorem write (name : Name) (o : Option Node) :
    Footprint options (slotNodes o) (·.write n name o location) :=
  (required n .assignedValue o).andThen fun _ => .of_agree fun h => by simp only [h.assigned?]

theorem conditionalWrite (assignment : Node) :
    Footprint options (valueNodes assignment) (·.conditionalWrite n assignment location) := by
  refine .reads fun shape => ?_
  cases shape with
  | assign name value =>
    cases value with
    | none => exact throw
    | some value =>
      refine of_eq ?_ (slotNodes_some value).symm
      exact (node value).andThen fun _ => .of_agree fun h => by simp only [h.assigned?]
  | _ => exact throw

theorem indexOpWrite (receiver : Node) (operator : Name) (index : Option Node) (value : Node) :
    Footprint options ({receiver} ∪ (optionNodes listNodes index ∪ {value}))
      (·.indexOpWrite receiver operator index value location) :=
  (node receiver).bind fun _ => (callArguments index).bind fun _ =>
    (node value).andThen fun _ => .const _

theorem attributeOpWrite (receiver : Node) (safe : Bool) (name operator : Name) (value : Node) :
    Footprint options ({receiver} ∪ {value})
      (·.attributeOpWrite receiver safe name operator value location) :=
  (node receiver).bind fun _ => (node value).andThen fun _ => .const _

theorem pathParent (path : Node) : Footprint options (parentNodes path) (·.pathParent path) := by
  refine .reads fun shape => ?_
  cases shape with
  | colon parent => exact node? parent
  | _ => exact throw

theorem assignmentTarget (n : Node) :
    Footprint options (targetNodes n) (·.assignmentTarget n) := by
  refine (span n).after fun location => .reads fun shape => ?_
  cases shape with
  | assign name => exact .of_agree fun h => by simp only [h.assigned?]
  | constPathAssign path => exact (pathParent path).andThen fun _ => .const _
  | _ =>
    by_cases hkind : n.kind = .ATTRASGN
    · simp only [if_pos hkind]
      exact throw
    · simp only [if_neg hkind]
      exact throw

theorem simpleTarget (style : TargetStyle) (n : Node) :
    Footprint options (style.nodes [n]) (·.simpleTarget style n) := by
  cases style with
  | parameter =>
    refine (const (n.name 0 >>= fun name => pure _)).of_eq ?_
    ext m
    simp [TargetStyle.nodes]
  | assignment =>
    refine (assignmentTarget n).of_eq ?_
    ext m
    simp [TargetStyle.nodes]

theorem restTarget (style : TargetStyle) (rest : Option GroupRest) :
    Footprint options (style.nodes (GroupRest.leaves rest)) (·.restTarget style rest) := by
  cases rest with
  | none => exact (const (pure none)).of_eq style.nodes_nil.symm
  | some rest =>
    cases rest with
    | anonymous => exact (const (pure _)).of_eq style.nodes_nil.symm
    | named n => exact (simpleTarget style n).andThen fun _ => .const _

mutual

theorem target (style : TargetStyle) :
    (target : Target) →
      Footprint options (style.nodes target.outline.leaves) (·.target style target)
  | .simple n => by
    simp only [Context.target, Target.outline, TargetOutline.leaves]
    exact simpleTarget style n
  | .group group => by
    simp only [Context.target, Target.outline, TargetOutline.leaves]
    exact targetGroup style group

theorem targets (style : TargetStyle) :
    (targets : List Target) →
      Footprint options (style.nodes (TargetOutline.leavesOf (Target.outlines targets)))
        (·.targets style targets)
  | [] => by
    simp only [Context.targets, Target.outlines, TargetOutline.leavesOf]
    exact (const (pure [])).of_eq style.nodes_nil.symm
  | t :: ts => by
    simp only [Context.targets, Target.outlines, TargetOutline.leavesOf, style.nodes_append]
    exact (target style t).bind fun _ => (targets style ts).andThen fun _ => .const _

theorem targetGroup (style : TargetStyle) :
    (group : TargetGroup) →
      Footprint options (style.nodes group.outline.leaves) (·.targetGroup style group)
  | .mk n lefts rest rights => by
    simp only [Context.targetGroup, TargetGroup.outline, GroupOutline.leaves, List.append_assoc,
      style.nodes_append]
    exact (targets style lefts).bind fun _ => (restTarget style rest).bind fun _ =>
      (targets style rights).andThen fun _ => (span n).andThen fun _ => .const _

end

theorem multiWrite (value : Option Node) :
    Footprint options (slotNodes value ∪ groupNodes n) (·.multiWrite n value location) := by
  refine (required n .multipleValue value).bind fun _ => .reads fun group => ?_
  obtain ⟨_, lefts, rest, rights⟩ := group
  simp only [TargetGroup.outline, GroupOutline.leaves, List.append_assoc, TargetStyle.nodes_append]
  exact (targets .assignment lefts).bind fun _ => (restTarget .assignment rest).bind fun _ =>
    (targets .assignment rights).andThen fun _ => .const _

/-! Conditionals, loops and jumps. -/

theorem consequent (o : Option Node) : Footprint options (bodyNodes o) (·.consequent o) := by
  cases o with
  | none => exact (const (pure none)).of_eq bodyNodes_none.symm
  | some otherwise =>
    by_cases hkind : otherwise.kind = .IF
    · have hbody : bodyNodes (some otherwise) = {otherwise} := bodyNodes_some fun h => by
        have hbegin := List.mem_singleton.mp (Legacy.Node.kind_mem_kinds _ h)
        rw [hkind] at hbegin
        cases hbegin
      simp only [Context.consequent, if_pos hkind, hbody]
      exact (node otherwise).andThen fun _ => .const _
    · simp only [Context.consequent, if_neg hkind]
      exact (elseClause otherwise).andThen fun _ => .const _

theorem conditional (condition : Node) (body otherwise : Option Node) :
    Footprint options ({condition} ∪ (bodyNodes body ∪ bodyNodes otherwise))
      (·.conditional n condition body otherwise location) := by
  refine (node condition).bind fun _ => (statements body).bind fun _ => ?_
  by_cases hkind : n.kind = .IF
  · simp only [if_pos hkind]
    exact (consequent otherwise).andThen fun _ => .const _
  · simp only [if_neg hkind]
    exact (elseClause? otherwise).andThen fun _ => .const _

theorem clausesWithin (bound : Nat) (o : Option Node) :
    Footprint options {m | ClauseNode o m} (·.clausesWithin bound o) := by
  induction bound generalizing o with
  | zero =>
    cases o with
    | none => exact (const (pure ([], none))).of_eq clauseNode_none.symm
    | some n => exact throw
  | succ bound ih =>
    cases o with
    | none => exact (const (pure ([], none))).of_eq clauseNode_none.symm
    | some n =>
      by_cases hkind : n.kind = .WHEN
      · simp only [Context.clausesWithin, if_pos hkind]
        refine .read fun shape hshape => ?_
        cases shape with
        | «when» conditions body next =>
          rw [clauseNode_of_WHEN hkind hshape]
          exact (elements? conditions).bind fun _ => (statements body).bind fun _ =>
            (span n).after fun _ => (ih next).andThen fun _ => .const _
        | _ => exact throw
      · simp only [Context.clausesWithin, if_neg hkind]
        rw [clauseNode_of_not_WHEN hkind]
        exact (statements (some n)).andThen fun _ => .const _

theorem clauses (o : Option Node) : Footprint options {m | ClauseNode o m} (·.clauses o) := by
  cases o with
  | none => exact (const (pure ([], none))).of_eq clauseNode_none.symm
  | some n => exact clausesWithin n.height (some n)

theorem caseWhen (subject chain : Option Node) :
    Footprint options ({m | ClauseNode chain m} ∪ slotNodes subject)
      (·.caseWhen subject chain location) :=
  (clauses chain).bind fun _ => (node? subject).andThen fun _ => .const _

theorem loop (condition : Node) (body : Option Node) (post : Bool) :
    Footprint options ({condition} ∪ bodyNodes body) (·.loop n condition body post location) :=
  (node condition).bind fun _ => (statements body).andThen fun _ => .const _

theorem forIndex (args : Node) (d : Legacy.Descriptor) :
    Footprint options (indexNodes d) (·.forIndex args d) := by
  unfold Context.forIndex indexNodes
  cases d.preInit with
  | none => exact throw
  | some init =>
    by_cases hkind : init.kind = .MASGN
    · simp only [if_pos hkind]
      exact .reads fun group => targetGroup .assignment group
    · simp only [if_neg hkind]
      by_cases hcount : d.preCount = 1
      · simp only [if_pos hcount]
        exact assignmentTarget init
      · simp only [if_neg hcount]
        exact throw

theorem forLoop (collection scope : Node) :
    Footprint options (forNodes collection scope) (·.forLoop collection scope location) := by
  refine .reads fun parts => ?_
  obtain ⟨_, args, body⟩ := parts
  cases args with
  | none => exact throw
  | some args =>
    refine .read fun found hfound => ?_
    obtain ⟨-, rfl⟩ := Legacy.Node.expectKind_eq_ok_iff.mp hfound
    exact .reads fun d => (forIndex found d).bind fun _ => (node collection).bind fun _ =>
      (statements body).andThen fun _ => .const _

theorem jump (value : Option Node) :
    Footprint options (optionNodes jumpNodes value) (·.jump n value location) :=
  (jumpArguments? value).andThen fun _ => .const _

theorem flipFlopOperand (operand : Node) :
    Footprint options (boundNodes options operand) (·.flipFlopOperand operand) where
  asks {c _} hc h := by
    rw [c.flipFlopOperand_eq, hc] at h
    obtain ⟨found, hfound, h⟩ := bind_eq_ok_iff.mp h
    rw [boundNodes, Options.operand_of_bound? hfound]
    exact (node _).asks hc h
  only {c d} hc h := by
    rw [c.flipFlopOperand_eq, d.flipFlopOperand_eq, h.options, hc]
    cases hfound : options.bound? operand with
    | error e => rfl
    | ok found =>
      rw [boundNodes, Options.operand_of_bound? hfound] at h
      exact h.node rfl

theorem flipFlopOperand? (o : Option Node) :
    Footprint options (optionNodes (boundNodes options) o) (·.flipFlopOperand? o) := by
  cases o with
  | none => exact const (pure none)
  | some operand => exact (flipFlopOperand operand).andThen fun _ => .const _

theorem pair (left right : Option Node) (hshape : n.shape = .ok (.pair left right)) :
    Footprint options (shapeNodes options n (.pair left right)) (·.pair n left right location) := by
  have hkind := Legacy.Node.kind_mem_kinds _ hshape
  simp only [Legacy.Shape.kinds, List.mem_cons, List.not_mem_nil, or_false] at hkind
  obtain hkind | hkind | hkind | hkind | hkind | hkind | hkind | hkind | hkind := hkind <;>
    simp only [Context.pair, shapeNodes, hkind]
  · exact (required n .leftOperand left).bind fun _ =>
      (required n .rightOperand right).andThen fun _ => .const _
  · exact (required n .leftOperand left).bind fun _ =>
      (required n .rightOperand right).andThen fun _ => .const _
  · exact (node? left).bind fun _ => (node? right).andThen fun _ => .const _
  · exact (node? left).bind fun _ => (node? right).andThen fun _ => .const _
  · exact (flipFlopOperand? left).bind fun _ => (flipFlopOperand? right).andThen fun _ => .const _
  · exact (flipFlopOperand? left).bind fun _ => (flipFlopOperand? right).andThen fun _ => .const _
  · exact array n
  · exact array n
  · exact throw

/-! Exceptions. -/

theorem rescueBody (o : Option Node) : Footprint options (handlerNodes o) (·.rescueBody o) := by
  cases o with
  | none => exact const (pure (none, none))
  | some body =>
    refine .reads fun found => ?_
    cases found with
    | nil => exact (statements (some body)).andThen fun _ => .const _
    | cons first rest =>
      by_cases hbinds : Context.bindsException first = true
      · simp only [if_pos hbinds]
        refine ((assignmentTarget first).of_eq (targetNodes_of_binding hbinds)).after fun _ => ?_
        cases rest with
        | nil => exact (const (pure _)).of_eq (by ext m; simp)
        | cons second rest =>
          refine (Footprint.mapM fun m _ => node m).of_eq ?_ |>.andThen fun _ =>
            (span body).andThen fun _ => .const _
          ext m
          simp
      · simp only [if_neg hbinds]
        exact (statements (some body)).andThen fun _ => .const _

theorem rescueClauseWithin (bound : Nat) (o : Option Node) :
    Footprint options {m | RescueNode o m} (·.rescueClauseWithin bound o) := by
  induction bound generalizing o with
  | zero =>
    cases o with
    | none => exact (const (pure none)).of_eq rescueNode_none.symm
    | some n => exact throw
  | succ bound ih =>
    cases o with
    | none => exact (const (pure none)).of_eq rescueNode_none.symm
    | some n =>
      refine .read fun found hfound => ?_
      obtain ⟨-, rfl⟩ := Legacy.Node.expectKind_eq_ok_iff.mp hfound
      refine .read fun shape hshape => ?_
      cases shape with
      | rescueClause exceptions body next =>
        rw [rescueNode_some hshape]
        exact (elements? exceptions).bind fun _ => (rescueBody body).bind fun _ =>
          (ih next).andThen fun _ => (span found).andThen fun _ => .const _
      | _ => exact throw

theorem rescueClause? (o : Option Node) :
    Footprint options {m | RescueNode o m} (·.rescueClause? o) := by
  cases o with
  | none => exact (const (pure none)).of_eq rescueNode_none.symm
  | some n => exact rescueClauseWithin n.height (some n)

theorem rescueParts (n : Node) : Footprint options (rescueNodes n) (·.rescueParts n) := by
  refine .reads fun shape => ?_
  cases shape with
  | rescue body clause otherwise =>
    exact (statements body).bind fun _ => (rescueClause? clause).bind fun _ =>
      (elseClause? otherwise).andThen fun _ => .const _
  | _ => exact throw

theorem ensuredParts (o : Option Node) :
    Footprint options (ensuredNodes o) (·.ensuredParts o) := by
  cases o with
  | none => exact const (pure _)
  | some body =>
    by_cases hkind : body.kind = .RESCUE
    · simp only [Context.ensuredParts, ensuredNodes, if_pos hkind]
      exact rescueParts body
    · simp only [Context.ensuredParts, ensuredNodes, if_neg hkind]
      exact (statements (some body)).andThen fun _ => .const _

theorem ensureClause (o : Option Node) : Footprint options (bodyNodes o) (·.ensureClause o) :=
  (spanOf? o).after fun _ => (statements o).andThen fun _ => .const _

theorem beginParts (n : Node) : Footprint options (beginNodes n) (·.beginParts n) := by
  refine .reads fun shape => ?_
  cases shape with
  | ensure body ensured =>
    exact (ensuredParts body).bind fun _ => (ensureClause ensured).andThen fun _ => .const _
  | rescue => exact rescueParts n
  | _ => exact throw

theorem beginBody (o : Option Node) : Footprint options (protectedNodes o) (·.beginBody o) := by
  cases o with
  | none => exact const (pure _)
  | some body =>
    by_cases hhandles : Context.handlesExceptions body = true
    · simp only [Context.beginBody, protectedNodes, if_pos hhandles]
      exact beginParts body
    · simp only [Context.beginBody, protectedNodes, if_neg hhandles]
      exact (statements (some body)).andThen fun _ => .const _

theorem scopeBody (o : Option Node) : Footprint options (protectedNodes o) (·.scopeBody o) := by
  cases o with
  | none => exact const (pure none)
  | some body =>
    by_cases hhandles : Context.handlesExceptions body = true
    · simp only [Context.scopeBody, protectedNodes, if_pos hhandles]
      exact (beginParts body).andThen fun _ => (span body).andThen fun _ => .const _
    · simp only [Context.scopeBody, protectedNodes, if_neg hhandles]
      exact statements (some body)

/-! Literals and interpolations. -/

theorem literal (value : Literal) : Footprint options ∅ (·.literal n value location) :=
  .of_agree fun h => h.literal value

theorem fragment (n : Node) : Footprint options (fragmentNodes n) (·.fragment n) := by
  refine .reads fun shape => ?_
  cases shape with
  | wrapper body =>
    by_cases hkind : n.kind = .EVSTR
    · simp only [if_pos hkind]
      exact (statements body).andThen fun _ => (span n).andThen fun _ => .const _
    · simp only [if_neg hkind]
      exact node n
  | _ => exact node n

theorem fragments (o : Option Node) : Footprint options (tailNodes o) (·.fragments o) := by
  cases o with
  | none => exact const (pure [])
  | some list =>
    refine .read fun found hfound => ?_
    obtain ⟨-, rfl⟩ := Legacy.Node.expectKind_eq_ok_iff.mp hfound
    exact .reads fun nodes => .mapM fun m _ => fragment m

theorem fragmentOf? (o : Option Node) :
    Footprint options (optionNodes fragmentNodes o) (·.fragmentOf? o) := by
  cases o with
  | none => exact const (pure [])
  | some n => exact (fragment n).andThen fun _ => .const _

theorem interpolation (leading : Option String) (head tail : Option Node) (bits : UInt32) :
    Footprint options (optionNodes fragmentNodes head ∪ tailNodes tail)
      (·.interpolation n leading head tail bits location) := by
  have hparts : Footprint options (optionNodes fragmentNodes head ∪ tailNodes tail)
      (·.interpolationParts leading head tail) :=
    (fragmentOf? head).bind fun _ => (fragments tail).andThen fun _ => .const _
  exact hparts.andThen fun _ => .const _

theorem once (body : Option Node) : Footprint options (slotNodes body) (·.once n body location) :=
  (required n (.kinds [.DREGX]) body).andThen fun _ => .const _

/-! Scopes. -/

theorem requiredParameter (p : RequiredParameter) :
    Footprint options ∅ (·.requiredParameter p) := by
  cases p with
  | name => exact const (pure _)
  | group group =>
    refine (targetGroup .parameter group).of_eq ?_
    ext m
    simp [TargetStyle.nodes]

theorem requiredParameters (ps : List RequiredParameter) :
    Footprint options ∅ fun c => ps.mapM c.requiredParameter := by
  refine (Footprint.mapM fun p _ => requiredParameter p).of_eq ?_
  ext m
  simp

theorem keywordParameter (p : KeywordParameter) :
    Footprint options (slotNodes p.value) (·.keywordParameter p) := by
  unfold Context.keywordParameter
  cases p.value with
  | none => exact (const (pure _)).of_eq slotNodes_none.symm
  | some value => exact ((node value).andThen fun _ => .const _).of_eq (slotNodes_some value).symm

theorem parameters (p : Parameters) (args : Node) :
    Footprint options p.nodes (·.parameters p args) := by
  have hoptionals : Footprint options {m | ∃ q ∈ p.optionals, m ∈ ({q.value} : Set Node)}
      fun c => p.optionals.mapM c.optionalParameter :=
    .mapM fun q _ => (node q.value).andThen fun _ => .const _
  have hkeywords : Footprint options {m | ∃ q ∈ p.keywords, m ∈ slotNodes q.value}
      fun c => p.keywords.mapM c.keywordParameter :=
    .mapM fun q _ => keywordParameter q
  exact (requiredParameters p.requireds).after fun _ => (requiredParameters p.posts).after fun _ =>
    hoptionals.bind fun _ => hkeywords.andThen fun _ => (span args).andThen fun _ => .const _

theorem blockParameters (p : Parameters) (args : Node) :
    Footprint options p.nodes (·.blockParameters p args) :=
  (parameters p args).andThen fun _ => (span args).andThen fun _ => .const _

theorem parametersIn {form : Context → Parameters → Node → Result Tree}
    (hform : ∀ p args, Footprint options p.nodes (form · p args)) (table : Table)
    (o : Option Node) :
    Footprint options (parameterNodes table o) (·.parametersIn table form o) := by
  cases o with
  | none => exact const (pure none)
  | some args =>
    refine .reads fun found => ?_
    cases found with
    | none => exact const (pure none)
    | some p => exact (hform p args).andThen fun _ => .const _

theorem blockParts (scope : Node) : Footprint options (blockNodes scope) (·.blockParts scope) := by
  refine .reads fun parts => ?_
  obtain ⟨table, args, body⟩ := parts
  exact ((parametersIn blockParameters table args).nested table).bind fun _ =>
    ((scopeBody body).nested table).andThen fun _ => .const _

theorem block (scope : Node) : Footprint options (blockNodes scope) (·.block scope) :=
  (blockParts scope).andThen fun _ => (span scope).andThen fun _ => .const _

theorem lambda (o : Option Node) :
    Footprint options (optionNodes blockNodes o) (·.lambda n o location) := by
  cases o with
  | none => exact throw
  | some scope => exact (blockParts scope).andThen fun _ => .const _

theorem postExecution (o : Option Node) :
    Footprint options (postExecutionNodes o) (·.postExecution n o location) := by
  cases o with
  | none => exact throw
  | some scope =>
    refine .reads fun parts => ?_
    obtain ⟨table, args, body⟩ := parts
    exact ((statements body).nested table).andThen fun _ => .const _

theorem method (receiver : Option Node) (name : Name) (scope : Node) :
    Footprint options (slotNodes receiver ∪ blockNodes scope)
      (·.method receiver name scope location) := by
  refine (node? receiver).bind fun _ => .reads fun parts => ?_
  obtain ⟨table, args, body⟩ := parts
  exact ((parametersIn parameters table args).fresh table).bind fun _ =>
    ((scopeBody body).fresh table).andThen fun _ => .const _

theorem definitionBody (scope : Node) :
    Footprint options (definitionNodes scope) (·.definitionBody scope) := by
  refine .reads fun parts => ?_
  obtain ⟨table, args, body⟩ := parts
  exact ((scopeBody body).fresh table).andThen fun _ => .const _

theorem definitionPath (path : Node) :
    Footprint options (pathNodes path) (·.definitionPath path) := by
  refine .reads fun shape => ?_
  cases shape with
  | colon parent name =>
    by_cases hbare : path.kind = .COLON2 ∧ parent.isNone = true
    · simp only [if_pos hbare]
      exact (span path).andThen fun _ => .const _
    · simp only [if_neg hbare]
      exact (node path).andThen fun _ => .const _
  | _ => exact throw

theorem nameOperand (operand : Legacy.NameOperand) :
    Footprint options operand.nodes (·.nameOperand operand) := by
  cases operand with
  | node n => exact node n
  | name name => exact const (pure _)

theorem wrapper (body : Option Node) (hshape : n.shape = .ok (.wrapper body)) :
    Footprint options (shapeNodes options n (.wrapper body)) (·.wrapper n body location) := by
  have hkind := Legacy.Node.kind_mem_kinds _ hshape
  simp only [Legacy.Shape.kinds, List.mem_cons, List.not_mem_nil, or_false] at hkind
  obtain hkind | hkind | hkind | hkind | hkind | hkind := hkind <;>
    simp only [Context.wrapper, shapeNodes, hkind]
  · exact throw
  · exact once body
  · exact (required n .definedOperand body).andThen fun _ => .const _
  · exact array n
  · exact postExecution body
  · exact lambda body

theorem shaped (pending : Option Tree) {shape : Shape} (hshape : n.shape = .ok shape) :
    Footprint options (shapeNodes options n shape) (·.shaped n pending location shape) := by
  cases shape with
  | block found =>
    refine ((Footprint.mapM fun m _ => node m).andThen fun _ => .const _).of_eq ?_
    ext m
    simp [shapeNodes]
  | conditional condition body otherwise => exact conditional condition body otherwise
  | case subject chain => exact caseWhen subject chain
  | loop condition body post => exact loop condition body post
  | iter call scope =>
    refine (block scope).bind fun found => Footprint.andThen ?_ fun _ => .const _
    exact converted call (some found)
  | forIn collection scope => exact forLoop collection scope
  | jump value => exact jump value
  | begin body => exact (beginBody body).andThen fun _ => .const _
  | rescue => exact (beginParts n).andThen fun _ => .const _
  | ensure => exact (beginParts n).andThen fun _ => .const _
  | pair left right => exact pair left right hshape
  | multiAssign value => exact multiWrite value
  | assign name value required =>
    cases required with
    | false => exact write name value
    | true => exact throw
  | constPathAssign path name value =>
    exact (node path).bind fun _ => (required n .assignedValue value).andThen fun _ => .const _
  | indexOpAssign receiver operator index value => exact indexOpWrite receiver operator index value
  | attrOpAssign receiver safe name operator value =>
    exact attributeOpWrite receiver safe name operator value
  | conditionalAssign read assignment => exact conditionalWrite assignment
  | constOpAssign path operator value =>
    exact (node path).bind fun _ => (node value).andThen fun _ => .const _
  | call receiver name args => exact call receiver name args pending
  | invoke args => exact invoke args pending
  | list => exact array n
  | hash pairs => exact (hashElements pairs).andThen fun _ => .const _
  | variableName name => exact .of_agree fun h => h.read name
  | literal value => exact literal value
  | interpolation leading head tail bits => exact interpolation leading head tail bits
  | wrapper body => exact wrapper body hshape
  | matchOperator regexp value captures => exact matchOperator regexp value captures
  | definition receiver name scope => exact method receiver name scope
  | «alias» newName oldName =>
    exact (node newName).bind fun _ => (node oldName).andThen fun _ => .const _
  | undef names => exact (Footprint.mapM fun name _ => nameOperand name).andThen fun _ => .const _
  | classDefinition path superclass scope =>
    exact (definitionPath path).bind fun _ => (node? superclass).bind fun _ =>
      (definitionBody scope).andThen fun _ => .const _
  | moduleDefinition path scope =>
    exact (definitionPath path).bind fun _ => (definitionBody scope).andThen fun _ => .const _
  | singletonClass receiver scope =>
    exact (node receiver).bind fun _ => (definitionBody scope).andThen fun _ => .const _
  | colon parent name => exact (node? parent).andThen fun _ => .const _
  | _ => exact .const _

/-- One node asks for the conversion of its operands, and of no other node. -/
theorem step (n : Node) (pending : Option Tree) :
    Footprint options (n.operands options) (·.step n pending) := by
  by_cases hblock : (pending.isSome && !n.kind.takesBlock) = true
  · simp only [Context.step, if_pos hblock]
    exact throw
  · simp only [Context.step, if_neg hblock]
    exact (span n).after fun _ => .read fun shape hshape =>
      (shaped pending hshape).of_eq (nodesOf_ok hshape _).symm

end Footprint

end RubyTree
