import RubyTree.Conversion
import RubyTree.Proofs.Parts

/-! The height of a tree is bound enough for its conversion: any larger bound gives the same result.
The conversion of a node asks for that of nodes below it only, so two contexts that agree on those
convert it alike. -/

namespace RubyTree

open Canonical (Tree)
open Legacy (Node)
open Legacy.Node (Closed Optional)

theorem Context.lineNumberBound?_all {D : Node → Prop} (hD : Closed D) {n : Node}
    (hn : n.Below D) : Yields (lineNumberBound? n) (Optional D) := by
  unfold lineNumberBound?
  split
  · refine .bind (hn.shape hD) fun shape hshape => ?_
    split
    · split
      · split
        · split
          · refine .after fun name _ => .pure ?_
            split
            · exact hshape.1
            · exact Legacy.Node.optional_none
          · exact .pure Legacy.Node.optional_none
        · exact .pure Legacy.Node.optional_none
      · exact .pure Legacy.Node.optional_none
    · exact .pure Legacy.Node.optional_none
  · exact .pure Legacy.Node.optional_none

/-- The contexts differ at most in how they convert nodes outside the set. -/
structure Context.Agree (D : Node → Prop) (c d : Context) : Prop where
  lines : d.lines = c.lines
  options : d.options = c.options
  scope : d.scope = c.scope
  convert : ∀ scope n pending, D n → d.convert scope n pending = c.convert scope n pending

namespace Context.Agree

variable {D : Node → Prop} {c d : Context} {n : Node} {o : Option Node} {location : Span}

theorem nested (h : Agree D c d) (table : Legacy.Table) :
    Agree D (c.nested table) (d.nested table) where
  lines := h.lines
  options := h.options
  scope := by simp [Context.nested, h.scope]
  convert := h.convert

theorem fresh (h : Agree D c d) (table : Legacy.Table) :
    Agree D (c.fresh table) (d.fresh table) where
  lines := h.lines
  options := h.options
  scope := rfl
  convert := h.convert

theorem span (h : Agree D c d) (n : Node) : d.span n = c.span n := by
  rw [Context.span, h.lines, ← Context.span]

theorem spanOf? (h : Agree D c d) (o : Option Node) : d.spanOf? o = c.spanOf? o := by
  cases o with
  | none => rfl
  | some n => exact h.span n

theorem depth (h : Agree D c d) (name : Name) : d.depth name = c.depth name := by
  rw [Context.depth, h.scope, ← Context.depth]

theorem node (h : Agree D c d) (hn : D n) : d.node n = c.node n := by
  rw [Context.node, h.scope, h.convert c.scope n none hn, ← Context.node]

theorem node? (h : Agree D c d) (ho : Optional D o) : d.node? o = c.node? o := by
  cases o with
  | none => rfl
  | some n => simp only [Context.node?, h.node (ho n rfl)]

theorem required (h : Agree D c d) (ho : Optional D o) (parent : Node) (e : Expectation) :
    d.required parent e o = c.required parent e o := by
  cases o with
  | none => rfl
  | some n => exact h.node (ho n rfl)

theorem statements (h : Agree D c d) (ho : Optional D o) : d.statements o = c.statements o := by
  cases o with
  | none => rfl
  | some n => simp only [Context.statements, h.node (ho n rfl), h.span]

theorem elseClause (h : Agree D c d) (hn : D n) : d.elseClause n = c.elseClause n := by
  simp only [Context.elseClause, h.statements (Legacy.Node.optional_some hn), h.span]

theorem elseClause? (h : Agree D c d) (ho : Optional D o) : d.elseClause? o = c.elseClause? o := by
  cases o with
  | none => rfl
  | some n => simp only [Context.elseClause?, h.elseClause (ho n rfl)]

/-! Arguments and calls. -/

theorem argument (h : Agree D c d) (args : Node) {a : Argument} (ha : a.All D) :
    d.argument args a = c.argument args a := by
  cases a with
  | positional n => exact h.node ha
  | splat value wrapper => simp only [Context.argument, h.node ha, h.spanOf?]
  | block value pass => rfl

theorem elements (hD : Closed D) (h : Agree D c d) (hn : n.Below D) :
    d.elements n = c.elements n :=
  (Argument.ofNode_all hD hn).bind_congr fun _ hs => mapM_congr fun a ha => h.argument n (hs a ha)

theorem elements? (hD : Closed D) (h : Agree D c d) (ho : Optional D o) :
    d.elements? o = c.elements? o := by
  cases o with
  | none => rfl
  | some n => exact h.elements hD (hD n (ho n rfl))

theorem argumentsTree (h : Agree D c d) {arguments : List Argument}
    (hs : ∀ a ∈ arguments, a.All D) :
    d.argumentsTree n arguments = c.argumentsTree n arguments := by
  have he := mapM_congr fun a ha => h.argument n (hs a ha)
  simp only [Context.argumentsTree, he, h.span]

theorem blockArgument? (h : Agree D c d) {passed : Option (Option Node × Node)}
    (hp : ∀ value pass, passed = some (value, pass) → Optional D value) :
    d.blockArgument? passed = c.blockArgument? passed := by
  cases passed with
  | none => rfl
  | some pair => simp only [Context.blockArgument?, h.node? (hp pair.1 pair.2 rfl), h.span]

theorem callArguments (hD : Closed D) (h : Agree D c d) (ho : Optional D o) :
    d.callArguments o = c.callArguments o := by
  cases o with
  | none => rfl
  | some n =>
    refine (Argument.ofNode_all hD (hD n (ho n rfl))).bind_congr fun arguments hs => ?_
    have hsplit := Argument.splitBlock_all hs
    simp only [h.blockArgument? hsplit.2, h.argumentsTree hsplit.1]

theorem jumpArguments (hD : Closed D) (h : Agree D c d) (hn : D n) :
    d.jumpArguments n = c.jumpArguments n := by
  have he : (Argument.ofNode n >>= fun a => d.argumentsTree n a) =
      Argument.ofNode n >>= fun a => c.argumentsTree n a :=
    (Argument.ofNode_all hD (hD n hn)).bind_congr fun _ hs => h.argumentsTree hs
  simp only [Context.jumpArguments, he, h.node hn, h.span]

theorem jumpArguments? (hD : Closed D) (h : Agree D c d) (ho : Optional D o) :
    d.jumpArguments? o = c.jumpArguments? o := by
  cases o with
  | none => rfl
  | some n => simp only [Context.jumpArguments?, h.jumpArguments hD (ho n rfl)]

theorem array (hD : Closed D) (h : Agree D c d) (hn : n.Below D) :
    d.array n location = c.array n location := by
  refine (Argument.ofNode_all hD hn).bind_congr fun arguments hs => ?_
  rw [mapM_congr fun a ha => h.argument n (hs a ha)]

theorem hashElement (h : Agree D c d) (hn : n.Below D) (i : Nat) :
    d.hashElement n i = c.hashElement n i := by
  refine hn.node.bind_congr fun value hvalue => hn.node?.bind_congr fun key hkey => ?_
  cases key with
  | none => simp only [h.node hvalue]
  | some key => simp only [h.span, h.node hvalue, h.node (hkey key rfl)]

theorem hashElements (hD : Closed D) (h : Agree D c d) (ho : Optional D o) :
    d.hashElements o = c.hashElements o := by
  cases o with
  | none => rfl
  | some n =>
    refine (Legacy.Node.Below.expectKind (hD n (ho n rfl))).bind_congr fun pairs hpairs => ?_
    simp only [h.hashElement hpairs.2]

theorem call (hD : Closed D) (h : Agree D c d) {receiver : Option Node} {name : Name}
    {pending : Option Tree} (hr : Optional D receiver) (ho : Optional D o) :
    d.call n receiver name o pending location = c.call n receiver name o pending location := by
  simp only [Context.call, h.callArguments hD ho, h.node? hr]

theorem invoke (hD : Closed D) (h : Agree D c d) {pending : Option Tree} (ho : Optional D o) :
    d.invoke n o pending location = c.invoke n o pending location := by
  simp only [Context.invoke, h.callArguments hD ho]

theorem capture (h : Agree D c d) (n : Node) : d.capture n = c.capture n := by
  simp only [Context.capture, h.depth]

theorem matchOperator (h : Agree D c d) {regexp value : Node} {captures : Option Node}
    (hr : D regexp) (hv : D value) :
    d.matchOperator n regexp value captures location =
      c.matchOperator n regexp value captures location := by
  have hc : d.capture = c.capture := funext h.capture
  by_cases hk : n.kind = .MATCH2
  · simp only [Context.matchOperator, hk, if_true, h.node hr, h.node hv, h.span, hc]
  · simp only [Context.matchOperator, hk, if_false, h.node hr, h.node hv, h.span, hc]

/-! Variables and targets. -/

theorem assigned? (h : Agree D c d) (kind : Legacy.Kind) (name : Name) :
    d.assigned? kind name = c.assigned? kind name := by
  simp only [Context.assigned?, h.depth]

theorem read (h : Agree D c d) (name : Name) : d.read n name location = c.read n name location := by
  simp only [Context.read, h.depth]

theorem write (h : Agree D c d) (name : Name) (ho : Optional D o) :
    d.write n name o location = c.write n name o location := by
  simp only [Context.write, h.required ho, h.assigned?]

theorem conditionalWrite (hD : Closed D) (h : Agree D c d) {assignment : Node}
    (ha : D assignment) :
    d.conditionalWrite n assignment location = c.conditionalWrite n assignment location := by
  refine (Legacy.Node.Below.shape hD (hD _ ha)).bind_congr fun shape hshape => ?_
  split
  · next value _ => simp only [h.node (hshape value rfl), h.assigned?]
  · rfl

theorem indexOpWrite (hD : Closed D) (h : Agree D c d) {receiver value : Node} {operator : Name}
    (hr : D receiver) (ho : Optional D o) (hv : D value) :
    d.indexOpWrite receiver operator o value location =
      c.indexOpWrite receiver operator o value location := by
  simp only [Context.indexOpWrite, h.node hr, h.callArguments hD ho, h.node hv]

theorem attributeOpWrite (h : Agree D c d) {receiver value : Node} {safe : Bool}
    {name operator : Name} (hr : D receiver) (hv : D value) :
    d.attributeOpWrite receiver safe name operator value location =
      c.attributeOpWrite receiver safe name operator value location := by
  simp only [Context.attributeOpWrite, h.node hr, h.node hv]

theorem pathParent (hD : Closed D) (h : Agree D c d) (hn : D n) :
    d.pathParent n = c.pathParent n := by
  refine (Legacy.Node.Below.shape hD (hD n hn)).bind_congr fun shape hshape => ?_
  split
  · exact h.node? hshape
  · rfl

theorem assignmentTarget (hD : Closed D) (h : Agree D c d) (hn : D n) :
    d.assignmentTarget n = c.assignmentTarget n := by
  unfold Context.assignmentTarget
  rw [h.span]
  congr 1
  funext location
  refine (Legacy.Node.Below.shape hD (hD n hn)).bind_congr fun shape hshape => ?_
  split
  · simp only [h.assigned?]
  · simp only [h.pathParent hD hshape.1]
  · rfl

theorem simpleTarget (hD : Closed D) (h : Agree D c d) {style : TargetStyle} (hn : D n) :
    d.simpleTarget style n = c.simpleTarget style n := by
  cases style with
  | parameter => rfl
  | assignment => exact h.assignmentTarget hD hn

theorem restTarget (hD : Closed D) (h : Agree D c d) {style : TargetStyle}
    {rest : Option GroupRest} (hr : GroupRest.All D rest) :
    d.restTarget style rest = c.restTarget style rest := by
  unfold Context.restTarget
  split
  · rfl
  · rfl
  · simp only [h.simpleTarget hD hr]

mutual

theorem target (hD : Closed D) (h : Agree D c d) {style : TargetStyle} :
    {target : Target} → target.All D → d.target style target = c.target style target
  | .simple _, ht => by
    rw [Context.target, Context.target]
    exact h.simpleTarget hD ht
  | .group _, ht => by
    rw [Context.target, Context.target]
    exact targetGroup hD h ht

theorem targets (hD : Closed D) (h : Agree D c d) {style : TargetStyle} :
    {targets : List Target} → Target.AllOf D targets →
      d.targets style targets = c.targets style targets
  | [], _ => by rw [Context.targets, Context.targets]
  | _ :: _, ht => by
    rw [Context.targets, Context.targets, target hD h ht.1, targets hD h ht.2]

theorem targetGroup (hD : Closed D) (h : Agree D c d) {style : TargetStyle} :
    {group : TargetGroup} → group.All D → d.targetGroup style group = c.targetGroup style group
  | .mk _ _ _ _, hg => by
    rw [Context.targetGroup, Context.targetGroup, targets hD h hg.1, h.restTarget hD hg.2.1,
      targets hD h hg.2.2, h.span]

end

theorem multiWrite (hD : Closed D) (h : Agree D c d) (hn : n.Below D) (ho : Optional D o) :
    d.multiWrite n o location = c.multiWrite n o location := by
  unfold Context.multiWrite
  rw [h.required ho]
  congr 1
  funext value
  refine (TargetGroup.ofNode_all hD .assignment hn).bind_congr fun group hgroup => ?_
  obtain ⟨_, lefts, rest, rights⟩ := group
  simp only [TargetGroup.lefts, TargetGroup.rest, TargetGroup.rights, h.targets hD hgroup.1,
    h.restTarget hD hgroup.2.1, h.targets hD hgroup.2.2]

/-! Conditionals, loops and jumps. -/

theorem consequent (h : Agree D c d) (ho : Optional D o) : d.consequent o = c.consequent o := by
  cases o with
  | none => rfl
  | some n => simp only [Context.consequent, h.node (ho n rfl), h.elseClause (ho n rfl)]

theorem conditional (h : Agree D c d) {condition : Node} {body otherwise : Option Node}
    (hc : D condition) (hb : Optional D body) (ho : Optional D otherwise) :
    d.conditional n condition body otherwise location =
      c.conditional n condition body otherwise location := by
  simp only [Context.conditional, h.node hc, h.statements hb, h.consequent ho, h.elseClause? ho]

theorem clausesWithin (hD : Closed D) (h : Agree D c d) (bound : Nat) (ho : Optional D o) :
    d.clausesWithin bound o = c.clausesWithin bound o := by
  induction bound generalizing o with
  | zero =>
    cases o with
    | none => rfl
    | some n => rfl
  | succ bound ih =>
    cases o with
    | none => rfl
    | some n =>
      unfold Context.clausesWithin
      split
      · refine (Legacy.Node.Below.shape hD (hD n (ho n rfl))).bind_congr fun shape hshape => ?_
        split
        · simp only [h.elements? hD hshape.1, h.statements hshape.2.1, h.span, ih hshape.2.2]
        · rfl
      · simp only [h.statements ho]

theorem clauses (hD : Closed D) (h : Agree D c d) (ho : Optional D o) :
    d.clauses o = c.clauses o := by
  cases o with
  | none => rfl
  | some n => exact h.clausesWithin hD n.height ho

theorem caseWhen (hD : Closed D) (h : Agree D c d) {subject clauses : Option Node}
    (hs : Optional D subject) (hc : Optional D clauses) :
    d.caseWhen subject clauses location = c.caseWhen subject clauses location := by
  simp only [Context.caseWhen, h.clauses hD hc, h.node? hs]

theorem loop (h : Agree D c d) {condition : Node} {post : Bool} (hc : D condition)
    (ho : Optional D o) :
    d.loop n condition o post location = c.loop n condition o post location := by
  simp only [Context.loop, h.node hc, h.statements ho]

theorem forIndex (hD : Closed D) (h : Agree D c d) {descriptor : Legacy.Descriptor}
    (hd : descriptor.All D) : d.forIndex n descriptor = c.forIndex n descriptor := by
  unfold Context.forIndex
  split
  · rfl
  · next init hinit =>
    have hi := hd.preInit init hinit
    split
    · exact (TargetGroup.ofNode_all hD .assignment (hD init hi)).bind_congr fun group hgroup =>
        h.targetGroup hD hgroup
    · split
      · exact h.assignmentTarget hD hi
      · rfl

theorem forLoop (hD : Closed D) (h : Agree D c d) {collection scope : Node} (hc : D collection)
    (hs : D scope) : d.forLoop collection scope location = c.forLoop collection scope location := by
  refine (Legacy.Node.scopeParts_all hD (hD scope hs)).bind_congr fun parts hparts => ?_
  obtain ⟨_, args, body⟩ := parts
  cases args with
  | none => rfl
  | some args =>
    have ha := hD args (hparts.1 args rfl)
    refine ha.expectKind.bind_congr fun args hargs => ?_
    refine hargs.2.descriptor.bind_congr fun descriptor hd => ?_
    simp only [h.forIndex hD hd, h.node hc, h.statements hparts.2]

theorem jump (hD : Closed D) (h : Agree D c d) (ho : Optional D o) :
    d.jump n o location = c.jump n o location := by
  simp only [Context.jump, h.jumpArguments? hD ho]

theorem flipFlopOperand (hD : Closed D) (h : Agree D c d) (hn : D n) :
    d.flipFlopOperand n = c.flipFlopOperand n := by
  unfold Context.flipFlopOperand
  rw [h.options, h.node hn]
  split
  · refine (lineNumberBound?_all hD (hD n hn)).bind_congr fun found hfound => ?_
    cases found with
    | none => rfl
    | some integer => exact h.node (hfound integer rfl)
  · rfl

theorem flipFlopOperand? (hD : Closed D) (h : Agree D c d) (ho : Optional D o) :
    d.flipFlopOperand? o = c.flipFlopOperand? o := by
  cases o with
  | none => rfl
  | some n => simp only [Context.flipFlopOperand?, h.flipFlopOperand hD (ho n rfl)]

theorem pair (hD : Closed D) (h : Agree D c d) (hn : n.Below D) {left right : Option Node}
    (hl : Optional D left) (hr : Optional D right) :
    d.pair n left right location = c.pair n left right location := by
  simp only [Context.pair, h.required hl, h.required hr, h.node? hl, h.node? hr,
    h.flipFlopOperand? hD hl, h.flipFlopOperand? hD hr, h.array hD hn]

/-! Exceptions. -/

theorem rescueBody (hD : Closed D) (h : Agree D c d) (ho : Optional D o) :
    d.rescueBody o = c.rescueBody o := by
  cases o with
  | none => rfl
  | some n =>
    refine (Legacy.Node.sequence_all hD (ho n rfl)).bind_congr fun statements hs => ?_
    cases statements with
    | nil => simp only [h.statements ho]
    | cons first rest =>
      have hr := mapM_congr fun m hm => h.node (hs m (List.mem_cons_of_mem first hm))
      simp only [h.assignmentTarget hD (hs first List.mem_cons_self), hr, h.span, h.statements ho]

theorem rescueClauseWithin (hD : Closed D) (h : Agree D c d) (bound : Nat) (ho : Optional D o) :
    d.rescueClauseWithin bound o = c.rescueClauseWithin bound o := by
  induction bound generalizing o with
  | zero =>
    cases o with
    | none => rfl
    | some n => rfl
  | succ bound ih =>
    cases o with
    | none => rfl
    | some n =>
      refine (Legacy.Node.Below.expectKind (hD n (ho n rfl))).bind_congr fun clause hclause => ?_
      refine (hclause.2.shape hD).bind_congr fun shape hshape => ?_
      split
      · simp only [h.elements? hD hshape.1, h.rescueBody hD hshape.2.1, ih hshape.2.2, h.span]
      · rfl

theorem rescueClause? (hD : Closed D) (h : Agree D c d) (ho : Optional D o) :
    d.rescueClause? o = c.rescueClause? o := by
  cases o with
  | none => rfl
  | some n => exact h.rescueClauseWithin hD n.height ho

theorem rescueParts (hD : Closed D) (h : Agree D c d) (hn : n.Below D) :
    d.rescueParts n = c.rescueParts n := by
  refine (hn.shape hD).bind_congr fun shape hshape => ?_
  split
  · simp only [h.statements hshape.1, h.rescueClause? hD hshape.2.1, h.elseClause? hshape.2.2]
  · rfl

theorem ensuredParts (hD : Closed D) (h : Agree D c d) (ho : Optional D o) :
    d.ensuredParts o = c.ensuredParts o := by
  cases o with
  | none => rfl
  | some n => simp only [Context.ensuredParts, h.rescueParts hD (hD n (ho n rfl)), h.statements ho]

theorem ensureClause (h : Agree D c d) (ho : Optional D o) :
    d.ensureClause o = c.ensureClause o := by
  simp only [Context.ensureClause, h.spanOf?, h.statements ho]

theorem beginParts (hD : Closed D) (h : Agree D c d) (hn : n.Below D) :
    d.beginParts n = c.beginParts n := by
  refine (hn.shape hD).bind_congr fun shape hshape => ?_
  split
  · simp only [h.ensuredParts hD hshape.1, h.ensureClause hshape.2]
  · exact h.rescueParts hD hn
  · rfl

theorem beginBody (hD : Closed D) (h : Agree D c d) (ho : Optional D o) :
    d.beginBody o = c.beginBody o := by
  cases o with
  | none => rfl
  | some n => simp only [Context.beginBody, h.beginParts hD (hD n (ho n rfl)), h.statements ho]

theorem scopeBody (hD : Closed D) (h : Agree D c d) (ho : Optional D o) :
    d.scopeBody o = c.scopeBody o := by
  cases o with
  | none => rfl
  | some n =>
    simp only [Context.scopeBody, h.beginParts hD (hD n (ho n rfl)), h.span, h.statements ho]

/-! Literals and interpolations. -/

theorem literal (h : Agree D c d) (value : Literal) :
    d.literal n value location = c.literal n value location := by
  simp only [Context.literal, Context.stringFlags, h.options]

theorem fragment (hD : Closed D) (h : Agree D c d) (hn : D n) : d.fragment n = c.fragment n := by
  refine (Legacy.Node.Below.shape hD (hD n hn)).bind_congr fun shape hshape => ?_
  split
  · simp only [h.statements hshape, h.span, h.node hn]
  · exact h.node hn

theorem fragments (hD : Closed D) (h : Agree D c d) (ho : Optional D o) :
    d.fragments o = c.fragments o := by
  cases o with
  | none => rfl
  | some n =>
    refine (Legacy.Node.Below.expectKind (hD n (ho n rfl))).bind_congr fun list hlist => ?_
    exact hlist.2.nodesFrom.bind_congr fun nodes hnodes =>
      mapM_congr fun m hm => h.fragment hD (hnodes m hm)

theorem interpolation (hD : Closed D) (h : Agree D c d) {leading : Option String}
    {head tail : Option Node} {options : UInt32} (hh : Optional D head) (ht : Optional D tail) :
    d.interpolation n leading head tail options location =
      c.interpolation n leading head tail options location := by
  have hf : d.fragmentOf? head = c.fragmentOf? head := by
    cases head with
    | none => rfl
    | some head => simp only [Context.fragmentOf?, h.fragment hD (hh head rfl)]
  simp only [Context.interpolation, Context.interpolationParts, hf, h.fragments hD ht]

theorem once (h : Agree D c d) (ho : Optional D o) : d.once n o location = c.once n o location := by
  simp only [Context.once, h.required ho]

/-! Scopes. -/

theorem requiredParameter (hD : Closed D) (h : Agree D c d) {p : RequiredParameter}
    (hp : p.All D) : d.requiredParameter p = c.requiredParameter p := by
  cases p with
  | name name => rfl
  | group group => exact h.targetGroup hD hp

theorem keywordParameter (h : Agree D c d) {p : KeywordParameter} (hp : Optional D p.value) :
    d.keywordParameter p = c.keywordParameter p := by
  unfold Context.keywordParameter
  split
  · rfl
  · next value hvalue => simp only [h.node (hp value hvalue)]

theorem parameters (hD : Closed D) (h : Agree D c d) {p : Parameters} (hp : p.All D) :
    d.parameters p n = c.parameters p n := by
  have hr := mapM_congr fun q hq => h.requiredParameter hD (hp.requireds q hq)
  have hs := mapM_congr fun q hq => h.requiredParameter hD (hp.posts q hq)
  have ho : p.optionals.mapM d.optionalParameter = p.optionals.mapM c.optionalParameter :=
    mapM_congr fun q hq => by simp only [Context.optionalParameter, h.node (hp.optionals q hq)]
  have hk := mapM_congr fun q hq => h.keywordParameter (hp.keywords q hq)
  simp only [Context.parameters, hr, hs, ho, hk, h.span]

theorem blockParameters (hD : Closed D) (h : Agree D c d) {p : Parameters} (hp : p.All D) :
    d.blockParameters p n = c.blockParameters p n := by
  simp only [Context.blockParameters, h.parameters hD hp, h.span]

theorem parametersIn (hD : Closed D) {form : Context → Parameters → Node → Result Tree}
    (table : Legacy.Table) (hf : ∀ p args, p.All D → form d p args = form c p args)
    (ho : Optional D o) : d.parametersIn table form o = c.parametersIn table form o := by
  cases o with
  | none => rfl
  | some args =>
    refine (Parameters.ofNode_all hD (hD args (ho args rfl))).bind_congr fun found hfound => ?_
    cases found with
    | none => rfl
    | some p => simp only [hf p args (hfound p rfl)]

theorem blockParts (hD : Closed D) (h : Agree D c d) (hn : D n) :
    d.blockParts n = c.blockParts n := by
  refine (Legacy.Node.scopeParts_all hD (hD n hn)).bind_congr fun parts hparts => ?_
  obtain ⟨table, args, body⟩ := parts
  have hi := h.nested table
  have hp := parametersIn hD table (fun p args hp => hi.blockParameters hD hp) hparts.1
  simp only [hp, hi.scopeBody hD hparts.2]

theorem block (hD : Closed D) (h : Agree D c d) (hn : D n) : d.block n = c.block n := by
  simp only [Context.block, h.blockParts hD hn, h.span]

theorem lambda (hD : Closed D) (h : Agree D c d) (ho : Optional D o) :
    d.lambda n o location = c.lambda n o location := by
  cases o with
  | none => rfl
  | some scope => simp only [Context.lambda, h.blockParts hD (ho scope rfl)]

theorem postExecution (hD : Closed D) (h : Agree D c d) (ho : Optional D o) :
    d.postExecution n o location = c.postExecution n o location := by
  cases o with
  | none => rfl
  | some scope =>
    refine (Legacy.Node.scopeParts_all hD (hD scope (ho scope rfl))).bind_congr fun parts hp => ?_
    obtain ⟨table, args, body⟩ := parts
    simp only [(h.nested table).statements hp.2]

theorem method (hD : Closed D) (h : Agree D c d) {receiver : Option Node} {name : Name}
    {scope : Node} (hr : Optional D receiver) (hs : D scope) :
    d.method receiver name scope location = c.method receiver name scope location := by
  unfold Context.method
  rw [h.node? hr]
  congr 1
  funext receiver
  refine (Legacy.Node.scopeParts_all hD (hD scope hs)).bind_congr fun parts hparts => ?_
  obtain ⟨table, args, body⟩ := parts
  have hi := h.fresh table
  have hp := parametersIn hD table (fun p args hp => hi.parameters hD hp) hparts.1
  simp only [hp, hi.scopeBody hD hparts.2]

theorem definitionBody (hD : Closed D) (h : Agree D c d) (hn : D n) :
    d.definitionBody n = c.definitionBody n := by
  refine (Legacy.Node.scopeParts_all hD (hD n hn)).bind_congr fun parts hparts => ?_
  obtain ⟨table, args, body⟩ := parts
  simp only [(h.fresh table).scopeBody hD hparts.2]

theorem definitionPath (h : Agree D c d) (hn : D n) :
    d.definitionPath n = c.definitionPath n := by
  simp only [Context.definitionPath, h.span, h.node hn]

theorem nameOperand (h : Agree D c d) {operand : Legacy.NameOperand} (ho : operand.All D) :
    d.nameOperand operand = c.nameOperand operand := by
  cases operand with
  | node n => exact h.node ho
  | name name => rfl

theorem wrapper (hD : Closed D) (h : Agree D c d) (hn : n.Below D) (ho : Optional D o) :
    d.wrapper n o location = c.wrapper n o location := by
  simp only [Context.wrapper, h.once ho, h.required ho, h.postExecution hD ho, h.lambda hD ho,
    h.array hD hn]

theorem shaped (hD : Closed D) (h : Agree D c d) (hn : n.Below D) {pending : Option Tree}
    {shape : Legacy.Shape} (hs : shape.All D) :
    d.shaped n pending location shape = c.shaped n pending location shape := by
  cases shape with
  | block statements =>
    have he := mapM_congr fun m hm => h.node (hs m hm)
    simp only [Context.shaped, he]
  | conditional => exact h.conditional hs.1 hs.2.1 hs.2.2
  | case => exact h.caseWhen hD hs.1 hs.2
  | loop => exact h.loop hs.1 hs.2
  | iter call scope =>
    simp only [Context.shaped, h.block hD hs.2, h.scope, h.convert _ call _ hs.1]
  | forIn => exact h.forLoop hD hs.1 hs.2
  | jump => exact h.jump hD hs
  | begin => simp only [Context.shaped, h.beginBody hD hs]
  | rescue => simp only [Context.shaped, h.beginParts hD hn]
  | ensure => simp only [Context.shaped, h.beginParts hD hn]
  | pair => exact h.pair hD hn hs.1 hs.2
  | multiAssign => exact h.multiWrite hD hn hs.1
  | assign name => simp only [Context.shaped, h.write name hs]
  | constPathAssign => simp only [Context.shaped, h.node hs.1, h.required hs.2]
  | indexOpAssign => exact h.indexOpWrite hD hs.1 hs.2.1 hs.2.2
  | attrOpAssign => exact h.attributeOpWrite hs.1 hs.2
  | conditionalAssign => exact h.conditionalWrite hD hs
  | constOpAssign => simp only [Context.shaped, h.node hs.1, h.node hs.2]
  | call => exact h.call hD hs.1 hs.2
  | invoke => exact h.invoke hD hs
  | list => exact h.array hD hn
  | hash => simp only [Context.shaped, h.hashElements hD hs]
  | variableName name => exact h.read name
  | literal value => exact h.literal value
  | interpolation => exact h.interpolation hD hs.1 hs.2
  | wrapper => exact h.wrapper hD hn hs
  | matchOperator => exact h.matchOperator hs.1 hs.2.1
  | definition => exact h.method hD hs.1 hs.2
  | «alias» => simp only [Context.shaped, h.node hs.1, h.node hs.2]
  | undef names =>
    have he := mapM_congr fun m hm => h.nameOperand (hs m hm)
    simp only [Context.shaped, he]
  | classDefinition =>
    simp only [Context.shaped, Context.classDefinition, h.definitionPath hs.1, h.node? hs.2.1,
      h.definitionBody hD hs.2.2]
  | moduleDefinition =>
    simp only [Context.shaped, Context.moduleDefinition, h.definitionPath hs.1,
      h.definitionBody hD hs.2]
  | singletonClass =>
    simp only [Context.shaped, Context.singletonClass, h.node hs.1, h.definitionBody hD hs.2]
  | colon => simp only [Context.shaped, h.node? hs]
  | _ => rfl

theorem step (hD : Closed D) (h : Agree D c d) (hn : n.Below D) (pending : Option Tree) :
    d.step n pending = c.step n pending := by
  unfold Context.step
  split
  · rfl
  · rw [h.span]
    congr 1
    funext location
    exact (hn.shape hD).bind_congr fun shape hshape => h.shaped hD hn hshape

end Context.Agree

namespace Legacy.Node

variable {lines : LineTable} {options : Options} {scope : Scope} {n : Node} {pending : Option Tree}

theorem convertWithin_eq_convertWithin {bound other : Nat} (hb : n.height ≤ bound)
    (ho : n.height ≤ other) :
    convertWithin lines options bound scope n pending =
      convertWithin lines options other scope n pending := by
  induction bound generalizing other scope n pending with
  | zero =>
    have := n.height_pos
    omega
  | succ bound ih =>
    cases other with
    | zero =>
      have := n.height_pos
      omega
    | succ other =>
      let D : Node → Prop := fun m => m.height ≤ bound ∧ m.height ≤ other
      have hD : Closed D := (closed_height_le bound).and (closed_height_le other)
      have hn : n.Below D := by
        intro m hm
        have := height_lt_of_mem_children hm
        exact ⟨by omega, by omega⟩
      have hagree : Context.Agree D
          { lines, options, scope, convert := convertWithin lines options other }
          { lines, options, scope, convert := convertWithin lines options bound } :=
        ⟨rfl, rfl, rfl, fun _ _ _ hm => ih hm.1 hm.2⟩
      exact hagree.step hD hn pending

theorem convertWithin_eq_convert {bound : Nat} (h : n.height ≤ bound) :
    convertWithin lines options bound scope n pending = n.convert lines options scope pending :=
  convertWithin_eq_convertWithin h (Nat.le_refl _)

end Legacy.Node

/-- The context of a node in which the nodes below it are converted whatever their height. -/
def Context.whole (lines : LineTable) (options : Options) (scope : Scope) : Context :=
  { lines, options, scope, convert := Legacy.Node.convert lines options }

namespace Context

@[simp] theorem span_whole (lines : LineTable) (options : Options) (scope : Scope) (n : Node) :
    (whole lines options scope).span n = lines.span n := rfl

@[simp] theorem nested_whole (lines : LineTable) (options : Options) (scope : Scope)
    (table : Legacy.Table) :
    (whole lines options scope).nested table = whole lines options (table :: scope) := rfl

@[simp] theorem fresh_whole (lines : LineTable) (options : Options) (scope : Scope)
    (table : Legacy.Table) :
    (whole lines options scope).fresh table = whole lines options [table] := rfl

end Context

/-- The conversion as a recursion without a bound. -/
theorem Legacy.Node.convert_unfold (lines : LineTable) (options : Options) (scope : Scope)
    (n : Node) (pending : Option Tree) :
    n.convert lines options scope pending =
      (Context.whole lines options scope).step n pending := by
  obtain ⟨bound, hbound⟩ := Nat.exists_eq_add_one.mpr n.height_pos
  let D : Node → Prop := fun m => m.height ≤ bound
  have hn : n.Below D := by
    intro m hm
    have := height_lt_of_mem_children hm
    show m.height ≤ bound
    omega
  have hagree : Context.Agree D (Context.whole lines options scope)
      { lines, options, scope, convert := convertWithin lines options bound } :=
    ⟨rfl, rfl, rfl, fun _ _ _ hm => convertWithin_eq_convert hm⟩
  rw [convert, hbound]
  exact hagree.step (closed_height_le bound) hn pending

theorem Legacy.Node.convert_eq_ok_iff {lines : LineTable} {options : Options} {scope : Scope}
    {n : Node} {shape : Shape} (hshape : n.shape = .ok shape) {t : Tree} :
    n.convert lines options scope none = .ok t ↔ ∃ location, lines.span n = .ok location ∧
      (Context.whole lines options scope).shaped n none location shape = .ok t := by
  have hnone : ¬((none : Option Tree).isSome && !n.kind.takesBlock) = true := by simp
  rw [convert_unfold, Context.step, if_neg hnone, bind_eq_ok_iff, hshape]
  rfl

theorem Legacy.Node.exists_shape_of_convert {lines : LineTable} {options : Options} {scope : Scope}
    {n : Node} {t : Tree} (h : n.convert lines options scope none = .ok t) :
    ∃ location shape, lines.span n = .ok location ∧ n.shape = .ok shape := by
  rw [convert_unfold, Context.step, if_neg (by simp)] at h
  obtain ⟨location, hlocation, h⟩ := bind_eq_ok_iff.mp h
  obtain ⟨shape, hshape, _⟩ := bind_eq_ok_iff.mp h
  exact ⟨location, shape, hlocation, hshape⟩

end RubyTree
