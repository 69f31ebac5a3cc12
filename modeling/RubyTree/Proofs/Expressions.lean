import RubyTree.Proofs.Formed

/-! Calls, lists and variables are converted to well-formed trees, given that the nodes below them
are. -/

namespace RubyTree

open Canonical
open Legacy (Node)
open Legacy.Node (Closed Optional)

def Context.frames (c : Context) : Frames := c.scope.frames

/-- What is known of the tree that a node is converted to. Parents rely on a few nodes giving a
tree of a certain kind. -/
structure Converted (run : Run) (frames : Frames) (n : Node) (pending : Option Tree) (t : Tree) :
    Prop where
  formed : Formed run ⟨frames, .expression⟩ t
  sequence : ∀ statements, n.shape = .ok (.block statements) → t.kind = .statementsNode
  conditional : n.kind = .IF → t.kind = .ifNode
  path : ∀ parent name, n.shape = .ok (.colon parent name) → t.kind = .constantPathNode
  attached : pending.isSome = true → t.kind ≠ .postExecutionNode
  source : ∃ scope, n.convert run.lines run.options scope pending = .ok t

/-- A node that writes to a path is formed if its children are, and its target is converted from the
path that a node of the legacy tree asks it to write to. -/
theorem Converted.pathWrite {run : Run} {frames : Frames} {n path : Node} {target : Tree}
    {kind : Kind} {fields : Fields kind.fields} {location : Span}
    (h : Converted run frames path none target) (hn : run.root.Contains n)
    (hwrites : n.WritesPath path target (.mk kind fields location))
    (hopens : kind.opensFrame = false) (hrefers : kind.refersToLocal = false)
    (hcounts : kind.countsSplats = false) (hadmits : Place.expression.admits kind = true)
    (hbelow : ∀ label t, fields.Child label t →
      Formed run ⟨frames, kind.childPlace .expression label⟩ t) :
    Formed run ⟨frames, .expression⟩ (.mk kind fields location) := by
  obtain ⟨scope, hpath⟩ := h.source
  exact .of_unframed hopens (Frames.passes_of_not_refersToLocal hrefers) hadmits
    ⟨splatsFlagged_of_not_countsSplats hcounts,
      fun _ => ⟨n, path, target, scope, hn, hwrites, hpath⟩⟩ hbelow

/-- The context converts the nodes of the set to well-formed trees, in any scope. -/
structure Context.Faithful (run : Run) (D : Node → Prop) (c : Context) : Prop where
  scope_ne_nil : c.scope ≠ []
  convert : ∀ (scope : Scope) n pending, scope ≠ [] → D n →
    FormedOpt run ⟨scope.frames, .literalBlock⟩ pending →
      Yields (c.convert scope n pending) (Converted run scope.frames n pending)

namespace Context.Faithful

variable {run : Run} {D : Node → Prop} {c : Context} {n : Node} {o : Option Node} {location : Span}

theorem node (h : Faithful run D c) (hn : D n) :
    Yields (c.node n) (Converted run c.frames n none) :=
  h.convert c.scope n none h.scope_ne_nil hn formedOpt_none

theorem expression (h : Faithful run D c) (hn : D n) :
    Yields (c.node n) (Formed run ⟨c.frames, .expression⟩) :=
  (h.node hn).mono fun _ ht => ht.formed

theorem node? (h : Faithful run D c) (ho : Optional D o) :
    Yields (c.node? o) (FormedOpt run ⟨c.frames, .expression⟩) := by
  cases o with
  | none => exact .pure formedOpt_none
  | some n => exact .bind (h.expression (ho n rfl)) fun t ht => .pure (formedOpt_some.mpr ht)

theorem required (h : Faithful run D c) (ho : Optional D o) (parent : Node) (e : Expectation) :
    Yields (c.required parent e o) (Formed run ⟨c.frames, .expression⟩) := by
  cases o with
  | none => exact .throw
  | some n => exact h.expression (ho n rfl)

theorem nodes (h : Faithful run D c) {ns : List Node} (hs : ∀ m ∈ ns, D m) :
    Yields (ns.mapM c.node) (FormedAll run ⟨c.frames, .expression⟩) :=
  .mapM fun m hm => h.expression (hs m hm)

theorem statements (h : Faithful run D c) (ho : Optional D o) :
    Yields (c.statements o) (FormedOpt run ⟨c.frames, .statements⟩) := by
  cases o with
  | none => exact .pure formedOpt_none
  | some body =>
    refine .after fun shape hshape => ?_
    split
    · exact .pure formedOpt_none
    · refine .bind (h.node (ho body rfl)) fun t ht => .pure (formedOpt_some.mpr ?_)
      exact ht.formed.ofKind (ht.sequence _ hshape) (fun _ => rfl) rfl
    · refine .bind (h.expression (ho body rfl)) fun t ht => .after fun location _ => .pure ?_
      exact formedOpt_some.mpr (.plain rfl rfl rfl (by simpa using ht))

theorem elseClause (h : Faithful run D c) (hn : D n) :
    Yields (c.elseClause n) (Formed run ⟨c.frames, .elseClause⟩) := by
  refine .bind (h.statements (Legacy.Node.optional_some hn)) fun statements hs => ?_
  exact .after fun location _ => .pure (.plain rfl rfl rfl (by simpa using hs))

theorem elseClause? (h : Faithful run D c) (ho : Optional D o) :
    Yields (c.elseClause? o) (FormedOpt run ⟨c.frames, .elseClause⟩) := by
  cases o with
  | none => exact .pure formedOpt_none
  | some n => exact .bind (h.elseClause (ho n rfl)) fun t ht => .pure (formedOpt_some.mpr ht)

/-! Arguments and calls. -/

theorem argument (h : Faithful run D c) (args : Node) {a : Argument} (ha : a.All D) :
    Yields (c.argument args a) (Formed run ⟨c.frames, .argument⟩) := by
  cases a with
  | positional n => exact (h.expression ha).mono fun _ ht => ht.asArgument
  | splat value wrapper =>
    refine .bind (h.expression ha) fun t ht => .after fun location _ => .pure ?_
    exact .plain rfl rfl rfl (by simpa using ht)
  | block value pass => exact .throw

theorem argument_isSplat (h : Faithful run D c) (args : Node) {a : Argument} (ha : a.All D) :
    Yields (c.argument args a) fun t => t.isSplat = a.isSplat := by
  cases a with
  | positional n => exact (h.expression ha).mono fun t ht => ht.not_isSplat
  | splat value wrapper => exact .after fun t _ => .after fun location _ => .pure rfl
  | block value pass => exact .throw

theorem arguments (h : Faithful run D c) (args : Node) {arguments : List Argument}
    (hs : ∀ a ∈ arguments, a.All D) :
    Yields (arguments.mapM (c.argument args)) fun trees =>
      FormedAll run ⟨c.frames, .argument⟩ trees ∧
        trees.map Tree.isSplat = arguments.map Argument.isSplat :=
  .and (.mapM fun a ha => h.argument args (hs a ha))
    (.mapM_map_eq fun a ha => h.argument_isSplat args (hs a ha))

theorem elements (hD : Closed D) (h : Faithful run D c) (hn : n.Below D) :
    Yields (c.elements n) (FormedAll run ⟨c.frames, .argument⟩) :=
  .bind (Argument.ofNode_all hD hn) fun _ hs => (h.arguments n hs).mono fun _ ht => ht.1

theorem elements? (hD : Closed D) (h : Faithful run D c) (ho : Optional D o) :
    Yields (c.elements? o) (FormedAll run ⟨c.frames, .argument⟩) := by
  cases o with
  | none => exact .pure formedAll_nil
  | some n => exact h.elements hD (hD n (ho n rfl))

theorem argumentsTree (h : Faithful run D c) {arguments : List Argument}
    (hs : ∀ a ∈ arguments, a.All D) :
    Yields (c.argumentsTree n arguments) (Formed run ⟨c.frames, .arguments⟩) := by
  refine .bind (h.arguments n hs) fun trees ht => .after fun location _ => .pure ?_
  exact .arguments (splatFlags_tellSplats ht.2) ht.1

theorem blockArgument? (h : Faithful run D c) {passed : Option (Option Node × Node)}
    (hp : ∀ value pass, passed = some (value, pass) → Optional D value) :
    Yields (c.blockArgument? passed) (FormedOpt run ⟨c.frames, .blockArgument⟩) := by
  cases passed with
  | none => exact .pure formedOpt_none
  | some pair =>
    refine .bind (h.node? (hp pair.1 pair.2 rfl)) fun t ht => .after fun location _ => .pure ?_
    exact formedOpt_some.mpr (.plain rfl rfl rfl (by simpa using ht))

theorem callArguments (hD : Closed D) (h : Faithful run D c) (ho : Optional D o) :
    Yields (c.callArguments o) fun parts =>
      FormedOpt run ⟨c.frames, .arguments⟩ parts.1 ∧
        FormedOpt run ⟨c.frames, .blockArgument⟩ parts.2 := by
  cases o with
  | none => exact .pure ⟨formedOpt_none, formedOpt_none⟩
  | some args =>
    refine .bind (Argument.ofNode_all hD (hD args (ho args rfl))) fun arguments hs => ?_
    have hsplit := Argument.splitBlock_all hs
    refine .bind (h.blockArgument? hsplit.2) fun block hblock => ?_
    split
    · exact .pure ⟨formedOpt_none, hblock⟩
    · refine .bind (h.argumentsTree hsplit.1) fun t ht => .pure ?_
      exact ⟨formedOpt_some.mpr ht, hblock⟩

theorem jumpArguments (hD : Closed D) (h : Faithful run D c) (hn : D n) :
    Yields (c.jumpArguments n) (Formed run ⟨c.frames, .arguments⟩) := by
  have hlist : Yields (Argument.ofNode n >>= fun arguments => c.argumentsTree n arguments)
      (Formed run ⟨c.frames, .arguments⟩) :=
    .bind (Argument.ofNode_all hD (hD n hn)) fun _ hs => h.argumentsTree hs
  unfold Context.jumpArguments
  split
  · exact hlist
  · exact hlist
  · exact hlist
  · exact hlist
  · exact hlist
  · exact .bind (h.expression hn) fun t ht => .after fun location _ => .pure ht.asOnlyArgument

theorem jumpArguments? (hD : Closed D) (h : Faithful run D c) (ho : Optional D o) :
    Yields (c.jumpArguments? o) (FormedOpt run ⟨c.frames, .arguments⟩) := by
  cases o with
  | none => exact .pure formedOpt_none
  | some n => exact .bind (h.jumpArguments hD (ho n rfl)) fun t ht => .pure (formedOpt_some.mpr ht)

theorem array (hD : Closed D) (h : Faithful run D c) (hn : n.Below D) :
    Yields (c.array n location) (Formed run ⟨c.frames, .expression⟩) := by
  refine .bind (Argument.ofNode_all hD hn) fun arguments hs => ?_
  exact .bind (h.arguments n hs) fun trees ht => .pure (.array (arrayFlags_tell ht.2) ht.1)

theorem hashElement (h : Faithful run D c) (hn : n.Below D) (i : Nat) :
    Yields (c.hashElement n i) (Formed run ⟨c.frames, .pair⟩) := by
  refine .bind hn.node fun value hvalue => .bind hn.node? fun key hkey => ?_
  cases key with
  | none =>
    exact .bind (h.expression hvalue) fun t ht => .pure (.plain rfl rfl rfl (by simpa using ht))
  | some key =>
    refine .after fun keySpan _ => .after fun valueSpan _ => ?_
    refine .bind (h.expression (hkey key rfl)) fun k hk => ?_
    refine .bind (h.expression hvalue) fun v hv => .pure ?_
    exact .plain rfl rfl rfl (by simpa using ⟨hk, hv⟩)

theorem hashElements (hD : Closed D) (h : Faithful run D c) (ho : Optional D o) :
    Yields (c.hashElements o) (FormedAll run ⟨c.frames, .pair⟩) := by
  cases o with
  | none => exact .pure formedAll_nil
  | some n =>
    refine .bind (Legacy.Node.Below.expectKind (hD n (ho n rfl))) fun pairs hpairs => ?_
    dsimp only
    split
    · exact .mapM fun k _ => h.hashElement hpairs.2 (2 * k)
    · exact .throw

theorem call (hD : Closed D) (h : Faithful run D c) {receiver : Option Node} {name : Name}
    {pending : Option Tree} (hr : Optional D receiver) (ho : Optional D o)
    (hp : FormedOpt run ⟨c.frames, .literalBlock⟩ pending) :
    Yields (c.call n receiver name o pending location) (Formed run ⟨c.frames, .expression⟩) := by
  refine .bind (h.callArguments hD ho) fun (arguments, block) hparts => ?_
  refine .bind (h.node? hr) fun receiver hreceiver => .pure ?_
  have hblock := Formed.attachedBlock hp hparts.2
  exact .plain rfl rfl rfl (by simpa using ⟨hreceiver, hparts.1, hblock⟩)

theorem invoke (hD : Closed D) (h : Faithful run D c) {pending : Option Tree} (ho : Optional D o)
    (hp : FormedOpt run ⟨c.frames, .literalBlock⟩ pending) :
    Yields (c.invoke n o pending location) (Formed run ⟨c.frames, .expression⟩) := by
  refine .bind (h.callArguments hD ho) fun (arguments, block) hparts => ?_
  have hblock := Formed.attachedBlock hp hparts.2
  dsimp only
  split
  · exact .pure (.plain rfl rfl rfl (by simpa using ⟨hparts.1, hblock⟩))
  · split
    · exact .throw
    · exact .pure (.plain rfl rfl rfl (by simpa using hparts.1))

theorem resolves (h : Faithful run D c) (name : Name) :
    (Variable.localVariable name (c.depth name)).Resolves c.frames := by
  refine ⟨c.scope.resolves_depth name, ?_⟩
  have hdepth := Scope.depth_lt_length h.scope_ne_nil name
  simpa [Context.frames, Scope.frames, Context.depth] using hdepth

theorem capture (h : Faithful run D c) (n : Node) :
    Yields (c.capture n) (Formed run ⟨c.frames, .captureTarget⟩) := by
  refine .after fun assignment _ => .after fun name _ => .pure ?_
  exact (Formed.target (h.resolves name)).ofKind rfl (fun _ => rfl) rfl

theorem matchOperator (h : Faithful run D c) {regexp value : Node} {captures : Option Node}
    (hr : D regexp) (hv : D value) :
    Yields (c.matchOperator n regexp value captures location)
      (Formed run ⟨c.frames, .expression⟩) := by
  have hoperands : D (if n.kind = .MATCH2 then (regexp, value) else (value, regexp)).1 ∧
      D (if n.kind = .MATCH2 then (regexp, value) else (value, regexp)).2 := by
    split
    · exact ⟨hr, hv⟩
    · exact ⟨hv, hr⟩
  refine .bind (h.expression hoperands.1) fun receiver hreceiver => ?_
  refine .bind (h.expression hoperands.2) fun argument hargument => .after fun span _ => ?_
  have harguments : Formed run ⟨c.frames, .arguments⟩ (.arguments Flags.empty [argument] span) :=
    hargument.asOnlyArgument
  have hcall : Formed run ⟨c.frames, .expression⟩
      (.call Flags.empty (some receiver) ⟨"=~"⟩ .null
        (some (.arguments Flags.empty [argument] span)) none location) :=
    .plain rfl rfl rfl (by simpa using ⟨hreceiver, harguments⟩)
  cases captures with
  | none => exact .pure hcall
  | some captures =>
    refine .after fun assignments _ => .bind (.mapM fun m _ => h.capture m) fun targets ht => ?_
    have hmatch : Formed run ⟨c.frames, .matchCall⟩ _ := hcall.ofKind rfl (fun _ => rfl) rfl
    exact .pure (.plain rfl rfl rfl (by simpa using ⟨hmatch, ht⟩))

/-! Variables and targets. -/

theorem assigned? (h : Faithful run D c) {kind : Legacy.Kind} {name : Name} {v : Variable}
    (hv : c.assigned? kind name = some v) : v.Resolves c.frames := by
  unfold Context.assigned? at hv
  split at hv
  all_goals cases hv
  all_goals first | exact h.resolves name | trivial

theorem read (h : Faithful run D c) (name : Name) :
    Yields (c.read n name location) (Formed run ⟨c.frames, .expression⟩) := by
  unfold Context.read
  split
  · exact .pure (.read (h.resolves name))
  · exact .pure (.read (h.resolves name))
  · exact .pure (.read trivial)
  · exact .pure (.read trivial)
  · exact .pure (.read trivial)
  · exact .pure (.read trivial)
  · split
    · exact .pure (.plain rfl rfl rfl (by simp))
    · exact .throw
  · exact .pure (.plain rfl rfl rfl (by simp))
  · exact .throw

theorem write (h : Faithful run D c) (name : Name) (ho : Optional D o) :
    Yields (c.write n name o location) (Formed run ⟨c.frames, .expression⟩) := by
  refine .bind (h.required ho n _) fun value hvalue => ?_
  split
  · next v hv => exact .pure (.write (h.assigned? hv) hvalue)
  · exact .throw

theorem conditionalWrite (hD : Closed D) (h : Faithful run D c) {assignment : Node}
    (ha : D assignment) :
    Yields (c.conditionalWrite n assignment location) (Formed run ⟨c.frames, .expression⟩) := by
  refine .bind (Legacy.Node.Below.shape hD (hD _ ha)) fun shape hshape => ?_
  split
  · next name value _ =>
    refine .bind (h.expression (hshape value rfl)) fun t ht => ?_
    split
    · next v hv =>
      split
      · exact .pure (.andWrite (h.assigned? hv) ht)
      · exact .pure (.orWrite (h.assigned? hv) ht)
    · exact .throw
  · exact .throw

theorem indexOpWrite (hD : Closed D) (h : Faithful run D c) {receiver value : Node}
    {operator : Name} (hr : D receiver) (ho : Optional D o) (hv : D value) :
    Yields (c.indexOpWrite receiver operator o value location)
      (Formed run ⟨c.frames, .expression⟩) := by
  refine .bind (h.expression hr) fun receiver hreceiver => ?_
  refine .bind (h.callArguments hD ho) fun (arguments, block) hparts => ?_
  refine .bind (h.expression hv) fun value hvalue => .pure ?_
  unfold Tree.indexOpWrite
  split
  · exact .plain rfl rfl rfl (by simpa using ⟨hreceiver, hparts.1, hparts.2, hvalue⟩)
  · split
    · exact .plain rfl rfl rfl (by simpa using ⟨hreceiver, hparts.1, hparts.2, hvalue⟩)
    · exact .plain rfl rfl rfl (by simpa using ⟨hreceiver, hparts.1, hparts.2, hvalue⟩)

theorem attributeOpWrite (h : Faithful run D c) {receiver value : Node} {safe : Bool}
    {name operator : Name} (hr : D receiver) (hv : D value) :
    Yields (c.attributeOpWrite receiver safe name operator value location)
      (Formed run ⟨c.frames, .expression⟩) := by
  refine .bind (h.expression hr) fun receiver hreceiver => ?_
  refine .bind (h.expression hv) fun value hvalue => .pure ?_
  unfold Tree.callOpWrite
  split
  · exact .plain rfl rfl rfl (by simpa using ⟨hreceiver, hvalue⟩)
  · split
    · exact .plain rfl rfl rfl (by simpa using ⟨hreceiver, hvalue⟩)
    · exact .plain rfl rfl rfl (by simpa using ⟨hreceiver, hvalue⟩)

theorem pathParent (hD : Closed D) (h : Faithful run D c) (hn : D n) :
    Yields (c.pathParent n) (FormedOpt run ⟨c.frames, .expression⟩) := by
  refine .bind (Legacy.Node.Below.shape hD (hD n hn)) fun shape hshape => ?_
  split
  · exact h.node? hshape
  · exact .throw

theorem assignmentTarget (hD : Closed D) (h : Faithful run D c) (hn : D n) :
    Yields (c.assignmentTarget n) (Formed run ⟨c.frames, .variableTarget⟩) := by
  refine .after fun location _ => ?_
  refine .bind (Legacy.Node.Below.shape hD (hD n hn)) fun shape hshape => ?_
  split
  · split
    · next v hv => exact .pure (.target (h.assigned? hv))
    · exact .throw
  · refine .bind (h.pathParent hD hshape.1) fun parent hparent => .pure ?_
    exact .plain rfl rfl rfl (by simpa using hparent)
  · split
    · exact .throw
    · exact .throw

end Context.Faithful

namespace TargetStyle

@[simp] def place : TargetStyle → Place
  | .assignment => .target
  | .parameter => .requiredParameter

@[simp] def simplePlace : TargetStyle → Place
  | .assignment => .variableTarget
  | .parameter => .namedParameter

@[simp] def restPlace : TargetStyle → Place
  | .assignment => .targetRest
  | .parameter => .parameterRest

end TargetStyle

namespace Context.Faithful

variable {run : Run} {D : Node → Prop} {c : Context} {n : Node} {o : Option Node} {location : Span}
  {style : TargetStyle}

theorem simpleTarget (hD : Closed D) (h : Faithful run D c) (hn : D n) :
    Yields (c.simpleTarget style n) (Formed run ⟨c.frames, style.simplePlace⟩) := by
  cases style with
  | assignment => exact h.assignmentTarget hD hn
  | parameter => exact .after fun name _ => .pure (.plain rfl rfl rfl (by simp))

theorem restTarget (hD : Closed D) (h : Faithful run D c) {rest : Option GroupRest}
    (hr : GroupRest.All D rest) :
    Yields (c.restTarget style rest) (FormedOpt run ⟨c.frames, style.restPlace⟩) := by
  have hsplat : ∀ e, FormedOpt run ⟨c.frames, style.simplePlace⟩ e →
      FormedOpt run ⟨c.frames, style.restPlace⟩ (some (.splat e .null)) := by
    intro e he
    cases style with
    | assignment => exact formedOpt_some.mpr (.plain rfl rfl rfl (by simpa using he))
    | parameter => exact formedOpt_some.mpr (.plain rfl rfl rfl (by simpa using he))
  unfold Context.restTarget
  split
  · exact .pure formedOpt_none
  · exact .pure (hsplat none formedOpt_none)
  · refine .bind (h.simpleTarget hD hr) fun t ht => .pure ?_
    exact hsplat (some t) (formedOpt_some.mpr ht)

theorem multiTarget {frames : Frames} {lefts rights : List Tree} {rest : Option Tree}
    (hlefts : FormedAll run ⟨frames, style.place⟩ lefts)
    (hrest : FormedOpt run ⟨frames, style.restPlace⟩ rest)
    (hrights : FormedAll run ⟨frames, style.place⟩ rights) :
    Formed run ⟨frames, style.place⟩ (.multiTarget lefts rest rights location) := by
  cases style with
  | assignment => exact .plain rfl rfl rfl (by simpa using ⟨hlefts, hrest, hrights⟩)
  | parameter => exact .plain rfl rfl rfl (by simpa using ⟨hlefts, hrest, hrights⟩)

mutual

theorem target (hD : Closed D) (h : Faithful run D c) :
    {target : Target} → target.All D →
      Yields (c.target style target) (Formed run ⟨c.frames, style.place⟩)
  | .simple n, ht => by
    rw [Context.target]
    refine (h.simpleTarget hD ht).mono fun t ht => ?_
    cases style with
    | assignment => exact ht.asTarget
    | parameter =>
      have hkind : t.kind = .requiredParameterNode := by
        simpa [Place.admits, TargetStyle.simplePlace] using ht.admits
      exact ht.ofKind hkind (fun _ => rfl) rfl
  | .group _, ht => by
    rw [Context.target]
    exact targetGroup hD h ht

theorem targets (hD : Closed D) (h : Faithful run D c) :
    {targets : List Target} → Target.AllOf D targets →
      Yields (c.targets style targets) (FormedAll run ⟨c.frames, style.place⟩)
  | [], _ => by
    rw [Context.targets]
    exact .pure formedAll_nil
  | _ :: _, ht => by
    rw [Context.targets]
    refine .bind (target hD h ht.1) fun t ht₁ => .bind (targets hD h ht.2) fun ts ht₂ => ?_
    exact .pure (formedAll_cons.mpr ⟨ht₁, ht₂⟩)

theorem targetGroup (hD : Closed D) (h : Faithful run D c) :
    {group : TargetGroup} → group.All D →
      Yields (c.targetGroup style group) (Formed run ⟨c.frames, style.place⟩)
  | .mk _ _ _ _, hg => by
    rw [Context.targetGroup]
    refine .bind (targets hD h hg.1) fun lefts hlefts => ?_
    refine .bind (h.restTarget hD hg.2.1) fun rest hrest => ?_
    refine .bind (targets hD h hg.2.2) fun rights hrights => .after fun location _ => ?_
    exact .pure (multiTarget hlefts hrest hrights)

end

theorem multiWrite (hD : Closed D) (h : Faithful run D c) (hn : n.Below D) (ho : Optional D o) :
    Yields (c.multiWrite n o location) (Formed run ⟨c.frames, .expression⟩) := by
  refine .bind (h.required ho n _) fun value hvalue => ?_
  refine .bind (TargetGroup.ofNode_all hD .assignment hn) fun group hgroup => ?_
  obtain ⟨_, lefts, rest, rights⟩ := group
  refine .bind (h.targets hD hgroup.1) fun lefts hlefts => ?_
  refine .bind (h.restTarget hD hgroup.2.1) fun rest hrest => ?_
  refine .bind (h.targets hD hgroup.2.2) fun rights hrights => .pure ?_
  exact .plain rfl rfl rfl (by simpa using ⟨hlefts, hrest, hrights, hvalue⟩)

end Context.Faithful

end RubyTree
