import RubyTree.Proofs.Coupling

/-! Calls, lists and variables of mirrored nodes are converted to mirrored trees, given that the
nodes below them are. -/

namespace RubyTree

open Canonical
open Legacy (Node)
open Legacy.Node (Mirroring)

theorem LineTable.span_eq_error {lines : LineTable} {n : Node} {e : Fault}
    (h : lines.span n = .error e) : e = n.unexpected .positionInSource := by
  unfold LineTable.span at h
  split at h
  · cases h
  · split at h
    · cases h
    · cases h
      rfl

theorem LineTable.span_mirrored {N : Node → Node → Prop} {q : Accord} {lines lines' : LineTable}
    {n n' : Node} (hn : N n n') (h : (lines.span n).isOk = (lines'.span n').isOk) :
    Mirrored N q (fun _ _ => True) (lines.span n) (lines'.span n') := by
  cases hs : lines.span n with
  | ok s =>
    cases hs' : lines'.span n' with
    | ok s' => exact .ok trivial
    | error e => simp [hs, hs', Except.isOk, Except.toBool] at h
  | error e =>
    cases hs' : lines'.span n' with
    | ok s' => simp [hs, hs', Except.isOk, Except.toBool] at h
    | error e' =>
      rw [LineTable.span_eq_error hs, LineTable.span_eq_error hs']
      exact .unexpected hn rfl

/-- Both contexts see the same local tables, and convert the nodes that `D` relates to mirrored
trees. Without a block to attach, that conversion is the one of the node by itself. -/
structure Context.Coupled (k : Coupling) (D : Node → Node → Prop) (c c' : Context) : Prop where
  lines : c.lines = k.lines
  lines' : c'.lines = k.lines'
  options : c.options = k.options
  options' : c'.options = k.options'
  scope : c'.scope = c.scope
  mirroring : Mirroring k.nodes (Operands k.accord k.options k.options' k.nodes D) D
  convert : ∀ (scope : Scope) n n' pending pending', D n n' →
    Option.Rel (Tree.Mirrored k) pending pending' →
      k.Steps (Tree.Mirrored k) (c.convert scope n pending) (c'.convert scope n' pending')
  whole : ∀ (scope : Scope) n n', D n n' →
    c.convert scope n none = n.convert k.lines k.options scope none ∧
      c'.convert scope n' none = n'.convert k.lines' k.options' scope none
  attached : ∀ (scope : Scope) n block t, c.convert scope n (some block) = .ok t →
    t.kind.ownsLocation = false

namespace Context.Coupled

variable {k : Coupling} {D : Node → Node → Prop} {c c' : Context} {n n' : Node}
  {o o' : Option Node} {l l' : Span}

theorem span (h : Coupled k D c c') (hn : k.nodes n n') :
    k.Steps (k.Located n n') (c.span n) (c'.span n') := by
  unfold Context.span
  rw [h.lines, h.lines']
  exact (k.resolves n n' hn).values.mono fun s s' hs => ⟨hn, hs.2.1, hs.2.2⟩

theorem location (h : Coupled k D c c') (hn : k.nodes n n') :
    k.Steps k.Spans (c.span n) (c'.span n') :=
  (h.span hn).mono fun _ _ hs => hs.spans

theorem spanOf? (h : Coupled k D c c') (ho : Option.Rel k.nodes o o') :
    k.Steps k.Spans (c.spanOf? o) (c'.spanOf? o') := by
  cases ho with
  | none => exact .pure k.spans_null
  | some hn => exact h.location hn

theorem depth (h : Coupled k D c c') (name : Name) : c'.depth name = c.depth name := by
  rw [Context.depth, Context.depth, h.scope]

theorem node (h : Coupled k D c c') (hn : D n n') :
    k.Steps (Tree.Mirrored k) (c.node n) (c'.node n') := by
  unfold Context.node
  rw [h.scope]
  exact h.convert c.scope n n' none none hn .none

theorem node? (h : Coupled k D c c') (ho : Option.Rel D o o') :
    k.Steps (Option.Rel (Tree.Mirrored k)) (c.node? o) (c'.node? o') := by
  cases ho with
  | none => exact .pure .none
  | some hn => exact .bind (h.node hn) fun _ _ ht => .pure (.some ht)

theorem required (h : Coupled k D c c') (ho : Option.Rel D o o') (hn : k.nodes n n')
    {e : Expectation} (he : e.asksExpression = false) :
    k.Steps (Tree.Mirrored k) (c.required n e o) (c'.required n' e o') := by
  cases ho with
  | none => exact .unexpected hn he
  | some hm => exact h.node hm

theorem statements (h : Coupled k D c c') (ho : Option.Rel D o o') :
    k.Steps (Option.Rel (Tree.Mirrored k)) (c.statements o) (c'.statements o') := by
  cases ho with
  | none => exact .pure .none
  | @some body body' hbody =>
    have hb := h.mirroring body body' hbody
    have hsingle : k.Steps (Option.Rel (Tree.Mirrored k))
        (c.node body >>= fun statement => c.span body >>= fun location =>
          pure (some (Tree.statements [statement] location)))
        (c'.node body' >>= fun statement => c'.span body' >>= fun location =>
          pure (some (Tree.statements [statement] location))) :=
      .bind (h.node hbody) fun _ _ ht => .bind (h.location hb.self) fun _ _ hl =>
        .pure (.some (.plain rfl (by simpa using ht) hl))
    refine .bind (hb.shape h.mirroring) fun shape shape' hshape => ?_
    cases hshape with
    | begin hinner =>
      cases hinner with
      | none => exact .pure .none
      | some _ => exact hsingle
    | block _ => exact .bind (h.node hbody) fun _ _ ht => .pure (.some ht)
    | _ => exact hsingle

theorem elseClause (h : Coupled k D c c') (hn : D n n') :
    k.Steps (Tree.Mirrored k) (c.elseClause n) (c'.elseClause n') :=
  .bind (h.statements (.some hn)) fun _ _ hs =>
    .bind (h.location (h.mirroring n n' hn).self) fun _ _ hl =>
    .pure (.plain rfl (by simpa using hs) hl)

theorem elseClause? (h : Coupled k D c c') (ho : Option.Rel D o o') :
    k.Steps (Option.Rel (Tree.Mirrored k)) (c.elseClause? o) (c'.elseClause? o') := by
  cases ho with
  | none => exact .pure .none
  | some hn => exact .bind (h.elseClause hn) fun _ _ ht => .pure (.some ht)

/-! Arguments and calls. -/

theorem argument (h : Coupled k D c c') (hn : k.nodes n n') {a a' : Argument}
    (ha : a.Mirrored k.nodes D a') :
    k.Steps (Tree.Mirrored k) (c.argument n a) (c'.argument n' a') := by
  cases ha with
  | positional hm => exact h.node hm
  | splat hvalue hwrapper =>
    exact .bind (h.node hvalue) fun _ _ ht => .bind (h.spanOf? hwrapper) fun _ _ hl =>
      .pure (.plain rfl (by simpa using ht) hl)
  | block _ _ => exact .unexpected hn rfl

theorem elements (h : Coupled k D c c') (hn : n.Mirrored k.nodes (k.Inside D n) n') :
    k.Steps (List.Forall₂ (Tree.Mirrored k)) (c.elements n) (c'.elements n') :=
  .bind (Argument.ofNode_mirrored h.mirroring hn) fun _ _ hs =>
    .mapM hs fun _ _ ha => h.argument hn.self ha

theorem elements? (h : Coupled k D c c') (ho : Option.Rel D o o') :
    k.Steps (List.Forall₂ (Tree.Mirrored k)) (c.elements? o) (c'.elements? o') := by
  cases ho with
  | none => exact .pure .nil
  | some hn => exact h.elements (h.mirroring _ _ hn)

theorem splatFlags {as as' : List Argument}
    (hs : List.Forall₂ (Argument.Mirrored k.nodes D) as as') :
    Context.splatFlags as' = Context.splatFlags as := by
  have hcount : Argument.splatCount as' = Argument.splatCount as := by
    have hsplat := congrArg (List.countP id) (Argument.isSplat_mirrored hs)
    simpa [Argument.splatCount, List.countP_map] using hsplat
  unfold Context.splatFlags
  rw [hcount]

theorem argumentsTree (h : Coupled k D c c') (hn : k.nodes n n') {as as' : List Argument}
    (hs : List.Forall₂ (Argument.Mirrored k.nodes D) as as') :
    k.Steps (Tree.Mirrored k) (c.argumentsTree n as) (c'.argumentsTree n' as') := by
  unfold Context.argumentsTree
  rw [splatFlags hs]
  exact .bind (.mapM hs fun _ _ ha => h.argument hn ha) fun _ _ ht =>
    .bind (h.location hn) fun _ _ hl => .pure (.plain rfl (by simpa using ht) hl)

theorem blockArgument? (h : Coupled k D c c') {p p' : Option (Option Node × Node)}
    (hp : Option.Rel (Argument.PassedMirrored k.nodes D) p p') :
    k.Steps (Option.Rel (Tree.Mirrored k)) (c.blockArgument? p) (c'.blockArgument? p') := by
  cases hp with
  | none => exact .pure .none
  | some hpair =>
    exact .bind (h.node? hpair.1) fun _ _ ht => .bind (h.location hpair.2) fun _ _ hl =>
      .pure (.some (.plain rfl (by simpa using ht) hl))

theorem callArguments (h : Coupled k D c c') (ho : Option.Rel D o o') :
    k.Steps
      (fun p p' => Option.Rel (Tree.Mirrored k) p.1 p'.1 ∧ Option.Rel (Tree.Mirrored k) p.2 p'.2)
      (c.callArguments o) (c'.callArguments o') := by
  cases ho with
  | none => exact .pure ⟨.none, .none⟩
  | @some args args' hargs =>
    have hb := h.mirroring args args' hargs
    refine .bind (Argument.ofNode_mirrored h.mirroring hb) fun as as' hs => ?_
    have hsplit := Argument.splitBlock_mirrored hs
    have hempty : (Argument.splitBlock as').1.isEmpty = (Argument.splitBlock as).1.isEmpty := by
      have hothers := hsplit.1
      generalize (Argument.splitBlock as).1 = others at hothers
      generalize (Argument.splitBlock as').1 = others' at hothers
      cases hothers <;> rfl
    refine .bind (h.blockArgument? hsplit.2) fun block block' hblock => ?_
    rw [hempty]
    split
    · exact .pure ⟨.none, hblock⟩
    · exact .bind (h.argumentsTree hb.self hsplit.1) fun _ _ ht => .pure ⟨.some ht, hblock⟩

theorem jumpArguments (h : Coupled k D c c') (hn : D n n') :
    k.Steps (Tree.Mirrored k) (c.jumpArguments n) (c'.jumpArguments n') := by
  have hb := h.mirroring n n' hn
  have hlist : k.Steps (Tree.Mirrored k)
      (Argument.ofNode n >>= fun arguments => c.argumentsTree n arguments)
      (Argument.ofNode n' >>= fun arguments => c'.argumentsTree n' arguments) :=
    .bind (Argument.ofNode_mirrored h.mirroring hb) fun _ _ hs => h.argumentsTree hb.self hs
  unfold Context.jumpArguments
  rw [hb.kind]
  split
  · exact hlist
  · exact hlist
  · exact hlist
  · exact hlist
  · exact hlist
  · exact .bind (h.node hn) fun _ _ ht => .bind (h.location hb.self) fun _ _ hl =>
      .pure (.plain rfl (by simpa using ht) hl)

theorem jumpArguments? (h : Coupled k D c c') (ho : Option.Rel D o o') :
    k.Steps (Option.Rel (Tree.Mirrored k)) (c.jumpArguments? o) (c'.jumpArguments? o') := by
  cases ho with
  | none => exact .pure .none
  | some hn => exact .bind (h.jumpArguments hn) fun _ _ ht => .pure (.some ht)

theorem array (h : Coupled k D c c') (hn : n.Mirrored k.nodes (k.Inside D n) n')
    (hl : k.Spans l l') : k.Steps (Tree.Mirrored k) (c.array n l) (c'.array n' l') := by
  refine .bind (Argument.ofNode_mirrored h.mirroring hn) fun as as' hs => ?_
  have hany : as'.any Argument.isSplat = as.any Argument.isSplat := by
    have hsplat := congrArg (List.any · id) (Argument.isSplat_mirrored hs)
    simpa [List.any_map] using hsplat
  refine .bind (.mapM hs fun _ _ ha => h.argument hn.self ha) fun _ _ ht => ?_
  rw [hany]
  exact .pure (.plain rfl (by simpa using ht) hl)

theorem converted (h : Coupled k D c c') (hn : D n n') :
    k.Steps
      (fun t t' => t.Mirrored k t' ∧ n.convert k.lines k.options c.scope none = .ok t ∧
        n'.convert k.lines' k.options' c.scope none = .ok t')
      (c.node n) (c'.node n') := by
  refine (h.node hn).values.mono fun t t' ht => ?_
  obtain ⟨ht, hleft, hright⟩ := ht
  rw [Context.node, (h.whole _ n n' hn).1] at hleft
  rw [Context.node, h.scope, (h.whole _ n n' hn).2] at hright
  exact ⟨ht, hleft, hright⟩

theorem hashElement (h : Coupled k D c c') (hlist : k.Pairs n n') (hn : n.Mirrored k.nodes D n')
    (i : Nat) :
    k.Steps (Tree.Mirrored k) (c.hashElement n (2 * i)) (c'.hashElement n' (2 * i)) := by
  refine .bind hn.node.values fun value value' hvalue => ?_
  obtain ⟨hvalue, hv, hv'⟩ := hvalue
  refine .bind hn.node?.values fun key key' hkey => ?_
  obtain ⟨hkey, hk, hk'⟩ := hkey
  cases hkey with
  | none =>
    refine .bind (h.node hvalue) fun _ _ ht => .pure ?_
    exact .plain rfl (by simpa using ht) k.spans_null
  | @some key key' hkey =>
    refine .bind (h.span (h.mirroring key key' hkey).self) fun s s' hs => ?_
    refine .bind (h.span (h.mirroring value value' hvalue).self) fun u u' hu => ?_
    refine .bind (h.converted hkey) fun kt kt' hkt => ?_
    refine .bind (h.converted hvalue) fun vt vt' hvt => .pure ?_
    refine .assoc hkt.1 hvt.1 hlist (i := i) ?_ ?_
    · exact ⟨key, value, c.scope, kt, vt, s, u, Legacy.Node.node?_eq_ok_iff.mp hk,
        Legacy.Node.node_eq_ok_iff.mp hv, hs.left, hu.left, hkt.2.1, hvt.2.1, rfl⟩
    · exact ⟨key', value', c.scope, kt', vt', s', u', Legacy.Node.node?_eq_ok_iff.mp hk',
        Legacy.Node.node_eq_ok_iff.mp hv', hs.right, hu.right, hkt.2.2, hvt.2.2, rfl⟩

theorem hashElements (h : Coupled k D c c') {m m' : Node} (hm : k.nodes m m')
    (hkind : m.kind = .HASH) (hslot : m.node? 0 = .ok o) (hslot' : m'.node? 0 = .ok o')
    (ho : Option.Rel D o o') :
    k.Steps (List.Forall₂ (Tree.Mirrored k)) (c.hashElements o) (c'.hashElements o') := by
  cases ho with
  | none => exact .pure .nil
  | @some pairs pairs' hpairs =>
    have hb := h.mirroring pairs pairs' hpairs
    refine hb.ofKind fun hlist => ?_
    have hlist : k.Pairs pairs pairs' :=
      ⟨hb.self, List.mem_singleton.mp hlist, m, m', hm, hkind,
        Legacy.Node.node?_eq_ok_iff.mp hslot, Legacy.Node.node?_eq_ok_iff.mp hslot'⟩
    have hb := hb.opened (by rw [hlist.kind]; rfl)
    dsimp only
    rw [← hb.children.length_eq]
    split
    · exact .mapM_same fun i _ => h.hashElement hlist hb i
    · exact .unexpected hb.self rfl

theorem orElse {a a' b b' : Option Tree} (ha : Option.Rel (Tree.Mirrored k) a a')
    (hb : Option.Rel (Tree.Mirrored k) b b') :
    Option.Rel (Tree.Mirrored k) (a <|> b) (a' <|> b') := by
  cases ha with
  | none => exact hb
  | some ht => exact .some ht

theorem contains_callFlags {kind : Legacy.Kind} (h : kind ≠ .VCALL) :
    Flags.contains (callFlags kind) Flags.variableCall = false := by
  cases kind with
  | VCALL => exact absurd rfl h
  | _ => rfl

theorem call (h : Coupled k D c c') {name : Name} {r r' : Option Node} {p p' : Option Tree}
    (hn : n.Mirrored k.nodes (k.Inside D n) n') (hname : n.kind = .VCALL → n.name 0 = .ok name)
    (hr : Option.Rel D r r') (ho : Option.Rel D o o') (hp : Option.Rel (Tree.Mirrored k) p p')
    (hl : k.Located n n' l l') :
    k.Steps (Tree.Mirrored k) (c.call n r name o p l) (c'.call n' r' name o' p' l') := by
  refine .bind (h.callArguments ho) fun (arguments, block) (arguments', block') hparts => ?_
  refine .bind (h.node? hr) fun receiver receiver' hreceiver => ?_
  dsimp only
  rw [hn.kind]
  refine .pure (.call hreceiver ?_ hparts.1 (orElse hp hparts.2) hl.spans)
  by_cases hkind : n.kind = .VCALL
  · have hflags : Flags.contains (callFlags .VCALL) Flags.variableCall = true := rfl
    rw [hkind, if_pos rfl, if_pos rfl, if_pos hflags]
    exact ⟨n, n', hl, hkind, hname hkind⟩
  · rw [contains_callFlags hkind, if_neg hkind, if_neg hkind]
    exact ⟨rfl, rfl⟩

theorem invoke (h : Coupled k D c c') {p p' : Option Tree}
    (hn : n.Mirrored k.nodes (k.Inside D n) n') (ho : Option.Rel D o o')
    (hp : Option.Rel (Tree.Mirrored k) p p') (hl : k.Spans l l') :
    k.Steps (Tree.Mirrored k) (c.invoke n o p l) (c'.invoke n' o' p' l') := by
  refine .bind (h.callArguments ho) fun (arguments, block) (arguments', block') hparts => ?_
  obtain ⟨harguments, hblock⟩ := hparts
  have hsome : block'.isSome = block.isSome := by cases hblock <;> rfl
  dsimp only
  rw [hn.kind, hsome]
  split
  · exact .pure (.plain rfl (by simpa using And.intro harguments (orElse hp hblock)) hl)
  · split
    · exact .unexpected hn.self rfl
    · exact .pure (.plain rfl (by simpa using harguments) hl)

/-! Variables and targets. -/

section

variable {v : Variable} {value value' : Tree}

theorem read_mirrored (hl : k.Spans l l') : (Tree.read l v).Mirrored k (Tree.read l' v) := by
  cases v with
  | _ => exact .plain rfl (by simp) hl

theorem target_mirrored (hl : k.Spans l l') : (Tree.target l v).Mirrored k (Tree.target l' v) := by
  cases v with
  | _ => exact .plain rfl (by simp) hl

theorem write_mirrored (hv : value.Mirrored k value') (hl : k.Spans l l') :
    (Tree.write value l v).Mirrored k (Tree.write value' l' v) := by
  cases v with
  | _ => exact .plain rfl (by simpa using hv) hl

theorem andWrite_mirrored (hv : value.Mirrored k value') (hl : k.Spans l l') :
    (Tree.andWrite value l v).Mirrored k (Tree.andWrite value' l' v) := by
  cases v with
  | _ => exact .plain rfl (by simpa using hv) hl

theorem orWrite_mirrored (hv : value.Mirrored k value') (hl : k.Spans l l') :
    (Tree.orWrite value l v).Mirrored k (Tree.orWrite value' l' v) := by
  cases v with
  | _ => exact .plain rfl (by simpa using hv) hl

end

theorem capture (h : Coupled k D c c') (hn : D n n') :
    k.Steps (Tree.Mirrored k) (c.capture n) (c'.capture n') := by
  have hb := h.mirroring n n' hn
  refine hb.ofKind fun _ => .same hb.name fun name => ?_
  rw [h.depth]
  exact .pure (target_mirrored k.spans_null)

theorem matchOperator (h : Coupled k D c c') {r r' m m' : Node}
    (hn : n.Mirrored k.nodes (k.Inside D n) n') (hr : D r r') (hm : D m m') (ho : Option.Rel D o o')
    (hl : k.Spans l l') :
    k.Steps (Tree.Mirrored k) (c.matchOperator n r m o l) (c'.matchOperator n' r' m' o' l') := by
  have hoperands : D (if n.kind = .MATCH2 then (r, m) else (m, r)).1
        (if n.kind = .MATCH2 then (r', m') else (m', r')).1 ∧
      D (if n.kind = .MATCH2 then (r, m) else (m, r)).2
        (if n.kind = .MATCH2 then (r', m') else (m', r')).2 := by
    split
    · exact ⟨hr, hm⟩
    · exact ⟨hm, hr⟩
  unfold Context.matchOperator
  rw [hn.kind]
  refine .bind (h.node hoperands.1) fun receiver receiver' hreceiver => ?_
  refine .bind (h.node hoperands.2) fun argument argument' hargument => ?_
  refine .bind (h.location (h.mirroring _ _ hoperands.2).self) fun s s' hs => ?_
  have harguments : (Tree.arguments Flags.empty [argument] s).Mirrored k
      (Tree.arguments Flags.empty [argument'] s') := .plain rfl (by simpa using hargument) hs
  have hcall : (Tree.call Flags.empty (some receiver) ⟨"=~"⟩ .null
        (some (.arguments Flags.empty [argument] s)) none l).Mirrored k
      (Tree.call Flags.empty (some receiver') ⟨"=~"⟩ .null
        (some (.arguments Flags.empty [argument'] s')) none l') :=
    .call (.some hreceiver) ⟨rfl, rfl⟩ (.some harguments) .none hl
  cases ho with
  | none => exact .pure hcall
  | some hcaptures =>
    refine .bind (Legacy.Node.sequence_mirrored h.mirroring hcaptures) fun ns ns' hns => ?_
    refine .bind (.mapM hns fun _ _ hassignment => h.capture hassignment) fun ts ts' ht => ?_
    exact .pure (.plain rfl (by simpa using ⟨hcall, ht⟩) hl)

theorem assigned? (h : Coupled k D c c') {kind : Legacy.Kind} {name : Name} :
    c'.assigned? kind name = c.assigned? kind name := by
  unfold Context.assigned?
  rw [h.depth]

theorem read (h : Coupled k D c c') {name : Name} (hn : n.Mirrored k.nodes (k.Inside D n) n')
    (hl : k.Spans l l') : k.Steps (Tree.Mirrored k) (c.read n name l) (c'.read n' name l') := by
  unfold Context.read
  rw [hn.kind, h.depth]
  split
  · exact .pure (read_mirrored hl)
  · exact .pure (read_mirrored hl)
  · exact .pure (read_mirrored hl)
  · exact .pure (read_mirrored hl)
  · exact .pure (read_mirrored hl)
  · exact .pure (read_mirrored hl)
  · split
    · exact .pure (.plain rfl (by simp) hl)
    · exact .unexpected hn.self rfl
  · exact .pure (.plain rfl (by simp) hl)
  · exact .unexpected hn.self rfl

theorem write (h : Coupled k D c c') {name : Name} (hn : n.Mirrored k.nodes (k.Inside D n) n')
    (ho : Option.Rel D o o') (hl : k.Spans l l') :
    k.Steps (Tree.Mirrored k) (c.write n name o l) (c'.write n' name o' l') := by
  refine .bind (h.required ho hn.self rfl) fun value value' hvalue => ?_
  rw [hn.kind, h.assigned?]
  split
  · exact .pure (write_mirrored hvalue hl)
  · exact .unexpected hn.self rfl

theorem conditionalWrite (h : Coupled k D c c') {m m' : Node}
    (hn : n.Mirrored k.nodes (k.Inside D n) n') (hm : D m m') (hl : k.Spans l l') :
    k.Steps (Tree.Mirrored k) (c.conditionalWrite n m l) (c'.conditionalWrite n' m' l') := by
  have hb := h.mirroring m m' hm
  refine .bind (hb.shape h.mirroring) fun shape shape' hshape => ?_
  cases hshape with
  | assign name hvalue _ =>
    cases hvalue with
    | none => exact .unexpected hb.self rfl
    | some hvalue =>
      refine .bind (h.node hvalue) fun t t' ht => ?_
      rw [hb.kind, hn.kind, h.assigned?]
      split
      · split
        · exact .pure (andWrite_mirrored ht hl)
        · exact .pure (orWrite_mirrored ht hl)
      · exact .unexpected hb.self rfl
  | _ => exact .unexpected hb.self rfl

theorem indexOpWrite (h : Coupled k D c c') {r r' v v' : Node} {operator : Name} (hr : D r r')
    (ho : Option.Rel D o o') (hv : D v v') (hl : k.Spans l l') :
    k.Steps (Tree.Mirrored k) (c.indexOpWrite r operator o v l)
      (c'.indexOpWrite r' operator o' v' l') := by
  refine .bind (h.node hr) fun receiver receiver' hreceiver => ?_
  refine .bind (h.callArguments ho) fun (arguments, block) (arguments', block') hparts => ?_
  refine .bind (h.node hv) fun value value' hvalue => .pure ?_
  unfold Tree.indexOpWrite
  split
  · exact .plain rfl (by simpa using ⟨hreceiver, hparts.1, hparts.2, hvalue⟩) hl
  · split
    · exact .plain rfl (by simpa using ⟨hreceiver, hparts.1, hparts.2, hvalue⟩) hl
    · exact .plain rfl (by simpa using ⟨hreceiver, hparts.1, hparts.2, hvalue⟩) hl

theorem attributeOpWrite (h : Coupled k D c c') {r r' v v' : Node} {safe : Bool}
    {name operator : Name} (hr : D r r') (hv : D v v') (hl : k.Spans l l') :
    k.Steps (Tree.Mirrored k) (c.attributeOpWrite r safe name operator v l)
      (c'.attributeOpWrite r' safe name operator v' l') := by
  refine .bind (h.node hr) fun receiver receiver' hreceiver => ?_
  refine .bind (h.node hv) fun value value' hvalue => .pure ?_
  unfold Tree.callOpWrite
  split
  · exact .plain rfl (by simpa using ⟨hreceiver, hvalue⟩) hl
  · split
    · exact .plain rfl (by simpa using ⟨hreceiver, hvalue⟩) hl
    · exact .plain rfl (by simpa using ⟨hreceiver, hvalue⟩) hl

theorem pathParent (h : Coupled k D c c') (hn : D n n') :
    k.Steps (Option.Rel (Tree.Mirrored k)) (c.pathParent n) (c'.pathParent n') := by
  have hb := h.mirroring n n' hn
  refine .bind (hb.shape h.mirroring) fun shape shape' hshape => ?_
  cases hshape with
  | colon hparent _ => exact h.node? hparent
  | _ => exact .unexpected hb.self rfl

theorem assignmentTarget (h : Coupled k D c c') (hn : D n n') :
    k.Steps (Tree.Mirrored k) (c.assignmentTarget n) (c'.assignmentTarget n') := by
  have hb := h.mirroring n n' hn
  refine .bind (h.location hb.self) fun l l' hl => ?_
  refine .bind (hb.shape h.mirroring) fun shape shape' hshape => ?_
  cases hshape with
  | assign name _ _ =>
    dsimp only
    rw [hb.kind, h.assigned?]
    split
    · exact .pure (target_mirrored hl)
    · exact .unexpected hb.self rfl
  | constPathAssign hpath name _ =>
    exact .bind (h.pathParent hpath) fun _ _ hparent =>
      .pure (.plain rfl (by simpa using hparent) hl)
  | _ =>
    dsimp only
    rw [hb.kind]
    split
    · next hkind => exact .notSupported hb.self (by rw [hkind]; rfl)
    · exact .unexpected hb.self rfl

section

variable {style : TargetStyle}

theorem simpleTarget (h : Coupled k D c c') (hn : D n n') :
    k.Steps (Tree.Mirrored k) (c.simpleTarget style n) (c'.simpleTarget style n') := by
  cases style with
  | assignment => exact h.assignmentTarget hn
  | parameter =>
    exact .same (h.mirroring n n' hn).name fun name => .pure (.plain rfl (by simp) k.spans_null)

theorem restTarget (h : Coupled k D c c') {rest rest' : Option GroupRest}
    (hr : Option.Rel (GroupRest.Mirrored D) rest rest') :
    k.Steps (Option.Rel (Tree.Mirrored k)) (c.restTarget style rest)
      (c'.restTarget style rest') := by
  cases hr with
  | none => exact .pure .none
  | some hr =>
    cases hr with
    | anonymous => exact .pure (.some (.plain rfl (by simp) k.spans_null))
    | named hn =>
      exact .bind (h.simpleTarget hn) fun _ _ ht =>
        .pure (.some (.plain rfl (by simpa using ht) k.spans_null))

mutual

theorem target (h : Coupled k D c c') :
    {t t' : Target} → t.Mirrored k.nodes D t' →
      k.Steps (Tree.Mirrored k) (c.target style t) (c'.target style t')
  | _, _, .simple hn => by
    rw [Context.target, Context.target]
    exact h.simpleTarget hn
  | _, _, .group hg => by
    rw [Context.target, Context.target]
    exact targetGroup h hg

theorem targets (h : Coupled k D c c') :
    {ts ts' : List Target} → Target.MirroredAll k.nodes D ts ts' →
      k.Steps (List.Forall₂ (Tree.Mirrored k)) (c.targets style ts) (c'.targets style ts')
  | _, _, .nil => by
    rw [Context.targets, Context.targets]
    exact .pure .nil
  | _, _, .cons head tail => by
    rw [Context.targets, Context.targets]
    exact .bind (target h head) fun _ _ ht => .bind (targets h tail) fun _ _ hts =>
      .pure (.cons ht hts)

theorem targetGroup (h : Coupled k D c c') :
    {g g' : TargetGroup} → g.Mirrored k.nodes D g' →
      k.Steps (Tree.Mirrored k) (c.targetGroup style g) (c'.targetGroup style g')
  | _, _, .mk self lefts rest rights => by
    rw [Context.targetGroup, Context.targetGroup]
    exact .bind (targets h lefts) fun _ _ hlefts => .bind (h.restTarget rest) fun _ _ hrest =>
      .bind (targets h rights) fun _ _ hrights => .bind (h.location self) fun _ _ hl =>
      .pure (.plain rfl (by simpa using ⟨hlefts, hrest, hrights⟩) hl)

end

end

theorem multiWrite (h : Coupled k D c c') (hn : n.Mirrored k.nodes (k.Inside D n) n')
    (ho : Option.Rel D o o') (hl : k.Spans l l') :
    k.Steps (Tree.Mirrored k) (c.multiWrite n o l) (c'.multiWrite n' o' l') := by
  refine .bind (h.required ho hn.self rfl) fun value value' hvalue => ?_
  refine .bind (TargetGroup.ofNode_mirrored h.mirroring .assignment hn) fun g g' hg => ?_
  cases hg with
  | mk _ lefts rest rights =>
    exact .bind (h.targets lefts) fun _ _ hlefts => .bind (h.restTarget rest) fun _ _ hrest =>
      .bind (h.targets rights) fun _ _ hrights =>
      .pure (.plain rfl (by simpa using ⟨hlefts, hrest, hrights, hvalue⟩) hl)

end Context.Coupled

end RubyTree
