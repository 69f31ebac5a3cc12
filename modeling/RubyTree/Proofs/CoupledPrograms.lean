import RubyTree.Proofs.CoupledClauses
import RubyTree.Proofs.Programs

/-! Scopes, and with them whole programs, that mirror each other are converted to mirrored trees. -/

namespace RubyTree

open Canonical
open Legacy (Node Table)

theorem Legacy.Node.name_of_VCALL {n : Node} {r a : Option Node} {name : Name}
    (hkind : n.kind = .VCALL) (h : n.shape = .ok (.call r name a)) : n.name 0 = .ok name := by
  simp only [Legacy.Node.shape, hkind] at h
  obtain ⟨found, hfound, h⟩ := bind_eq_ok_iff.mp h
  cases h
  exact hfound

namespace Context.Coupled

variable {k : Coupling} {D : Node → Node → Prop} {c c' : Context} {n n' : Node}
  {o o' : Option Node} {l l' : Span}

theorem nested (h : Coupled k D c c') (table : Table) :
    Coupled k D (c.nested table) (c'.nested table) :=
  { h with scope := by rw [Context.nested, Context.nested, h.scope] }

theorem fresh (h : Coupled k D c c') (table : Table) :
    Coupled k D (c.fresh table) (c'.fresh table) :=
  { h with scope := rfl }

/-! Parameters. -/

theorem requiredParameter (h : Coupled k D c c') {p p' : RequiredParameter}
    (hp : p.Mirrored k.nodes D p') :
    k.Steps (Tree.Mirrored k) (c.requiredParameter p) (c'.requiredParameter p') := by
  cases hp with
  | name s => exact .pure (.plain rfl (by simp) k.spans_null)
  | group hg => exact h.targetGroup hg

theorem optionalParameter (h : Coupled k D c c') {p p' : OptionalParameter}
    (hp : p.Mirrored D p') :
    k.Steps (Tree.Mirrored k) (c.optionalParameter p) (c'.optionalParameter p') := by
  unfold Context.optionalParameter
  rw [hp.name]
  exact .bind (h.node hp.value) fun _ _ hv => .pure (.plain rfl (by simpa using hv) k.spans_null)

theorem keywordParameter (h : Coupled k D c c') {p p' : KeywordParameter} (hp : p.Mirrored D p') :
    k.Steps (Tree.Mirrored k) (c.keywordParameter p) (c'.keywordParameter p') := by
  have hvalue := hp.value
  unfold Context.keywordParameter
  rw [hp.name]
  generalize p.value = value at hvalue
  generalize p'.value = value' at hvalue
  cases hvalue with
  | none => exact .pure (.plain rfl (by simp) k.spans_null)
  | some hm =>
    exact .bind (h.node hm) fun _ _ hv => .pure (.plain rfl (by simpa using hv) k.spans_null)

theorem restParameter (rest : Option RestParameter) :
    Option.Rel (Tree.Mirrored k) (rest.map Context.restParameter)
      (rest.map Context.restParameter) := by
  cases rest with
  | none => exact .none
  | some rest =>
    cases rest with
    | _ => exact .some (.plain rfl (by simp) k.spans_null)

theorem keywordRestParameter (rest : Option KeywordRestParameter) :
    Option.Rel (Tree.Mirrored k) (rest.map Context.keywordRestParameter)
      (rest.map Context.keywordRestParameter) := by
  cases rest with
  | none => exact .none
  | some rest =>
    cases rest with
    | _ => exact .some (.plain rfl (by simp) k.spans_null)

theorem blockParameter (block : Option (Option Name)) :
    Option.Rel (Tree.Mirrored k) (block.map (Tree.blockParameter · .null))
      (block.map (Tree.blockParameter · .null)) := by
  cases block with
  | none => exact .none
  | some name => exact .some (.plain rfl (by simp) k.spans_null)

theorem parameters (h : Coupled k D c c') {p p' : Parameters} (hp : p.Mirrored k.nodes D p')
    (hn : k.nodes n n') :
    k.Steps (Tree.Mirrored k) (c.parameters p n) (c'.parameters p' n') := by
  unfold Context.parameters
  rw [hp.rest, hp.keywordRest, hp.block]
  refine .bind (.mapM hp.requireds fun _ _ hq => h.requiredParameter hq) fun rs rs' hrs => ?_
  refine .bind (.mapM hp.posts fun _ _ hq => h.requiredParameter hq) fun ps ps' hps => ?_
  refine .bind (.mapM hp.optionals fun _ _ hq => h.optionalParameter hq) fun os os' hos => ?_
  refine .bind (.mapM hp.keywords fun _ _ hq => h.keywordParameter hq) fun ks ks' hks => ?_
  refine .bind (h.location hn) fun l l' hl => .pure (.plain rfl ?_ hl)
  simpa using ⟨hrs, hos, restParameter p.rest, hps, hks, keywordRestParameter p.keywordRest,
    blockParameter p.block⟩

theorem blockParameters (h : Coupled k D c c') {p p' : Parameters}
    (hp : p.Mirrored k.nodes D p') (hn : k.nodes n n') :
    k.Steps (Tree.Mirrored k) (c.blockParameters p n) (c'.blockParameters p' n') := by
  have hlocals : List.Forall₂ (Tree.Mirrored k)
      (p.blockLocals.map (Tree.blockLocalVariable · .null))
      (p.blockLocals.map (Tree.blockLocalVariable · .null)) := by
    refine List.forall₂_same.mpr fun t ht => ?_
    obtain ⟨name, _, rfl⟩ := List.mem_map.mp ht
    exact .plain rfl (by simp) k.spans_null
  unfold Context.blockParameters
  rw [hp.blockLocals]
  exact .bind (h.parameters hp hn) fun _ _ ht => .bind (h.location hn) fun _ _ hl =>
    .pure (.plain rfl (by simpa using And.intro ht hlocals) hl)

theorem parametersIn (h : Coupled k D c c') {form : Context → Parameters → Node → Result Tree}
    (table : Table)
    (hf : ∀ p p' m m', p.Mirrored k.nodes D p' → k.nodes m m' →
      k.Steps (Tree.Mirrored k) (form c p m) (form c' p' m'))
    (ho : Option.Rel D o o') :
    k.Steps (Option.Rel (Tree.Mirrored k)) (c.parametersIn table form o)
      (c'.parametersIn table form o') := by
  cases ho with
  | none => exact .pure .none
  | some hargs =>
    have hb := h.mirroring _ _ hargs
    refine .bind (Parameters.ofNode_mirrored h.mirroring hb) fun found found' hfound => ?_
    cases hfound with
    | none => exact .pure .none
    | some hp => exact .bind (hf _ _ _ _ hp hb.self) fun _ _ ht => .pure (.some ht)

/-! Scopes. -/

theorem blockParts (h : Coupled k D c c') (hn : D n n') :
    k.Steps
      (fun p p' => p'.1 = p.1 ∧ Option.Rel (Tree.Mirrored k) p.2.1 p'.2.1 ∧
        Option.Rel (Tree.Mirrored k) p.2.2 p'.2.2)
      (c.blockParts n) (c'.blockParts n') := by
  refine .bind (Legacy.Node.scopeParts_mirrored h.mirroring (h.mirroring n n' hn)) ?_
  rintro ⟨_, args, body⟩ ⟨table, args', body'⟩ ⟨rfl, hargs, hbody⟩
  have hinner := h.nested table
  have hparameters := hinner.parametersIn table
    (fun p p' m m' hp hm => hinner.blockParameters hp hm) hargs
  exact .bind hparameters fun _ _ hps => .bind (hinner.scopeBody hbody) fun _ _ hb =>
    .pure ⟨rfl, hps, hb⟩

theorem block (h : Coupled k D c c') (hn : D n n') :
    k.Steps (Tree.Mirrored k) (c.block n) (c'.block n') := by
  refine .bind (h.blockParts hn) ?_
  rintro ⟨locals, ps, body⟩ ⟨_, ps', body'⟩ ⟨rfl, hps, hbody⟩
  exact .bind (h.location (h.mirroring n n' hn).self) fun _ _ hl =>
    .pure (.plain rfl (by simpa using ⟨hps, hbody⟩) hl)

theorem lambda (h : Coupled k D c c') (hn : k.nodes n n') (ho : Option.Rel D o o')
    (hl : k.Spans l l') : k.Steps (Tree.Mirrored k) (c.lambda n o l) (c'.lambda n' o' l') := by
  cases ho with
  | none => exact .unexpected hn rfl
  | some hscope =>
    refine .bind (h.blockParts hscope) ?_
    rintro ⟨locals, ps, body⟩ ⟨_, ps', body'⟩ ⟨rfl, hps, hbody⟩
    exact .pure (.plain rfl (by simpa using ⟨hps, hbody⟩) hl)

theorem postExecution (h : Coupled k D c c') (hn : k.nodes n n') (ho : Option.Rel D o o')
    (hl : k.Spans l l') :
    k.Steps (Tree.Mirrored k) (c.postExecution n o l) (c'.postExecution n' o' l') := by
  cases ho with
  | none => exact .unexpected hn rfl
  | some hscope =>
    refine .bind (Legacy.Node.scopeParts_mirrored h.mirroring (h.mirroring _ _ hscope)) ?_
    rintro ⟨_, args, body⟩ ⟨table, args', body'⟩ ⟨rfl, _, hbody⟩
    exact .bind ((h.nested table).statements hbody) fun _ _ hs =>
      .pure (.plain rfl (by simpa using hs) hl)

theorem method (h : Coupled k D c c') {name : Name} (ho : Option.Rel D o o') (hn : D n n')
    (hl : k.Spans l l') :
    k.Steps (Tree.Mirrored k) (c.method o name n l) (c'.method o' name n' l') := by
  refine .bind (h.node? ho) fun receiver receiver' hreceiver => ?_
  refine .bind (Legacy.Node.scopeParts_mirrored h.mirroring (h.mirroring n n' hn)) ?_
  rintro ⟨_, args, body⟩ ⟨table, args', body'⟩ ⟨rfl, hargs, hbody⟩
  have hinner := h.fresh table
  have hparameters := hinner.parametersIn table
    (fun p p' m m' hp hm => hinner.parameters hp hm) hargs
  exact .bind hparameters fun _ _ hps => .bind (hinner.scopeBody hbody) fun _ _ hb =>
    .pure (.plain rfl (by simpa using ⟨hreceiver, hps, hb⟩) hl)

theorem definitionBody (h : Coupled k D c c') (hn : D n n') :
    k.Steps (fun p p' => p'.1 = p.1 ∧ Option.Rel (Tree.Mirrored k) p.2 p'.2)
      (c.definitionBody n) (c'.definitionBody n') := by
  refine .bind (Legacy.Node.scopeParts_mirrored h.mirroring (h.mirroring n n' hn)) ?_
  rintro ⟨_, args, body⟩ ⟨table, args', body'⟩ ⟨rfl, _, hbody⟩
  exact .bind ((h.fresh table).scopeBody hbody) fun _ _ hb => .pure ⟨rfl, hb⟩

theorem definitionPath (h : Coupled k D c c') (hn : D n n') :
    k.Steps (fun p p' => p.1.Mirrored k p'.1 ∧ p'.2 = p.2) (c.definitionPath n)
      (c'.definitionPath n') := by
  have hb := h.mirroring n n' hn
  refine .bind (hb.shape h.mirroring) fun shape shape' hshape => ?_
  cases hshape with
  | @colon parent parent' hparent name =>
    have hnone : parent'.isNone = parent.isNone := by cases hparent <;> rfl
    dsimp only
    rw [hb.kind, hnone]
    split
    · refine .bind (h.location hb.self) fun l l' hl => .pure ⟨?_, rfl⟩
      exact read_mirrored (v := .constant name) hl
    · exact .bind (h.node hn) fun _ _ ht => .pure ⟨ht, rfl⟩
  | _ => exact .unexpected hb.self rfl

theorem classDefinition (h : Coupled k D c c') {path path' : Node} (hpath : D path path')
    (ho : Option.Rel D o o') (hn : D n n') (hl : k.Spans l l') :
    k.Steps (Tree.Mirrored k) (c.classDefinition path o n l)
      (c'.classDefinition path' o' n' l') := by
  refine .bind (h.definitionPath hpath) ?_
  rintro ⟨path, name⟩ ⟨path', _⟩ ⟨hpath, rfl⟩
  refine .bind (h.node? ho) fun superclass superclass' hsuperclass => ?_
  refine .bind (h.definitionBody hn) ?_
  rintro ⟨locals, body⟩ ⟨_, body'⟩ ⟨rfl, hbody⟩
  exact .pure (.plain rfl (by simpa using ⟨hpath, hsuperclass, hbody⟩) hl)

theorem moduleDefinition (h : Coupled k D c c') {path path' : Node} (hpath : D path path')
    (hn : D n n') (hl : k.Spans l l') :
    k.Steps (Tree.Mirrored k) (c.moduleDefinition path n l)
      (c'.moduleDefinition path' n' l') := by
  refine .bind (h.definitionPath hpath) ?_
  rintro ⟨path, name⟩ ⟨path', _⟩ ⟨hpath, rfl⟩
  refine .bind (h.definitionBody hn) ?_
  rintro ⟨locals, body⟩ ⟨_, body'⟩ ⟨rfl, hbody⟩
  exact .pure (.plain rfl (by simpa using ⟨hpath, hbody⟩) hl)

theorem singletonClass (h : Coupled k D c c') {r r' : Node} (hr : D r r') (hn : D n n')
    (hl : k.Spans l l') :
    k.Steps (Tree.Mirrored k) (c.singletonClass r n l) (c'.singletonClass r' n' l') := by
  refine .bind (h.node hr) fun expression expression' hexpression => ?_
  refine .bind (h.definitionBody hn) ?_
  rintro ⟨locals, body⟩ ⟨_, body'⟩ ⟨rfl, hbody⟩
  exact .pure (.plain rfl (by simpa using ⟨hexpression, hbody⟩) hl)

theorem nameOperand (h : Coupled k D c c') {m m' : Legacy.NameOperand} (hm : m.Mirrored D m') :
    k.Steps (Tree.Mirrored k) (c.nameOperand m) (c'.nameOperand m') := by
  cases hm with
  | node hm => exact h.node hm
  | name s => exact .pure (.plain rfl (by simp) k.spans_null)

/-! Nodes. -/

theorem leaf {p p' : Option Tree} (hn : n.Mirrored k.nodes (k.Inside D n) n')
    (hkinds : n.kind ∈ Legacy.Shape.leaf.kinds) (hp : Option.Rel (Tree.Mirrored k) p p')
    (hl : k.Spans l l') :
    k.Steps (Tree.Mirrored k) (Context.leaf n p l) (Context.leaf n' p' l') := by
  unfold Context.leaf
  rw [hn.kind]
  split
  case h_3 => exact .pure (.plain rfl (by simpa using hp) hl)
  case h_10 =>
    refine .notSupported hn.self ?_
    simp only [Legacy.Shape.kinds, List.mem_cons, List.not_mem_nil, or_false] at hkinds
    obtain hk | hk | hk | hk | hk | hk | hk | hk | hk | hk := hkinds
    case inr.inr.inr.inr.inr.inr.inr.inl => rw [hk]; rfl
    all_goals contradiction
  all_goals exact .pure (.plain rfl (by simp) hl)

theorem wrapper (h : Coupled k D c c') (hn : n.Mirrored k.nodes (k.Inside D n) n')
    (hkinds : n.kind ∈ (Legacy.Shape.wrapper o).kinds) (ho : Option.Rel D o o')
    (hl : k.Spans l l') : k.Steps (Tree.Mirrored k) (c.wrapper n o l) (c'.wrapper n' o' l') := by
  unfold Context.wrapper
  rw [hn.kind]
  split
  · exact h.once hn ho hl
  · exact .bind (h.required ho hn.self rfl) fun _ _ hv => .pure (.plain rfl (by simpa using hv) hl)
  · exact h.postExecution hn.self ho hl
  · exact h.lambda hn.self ho hl
  · exact h.array hn hl
  · refine .unexpectedFragment hn.self ?_
    simp only [Legacy.Shape.kinds, List.mem_cons, List.not_mem_nil, or_false] at hkinds
    obtain hk | hk | hk | hk | hk | hk := hkinds
    case inl => rw [hk]; rfl
    all_goals contradiction

theorem constantPathOpWrite {operator : Name} {t t' v v' : Tree} (ht : t.Mirrored k t')
    (hv : v.Mirrored k v') (hl : k.Spans l l') :
    (Tree.constantPathOpWrite operator t v l).Mirrored k
      (Tree.constantPathOpWrite operator t' v' l') := by
  unfold Tree.constantPathOpWrite
  split
  · exact .plain rfl (by simpa using ⟨ht, hv⟩) hl
  · split
    · exact .plain rfl (by simpa using ⟨ht, hv⟩) hl
    · exact .plain rfl (by simpa using ⟨ht, hv⟩) hl

theorem shaped (h : Coupled k D c c') {shape shape' : Legacy.Shape} {p p' : Option Tree}
    (hn : n.Mirrored k.nodes (k.Inside D n) n') (hshape : n.shape = .ok shape)
    (hshape' : n'.shape = .ok shape') (hs : shape.Mirrored D (k.Inside D n) shape')
    (hp : Option.Rel (Tree.Mirrored k) p p') (hlocated : k.Located n n' l l') :
    k.Steps (Tree.Mirrored k) (c.shaped n p l shape) (c'.shaped n' p' l' shape') := by
  have hkinds := Legacy.Node.kind_mem_kinds _ hshape
  have hl := hlocated.spans
  cases hs with
  | block hns =>
    exact .bind (.mapM hns fun _ _ hm => h.node hm) fun _ _ hbody =>
      .pure (.plain rfl (by simpa using hbody) hl)
  | conditional hm hbody hother => exact h.conditional hn hm hbody hother hl
  | case hsubject hclauses => exact h.caseWhen hsubject hclauses hl
  | loop hm hbody => exact h.loop hn hm hbody hl
  | @iter call call' scope scope' hcall hscope =>
    refine .bind (h.block hscope) fun block block' hblock => ?_
    have hconvert := h.convert c.scope call call' (some block) (some block') hcall (.some hblock)
    rw [h.scope]
    refine .bind hconvert.values fun t t' ht => .pure ?_
    exact ht.1.withLocation (h.attached _ _ _ _ ht.2.1) hl
  | forIn hm hscope => exact h.forLoop hm hscope hl
  | jump ho => exact h.jump hn ho hl
  | begin ho => exact .bind (h.beginBody ho) fun _ _ hparts => .pure (hparts.tree hl)
  | rescue => exact .bind (h.beginParts hn) fun _ _ hparts => .pure (hparts.tree hl)
  | ensure => exact .bind (h.beginParts hn) fun _ _ hparts => .pure (hparts.tree hl)
  | pair hleft hright => exact h.pair hn hkinds hleft hright hl
  | multiAssign hvalue => exact h.multiWrite hn hvalue hl
  | assign name hvalue required =>
    cases required with
    | true => exact .unexpected hn.self rfl
    | false => exact h.write hn hvalue hl
  | constPathAssign hpath name hvalue =>
    exact .bind (h.node hpath) fun _ _ ht => .bind (h.required hvalue hn.self rfl) fun _ _ hv =>
      .pure (.plain rfl (by simpa using ⟨ht, hv⟩) hl)
  | indexOpAssign hr operator hindex hv => exact h.indexOpWrite hr hindex hv hl
  | attrOpAssign hr safe name operator hv => exact h.attributeOpWrite hr hv hl
  | conditionalAssign _ hassignment => exact h.conditionalWrite hn hassignment hl
  | constOpAssign hpath operator hv =>
    exact .bind (h.node hpath) fun _ _ ht => .bind (h.node hv) fun _ _ hv =>
      .pure (constantPathOpWrite ht hv hl)
  | call hr name ha =>
    exact h.call hn (fun hkind => Legacy.Node.name_of_VCALL hkind hshape) hr ha hp hlocated
  | invoke ha => exact h.invoke hn ha hp hl
  | list => exact h.array hn hl
  | hash ho =>
    have helements := h.hashElements hn.self (List.mem_singleton.mp hkinds)
      (Legacy.Node.node?_of_shape hshape) (Legacy.Node.node?_of_shape hshape') ho
    exact .bind helements fun _ _ he => .pure (.plain rfl (by simpa using he) hl)
  | variableName name => exact h.read hn hl
  | literal value => exact h.literal hn (Legacy.Node.literal_of_shape hshape) hlocated
  | symbol name => exact .pure (.plain rfl (by simp) hl)
  | interpolation leading hhead htail options => exact h.interpolation hn hshape hhead htail hl
  | wrapper ho => exact h.wrapper hn hkinds ho hl
  | matchOperator hr hv hcaptures => exact h.matchOperator hn hr hv hcaptures hl
  | definition hr name hscope => exact h.method hr hscope hl
  | «alias» hnew hold =>
    exact .bind (h.node hnew) fun _ _ ht => .bind (h.node hold) fun _ _ hu =>
      .pure (.plain rfl (by simpa using ⟨ht, hu⟩) hl)
  | globalAlias newName oldName =>
    have hread (name : Name) : (Tree.read .null (.globalVariable name)).Mirrored k
        (Tree.read .null (.globalVariable name)) := read_mirrored k.spans_null
    exact .pure (.plain rfl (by simpa using ⟨hread newName, hread oldName⟩) hl)
  | undef hns =>
    exact .bind (.mapM hns fun _ _ hm => h.nameOperand hm) fun _ _ hnames =>
      .pure (.plain rfl (by simpa using hnames) hl)
  | classDefinition hpath hsuperclass hscope => exact h.classDefinition hpath hsuperclass hscope hl
  | moduleDefinition hpath hscope => exact h.moduleDefinition hpath hscope hl
  | singletonClass hr hscope => exact h.singletonClass hr hscope hl
  | colon hparent name =>
    exact .bind (h.node? hparent) fun _ _ ht => .pure (.plain rfl (by simpa using ht) hl)
  | leaf => exact leaf hn hkinds hp hl
  | unsupported =>
    refine .notSupported hn.self ?_
    simp only [Legacy.Shape.kinds, List.mem_cons, List.not_mem_nil, or_false] at hkinds
    obtain hk | hk | hk | hk | hk | hk | hk | hk := hkinds <;> rw [hk] <;> rfl
  | paramLink =>
    refine .unexpectedFragment hn.self ?_
    simp only [Legacy.Shape.kinds, List.mem_cons, List.not_mem_nil, or_false] at hkinds
    obtain hk | hk := hkinds <;> rw [hk] <;> rfl
  | scope | when | rescueClause | params | postArg =>
    exact .unexpectedFragment hn.self (by rw [List.mem_singleton.mp hkinds]; rfl)

end Context.Coupled

theorem Context.Coupled.step {k : Coupling} {D : Node → Node → Prop} {c c' : Context}
    {n n' : Node} {p p' : Option Tree} (h : Coupled k D c c')
    (hn : n.Mirrored k.nodes (k.Inside D n) n') (hp : Option.Rel (Tree.Mirrored k) p p') :
    k.Steps (Tree.Mirrored k) (c.step n p) (c'.step n' p') := by
  have hsome : p'.isSome = p.isSome := by cases hp <;> rfl
  unfold Context.step
  rw [hn.kind, hsome]
  split
  · exact .unexpected hn.self rfl
  · refine .bind (h.span hn.self) fun l l' hl => ?_
    refine .bind (hn.shape h.mirroring).values fun shape shape' hs => ?_
    exact h.shaped hn hs.2.1 hs.2.2 hs.1 hp hl

namespace Coupling

variable (k : Coupling) {n n' : Node}

theorem coupled_convertWithin (b b' : Nat)
    (hconvert : ∀ (scope : Scope) m m' p p', Legacy.Node.Bounded k.nodes b b' m m' →
      Option.Rel (Tree.Mirrored k) p p' →
        k.Steps (Tree.Mirrored k) (m.convertWithin k.lines k.options b scope p)
          (m'.convertWithin k.lines' k.options' b' scope p'))
    (scope : Scope) :
    Context.Coupled k (Legacy.Node.Bounded k.nodes b b')
      { lines := k.lines, options := k.options, scope,
        convert := Legacy.Node.convertWithin k.lines k.options b }
      { lines := k.lines', options := k.options', scope,
        convert := Legacy.Node.convertWithin k.lines' k.options' b' } where
  lines := rfl
  lines' := rfl
  options := rfl
  options' := rfl
  scope := rfl
  mirroring := k.mirroring.within b b'
  convert scope m m' p p' hm hp := hconvert scope m m' p p' hm hp
  whole scope m m' hm :=
    ⟨Legacy.Node.convertWithin_eq_convert hm.2.1, Legacy.Node.convertWithin_eq_convert hm.2.2⟩
  attached scope m block t ht := by
    have hform := Legacy.Node.convertWithin_kind_of_pending b rfl t ht
    exact (by decide : ∀ kind ∈ Legacy.Kind.ITER.forms, kind.ownsLocation = false) _ hform

theorem convertWithin_mirrored {b b' : Nat} (scope : Scope) {p p' : Option Tree}
    (hn : Legacy.Node.Bounded k.nodes b b' n n') (hp : Option.Rel (Tree.Mirrored k) p p') :
    k.Steps (Tree.Mirrored k) (n.convertWithin k.lines k.options b scope p)
      (n'.convertWithin k.lines' k.options' b' scope p') := by
  obtain ⟨hn, hb, hb'⟩ := hn
  induction b generalizing b' scope n n' p p' with
  | zero =>
    have := n.height_pos
    omega
  | succ b ih =>
    obtain _ | b' := b'
    · have := n'.height_pos
      omega
    have hcoupled := k.coupled_convertWithin b b'
      (fun scope m m' p p' hm hp => ih scope hp hm.1 hm.2.1 hm.2.2) scope
    exact hcoupled.step ((k.mirroring n n' hn).within hb hb') hp

/-- Corresponding roots are converted to mirrored trees, or refused alike. -/
theorem program_mirrored {root root' : Node} (h : k.nodes root root') :
    k.Steps (Tree.Mirrored k) (root.program k.lines k.options)
      (root'.program k.lines' k.options') := by
  unfold Legacy.Node.program
  have hcoupled (table : Table) := k.coupled_convertWithin root.height root'.height
    (fun scope m m' p p' hm hp => k.convertWithin_mirrored scope hm hp) [table]
  have hmirroring := k.mirroring.within root.height root'.height
  have hbelow := hmirroring root root' ⟨h, Nat.le_refl _, Nat.le_refl _⟩
  refine .bind (Legacy.Node.scopeParts_mirrored hmirroring hbelow) ?_
  rintro ⟨_, args, body⟩ ⟨table, args', body'⟩ ⟨rfl, _, hbody⟩
  refine .bind ((hcoupled table).location h) fun l l' hl => ?_
  refine .bind ((hcoupled table).statements hbody) fun statements statements' hs => .pure ?_
  cases hs with
  | none =>
    have hempty : (Tree.statements [] .null).Mirrored k (Tree.statements [] .null) :=
      .plain rfl (by simp) k.spans_null
    exact .plain rfl (by simpa using hempty) hl
  | some ht => exact .plain rfl (by simpa using ht) hl

end Coupling

end RubyTree
