import RubyTree.Legacy.Build
import RubyTree.Proofs.Clauses
import RubyTree.Proofs.KindCorrespondence

/-! Scopes, and with them whole programs, are converted to well-formed trees. So the tree of a
program follows the grammar, and its locals resolve. -/

namespace RubyTree

open Canonical
open Legacy (Node Table)
open Legacy.Node (Closed Optional)

namespace Context.Faithful

variable {run : Run} {D : Node → Prop} {c : Context} {n : Node} {o : Option Node} {location : Span}

theorem nested (h : Faithful run D c) (table : Table) : Faithful run D (c.nested table) :=
  ⟨by simp [Context.nested], h.convert⟩

theorem fresh (h : Faithful run D c) (table : Table) : Faithful run D (c.fresh table) :=
  ⟨by simp [Context.fresh], h.convert⟩

/-! Parameters. -/

theorem requiredParameter (hD : Closed D) (h : Faithful run D c) {p : RequiredParameter}
    (hp : p.All D) :
    Yields (c.requiredParameter p) (Formed run ⟨c.frames, .requiredParameter⟩) := by
  cases p with
  | name name => exact .pure (.plain rfl rfl rfl (by simp))
  | group group => exact h.targetGroup hD hp

theorem optionalParameter (h : Faithful run D c) {p : OptionalParameter} (hp : D p.value) :
    Yields (c.optionalParameter p) (Formed run ⟨c.frames, .optionalParameter⟩) :=
  .bind (h.expression hp) fun _ hv => .pure (.plain rfl rfl rfl (by simpa using hv))

theorem keywordParameter (h : Faithful run D c) {p : KeywordParameter} (hp : Optional D p.value) :
    Yields (c.keywordParameter p) (Formed run ⟨c.frames, .keywordParameter⟩) := by
  unfold Context.keywordParameter
  split
  · exact .pure (.plain rfl rfl rfl (by simp))
  · next value hvalue =>
    refine .bind (h.expression (hp value hvalue)) fun v hv => .pure ?_
    exact .plain rfl rfl rfl (by simpa using hv)

theorem restParameter {frames : Frames} (rest : Option RestParameter) :
    FormedOpt run ⟨frames, .restParameter⟩ (rest.map Context.restParameter) := by
  cases rest with
  | none => exact formedOpt_none
  | some rest =>
    cases rest with
    | splat name => exact formedOpt_some.mpr (.plain rfl rfl rfl (by simp))
    | implicitComma => exact formedOpt_some.mpr (.plain rfl rfl rfl (by simp))

theorem keywordRestParameter {frames : Frames} (rest : Option KeywordRestParameter) :
    FormedOpt run ⟨frames, .keywordRestParameter⟩ (rest.map Context.keywordRestParameter) := by
  cases rest with
  | none => exact formedOpt_none
  | some rest =>
    cases rest with
    | named name => exact formedOpt_some.mpr (.plain rfl rfl rfl (by simp))
    | noKeywords => exact formedOpt_some.mpr (.plain rfl rfl rfl (by simp))

theorem blockParameter {frames : Frames} (block : Option (Option Name)) :
    FormedOpt run ⟨frames, .blockParameter⟩ (block.map (Tree.blockParameter · .null)) := by
  cases block with
  | none => exact formedOpt_none
  | some name => exact formedOpt_some.mpr (.plain rfl rfl rfl (by simp))

theorem parameters (hD : Closed D) (h : Faithful run D c) {p : Parameters} (hp : p.All D) :
    Yields (c.parameters p n) (Formed run ⟨c.frames, .parameters⟩) := by
  refine .bind (.mapM fun q hq => h.requiredParameter hD (hp.requireds q hq)) fun rs hrs => ?_
  refine .bind (.mapM fun q hq => h.requiredParameter hD (hp.posts q hq)) fun ps hps => ?_
  refine .bind (.mapM fun q hq => h.optionalParameter (hp.optionals q hq)) fun os hos => ?_
  refine .bind (.mapM fun q hq => h.keywordParameter (hp.keywords q hq)) fun ks hks => ?_
  refine .after fun location _ => .pure (.plain rfl rfl rfl ?_)
  simpa using ⟨hrs, hos, restParameter p.rest, hps, hks, keywordRestParameter p.keywordRest,
    blockParameter p.block⟩

theorem blockParameters (hD : Closed D) (h : Faithful run D c) {p : Parameters} (hp : p.All D) :
    Yields (c.blockParameters p n) (Formed run ⟨c.frames, .blockParameters⟩) := by
  refine .bind (h.parameters hD hp) fun t ht => .after fun location _ => .pure ?_
  have hlocals : FormedAll run ⟨c.frames, .blockLocal⟩
      (p.blockLocals.map (Tree.blockLocalVariable · .null)) := by
    intro u hu
    obtain ⟨name, _, rfl⟩ := List.mem_map.mp hu
    exact .plain rfl rfl rfl (by simp)
  exact .plain rfl rfl rfl (by simpa using ⟨ht, hlocals⟩)

theorem parametersIn (hD : Closed D) {form : Context → Parameters → Node → Result Tree}
    {place : Place} (table : Table)
    (hf : ∀ p args, p.All D → Yields (form c p args) (Formed run ⟨c.frames, place⟩))
    (ho : Optional D o) :
    Yields (c.parametersIn table form o) (FormedOpt run ⟨c.frames, place⟩) := by
  cases o with
  | none => exact .pure formedOpt_none
  | some args =>
    refine .bind (Parameters.ofNode_all hD (hD args (ho args rfl))) fun found hfound => ?_
    cases found with
    | none => exact .pure formedOpt_none
    | some p =>
      exact .bind (hf p args (hfound p rfl)) fun t ht => .pure (formedOpt_some.mpr ht)

/-! Scopes. -/

theorem blockParts (hD : Closed D) (h : Faithful run D c) (hn : D n) :
    Yields (c.blockParts n) fun (locals, parameters, body) =>
      FormedOpt run ⟨locals :: c.frames, .blockParameters⟩ parameters ∧
        FormedOpt run ⟨locals :: c.frames, .body⟩ body := by
  refine .bind (Legacy.Node.scopeParts_all hD (hD n hn)) fun (table, args, body) hparts => ?_
  have hinner := h.nested table
  have hparameters := parametersIn hD table (fun p args hp => hinner.blockParameters hD hp) hparts.1
  refine .bind hparameters fun parameters hparameters => ?_
  exact .bind (hinner.scopeBody hD hparts.2) fun body hbody => .pure ⟨hparameters, hbody⟩

theorem block (hD : Closed D) (h : Faithful run D c) (hn : D n) :
    Yields (c.block n) (Formed run ⟨c.frames, .literalBlock⟩) := by
  refine .bind (h.blockParts hD hn) fun (locals, parameters, body) hparts => ?_
  exact .after fun location _ => .pure (.block hparts.1 hparts.2)

theorem lambda (hD : Closed D) (h : Faithful run D c) (ho : Optional D o) :
    Yields (c.lambda n o location) (Formed run ⟨c.frames, .expression⟩) := by
  cases o with
  | none => exact .throw
  | some scope =>
    refine .bind (h.blockParts hD (ho scope rfl)) fun (locals, parameters, body) hparts => ?_
    exact .pure (.lambda hparts.1 hparts.2)

/-- The tree itself is what shows which table an `END` block has, so it is assumed to come from
one. -/
theorem postExecution (hD : Closed D) (h : Faithful run D c) (ho : Optional D o)
    (hends : ∀ scope table args body t, o = some scope →
      scope.scopeParts = .ok (table, args, body) → c.postExecution n o location = .ok t →
        run.Ends c.frames t table) :
    Yields (c.postExecution n o location) (Formed run ⟨c.frames, .expression⟩) := by
  cases o with
  | none => exact .throw
  | some scope =>
    intro t ht
    obtain ⟨⟨table, args, body⟩, hparts, hrest⟩ := bind_eq_ok_iff.mp ht
    obtain ⟨statements, hstatements, hpure⟩ := bind_eq_ok_iff.mp hrest
    have hend := hends scope table args body t rfl hparts ht
    have hall := Legacy.Node.scopeParts_all hD (hD scope (ho scope rfl)) _ hparts
    cases hpure
    exact .postExecution hend ((h.nested table).statements hall.2 statements hstatements)

theorem method (hD : Closed D) (h : Faithful run D c) {receiver : Option Node} {name : Name}
    {scope : Node} (hr : Optional D receiver) (hs : D scope) :
    Yields (c.method receiver name scope location) (Formed run ⟨c.frames, .expression⟩) := by
  refine .bind (h.node? hr) fun receiver hreceiver => ?_
  refine .bind (Legacy.Node.scopeParts_all hD (hD scope hs)) fun (table, args, body) hparts => ?_
  have hinner := h.fresh table
  have hparameters := parametersIn hD table (fun p args hp => hinner.parameters hD hp) hparts.1
  refine .bind hparameters fun parameters hparameters => ?_
  refine .bind (hinner.scopeBody hD hparts.2) fun body hbody => .pure ?_
  exact .method hreceiver hparameters hbody

theorem definitionBody (hD : Closed D) (h : Faithful run D c) (hn : D n) :
    Yields (c.definitionBody n) fun (locals, body) => FormedOpt run ⟨[locals], .body⟩ body := by
  refine .bind (Legacy.Node.scopeParts_all hD (hD n hn)) fun (table, args, body) hparts => ?_
  exact .bind ((h.fresh table).scopeBody hD hparts.2) fun body hbody => .pure hbody

theorem definitionPath (h : Faithful run D c) (hn : D n) :
    Yields (c.definitionPath n) fun (path, _) => Formed run ⟨c.frames, .declaredPath⟩ path := by
  refine .after fun shape hshape => ?_
  split
  · split
    · refine .after fun location _ => .pure ?_
      exact (Formed.read (v := .constant _) trivial).ofKind rfl (fun _ => rfl) rfl
    · refine .bind (h.node hn) fun t ht => .pure ?_
      exact ht.formed.ofKind (ht.path _ _ hshape) (fun _ => rfl) rfl
  · exact .throw

theorem nameOperand (h : Faithful run D c) {operand : Legacy.NameOperand} (ho : operand.All D) :
    Yields (c.nameOperand operand) (Formed run ⟨c.frames, .expression⟩) := by
  cases operand with
  | node n => exact h.expression ho
  | name name => exact .pure (.plain rfl rfl rfl (by simp))

/-! Nodes. -/

theorem leaf {frames : Frames} {pending : Option Tree}
    (hp : FormedOpt run ⟨frames, .literalBlock⟩ pending) :
    Yields (Context.leaf n pending location) (Formed run ⟨frames, .expression⟩) := by
  unfold Context.leaf
  split
  case h_3 => exact .pure (.plain rfl rfl rfl (by simpa using hp))
  case h_10 => exact .throw
  all_goals exact .pure (.plain rfl rfl rfl (by simp))

theorem wrapper (hD : Closed D) (h : Faithful run D c) (hn : n.Below D) (ho : Optional D o)
    (hends : ∀ scope table args body t, n.kind = .POSTEXE → o = some scope →
      scope.scopeParts = .ok (table, args, body) → c.wrapper n o location = .ok t →
        run.Ends c.frames t table) :
    Yields (c.wrapper n o location) (Formed run ⟨c.frames, .expression⟩) := by
  unfold Context.wrapper at hends ⊢
  split
  · exact h.once ho
  · refine .bind (h.required ho n _) fun value hvalue => .pure ?_
    exact .plain rfl rfl rfl (by simpa using hvalue)
  · next hkind =>
    refine h.postExecution hD ho fun scope table args body t hscope hparts ht => ?_
    exact hends scope table args body t hkind hscope hparts (by simpa only [hkind] using ht)
  · exact h.lambda hD ho
  · exact h.array hD hn
  · exact .throw

theorem shaped (hD : Closed D) (h : Faithful run D c) (hn : n.Below D) {pending : Option Tree}
    {shape : Legacy.Shape} (hs : shape.All D) (hcontains : run.root.Contains n)
    (hshape : n.shape = .ok shape)
    (hp : FormedOpt run ⟨c.frames, .literalBlock⟩ pending)
    (hends : ∀ scope table args body t, n.kind = .POSTEXE → shape = .wrapper (some scope) →
      scope.scopeParts = .ok (table, args, body) → c.shaped n pending location shape = .ok t →
        run.Ends c.frames t table) :
    Yields (c.shaped n pending location shape) (Formed run ⟨c.frames, .expression⟩) := by
  cases shape with
  | block statements =>
    refine .bind (h.nodes hs) fun body hbody => .pure ?_
    exact .plain rfl rfl rfl (by simpa using hbody)
  | conditional => exact h.conditional hs.1 hs.2.1 hs.2.2
  | case => exact h.caseWhen hD hs.1 hs.2
  | loop => exact h.loop hs.1 hs.2
  | iter call scope =>
    refine .bind (h.block hD hs.2) fun block hblock => ?_
    have hcall := h.convert c.scope call (some block) h.scope_ne_nil hs.1
      (formedOpt_some.mpr hblock)
    exact .bind hcall fun t ht => .pure (ht.formed.withLocation (ht.attached rfl))
  | forIn => exact h.forLoop hD hs.1 hs.2
  | jump => exact h.jump hD hs
  | begin => exact .bind (h.beginBody hD hs) fun parts hparts => .pure hparts.tree
  | rescue => exact .bind (h.beginParts hD hn) fun parts hparts => .pure hparts.tree
  | ensure => exact .bind (h.beginParts hD hn) fun parts hparts => .pure hparts.tree
  | pair => exact h.pair hD hn hs.1 hs.2
  | multiAssign => exact h.multiWrite hD hn hs.1
  | assign name =>
    unfold Context.shaped
    dsimp only
    split
    · exact .throw
    · exact h.write name hs
  | constPathAssign =>
    refine .bind (h.node hs.1) fun target htarget => ?_
    refine .bind (h.required hs.2 n _) fun value hvalue => .pure ?_
    exact htarget.pathWrite hcontains (.assign hshape) rfl rfl rfl rfl
      (by simpa using ⟨htarget.formed, hvalue⟩)
  | indexOpAssign => exact h.indexOpWrite hD hs.1 hs.2.1 hs.2.2
  | attrOpAssign => exact h.attributeOpWrite hs.1 hs.2
  | conditionalAssign => exact h.conditionalWrite hD hs
  | constOpAssign path operator =>
    refine .bind (h.node hs.1) fun target htarget => ?_
    refine .bind (h.expression hs.2) fun value hvalue => .pure ?_
    have hwrites : n.WritesPath path target (.constantPathOpWrite operator target value location) :=
      .operator hshape
    have hbelow := And.intro htarget.formed hvalue
    unfold Tree.constantPathOpWrite at hwrites ⊢
    by_cases hor : operator.text = "||"
    · rw [if_pos hor] at hwrites ⊢
      exact htarget.pathWrite hcontains hwrites rfl rfl rfl rfl (by simpa using hbelow)
    · rw [if_neg hor] at hwrites ⊢
      by_cases hand : operator.text = "&&"
      · rw [if_pos hand] at hwrites ⊢
        exact htarget.pathWrite hcontains hwrites rfl rfl rfl rfl (by simpa using hbelow)
      · rw [if_neg hand] at hwrites ⊢
        exact htarget.pathWrite hcontains hwrites rfl rfl rfl rfl (by simpa using hbelow)
  | call => exact h.call hD hs.1 hs.2 hp
  | invoke => exact h.invoke hD hs hp
  | list => exact h.array hD hn
  | hash =>
    refine .bind (h.hashElements hD hs) fun elements helements => .pure ?_
    exact .plain rfl rfl rfl (by simpa using helements)
  | variableName name => exact h.read name
  | literal value => exact literal
  | symbol name => exact .pure (.plain rfl rfl rfl (by simp))
  | interpolation => exact h.interpolation hD hs.1 hs.2
  | wrapper body =>
    refine h.wrapper hD hn hs fun scope table args inner t hkind hscope hparts ht => ?_
    exact hends scope table args inner t hkind (congrArg _ hscope) hparts ht
  | matchOperator => exact h.matchOperator hs.1 hs.2.1
  | definition => exact h.method hD hs.1 hs.2
  | «alias» =>
    refine .bind (h.expression hs.1) fun new hnew => ?_
    refine .bind (h.expression hs.2) fun old hold => .pure ?_
    exact .plain rfl rfl rfl (by simpa using ⟨hnew, hold⟩)
  | globalAlias new old =>
    have hread : ∀ name, Formed run ⟨c.frames, .globalName⟩ (.read .null (.globalVariable name)) :=
      fun name => (Formed.read (v := .globalVariable name) trivial).ofKind rfl (fun _ => rfl) rfl
    exact .pure (.plain rfl rfl rfl (by simpa using ⟨hread new, hread old⟩))
  | undef names =>
    have hnames : Yields (names.mapM c.nameOperand) (FormedAll run ⟨c.frames, .expression⟩) :=
      .mapM fun m hm => h.nameOperand (hs m hm)
    exact .bind hnames fun names hnames => .pure (.plain rfl rfl rfl (by simpa using hnames))
  | classDefinition =>
    refine .bind (h.definitionPath hs.1) fun (path, name) hpath => ?_
    refine .bind (h.node? hs.2.1) fun superclass hsuperclass => ?_
    refine .bind (h.definitionBody hD hs.2.2) fun (locals, body) hbody => .pure ?_
    exact .classDefinition hpath hsuperclass hbody
  | moduleDefinition =>
    refine .bind (h.definitionPath hs.1) fun (path, name) hpath => ?_
    refine .bind (h.definitionBody hD hs.2) fun (locals, body) hbody => .pure ?_
    exact .moduleDefinition hpath hbody
  | singletonClass =>
    refine .bind (h.expression hs.1) fun expression hexpression => ?_
    refine .bind (h.definitionBody hD hs.2) fun (locals, body) hbody => .pure ?_
    exact .singletonClass hexpression hbody
  | colon =>
    refine .bind (h.node? hs) fun parent hparent => .pure ?_
    exact .plain rfl rfl rfl (by simpa using hparent)
  | leaf => exact leaf hp
  | _ => exact .throw

end Context.Faithful

namespace Legacy.Node

variable {lines : LineTable} {options : Options} {root : Node} {t : Tree}

theorem convertWithin_converted (bound : Nat) {scope : Scope} {n : Node} {pending : Option Tree}
    (hscope : scope ≠ []) (hn : root.Contains n) (hheight : n.height ≤ bound)
    (hp : FormedOpt ⟨lines, options, root⟩ ⟨scope.frames, .literalBlock⟩ pending) :
    Yields (convertWithin lines options bound scope n pending)
      (Converted ⟨lines, options, root⟩ scope.frames n pending) := by
  induction bound generalizing scope n pending with
  | zero => exact .throw
  | succ bound ih =>
    -- `D` holds of the nodes that the smaller bound is enough for: those below `n` are among them.
    let D : Node → Prop := fun m => root.Contains m ∧ m.height ≤ bound
    have hD : Closed D := (closed_contains root).and (closed_height_le bound)
    have hbelow : n.Below D := by
      intro m hm
      have := height_lt_of_mem_children hm
      exact ⟨.child hn hm, by omega⟩
    have hfaithful : Context.Faithful ⟨lines, options, root⟩ D
        { lines, options, scope, convert := convertWithin lines options bound } :=
      ⟨hscope, fun scope m pending hscope hm hp => ih hscope hm.1 hm.2 hp⟩
    intro t ht
    refine ⟨?_, ?_, ?_, ?_, ?_, ?_⟩
    · obtain ⟨location, shape, hshape, hshaped, htakes⟩ := Context.step_eq_ok ht
      refine hfaithful.shaped hD hbelow (hbelow.shape hD shape hshape) hn hshape hp ?_ t hshaped
      -- Only an `END` block asks which node the tree was converted from; it takes no block.
      rintro inner table args body u hkind rfl hparts hu
      have hnone : pending = none := by
        cases pending with
        | none => rfl
        | some block =>
          have := htakes rfl
          rw [hkind] at this
          cases this
      subst hnone
      obtain rfl : t = u := by simpa [hshaped] using hu
      have hconvert : n.convert lines options scope none = .ok t := by
        rw [← ht, convertWithin_eq_convert hheight]
      exact ⟨n, inner, scope, args, body, hn, hkind, hshape, hparts, rfl, hconvert⟩
    · intro statements hshape
      have hkind : n.kind = .BLOCK := List.mem_singleton.mp (kind_mem_kinds _ hshape)
      exact convertWithin_kind_eq (bound + 1) (by rw [hkind]; rfl) t ht
    · intro hkind
      exact convertWithin_kind_eq (bound + 1) (by rw [hkind]; rfl) t ht
    · intro parent name hshape
      have hkind : n.kind ∈ [.COLON2, .COLON3] := kind_mem_kinds _ hshape
      exact convertWithin_kind_eq (bound + 1) (Kind.forms_of_path hkind) t ht
    · intro hpending hkind
      have hform : t.kind ∈ Legacy.Kind.ITER.forms :=
        convertWithin_kind_of_pending (bound + 1) hpending t ht
      rw [hkind] at hform
      exact absurd hform (by decide)
    · exact ⟨scope, by rw [← ht, convertWithin_eq_convert hheight]⟩

theorem program_formed (frames : Frames) :
    Yields (root.program lines options) (Formed ⟨lines, options, root⟩ ⟨frames, .program⟩) := by
  let D : Node → Prop := fun m => root.Contains m ∧ m.height ≤ root.height
  have hD : Closed D := (closed_contains root).and (closed_height_le root.height)
  have hroot : D root := ⟨.root, Nat.le_refl _⟩
  refine .bind (scopeParts_all hD (hD root hroot)) fun (table, args, body) hparts => ?_
  refine .after fun location _ => ?_
  have hfaithful : Context.Faithful ⟨lines, options, root⟩ D
      { lines, options, scope := [table], convert := convertWithin lines options root.height } :=
    ⟨by simp, fun scope m pending hscope hm hp =>
      convertWithin_converted root.height hscope hm.1 hm.2 hp⟩
  refine .bind (hfaithful.statements hparts.2) fun statements hstatements => .pure (.program ?_)
  cases statements with
  | none => exact .plain rfl rfl rfl (by simp)
  | some statements => exact formedOpt_some.mp hstatements

/-- The tree of a program follows the grammar. -/
theorem program_grammatical (h : root.program lines options = .ok t) : t.Grammatical :=
  (program_formed [] t h).toGrammatical

/-- `if a; else b end; c { |d| e rescue f }`. -/
def rescueInBlock : Node :=
  let rescue := Node.make .RESCUE
    [.node (Build.named .VCALL ⟨"e"⟩ default),
      .node (.make .RESBODY [.nil, .node (Build.named .VCALL ⟨"f"⟩ default), .nil] default), .nil]
    default
  let block := Build.scope (Build.names [⟨"d"⟩]) (some (Build.args { preCount := 1 } default))
    (some rescue) default
  Build.scope (.table []) none
    (some (Build.block
      [.make .IF [.node (Build.named .VCALL ⟨"a"⟩ default), .nil,
        .node (Build.named .VCALL ⟨"b"⟩ default)] default,
        .make .ITER [.node (Build.fcall ⟨"c"⟩ none default), .node block] default]
      default))
    default

theorem program_grammatical_rescueInBlock :
    ∃ t, rescueInBlock.program ⟨[], 0⟩ {} = .ok t ∧ t.Grammatical := by
  obtain ⟨t, ht⟩ : ∃ t, rescueInBlock.program ⟨[], 0⟩ {} = .ok t := ⟨_, rfl⟩
  exact ⟨t, ht, program_grammatical ht⟩

/-- The locals of a program resolve in the frames around them. -/
theorem program_scoped (h : root.program lines options = .ok t) :
    t.Scoped ⟨lines, options, root⟩ :=
  (program_formed [] t h).toScoped

/-- `a = 1; b { |c| END { d = a } }`. -/
def endInBlock : Node :=
  let write := Build.assign .DASGN ⟨"d"⟩ (some (Build.named .LVAR ⟨"a"⟩ default)) default
  let finish := Node.make .POSTEXE
    [.node (Build.scope (Build.names [⟨"d"⟩]) none (some write) default)] default
  let block := Build.scope (Build.names [⟨"c"⟩]) (some (Build.args { preCount := 1 } default))
    (some finish) default
  Build.scope (Build.names [⟨"a"⟩]) none
    (some (Build.block
      [Build.assign .LASGN ⟨"a"⟩ (some (Build.int 1 default)) default,
        .make .ITER [.node (Build.fcall ⟨"b"⟩ none default), .node block] default]
      default))
    default

theorem program_scoped_endInBlock :
    ∃ t, endInBlock.program ⟨[], 0⟩ {} = .ok t ∧ t.Scoped ⟨⟨[], 0⟩, {}, endInBlock⟩ := by
  obtain ⟨t, ht⟩ : ∃ t, endInBlock.program ⟨[], 0⟩ {} = .ok t := ⟨_, rfl⟩
  exact ⟨t, ht, program_scoped ht⟩

/-- The flags of every argument list and array of a program tell the splats in it. -/
theorem program_splatsFlagged (h : root.program lines options = .ok t) {u : Tree}
    (hu : t.Contains u) : u.SplatsFlagged :=
  (program_formed [] t h).splatsFlagged hu

/-- `a(*b, *c, [*d])`. -/
def splatsInCall : Node :=
  let splat (name : Name) := Node.make .SPLAT [.node (Build.named .VCALL name default)] default
  let args := Node.make .ARGSPUSH
    [.node (.make .ARGSCAT [.node (splat ⟨"b"⟩), .node (Build.named .VCALL ⟨"c"⟩ default)] default),
      .node (Build.list [splat ⟨"d"⟩] default)]
    default
  Build.scope (.table []) none (some (Build.block [Build.fcall ⟨"a"⟩ (some args) default] default))
    default

theorem program_splatsFlagged_splatsInCall :
    ∃ t u v, splatsInCall.program ⟨[], 0⟩ {} = .ok t ∧
      (t.Contains u ∧ u.kind = .argumentsNode ∧ u.SplatsFlagged) ∧
      t.Contains v ∧ v.kind = .arrayNode ∧ v.SplatsFlagged := by
  obtain ⟨t, flags, b, c, flags', elements, span, location, ht, hu⟩ :
      ∃ t flags b c flags' elements span location, splatsInCall.program ⟨[], 0⟩ {} = .ok t ∧
        t.Contains (.arguments flags [b, c, .array flags' elements span] location) := by
    -- The statements of the program, the call there, its arguments.
    exact ⟨_, _, _, _, _, _, _, _, rfl,
      .child (.child (.child .root (.inr (.inl ⟨rfl, rfl⟩))) (.inl ⟨rfl, .head _⟩))
        (.inr (.inr (.inr (.inr (.inr (.inr (.inl ⟨rfl, rfl⟩)))))))⟩
  have hv : t.Contains (.array flags' elements span) :=
    .child hu (.inr (.inl ⟨rfl, .tail _ (.tail _ (.head _))⟩))
  exact ⟨t, _, _, ht, ⟨hu, rfl, program_splatsFlagged ht hu⟩, hv, rfl,
    program_splatsFlagged ht hv⟩

end Legacy.Node

end RubyTree
