import RubyTree.Proofs.CoupledExpressions

/-! Conditionals, loops, exceptions and literals of mirrored nodes are converted to mirrored trees,
given that the nodes below them are. -/

namespace RubyTree

open Canonical
open Legacy (Node)

namespace Context.Coupled

variable {k : Coupling} {D : Node → Node → Prop} {c c' : Context} {n n' : Node}
  {o o' : Option Node} {l l' : Span}

theorem consequent (h : Coupled k D c c') (ho : Option.Rel D o o') :
    k.Steps (Option.Rel (Tree.Mirrored k)) (c.consequent o) (c'.consequent o') := by
  cases ho with
  | none => exact .pure .none
  | some hn =>
    simp only [Context.consequent, (h.mirroring _ _ hn).kind]
    split
    · exact .bind (h.node hn) fun _ _ ht => .pure (.some ht)
    · exact .bind (h.elseClause hn) fun _ _ ht => .pure (.some ht)

theorem conditional (h : Coupled k D c c') {m m' : Node} {body body' : Option Node}
    (hn : n.Mirrored k.nodes (k.Inside D n) n') (hm : D m m') (hbody : Option.Rel D body body')
    (ho : Option.Rel D o o') (hl : k.Spans l l') :
    k.Steps (Tree.Mirrored k) (c.conditional n m body o l) (c'.conditional n' m' body' o' l') := by
  refine .bind (h.node hm) fun predicate predicate' hp => ?_
  refine .bind (h.statements hbody) fun statements statements' hs => ?_
  rw [hn.kind]
  split
  · exact .bind (h.consequent ho) fun _ _ hc => .pure (.plain rfl (by simpa using ⟨hp, hs, hc⟩) hl)
  · exact .bind (h.elseClause? ho) fun _ _ hc =>
      .pure (.plain rfl (by simpa using ⟨hp, hs, hc⟩) hl)

theorem clausesWithin (h : Coupled k D c c') (bound : Nat) (ho : Option.Rel D o o') :
    k.Steps
      (fun p p' => List.Forall₂ (Tree.Mirrored k) p.1 p'.1 ∧
        Option.Rel (Tree.Mirrored k) p.2 p'.2)
      (c.clausesWithin bound o) (c'.clausesWithin bound o') := by
  induction bound generalizing o o' with
  | zero =>
    cases ho with
    | none => exact .pure ⟨.nil, .none⟩
    | some hn => exact .unexpected (h.mirroring _ _ hn).self rfl
  | succ bound ih =>
    cases ho with
    | none => exact .pure ⟨.nil, .none⟩
    | some hn =>
      have hb := h.mirroring _ _ hn
      unfold Context.clausesWithin
      rw [hb.kind]
      split
      · refine .bind (hb.shape h.mirroring) fun shape shape' hshape => ?_
        cases hshape with
        | when hconditions hbody hnext =>
          refine .bind (h.elements? hconditions) fun conditions conditions' hc => ?_
          refine .bind (h.statements hbody) fun statements statements' hs => ?_
          refine .bind (h.location hb.self) fun l l' hl => ?_
          refine .bind (ih hnext) fun parts parts' hparts => .pure ?_
          exact ⟨.cons (.plain rfl (by simpa using ⟨hc, hs⟩) hl) hparts.1, hparts.2⟩
        | _ => exact .unexpected hb.self rfl
      · exact .bind (h.statements (.some hn)) fun _ _ hs =>
          .pure ⟨.nil, .some (.plain rfl (by simpa using hs) k.spans_null)⟩

theorem clauses (h : Coupled k D c c') (ho : Option.Rel D o o') :
    k.Steps
      (fun p p' => List.Forall₂ (Tree.Mirrored k) p.1 p'.1 ∧
        Option.Rel (Tree.Mirrored k) p.2 p'.2)
      (c.clauses o) (c'.clauses o') := by
  cases ho with
  | none => exact .pure ⟨.nil, .none⟩
  | some hn =>
    simp only [Context.clauses]
    rw [Context.clausesWithin_eq (Legacy.Node.optional_some (Legacy.Node.within_max_left _ _)),
      Context.clausesWithin_eq (Legacy.Node.optional_some (Legacy.Node.within_max_right _ _))]
    exact h.clausesWithin _ (.some hn)

theorem caseWhen (h : Coupled k D c c') {subject subject' : Option Node}
    (hs : Option.Rel D subject subject') (ho : Option.Rel D o o') (hl : k.Spans l l') :
    k.Steps (Tree.Mirrored k) (c.caseWhen subject o l) (c'.caseWhen subject' o' l') := by
  refine .bind (h.clauses ho) fun (clauses, other) (clauses', other') hparts => ?_
  exact .bind (h.node? hs) fun _ _ hp =>
    .pure (.plain rfl (by simpa using ⟨hp, hparts.1, hparts.2⟩) hl)

theorem loop (h : Coupled k D c c') {m m' : Node} {post : Bool}
    (hn : n.Mirrored k.nodes (k.Inside D n) n') (hm : D m m') (ho : Option.Rel D o o')
    (hl : k.Spans l l') :
    k.Steps (Tree.Mirrored k) (c.loop n m o post l) (c'.loop n' m' o' post l') := by
  refine .bind (h.node hm) fun predicate predicate' hp => ?_
  refine .bind (h.statements ho) fun statements statements' hs => ?_
  dsimp only
  rw [hn.kind]
  split
  · exact .pure (.plain rfl (by simpa using ⟨hp, hs⟩) hl)
  · exact .pure (.plain rfl (by simpa using ⟨hp, hs⟩) hl)

theorem forIndex (h : Coupled k D c c') {d d' : Legacy.Descriptor} (hn : k.nodes n n')
    (hd : d.Mirrored D d') :
    k.Steps (Tree.Mirrored k) (c.forIndex n d) (c'.forIndex n' d') := by
  have hinit := hd.preInit
  unfold Context.forIndex
  rw [hd.preCount]
  generalize d.preInit = init at hinit
  generalize d'.preInit = init' at hinit
  cases hinit with
  | none => exact .unexpected hn rfl
  | some hm =>
    have hb := h.mirroring _ _ hm
    dsimp only
    rw [hb.kind]
    split
    · exact .bind (TargetGroup.ofNode_mirrored h.mirroring .assignment hb) fun _ _ hg =>
        h.targetGroup hg
    · split
      · exact h.assignmentTarget hm
      · exact .unexpected hn rfl

theorem forLoop (h : Coupled k D c c') {m m' : Node} (hm : D m m') (hn : D n n')
    (hl : k.Spans l l') :
    k.Steps (Tree.Mirrored k) (c.forLoop m n l) (c'.forLoop m' n' l') := by
  have hb := h.mirroring n n' hn
  refine .bind (Legacy.Node.scopeParts_mirrored h.mirroring hb) ?_
  rintro ⟨table, args, body⟩ ⟨table', args', body'⟩ ⟨-, hargs, hbody⟩
  cases hargs with
  | none => exact .unexpected hb.self rfl
  | some hargs =>
    have hb := h.mirroring _ _ hargs
    refine hb.ofKind fun hkind => ?_
    have hb := hb.opened (by rw [List.mem_singleton.mp hkind]; rfl)
    refine .bind (hb.descriptor h.mirroring) fun d d' hd => ?_
    exact .bind (h.forIndex hb.self hd) fun _ _ hi => .bind (h.node hm) fun _ _ hcollection =>
      .bind (h.statements hbody) fun _ _ hs =>
      .pure (.plain rfl (by simpa using ⟨hi, hcollection, hs⟩) hl)

theorem jump (h : Coupled k D c c') (hn : n.Mirrored k.nodes (k.Inside D n) n')
    (ho : Option.Rel D o o') (hl : k.Spans l l') :
    k.Steps (Tree.Mirrored k) (c.jump n o l) (c'.jump n' o' l') := by
  refine .bind (h.jumpArguments? ho) fun arguments arguments' ha => ?_
  dsimp only
  rw [hn.kind]
  split
  · exact .pure (.jump (.inl rfl) ha hl)
  · exact .pure (.jump (.inr (.inl rfl)) ha hl)
  · exact .pure (.jump (.inr (.inr rfl)) ha hl)

/-- What stands in place of an operand is converted if the operand can be read; where that fails,
the operand is not converted either. -/
theorem flipFlopOperand_or (lines : LineTable) {options : Options} {m : Node}
    (hoptions : c.options = options)
    (hwhole : c.node (options.operand m) =
      (options.operand m).convert lines options c.scope none) :
    c.flipFlopOperand m = c.node (options.operand m) ∨
      (∃ e, c.flipFlopOperand m = .error e) ∧ ∃ e, c.node (options.operand m) = .error e := by
  rw [Context.flipFlopOperand_eq, hoptions]
  cases hread : options.bound? m with
  | ok found =>
    rw [Options.operand_of_bound? hread]
    exact .inl rfl
  | error e =>
    refine .inr ⟨⟨e, rfl⟩, ?_⟩
    rw [hwhole, Options.operand_of_error hread]
    unfold Options.bound? at hread
    split at hread
    · exact Legacy.Node.convert_of_lineNumberBound?_error hread none
    · cases hread

theorem flipFlopOperand (h : Coupled k D c c') {m m' : Node}
    (hm : Operands k.accord k.options k.options' k.nodes D m m') :
    k.Steps (fun t t' => k.Loose ∨ t.Mirrored k t') (c.flipFlopOperand m)
      (c'.flipFlopOperand m') := by
  cases hm with
  | alike read operand =>
    rw [Context.flipFlopOperand_eq, Context.flipFlopOperand_eq, h.options, h.options']
    refine .bind read.values fun found found' hfound => ?_
    rw [Options.operand_of_bound? hfound.2.1, Options.operand_of_bound? hfound.2.2] at operand
    exact (h.node operand).mono fun _ _ => .inr
  | together accord operand =>
    have hnode := (h.node operand).mono fun t t' => (Or.inr : _ → k.Loose ∨ t.Mirrored k t')
    have hwhole := h.whole c.scope _ _ operand
    unfold Coupling.Steps at hnode ⊢
    rw [accord] at hnode ⊢
    refine hnode.ofTogether (flipFlopOperand_or k.lines h.options hwhole.1) ?_
    refine flipFlopOperand_or k.lines' h.options' ?_
    rw [Context.node, h.scope]
    exact hwhole.2
  | onward accord left right operand read =>
    have hloose : k.Loose := ⟨accord, by simp [left, right]⟩
    have hnode := h.node operand
    have hwhole := h.whole c.scope _ _ operand
    rw [Context.flipFlopOperand_eq, Context.flipFlopOperand_eq, h.options, h.options',
      Options.bound?, Options.bound?, left, right]
    unfold Coupling.Steps at hnode ⊢
    rw [accord] at hnode ⊢
    change Mirrored _ _ _ (c.node m) _
    cases ht : c.node m with
    | error e => exact .excused
    | ok t =>
      rw [ht] at hnode
      have hconvert : m.convert k.lines k.options c.scope none = .ok t := hwhole.1 ▸ ht
      -- The left side has converted all of the operand, so the integer inside it converts as well.
      generalize hm : Context.lineNumberBound? m = x at read
      generalize hm' : Context.lineNumberBound? m' = y at read
      cases read with
      | error _ =>
        obtain ⟨f, hf⟩ := Legacy.Node.convert_of_lineNumberBound?_error hm none
        rw [hf] at hconvert
        cases hconvert
      | ok hfound =>
        cases hfound with
        | none => exact hnode.mono fun _ _ _ => .inl hloose
        | @some integer integer' hinteger =>
          obtain ⟨u, hu⟩ := Legacy.Node.convert_of_lineNumberBound? hm hconvert
          have hbound := h.node hinteger
          unfold Coupling.Steps at hbound
          rw [accord, Context.node, (h.whole c.scope _ _ hinteger).1, hu] at hbound
          obtain ⟨u', hu', _⟩ := hbound.right_of_ok
          change Mirrored _ _ _ (.ok t) (c'.node integer')
          rw [hu']
          exact .ok (.inl hloose)

theorem flipFlopOperand? (h : Coupled k D c c')
    (ho : Option.Rel (Operands k.accord k.options k.options' k.nodes D) o o') :
    k.Steps (Option.Rel fun t t' => k.Loose ∨ t.Mirrored k t') (c.flipFlopOperand? o)
      (c'.flipFlopOperand? o') := by
  cases ho with
  | none => exact .pure .none
  | some hn => exact .bind (h.flipFlopOperand hn) fun _ _ ht => .pure (.some ht)

theorem flipFlop {flags : Flags} {a a' b b' : Option Tree}
    (ha : Option.Rel (fun t t' => k.Loose ∨ t.Mirrored k t') a a')
    (hb : Option.Rel (fun t t' => k.Loose ∨ t.Mirrored k t') b b') (hl : k.Spans l l') :
    (Tree.flipFlop flags a b l).Mirrored k (Tree.flipFlop flags a' b' l') := by
  by_cases hloose : k.Loose
  · exact .flipFlop hloose
  · simp only [hloose, false_or] at ha hb
    exact .plain rfl (by simpa using ⟨ha, hb⟩) hl

theorem pair (h : Coupled k D c c') {left left' right right' : Option Node}
    (hn : n.Mirrored k.nodes (k.Inside D n) n')
    (hkinds : n.kind ∈ (Legacy.Shape.pair left right).kinds)
    (hleft : Option.Rel (k.Inside D n) left left')
    (hright : Option.Rel (k.Inside D n) right right') (hl : k.Spans l l') :
    k.Steps (Tree.Mirrored k) (c.pair n left right l) (c'.pair n' left' right' l') := by
  have hplain : n.kind.isFlipFlop = false →
      Option.Rel D left left' ∧ Option.Rel D right right' := by
    intro hkind
    rw [Coupling.Inside, Legacy.Node.inside_of_not_isFlipFlop hkind] at hleft hright
    exact ⟨hleft, hright⟩
  have hoperands {form : Tree → Tree → Span → Tree}
      (hform : ∀ a b a' b', a.Mirrored k a' → b.Mirrored k b' →
        (form a b l).Mirrored k (form a' b' l')) (hkind : n.kind.isFlipFlop = false) :
      k.Steps (Tree.Mirrored k)
        (c.required n .leftOperand left >>= fun a => c.required n .rightOperand right >>= fun b =>
          pure (form a b l))
        (c'.required n' .leftOperand left' >>= fun a => c'.required n' .rightOperand right' >>=
          fun b => pure (form a b l')) := by
    obtain ⟨hleft, hright⟩ := hplain hkind
    exact .bind (h.required hleft hn.self rfl) fun _ _ ha =>
      .bind (h.required hright hn.self rfl) fun _ _ hb => .pure (hform _ _ _ _ ha hb)
  have hrange {flags : Flags} (hkind : n.kind.isFlipFlop = false) : k.Steps (Tree.Mirrored k)
      (c.node? left >>= fun a => c.node? right >>= fun b => pure (Tree.range flags a b l))
      (c'.node? left' >>= fun a => c'.node? right' >>= fun b =>
        pure (Tree.range flags a b l')) := by
    obtain ⟨hleft, hright⟩ := hplain hkind
    exact .bind (h.node? hleft) fun _ _ ha => .bind (h.node? hright) fun _ _ hb =>
      .pure (.plain rfl (by simpa using ⟨ha, hb⟩) hl)
  have hflip {flags : Flags} (hkind : n.kind.isFlipFlop = true) : k.Steps (Tree.Mirrored k)
      (c.flipFlopOperand? left >>= fun a => c.flipFlopOperand? right >>= fun b =>
        pure (Tree.flipFlop flags a b l))
      (c'.flipFlopOperand? left' >>= fun a => c'.flipFlopOperand? right' >>= fun b =>
        pure (Tree.flipFlop flags a b l')) := by
    rw [Coupling.Inside, Legacy.Node.inside_of_isFlipFlop hkind] at hleft hright
    exact .bind (h.flipFlopOperand? hleft) fun _ _ ha =>
      .bind (h.flipFlopOperand? hright) fun _ _ hb => .pure (flipFlop ha hb hl)
  unfold Context.pair
  rw [hn.kind]
  split
  case h_9 hand hor hdot hdots hflip hflips hcat hpush =>
    refine .unexpectedFragment hn.self ?_
    simp only [Legacy.Shape.kinds, List.mem_cons, List.not_mem_nil, or_false] at hkinds
    obtain hk | hk | hk | hk | hk | hk | hk | hk | hk := hkinds
    case inr.inr.inr.inr.inr.inr.inr.inr => rw [hk]; rfl
    all_goals contradiction
  case h_1 hkind | h_2 hkind =>
    refine hoperands (fun _ _ _ _ ha hb => ?_) (by rw [hkind]; rfl)
    exact .plain rfl (by simpa using ⟨ha, hb⟩) hl
  case h_3 hkind | h_4 hkind => exact hrange (by rw [hkind]; rfl)
  case h_5 hkind | h_6 hkind => exact hflip (by rw [hkind]; rfl)
  case h_7 | h_8 => exact h.array hn hl

end Context.Coupled

/-! Exceptions. -/

structure BeginParts.Mirrored (k : Coupling) (p p' : BeginParts) : Prop where
  statements : Option.Rel (Tree.Mirrored k) p.statements p'.statements
  rescueClause : Option.Rel (Tree.Mirrored k) p.rescueClause p'.rescueClause
  elseClause : Option.Rel (Tree.Mirrored k) p.elseClause p'.elseClause
  ensureClause : Option.Rel (Tree.Mirrored k) p.ensureClause p'.ensureClause

namespace BeginParts.Mirrored

variable {k : Coupling}

theorem ofStatements {s s' : Option Tree} (h : Option.Rel (Tree.Mirrored k) s s') :
    Mirrored k { statements := s } { statements := s' } := ⟨h, .none, .none, .none⟩

theorem tree {p p' : BeginParts} {l l' : Span} (h : p.Mirrored k p') (hl : k.Spans l l') :
    (p.tree l).Mirrored k (p'.tree l') :=
  .plain rfl (by simpa using ⟨h.statements, h.rescueClause, h.elseClause, h.ensureClause⟩) hl

end BeginParts.Mirrored

namespace Context.Coupled

variable {k : Coupling} {D : Node → Node → Prop} {c c' : Context} {n n' : Node}
  {o o' : Option Node} {l l' : Span}

theorem bindsException (h : Coupled k D c c') (hn : D n n') :
    Context.bindsException n' = Context.bindsException n := by
  have hb := h.mirroring n n' hn
  unfold Context.bindsException
  rw [hb.kind]
  cases hkind : n.kind.isSimpleAssignment with
  | false => rfl
  | true =>
    have hflip : n.kind.isFlipFlop = false := by
      cases hk : n.kind <;> first | rfl | (rw [hk] at hkind; cases hkind)
    rcases (hb.opened hflip).child_cases 1 with ⟨m, m', hc, hc', hm⟩ | ⟨_, hc'⟩
    · rw [hc, hc']
      dsimp only
      rw [(h.mirroring m m' hm).kind]
    · rw [hc']

theorem rescueBody (h : Coupled k D c c') (ho : Option.Rel D o o') :
    k.Steps
      (fun p p' => Option.Rel (Tree.Mirrored k) p.1 p'.1 ∧ Option.Rel (Tree.Mirrored k) p.2 p'.2)
      (c.rescueBody o) (c'.rescueBody o') := by
  cases ho with
  | none => exact .pure ⟨.none, .none⟩
  | @some body body' hbody =>
    refine .bind (Legacy.Node.sequence_mirrored h.mirroring hbody) fun ns ns' hns => ?_
    cases hns with
    | nil => exact .bind (h.statements (.some hbody)) fun _ _ hs => .pure ⟨.none, hs⟩
    | @cons first first' rest rest' hfirst hrest =>
      have hempty : rest'.isEmpty = rest.isEmpty := by cases hrest <;> rfl
      dsimp only
      rw [h.bindsException hfirst]
      split
      · refine .bind (h.assignmentTarget hfirst) fun reference reference' hreference => ?_
        rw [hempty]
        split
        · exact .pure ⟨.some hreference, .none⟩
        · exact .bind (.mapM hrest fun _ _ hm => h.node hm) fun _ _ hs =>
            .bind (h.location (h.mirroring _ _ hbody).self) fun _ _ hl =>
            .pure ⟨.some hreference, .some (.plain rfl (by simpa using hs) hl)⟩
      · exact .bind (h.statements (.some hbody)) fun _ _ hs => .pure ⟨.none, hs⟩

theorem rescueClauseWithin (h : Coupled k D c c') (bound : Nat) (ho : Option.Rel D o o') :
    k.Steps (Option.Rel (Tree.Mirrored k)) (c.rescueClauseWithin bound o)
      (c'.rescueClauseWithin bound o') := by
  induction bound generalizing o o' with
  | zero =>
    cases ho with
    | none => exact .pure .none
    | some hn => exact .unexpected (h.mirroring _ _ hn).self rfl
  | succ bound ih =>
    cases ho with
    | none => exact .pure .none
    | some hn =>
      have hb := h.mirroring _ _ hn
      unfold Context.rescueClauseWithin
      refine hb.ofKind fun _ => .bind (hb.shape h.mirroring) fun shape shape' hshape => ?_
      cases hshape with
      | rescueClause hexceptions hbody hnext =>
        refine .bind (h.elements? hexceptions) fun exceptions exceptions' he => ?_
        refine .bind (h.rescueBody hbody) fun parts parts' hparts => ?_
        refine .bind (ih hnext) fun consequent consequent' hc => ?_
        refine .bind (h.location hb.self) fun l l' hl => .pure (.some ?_)
        exact .plain rfl (by simpa using ⟨he, hparts.1, hparts.2, hc⟩) hl
      | _ => exact .unexpected hb.self rfl

theorem rescueClause? (h : Coupled k D c c') (ho : Option.Rel D o o') :
    k.Steps (Option.Rel (Tree.Mirrored k)) (c.rescueClause? o) (c'.rescueClause? o') := by
  cases ho with
  | none => exact .pure .none
  | some hn =>
    simp only [Context.rescueClause?]
    rw [Context.rescueClauseWithin_eq (Legacy.Node.optional_some (Legacy.Node.within_max_left _ _)),
      Context.rescueClauseWithin_eq (Legacy.Node.optional_some (Legacy.Node.within_max_right _ _))]
    exact h.rescueClauseWithin _ (.some hn)

theorem rescueParts (h : Coupled k D c c') (hn : n.Mirrored k.nodes (k.Inside D n) n') :
    k.Steps (BeginParts.Mirrored k) (c.rescueParts n) (c'.rescueParts n') := by
  refine .bind (hn.shape h.mirroring) fun shape shape' hshape => ?_
  cases hshape with
  | rescue hbody hclause hother =>
    exact .bind (h.statements hbody) fun _ _ hs => .bind (h.rescueClause? hclause) fun _ _ hr =>
      .bind (h.elseClause? hother) fun _ _ he => .pure ⟨hs, hr, he, .none⟩
  | _ => exact .unexpected hn.self rfl

theorem ensuredParts (h : Coupled k D c c') (ho : Option.Rel D o o') :
    k.Steps (BeginParts.Mirrored k) (c.ensuredParts o) (c'.ensuredParts o') := by
  cases ho with
  | none => exact .pure (.ofStatements .none)
  | some hn =>
    have hb := h.mirroring _ _ hn
    simp only [Context.ensuredParts, hb.kind]
    split
    · exact h.rescueParts hb
    · exact .bind (h.statements (.some hn)) fun _ _ hs => .pure (.ofStatements hs)

theorem ensureClause (h : Coupled k D c c') (ho : Option.Rel D o o') :
    k.Steps (Tree.Mirrored k) (c.ensureClause o) (c'.ensureClause o') := by
  have hnodes : Option.Rel k.nodes o o' := by
    cases ho with
    | none => exact .none
    | some hn => exact .some (h.mirroring _ _ hn).self
  exact .bind (h.spanOf? hnodes) fun _ _ hl => .bind (h.statements ho) fun _ _ hs =>
    .pure (.plain rfl (by simpa using hs) hl)

theorem beginParts (h : Coupled k D c c') (hn : n.Mirrored k.nodes (k.Inside D n) n') :
    k.Steps (BeginParts.Mirrored k) (c.beginParts n) (c'.beginParts n') := by
  refine .bind (hn.shape h.mirroring) fun shape shape' hshape => ?_
  cases hshape with
  | ensure hbody hensured =>
    exact .bind (h.ensuredParts hbody) fun _ _ hp => .bind (h.ensureClause hensured) fun _ _ he =>
      .pure ⟨hp.statements, hp.rescueClause, hp.elseClause, .some he⟩
  | rescue _ _ _ => exact h.rescueParts hn
  | _ => exact .unexpected hn.self rfl

theorem handlesExceptions (hn : n.Mirrored k.nodes (k.Inside D n) n') :
    Context.handlesExceptions n' = Context.handlesExceptions n := by
  unfold Context.handlesExceptions
  rw [hn.kind]

theorem beginBody (h : Coupled k D c c') (ho : Option.Rel D o o') :
    k.Steps (BeginParts.Mirrored k) (c.beginBody o) (c'.beginBody o') := by
  cases ho with
  | none => exact .pure (.ofStatements .none)
  | some hn =>
    have hb := h.mirroring _ _ hn
    simp only [Context.beginBody, handlesExceptions hb]
    split
    · exact h.beginParts hb
    · exact .bind (h.statements (.some hn)) fun _ _ hs => .pure (.ofStatements hs)

theorem scopeBody (h : Coupled k D c c') (ho : Option.Rel D o o') :
    k.Steps (Option.Rel (Tree.Mirrored k)) (c.scopeBody o) (c'.scopeBody o') := by
  cases ho with
  | none => exact .pure .none
  | some hn =>
    have hb := h.mirroring _ _ hn
    simp only [Context.scopeBody, handlesExceptions hb]
    split
    · exact .bind (h.beginParts hb) fun _ _ hp => .bind (h.location hb.self) fun _ _ hl =>
        .pure (.some (hp.tree hl))
    · exact h.statements (.some hn)

/-! Literals. -/

theorem numeric? (value : Literal) (hl : k.Spans l l') :
    (Context.numeric? l value = none ∧ Context.numeric? l' value = none) ∨
      ∃ t t', Context.numeric? l value = some t ∧ Context.numeric? l' value = some t' ∧
        t.Mirrored k t' := by
  cases value with
  | int => exact .inr ⟨_, _, rfl, rfl, .plain rfl (by simp) hl⟩
  | float => exact .inr ⟨_, _, rfl, rfl, .plain rfl (by simp) hl⟩
  | rational => exact .inr ⟨_, _, rfl, rfl, .plain rfl (by simp) hl⟩
  | _ => exact .inl ⟨rfl, rfl⟩

theorem text?_string (flags : Flags) (text : String) :
    (Tree.string flags text l).text? = some text := by
  simp [Tree.text?, Tree.string, Fields.get?, Value.text?]

theorem literal (h : Coupled k D c c') {value : Literal} (hn : n.Mirrored k.nodes (k.Inside D n) n')
    (hread : n.literal 0 = .ok value) (hlocated : k.Located n n' l l') :
    k.Steps (Tree.Mirrored k) (c.literal n value l) (c'.literal n' value l') := by
  have hl := hlocated.spans
  have hvalue := numeric? value hl
  unfold Context.literal
  rw [hn.kind]
  split
  case h_1 | h_2 | h_3 =>
    rcases hvalue with ⟨hv, hv'⟩ | ⟨t, t', hv, hv', ht⟩
    · rw [hv, hv']
      exact .unexpected hn.self rfl
    · rw [hv, hv']
      exact .pure ht
  case h_4 part _ =>
    rcases numeric? part hl with ⟨hv, hv'⟩ | ⟨t, t', hv, hv', ht⟩
    · rw [hv, hv']
      exact .unexpected hn.self rfl
    · rw [hv, hv']
      exact .pure (.plain rfl (by simpa using ht) hl)
  case h_5 text hkind =>
    refine .pure (.string hl (.inl ⟨n, n', text, hlocated, hkind, hread, text?_string _ _, ?_, ?_⟩))
    · rw [Context.stringFlags, h.options]
      rfl
    · rw [Context.stringFlags, h.options']
      rfl
  · exact .pure (.unflagged rfl (by rintro ⟨⟩) (by simp) hl)
  · exact .pure (.plain rfl (by simp) hl)
  · exact .pure (.plain rfl (by simp) hl)
  · exact .pure (.unflagged rfl (by rintro ⟨⟩) (by simp) hl)
  · exact .unexpected hn.self rfl

theorem fragment (h : Coupled k D c c') (hn : D n n') :
    k.Steps (Tree.Mirrored k) (c.fragment n) (c'.fragment n') := by
  have hb := h.mirroring n n' hn
  refine .bind (hb.shape h.mirroring) fun shape shape' hshape => ?_
  cases hshape with
  | wrapper hbody =>
    dsimp only
    rw [hb.kind]
    split
    · exact .bind (h.statements hbody) fun _ _ hs => .bind (h.location hb.self) fun _ _ hl =>
        .pure (.plain rfl (by simpa using hs) hl)
    · exact h.node hn
  | _ => exact h.node hn

theorem fragments (h : Coupled k D c c') (ho : Option.Rel D o o') :
    k.Steps (List.Forall₂ (Tree.Mirrored k)) (c.fragments o) (c'.fragments o') := by
  cases ho with
  | none => exact .pure .nil
  | some hn =>
    have hb := h.mirroring _ _ hn
    refine hb.ofKind fun hkind => ?_
    have hb := hb.opened (by rw [List.mem_singleton.mp hkind]; rfl)
    exact .bind hb.nodesFrom fun _ _ hs => .mapM hs fun _ _ hm => h.fragment hm

theorem fragmentOf? (h : Coupled k D c c') (ho : Option.Rel D o o') :
    k.Steps (List.Forall₂ (Tree.Mirrored k)) (c.fragmentOf? o) (c'.fragmentOf? o') := by
  cases ho with
  | none => exact .pure .nil
  | some hn => exact .bind (h.fragment hn) fun _ _ ht => .pure (.cons ht .nil)

theorem leadingPart {leading : Option String} {head tail : Option Node} {options : UInt32}
    (hn : k.nodes n n') (hshape : n.shape = .ok (.interpolation leading head tail options)) :
    List.Forall₂ (Tree.Mirrored k) (Context.leadingPart leading)
      (Context.leadingPart leading) := by
  cases leading with
  | none => exact .nil
  | some text =>
    rw [Context.leadingPart]
    split
    · exact .nil
    · refine .cons (.string k.spans_null (.inr ?_)) .nil
      exact ⟨n, n', text, head, tail, options, hn, hshape, text?_string _ _, rfl, rfl, rfl, rfl⟩

theorem interpolation (h : Coupled k D c c') {leading : Option String} {options : UInt32}
    {head head' tail tail' : Option Node} (hn : n.Mirrored k.nodes (k.Inside D n) n')
    (hshape : n.shape = .ok (.interpolation leading head tail options))
    (hhead : Option.Rel D head head') (htail : Option.Rel D tail tail') (hl : k.Spans l l') :
    k.Steps (Tree.Mirrored k) (c.interpolation n leading head tail options l)
      (c'.interpolation n' leading head' tail' options l') := by
  have hparts : k.Steps (List.Forall₂ (Tree.Mirrored k)) (c.interpolationParts leading head tail)
      (c'.interpolationParts leading head' tail') :=
    .bind (h.fragmentOf? hhead) fun _ _ hfirst => .bind (h.fragments htail) fun _ _ hrest =>
      .pure (List.rel_append (List.rel_append (leadingPart hn.self hshape) hfirst) hrest)
  refine .bind hparts fun parts parts' hparts => ?_
  rw [hn.kind]
  split
  · exact .pure (.unflagged rfl (by rintro ⟨⟩) (by simpa using hparts) hl)
  · exact .pure (.plain rfl (by simpa using hparts) hl)
  · exact .pure (.plain rfl (by simpa using hparts) hl)
  · exact .pure (.plain rfl (by simpa using hparts) hl)

theorem once (h : Coupled k D c c') (hn : n.Mirrored k.nodes (k.Inside D n) n')
    (ho : Option.Rel D o o') (hl : k.Spans l l') :
    k.Steps (Tree.Mirrored k) (c.once n o l) (c'.once n' o' l') := by
  refine .bind (h.required ho hn.self rfl) fun t t' ht => ?_
  have honce := ht.once? hl
  generalize Tree.once? l t = u at honce
  generalize Tree.once? l' t' = u' at honce
  cases honce with
  | none => exact .unexpected hn.self rfl
  | some hu => exact .pure hu

end Context.Coupled

end RubyTree
