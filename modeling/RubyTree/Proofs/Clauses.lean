import RubyTree.Proofs.Expressions

/-! Conditionals, loops, exceptions and interpolations are converted to well-formed trees, given
that the nodes below them are. -/

namespace RubyTree

open Canonical
open Legacy (Node)
open Legacy.Node (Closed Optional)

namespace Context.Faithful

variable {run : Run} {D : Node → Prop} {c : Context} {n : Node} {o : Option Node} {location : Span}

/-! Conditionals, loops and jumps. -/

theorem consequent (h : Faithful run D c) (ho : Optional D o) :
    Yields (c.consequent o) (FormedOpt run ⟨c.frames, .alternative⟩) := by
  cases o with
  | none => exact .pure formedOpt_none
  | some n =>
    unfold Context.consequent
    dsimp only
    split
    · next hkind =>
      refine .bind (h.node (ho n rfl)) fun t ht => .pure (formedOpt_some.mpr ?_)
      exact ht.formed.ofKind (ht.conditional hkind) (fun _ => rfl) rfl
    · refine .bind (h.elseClause (ho n rfl)) fun t ht => .pure (formedOpt_some.mpr ?_)
      have hkind : t.kind = .elseNode := by simpa [Place.admits] using ht.admits
      exact ht.ofKind hkind (fun _ => rfl) rfl

theorem conditional (h : Faithful run D c) {condition : Node} {body otherwise : Option Node}
    (hc : D condition) (hb : Optional D body) (ho : Optional D otherwise) :
    Yields (c.conditional n condition body otherwise location)
      (Formed run ⟨c.frames, .expression⟩) := by
  refine .bind (h.expression hc) fun predicate hpredicate => ?_
  refine .bind (h.statements hb) fun statements hstatements => ?_
  split
  · refine .bind (h.consequent ho) fun consequent hconsequent => .pure ?_
    exact .plain rfl rfl rfl (by simpa using ⟨hpredicate, hstatements, hconsequent⟩)
  · refine .bind (h.elseClause? ho) fun consequent hconsequent => .pure ?_
    exact .plain rfl rfl rfl (by simpa using ⟨hpredicate, hstatements, hconsequent⟩)

theorem clausesWithin (hD : Closed D) (h : Faithful run D c) (bound : Nat) (ho : Optional D o) :
    Yields (c.clausesWithin bound o) fun parts =>
      FormedAll run ⟨c.frames, .whenClause⟩ parts.1 ∧
        FormedOpt run ⟨c.frames, .elseClause⟩ parts.2 := by
  induction bound generalizing o with
  | zero =>
    cases o with
    | none => exact .pure ⟨formedAll_nil, formedOpt_none⟩
    | some n => exact .throw
  | succ bound ih =>
    cases o with
    | none => exact .pure ⟨formedAll_nil, formedOpt_none⟩
    | some n =>
      unfold Context.clausesWithin
      split
      · refine .bind (Legacy.Node.Below.shape hD (hD n (ho n rfl))) fun shape hshape => ?_
        split
        · refine .bind (h.elements? hD hshape.1) fun conditions hconditions => ?_
          refine .bind (h.statements hshape.2.1) fun statements hstatements => ?_
          refine .after fun location _ => .bind (ih hshape.2.2) fun (clauses, otherwise) hrest => ?_
          refine .pure ⟨formedAll_cons.mpr ⟨?_, hrest.1⟩, hrest.2⟩
          exact .plain rfl rfl rfl (by simpa using ⟨hconditions, hstatements⟩)
        · exact .throw
      · refine .bind (h.statements ho) fun statements hstatements => .pure ⟨formedAll_nil, ?_⟩
        exact formedOpt_some.mpr (.plain rfl rfl rfl (by simpa using hstatements))

theorem clauses (hD : Closed D) (h : Faithful run D c) (ho : Optional D o) :
    Yields (c.clauses o) fun parts =>
      FormedAll run ⟨c.frames, .whenClause⟩ parts.1 ∧
        FormedOpt run ⟨c.frames, .elseClause⟩ parts.2 := by
  cases o with
  | none => exact .pure ⟨formedAll_nil, formedOpt_none⟩
  | some n => exact h.clausesWithin hD n.height ho

theorem caseWhen (hD : Closed D) (h : Faithful run D c) {subject clauses : Option Node}
    (hs : Optional D subject) (hc : Optional D clauses) :
    Yields (c.caseWhen subject clauses location) (Formed run ⟨c.frames, .expression⟩) := by
  refine .bind (h.clauses hD hc) fun (conditions, consequent) hparts => ?_
  refine .bind (h.node? hs) fun predicate hpredicate => .pure ?_
  exact .plain rfl rfl rfl (by simpa using ⟨hpredicate, hparts.1, hparts.2⟩)

theorem loop (h : Faithful run D c) {condition : Node} {post : Bool} (hc : D condition)
    (ho : Optional D o) :
    Yields (c.loop n condition o post location) (Formed run ⟨c.frames, .expression⟩) := by
  refine .bind (h.expression hc) fun predicate hpredicate => ?_
  refine .bind (h.statements ho) fun statements hstatements => ?_
  dsimp only
  split
  · exact .pure (.plain rfl rfl rfl (by simpa using ⟨hpredicate, hstatements⟩))
  · exact .pure (.plain rfl rfl rfl (by simpa using ⟨hpredicate, hstatements⟩))

theorem forIndex (hD : Closed D) (h : Faithful run D c) {descriptor : Legacy.Descriptor}
    (hd : descriptor.All D) :
    Yields (c.forIndex n descriptor) (Formed run ⟨c.frames, .target⟩) := by
  unfold Context.forIndex
  split
  · exact .throw
  · next init hinit =>
    have hi := hd.preInit init hinit
    split
    · refine .bind (TargetGroup.ofNode_all hD .assignment (hD init hi)) fun group hgroup => ?_
      exact h.targetGroup hD hgroup
    · split
      · exact (h.assignmentTarget hD hi).mono fun _ ht => ht.asTarget
      · exact .throw

theorem forLoop (hD : Closed D) (h : Faithful run D c) {collection scope : Node}
    (hc : D collection) (hs : D scope) :
    Yields (c.forLoop collection scope location) (Formed run ⟨c.frames, .expression⟩) := by
  refine .bind (Legacy.Node.scopeParts_all hD (hD scope hs)) fun (table, args, body) hparts => ?_
  cases args with
  | none => exact .throw
  | some args =>
    have ha := hD args (hparts.1 args rfl)
    refine .bind ha.expectKind fun args hargs => .bind hargs.2.descriptor fun descriptor hd => ?_
    refine .bind (h.forIndex hD hd) fun index hindex => ?_
    refine .bind (h.expression hc) fun collection hcollection => ?_
    refine .bind (h.statements hparts.2) fun statements hstatements => .pure ?_
    exact .plain rfl rfl rfl (by simpa using ⟨hindex, hcollection, hstatements⟩)

theorem jump (hD : Closed D) (h : Faithful run D c) (ho : Optional D o) :
    Yields (c.jump n o location) (Formed run ⟨c.frames, .expression⟩) := by
  refine .bind (h.jumpArguments? hD ho) fun arguments harguments => ?_
  dsimp only
  split
  · exact .pure (.plain rfl rfl rfl (by simpa using harguments))
  · exact .pure (.plain rfl rfl rfl (by simpa using harguments))
  · exact .pure (.plain rfl rfl rfl (by simpa using harguments))

theorem flipFlopOperand (hD : Closed D) (h : Faithful run D c) (hn : D n) :
    Yields (c.flipFlopOperand n) (Formed run ⟨c.frames, .expression⟩) := by
  unfold Context.flipFlopOperand
  split
  · refine .bind (lineNumberBound?_all hD (hD n hn)) fun found hfound => ?_
    cases found with
    | none => exact h.expression hn
    | some integer => exact h.expression (hfound integer rfl)
  · exact h.expression hn

theorem flipFlopOperand? (hD : Closed D) (h : Faithful run D c) (ho : Optional D o) :
    Yields (c.flipFlopOperand? o) (FormedOpt run ⟨c.frames, .expression⟩) := by
  cases o with
  | none => exact .pure formedOpt_none
  | some n =>
    exact .bind (h.flipFlopOperand hD (ho n rfl)) fun t ht => .pure (formedOpt_some.mpr ht)

theorem pair (hD : Closed D) (h : Faithful run D c) (hn : n.Below D) {left right : Option Node}
    (hl : Optional D left) (hr : Optional D right) :
    Yields (c.pair n left right location) (Formed run ⟨c.frames, .expression⟩) := by
  unfold Context.pair
  split
  · refine .bind (h.required hl n _) fun l hl => .bind (h.required hr n _) fun r hr => .pure ?_
    exact .plain rfl rfl rfl (by simpa using ⟨hl, hr⟩)
  · refine .bind (h.required hl n _) fun l hl => .bind (h.required hr n _) fun r hr => .pure ?_
    exact .plain rfl rfl rfl (by simpa using ⟨hl, hr⟩)
  all_goals first
    | refine .bind (h.node? hl) fun l hl => .bind (h.node? hr) fun r hr => .pure ?_
      exact .plain rfl rfl rfl (by simpa using ⟨hl, hr⟩)
    | refine .bind (h.flipFlopOperand? hD hl) fun l hl => ?_
      refine .bind (h.flipFlopOperand? hD hr) fun r hr => .pure ?_
      exact .plain rfl rfl rfl (by simpa using ⟨hl, hr⟩)
    | exact h.array hD hn
    | exact .throw

end Context.Faithful

/-! Exceptions. -/

structure BeginParts.Formed (run : Run) (frames : Frames) (parts : BeginParts) : Prop where
  statements : FormedOpt run ⟨frames, .statements⟩ parts.statements
  rescueClause : FormedOpt run ⟨frames, .rescueClause⟩ parts.rescueClause
  elseClause : FormedOpt run ⟨frames, .elseClause⟩ parts.elseClause
  ensureClause : FormedOpt run ⟨frames, .ensureClause⟩ parts.ensureClause

namespace BeginParts.Formed

variable {run : Run} {frames : Frames} {parts : BeginParts} {location : Span}

theorem ofStatements {statements : Option Tree}
    (h : FormedOpt run ⟨frames, .statements⟩ statements) :
    BeginParts.Formed run frames { statements } :=
  ⟨h, formedOpt_none, formedOpt_none, formedOpt_none⟩

theorem tree (h : parts.Formed run frames) :
    Canonical.Formed run ⟨frames, .expression⟩ (parts.tree location) :=
  .plain rfl rfl rfl
    (by simpa using ⟨h.statements, h.rescueClause, h.elseClause, h.ensureClause⟩)

end BeginParts.Formed

namespace Context.Faithful

variable {run : Run} {D : Node → Prop} {c : Context} {n : Node} {o : Option Node} {location : Span}

theorem rescueBody (hD : Closed D) (h : Faithful run D c) (ho : Optional D o) :
    Yields (c.rescueBody o) fun parts =>
      FormedOpt run ⟨c.frames, .variableTarget⟩ parts.1 ∧
        FormedOpt run ⟨c.frames, .statements⟩ parts.2 := by
  cases o with
  | none => exact .pure ⟨formedOpt_none, formedOpt_none⟩
  | some n =>
    have hwhole : Yields (c.statements (some n) >>= fun statements =>
          pure ((none : Option Tree), statements)) fun parts =>
        FormedOpt run ⟨c.frames, .variableTarget⟩ parts.1 ∧
          FormedOpt run ⟨c.frames, .statements⟩ parts.2 :=
      .bind (h.statements ho) fun statements hs => .pure ⟨formedOpt_none, hs⟩
    refine .bind (Legacy.Node.sequence_all hD (ho n rfl)) fun statements hs => ?_
    cases statements with
    | nil => exact hwhole
    | cons first rest =>
      dsimp only
      split
      · refine .bind (h.assignmentTarget hD (hs first List.mem_cons_self)) fun t ht => ?_
        split
        · exact .pure ⟨formedOpt_some.mpr ht, formedOpt_none⟩
        · have hrest : ∀ m ∈ rest, D m := fun m hm => hs m (List.mem_cons_of_mem first hm)
          refine .bind (h.nodes hrest) fun retained hretained => .after fun location _ => .pure ?_
          refine ⟨formedOpt_some.mpr ht, formedOpt_some.mpr ?_⟩
          exact .plain rfl rfl rfl (by simpa using hretained)
      · exact hwhole

theorem rescueClauseWithin (hD : Closed D) (h : Faithful run D c) (bound : Nat)
    (ho : Optional D o) :
    Yields (c.rescueClauseWithin bound o) (FormedOpt run ⟨c.frames, .rescueClause⟩) := by
  induction bound generalizing o with
  | zero =>
    cases o with
    | none => exact .pure formedOpt_none
    | some n => exact .throw
  | succ bound ih =>
    cases o with
    | none => exact .pure formedOpt_none
    | some n =>
      refine .bind (Legacy.Node.Below.expectKind (hD n (ho n rfl))) fun clause hclause => ?_
      refine .bind (hclause.2.shape hD) fun shape hshape => ?_
      split
      · refine .bind (h.elements? hD hshape.1) fun exceptions hexceptions => ?_
        refine .bind (h.rescueBody hD hshape.2.1) fun (reference, statements) hbody => ?_
        refine .bind (ih hshape.2.2) fun consequent hconsequent => .after fun location _ => ?_
        refine .pure (formedOpt_some.mpr (.plain rfl rfl rfl ?_))
        simpa using ⟨hexceptions, hbody.1, hbody.2, hconsequent⟩
      · exact .throw

theorem rescueClause? (hD : Closed D) (h : Faithful run D c) (ho : Optional D o) :
    Yields (c.rescueClause? o) (FormedOpt run ⟨c.frames, .rescueClause⟩) := by
  cases o with
  | none => exact .pure formedOpt_none
  | some n => exact h.rescueClauseWithin hD n.height ho

theorem rescueParts (hD : Closed D) (h : Faithful run D c) (hn : n.Below D) :
    Yields (c.rescueParts n) (BeginParts.Formed run c.frames) := by
  refine .bind (hn.shape hD) fun shape hshape => ?_
  split
  · refine .bind (h.statements hshape.1) fun statements hstatements => ?_
    refine .bind (h.rescueClause? hD hshape.2.1) fun rescueClause hrescue => ?_
    refine .bind (h.elseClause? hshape.2.2) fun elseClause helse => .pure ?_
    exact ⟨hstatements, hrescue, helse, formedOpt_none⟩
  · exact .throw

theorem ensuredParts (hD : Closed D) (h : Faithful run D c) (ho : Optional D o) :
    Yields (c.ensuredParts o) (BeginParts.Formed run c.frames) := by
  cases o with
  | none => exact .pure (.ofStatements formedOpt_none)
  | some n =>
    unfold Context.ensuredParts
    dsimp only
    split
    · exact h.rescueParts hD (hD n (ho n rfl))
    · exact .bind (h.statements ho) fun statements hs => .pure (.ofStatements hs)

theorem ensureClause (h : Faithful run D c) (ho : Optional D o) :
    Yields (c.ensureClause o) (Formed run ⟨c.frames, .ensureClause⟩) := by
  refine .after fun location _ => .bind (h.statements ho) fun statements hs => .pure ?_
  exact .plain rfl rfl rfl (by simpa using hs)

theorem beginParts (hD : Closed D) (h : Faithful run D c) (hn : n.Below D) :
    Yields (c.beginParts n) (BeginParts.Formed run c.frames) := by
  refine .bind (hn.shape hD) fun shape hshape => ?_
  split
  · refine .bind (h.ensuredParts hD hshape.1) fun parts hparts => ?_
    refine .bind (h.ensureClause hshape.2) fun clause hclause => .pure ?_
    exact ⟨hparts.statements, hparts.rescueClause, hparts.elseClause, formedOpt_some.mpr hclause⟩
  · exact h.rescueParts hD hn
  · exact .throw

theorem beginBody (hD : Closed D) (h : Faithful run D c) (ho : Optional D o) :
    Yields (c.beginBody o) (BeginParts.Formed run c.frames) := by
  cases o with
  | none => exact .pure (.ofStatements formedOpt_none)
  | some n =>
    unfold Context.beginBody
    dsimp only
    split
    · exact h.beginParts hD (hD n (ho n rfl))
    · exact .bind (h.statements ho) fun statements hs => .pure (.ofStatements hs)

theorem scopeBody (hD : Closed D) (h : Faithful run D c) (ho : Optional D o) :
    Yields (c.scopeBody o) (FormedOpt run ⟨c.frames, .body⟩) := by
  cases o with
  | none => exact .pure formedOpt_none
  | some n =>
    unfold Context.scopeBody
    dsimp only
    split
    · refine .bind (h.beginParts hD (hD n (ho n rfl))) fun parts hparts => ?_
      refine .after fun location _ => .pure (formedOpt_some.mpr ?_)
      exact hparts.tree.ofKind rfl (fun _ => rfl) rfl
    · refine (h.statements ho).mono ?_
      intro statements hs t ht
      have hkind : t.kind = .statementsNode := by simpa [Place.admits] using (hs t ht).admits
      exact (hs t ht).ofKind hkind (fun _ => rfl) rfl

/-! Literals and interpolations. -/

theorem numeric? {frames : Frames} {value : Literal} {t : Tree}
    (ht : Context.numeric? location value = some t) :
    Formed run ⟨frames, .expression⟩ t ∧ Place.number.admits t.kind = true := by
  unfold Context.numeric? at ht
  split at ht
  · cases ht
    exact ⟨.plain rfl rfl rfl (by simp), rfl⟩
  · cases ht
    exact ⟨.plain rfl rfl rfl (by simp), rfl⟩
  · cases ht
    exact ⟨.plain rfl rfl rfl (by simp), rfl⟩
  · cases ht

theorem literal {value : Literal} :
    Yields (c.literal n value location) (Formed run ⟨c.frames, .expression⟩) := by
  unfold Context.literal
  split
  case h_1 | h_2 | h_3 =>
    split
    · next t ht => exact .pure (numeric? ht).1
    · exact .throw
  case h_4 =>
    split
    · next t ht =>
      have hpart : Formed run ⟨c.frames, .expression⟩ t ∧ _ := numeric? ht
      exact .pure (.plain rfl rfl rfl (by simpa using hpart.1.ofExpression hpart.2))
    · exact .throw
  all_goals first
    | exact .pure (.plain rfl rfl rfl (by simp))
    | exact .throw

theorem fragment (hD : Closed D) (h : Faithful run D c) (hn : D n) :
    Yields (c.fragment n) (Formed run ⟨c.frames, .fragment⟩) := by
  have hpart : Yields (c.node n) (Formed run ⟨c.frames, .fragment⟩) :=
    (h.expression hn).mono fun _ ht => ht.asFragment
  refine .bind (Legacy.Node.Below.shape hD (hD n hn)) fun shape hshape => ?_
  split
  · split
    · refine .bind (h.statements hshape) fun statements hs => .after fun location _ => .pure ?_
      exact .plain rfl rfl rfl (by simpa using hs)
    · exact hpart
  · exact hpart

theorem fragments (hD : Closed D) (h : Faithful run D c) (ho : Optional D o) :
    Yields (c.fragments o) (FormedAll run ⟨c.frames, .fragment⟩) := by
  cases o with
  | none => exact .pure formedAll_nil
  | some n =>
    refine .bind (Legacy.Node.Below.expectKind (hD n (ho n rfl))) fun list hlist => ?_
    refine .bind hlist.2.nodesFrom fun nodes hnodes => ?_
    exact .mapM fun m hm => h.fragment hD (hnodes m hm)

theorem fragmentOf? (hD : Closed D) (h : Faithful run D c) (ho : Optional D o) :
    Yields (c.fragmentOf? o) (FormedAll run ⟨c.frames, .fragment⟩) := by
  cases o with
  | none => exact .pure formedAll_nil
  | some n =>
    refine .bind (h.fragment hD (ho n rfl)) fun t ht => .pure ?_
    exact formedAll_cons.mpr ⟨ht, formedAll_nil⟩

theorem leadingPart {frames : Frames} (leading : Option String) :
    FormedAll run ⟨frames, .fragment⟩ (Context.leadingPart leading) := by
  unfold Context.leadingPart
  split
  · exact formedAll_nil
  · split
    · exact formedAll_nil
    · exact formedAll_cons.mpr ⟨.plain rfl rfl rfl (by simp), formedAll_nil⟩

theorem interpolation (hD : Closed D) (h : Faithful run D c) {leading : Option String}
    {head tail : Option Node} {options : UInt32} (hh : Optional D head) (ht : Optional D tail) :
    Yields (c.interpolation n leading head tail options location)
      (Formed run ⟨c.frames, .expression⟩) := by
  have hparts : Yields (c.interpolationParts leading head tail)
      (FormedAll run ⟨c.frames, .fragment⟩) := by
    refine .bind (h.fragmentOf? hD hh) fun first hfirst => ?_
    refine .bind (h.fragments hD ht) fun rest hrest => .pure ?_
    exact formedAll_append.mpr ⟨formedAll_append.mpr ⟨leadingPart leading, hfirst⟩, hrest⟩
  refine .bind hparts fun parts hparts => ?_
  split
  · exact .pure (.plain rfl rfl rfl (by simpa using hparts))
  · exact .pure (.plain rfl rfl rfl (by simpa using hparts))
  · exact .pure (.plain rfl rfl rfl (by simpa using hparts))
  · exact .pure (.plain rfl rfl rfl (by simpa using hparts))

theorem once (h : Faithful run D c) (ho : Optional D o) :
    Yields (c.once n o location) (Formed run ⟨c.frames, .expression⟩) := by
  refine .bind (h.required ho n _) fun inner hinner => ?_
  split
  · next t ht => exact .pure (hinner.once? ht)
  · exact .throw

end Context.Faithful

end RubyTree
