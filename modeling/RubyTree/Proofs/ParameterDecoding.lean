import RubyTree.Proofs.Descent
import RubyTree.Proofs.ParameterLayout

/-! What is written for a signature is read back as the signature. The cursor is followed through
the table group by group; where it stands is the number of slots that the groups before it take. -/

namespace RubyTree

open Legacy (Node Child Table)
open Layout

/-! Destructurings. -/

section

variable {n : Node} {name : Name}

theorem Layout.Local.name_zero (h : Local name n) : n.name 0 = .ok name := by
  obtain ⟨kind, position, rfl | rfl, rfl⟩ := h
  · rfl
  · rfl

theorem Layout.Local.simple (h : Local name n) : TargetGroup.simple .parameter n = .ok n := by
  obtain ⟨kind, position, rfl | rfl, rfl⟩ := h
  · rfl
  · rfl

theorem Layout.Local.kind_ne (h : Local name n) : n.kind ≠ .MASGN ∧ n.kind ≠ .POSTARG := by
  obtain ⟨kind, position, rfl | rfl, rfl⟩ := h
  · exact ⟨nofun, nofun⟩
  · exact ⟨nofun, nofun⟩

theorem children_list (nodes : List Node) (position : Position) :
    (Legacy.Build.list nodes position).children = nodes.map Child.node :=
  Legacy.Node.dropTerminator_concat_nil _

theorem listElements_list (nodes : List Node) (position : Position) :
    TargetGroup.listElements (Legacy.Build.list nodes position) = .ok nodes := by
  change (Legacy.Build.list nodes position).nodesFrom 0 = .ok nodes
  rw [Legacy.Node.nodesFrom, List.drop_zero, children_list]
  exact Legacy.Node.nodesAt_eq_ok_iff.mpr rfl

theorem multiAssign_shape {rest : PatternRest} {splat : Child} (h : rest.Written splat)
    (head posts : Option Node) (p q : Position) :
    ∃ slot, (Legacy.Build.multiAssign none head (tailSlot splat posts p) q).shape =
        .ok (.multiAssign none head slot posts) ∧
      Returns (TargetGroup.restOf .parameter slot) rest.Spelled := by
  cases rest with
  | absent =>
    subst h
    refine ⟨.absent, ?_, .pure trivial⟩
    cases head <;> cases posts <;> rfl
  | anonymous =>
    subst h
    refine ⟨.anonymous, ?_, .pure trivial⟩
    cases head <;> cases posts <;> rfl
  | named name =>
    obtain ⟨n, hn, rfl⟩ := h
    refine ⟨.target n, ?_, ?_⟩
    · obtain ⟨kind, position, rfl | rfl, rfl⟩ := hn
      · cases head <;> cases posts <;> rfl
      · cases head <;> cases posts <;> rfl
    · rw [TargetGroup.restOf, hn.simple]
      exact .pure hn.name_zero

theorem targetsOf_returns {inner : Node → Result TargetGroup} {patterns : List Pattern}
    {nodes : List Node} (h : Returns (nodes.mapM (TargetGroup.targetOf inner .parameter))
      (Pattern.AllSpelled patterns)) (position : Position) :
    Returns (TargetGroup.targetsOf inner .parameter (listSlot nodes position))
      (Pattern.AllSpelled patterns) := by
  cases nodes with
  | nil => exact h
  | cons m nodes =>
    change Returns (TargetGroup.listElements (Legacy.Build.list (m :: nodes) position) >>= _) _
    rw [listElements_list]
    exact h

theorem height_lt_list {m : Node} {nodes : List Node} (hm : m ∈ nodes) (position : Position) :
    m.height < (Legacy.Build.list nodes position).height := by
  apply Legacy.Node.height_lt_of_mem_children
  rw [children_list]
  exact List.mem_map_of_mem hm

theorem listSlot_of_mem {m : Node} {nodes : List Node} (hm : m ∈ nodes) (position : Position) :
    listSlot nodes position = some (Legacy.Build.list nodes position) := by
  cases nodes with
  | nil => cases hm
  | cons first nodes => rfl

theorem height_lt_multiAssign_left {m : Node} {nodes : List Node} (hm : m ∈ nodes)
    (tail : Child) (p q : Position) :
    m.height < (Legacy.Build.multiAssign none (listSlot nodes p) tail q).height := by
  rw [listSlot_of_mem hm]
  have hlist := height_lt_list hm p
  have hslot := Legacy.Node.height_lt_of_mem_children
    (n := Legacy.Build.multiAssign none (some (Legacy.Build.list nodes p)) tail q)
    (m := Legacy.Build.list nodes p) (List.mem_cons_of_mem _ List.mem_cons_self)
  omega

theorem height_lt_multiAssign_right {m : Node} {nodes : List Node} (hm : m ∈ nodes)
    (head : Option Node) (splat : Child) (p q r : Position) :
    m.height <
      (Legacy.Build.multiAssign none head (tailSlot splat (listSlot nodes p) q) r).height := by
  rw [listSlot_of_mem hm]
  have hlist := height_lt_list hm p
  have hpost := Legacy.Node.height_lt_of_mem_children
    (n := Legacy.Build.postArg splat (Legacy.Build.list nodes p) q)
    (m := Legacy.Build.list nodes p) (List.mem_cons_of_mem _ List.mem_cons_self)
  have hslot := Legacy.Node.height_lt_of_mem_children
    (n := Legacy.Build.multiAssign none head
      (tailSlot splat (some (Legacy.Build.list nodes p)) q) r)
    (m := Legacy.Build.postArg splat (Legacy.Build.list nodes p) q)
    (List.mem_cons_of_mem _ (List.mem_cons_of_mem _ List.mem_cons_self))
  omega

mutual

theorem targetOf_returns (bound : Nat) : (pattern : Pattern) → {n : Node} → pattern.Written n →
    n.height ≤ bound →
      Returns (TargetGroup.targetOf (TargetGroup.ofNodeWithin bound .parameter) .parameter n)
        pattern.Spelled
  | .name value, n, h, _ => by
    rw [Pattern.Written] at h
    rw [TargetGroup.targetOf, if_neg h.kind_ne.1, h.simple]
    refine .pure ?_
    rw [Pattern.Spelled]
    exact h.name_zero
  | .group value, n, h, hb => by
    rw [Pattern.Written] at h
    have hkind : n.kind = .MASGN := by
      obtain ⟨lefts, rest, rights⟩ := value
      rw [PatternGroup.Written] at h
      obtain ⟨ls, rs, splat, p, q, r, s, _, _, _, rfl⟩ := h
      rfl
    rw [TargetGroup.targetOf, if_pos hkind]
    refine .bind (ofNodeWithin_returns bound value h hb) fun group hgroup => .pure ?_
    rw [Pattern.Spelled]
    exact hgroup

theorem mapM_targetOf_returns (bound : Nat) : (patterns : List Pattern) → {nodes : List Node} →
    Pattern.AllWritten patterns nodes → (∀ m ∈ nodes, m.height ≤ bound) →
      Returns
        (nodes.mapM
          (TargetGroup.targetOf (TargetGroup.ofNodeWithin bound .parameter) .parameter))
        (Pattern.AllSpelled patterns)
  | [], nodes, h, _ => by
    rw [Pattern.AllWritten] at h
    subst h
    rw [List.mapM_nil]
    refine .pure ?_
    rw [Pattern.AllSpelled]
  | pattern :: patterns, nodes, h, hb => by
    rw [Pattern.AllWritten] at h
    obtain ⟨n, ns, hn, hns, rfl⟩ := h
    rw [List.mapM_cons]
    refine .bind (targetOf_returns bound pattern hn (hb n (by simp))) fun target ht => ?_
    refine .bind (mapM_targetOf_returns bound patterns hns fun m hm => hb m (by simp [hm])) ?_
    intro targets hts
    refine .pure ?_
    rw [Pattern.AllSpelled]
    exact ⟨ht, hts⟩

theorem ofNodeWithin_returns (bound : Nat) : (group : PatternGroup) → {n : Node} →
    group.Written n → n.height ≤ bound →
      Returns (TargetGroup.ofNodeWithin bound .parameter n) group.Spelled
  | .mk lefts rest rights, n, h, hb => by
    rw [PatternGroup.Written] at h
    obtain ⟨ls, rs, splat, p, q, r, s, hls, hsplat, hrs, rfl⟩ := h
    cases bound with
    | zero =>
      have := Legacy.Node.height_pos
        (Legacy.Build.multiAssign none (listSlot ls p) (tailSlot splat (listSlot rs q) r) s)
      omega
    | succ bound =>
      obtain ⟨slot, hshape, hrest⟩ := multiAssign_shape hsplat (listSlot ls p) (listSlot rs q) r s
      have hlefts := mapM_targetOf_returns bound lefts hls fun m hm => by
        have := height_lt_multiAssign_left hm (tailSlot splat (listSlot rs q) r) p s
        omega
      have hrights := mapM_targetOf_returns bound rights hrs fun m hm => by
        have := height_lt_multiAssign_right hm (listSlot ls p) splat q r s
        omega
      refine .after rfl (.after hshape ?_)
      refine .bind (targetsOf_returns hlefts p) fun left hleft => ?_
      refine .bind hrest fun rest hrest => ?_
      refine .bind (targetsOf_returns hrights q) fun right hright => .pure ?_
      rw [PatternGroup.Spelled]
      exact ⟨hleft, hrest, hright⟩

end

theorem ofNode_returns {group : PatternGroup} (h : group.Written n) :
    Returns (TargetGroup.ofNode .parameter n) group.Spelled :=
  ofNodeWithin_returns n.height group h (Nat.le_refl _)

end

mutual

theorem bindingCount_eq : (group : PatternGroup) → {found : TargetGroup} → group.Spelled found →
    found.bindingCount = group.names.length
  | .mk lefts rest rights, .mk n ls r rs, h => by
    rw [PatternGroup.Spelled] at h
    have hrest : GroupRest.bindingCount r = rest.names.length := by
      obtain ⟨_, hrest, _⟩ := h
      unfold PatternRest.Spelled at hrest
      split at hrest
      · rfl
      · rfl
      · rfl
      · cases hrest
    rw [TargetGroup.bindingCount, PatternGroup.names, bindingCountList_eq lefts h.1, hrest,
      bindingCountList_eq rights h.2.2, List.length_append, List.length_append]

theorem bindingCountList_eq : (patterns : List Pattern) → {targets : List Target} →
    Pattern.AllSpelled patterns targets →
      TargetGroup.bindingCountList targets = (Pattern.namesOf patterns).length
  | [], targets, h => by
    rw [Pattern.AllSpelled] at h
    subst h
    rfl
  | _ :: _, [], h => by
    rw [Pattern.AllSpelled] at h
    cases h
  | pattern :: patterns, target :: targets, h => by
    rw [Pattern.AllSpelled] at h
    rw [TargetGroup.bindingCountList, Pattern.namesOf, bindingCountTarget_eq pattern h.1,
      bindingCountList_eq patterns h.2, List.length_append]

theorem bindingCountTarget_eq : (pattern : Pattern) → {target : Target} → pattern.Spelled target →
    TargetGroup.bindingCountTarget target = pattern.names.length
  | .name _, .simple _, _ => by
    rw [TargetGroup.bindingCountTarget, Pattern.names, List.length_singleton]
  | .name _, .group _, h => by
    rw [Pattern.Spelled] at h
    · cases h
    all_goals nofun
  | .group _, .simple _, h => by
    rw [Pattern.Spelled] at h
    · cases h
    all_goals nofun
  | .group value, .group _, h => by
    rw [Pattern.Spelled] at h
    rw [TargetGroup.bindingCountTarget, Pattern.names, bindingCount_eq value h]

end

namespace Parameters

theorem bindingCount_eq {patterns : List PatternGroup} {groups : List TargetGroup}
    (h : List.Forall₂ PatternGroup.Spelled patterns groups) :
    bindingCount groups = (patterns.flatMap PatternGroup.names).length := by
  induction h with
  | nil => rfl
  | cons hgroup _ ih =>
    rw [List.flatMap_cons, List.length_append, ← ih, ← RubyTree.bindingCount_eq _ hgroup]
    rfl

theorem mapM_ofNode_returns {patterns : List PatternGroup} {nodes : List Node}
    (h : List.Forall₂ PatternGroup.Written patterns nodes) :
    Returns (nodes.mapM (TargetGroup.ofNode .parameter))
      (List.Forall₂ PatternGroup.Spelled patterns) := by
  induction h with
  | nil => exact .pure .nil
  | cons hgroup _ ih =>
    rw [List.mapM_cons]
    refine .bind (ofNode_returns hgroup) fun group hg => .bind ih fun groups hgs => ?_
    exact .pure (.cons hg hgs)

theorem block_shape (nodes : List Node) (position : Position) :
    (Legacy.Build.block nodes position).shape = .ok (.block nodes) := by
  change ((Legacy.Build.block nodes position).nodesAt 0 (nodes.map Child.node) >>= fun nodes =>
    pure (Legacy.Shape.block nodes)) = _
  rw [Legacy.Node.nodesAt_eq_ok_iff.mpr rfl]
  rfl

theorem groups_returns {patterns : List PatternGroup} {init : Option Node}
    (h : PatternGroup.InitWritten patterns init) :
    Returns (groups init) (List.Forall₂ PatternGroup.Spelled patterns) := by
  match patterns, h with
  | [], h =>
    cases h
    exact .pure .nil
  | [pattern], ⟨n, hn, h⟩ =>
    subst h
    have hgroup := ofNode_returns hn
    obtain ⟨lefts, rest, rights⟩ := pattern
    rw [PatternGroup.Written] at hn
    obtain ⟨ls, rs, splat, p, q, r, s, _, hsplat, _, rfl⟩ := hn
    obtain ⟨slot, hshape, _⟩ := multiAssign_shape hsplat (listSlot ls p) (listSlot rs q) r s
    refine .after hshape (.bind hgroup fun group hgroup => ?_)
    exact .pure (.cons hgroup .nil)
  | first :: second :: patterns, ⟨nodes, position, hnodes, h⟩ =>
    subst h
    exact .after (block_shape nodes position) (mapM_ofNode_returns hnodes)

theorem fillSlots_spelled {patterns : List Pattern} {groups : List TargetGroup}
    (h : List.Forall₂ PatternGroup.Spelled (Pattern.groups patterns) groups) :
    List.Forall₂ Pattern.SpelledAs patterns (fillSlots (patterns.map Pattern.slot) groups) := by
  induction patterns generalizing groups with
  | nil =>
    cases h
    exact .nil
  | cons pattern patterns ih =>
    cases pattern with
    | name value => exact .cons rfl (ih h)
    | group value =>
      cases h with
      | cons hgroup hgroups => exact .cons hgroup (ih hgroups)

/-! Chains. -/

theorem paramLink_shape {kind : Legacy.Kind} (hkind : kind = .OPT_ARG ∨ kind = .KW_ARG)
    (body : Node) (next : Option Node) (position : Position) :
    (Legacy.Build.paramLink kind body next position).shape = .ok (.paramLink body next) := by
  obtain rfl | rfl := hkind
  · cases next <;> rfl
  · cases next <;> rfl

theorem chainWithin_returns {α : Type} {kind : Legacy.Kind} {Body : α → Node → Prop}
    (hkind : kind = .OPT_ARG ∨ kind = .KW_ARG) {items : List α} {link : Option Node} {bound : Nat}
    (h : Chain kind Body items link) (hb : ∀ n, link = some n → n.height ≤ bound) :
    Returns (chainWithin kind bound link) (List.Forall₂ Body items) := by
  induction items generalizing link bound with
  | nil =>
    cases h
    cases bound with
    | zero => exact .pure .nil
    | succ bound => exact .pure .nil
  | cons item items ih =>
    obtain ⟨body, next, position, rfl, hbody, hnext⟩ := h
    have hheight := hb _ rfl
    cases bound with
    | zero =>
      have := Legacy.Node.height_pos (Legacy.Build.paramLink kind body next position)
      omega
    | succ bound =>
      have hexpect : (Legacy.Build.paramLink kind body next position).expectKind [kind] =
          .ok (Legacy.Build.paramLink kind body next position) := by
        rw [Legacy.Node.expectKind, if_pos]
        · rfl
        · exact List.mem_singleton.mpr rfl
      have hrest : ∀ n, next = some n → n.height ≤ bound := by
        rintro n rfl
        have hchild : Child.node n ∈
            (Legacy.Build.paramLink kind body (some n) position).children := by
          obtain rfl | rfl := hkind
          · exact List.mem_cons_of_mem _ List.mem_cons_self
          · exact List.mem_cons_of_mem _ List.mem_cons_self
        have := Legacy.Node.height_lt_of_mem_children hchild
        omega
      refine .after hexpect (.after (paramLink_shape hkind body next position) ?_)
      exact .bind (ih hnext hrest) fun bodies hbodies => .pure (.cons hbody hbodies)

theorem chain_returns {α : Type} {kind : Legacy.Kind} {Body : α → Node → Prop}
    (hkind : kind = .OPT_ARG ∨ kind = .KW_ARG) {items : List α} {link : Option Node}
    (h : Chain kind Body items link) : Returns (chain kind link) (List.Forall₂ Body items) := by
  cases link with
  | none =>
    cases items with
    | nil => exact .pure .nil
    | cons item items =>
      obtain ⟨body, next, position, hlink, _⟩ := h
      cases hlink
  | some n =>
    refine chainWithin_returns hkind h fun m hm => ?_
    cases hm
    exact Nat.le_refl _

/-! The cursor. -/

section

variable {args : Node} {table : Table} {cursor : Nat}

theorem slots_eq {before mid : Table} {count : Nat} (ht : before ++ mid <+: table)
    (hc : cursor = before.length) (hn : count = mid.length) :
    slots args table cursor count = .ok mid := by
  obtain ⟨after, ht⟩ := ht
  have hfits : cursor + count ≤ table.length := by
    rw [← ht, hc, hn, List.length_append, List.length_append]
    omega
  have hmid : (table.drop cursor).take count = mid := by
    rw [← ht, hc, hn, List.append_assoc, List.drop_left, List.take_left]
  rw [slots, if_pos hfits, hmid]
  rfl

theorem skipSlot_eq (h : cursor + 1 ≤ table.length) :
    skipSlot args table cursor = .ok (cursor + 1) := by
  rw [skipSlot, slots, if_pos h]
  rfl

theorem optionalsAt_returns {items : List OptionalParameter} {links : List Node}
    (h : List.Forall₂ OptionalParameter.Written items links)
    (hc : cursor + items.length ≤ table.length) :
    Returns (optionalsAt args table cursor links) (· = (items, cursor + items.length)) := by
  induction h generalizing cursor with
  | nil => exact .pure rfl
  | @cons item link items links hlink _ ih =>
    rw [List.length_cons] at hc
    have hskip : skipSlot args table cursor = .ok (cursor + 1) := skipSlot_eq (by omega)
    obtain ⟨found, hfound, rfl⟩ := ih (show cursor + 1 + items.length ≤ table.length by omega)
    obtain ⟨kind, position, rfl | rfl, rfl⟩ := hlink
    · refine .after rfl (.after rfl (.after hskip (.after hfound (.pure ?_))))
      rw [List.length_cons, Nat.add_assoc, Nat.add_comm 1]
    · refine .after rfl (.after rfl (.after hskip (.after hfound (.pure ?_))))
      rw [List.length_cons, Nat.add_assoc, Nat.add_comm 1]

theorem keywordsAt_returns {items : List KeywordParameter} {links : List Node}
    (h : List.Forall₂ KeywordParameter.Written items links)
    (hc : cursor + items.length ≤ table.length) :
    Returns (keywordsAt args table cursor links) (· = (items, cursor + items.length)) := by
  induction h generalizing cursor with
  | nil => exact .pure rfl
  | @cons item link items links hlink _ ih =>
    rw [List.length_cons] at hc
    have hskip : skipSlot args table cursor = .ok (cursor + 1) := skipSlot_eq (by omega)
    obtain ⟨found, hfound, rfl⟩ := ih (show cursor + 1 + items.length ≤ table.length by omega)
    obtain ⟨name, value⟩ := item
    obtain ⟨kind, position, rfl | rfl, rfl⟩ := hlink
    all_goals
      cases value
      all_goals
        refine .after rfl (.after rfl (.after hskip (.after hfound (.pure ?_))))
        rw [List.length_cons, Nat.add_assoc, Nat.add_comm 1]

theorem properName_eq (name : ProperName) : properName name.name = some name.name := by
  rw [properName, if_neg]
  rintro (h | h | h)
  · exact name.proper.1 h
  · exact name.proper.2.1 h
  · exact name.proper.2.2 h

theorem restAt_returns (rest : RestForm)
    (hc : cursor + (Signature.nameSlots rest.name?).length ≤ table.length) :
    Returns (restAt args table cursor rest.slot)
      (· = (rest.parameter, cursor + (Signature.nameSlots rest.name?).length)) := by
  cases rest with
  | absent => exact .pure rfl
  | anonymous => exact .pure rfl
  | excessiveComma => exact .pure rfl
  | star => exact .after (skipSlot_eq hc) (.pure rfl)
  | named name =>
    refine .after (skipSlot_eq hc) (.pure ?_)
    rw [properName_eq]
    rfl

def KeywordRestOf : KeywordRestForm → Legacy.KeywordRest → Prop
  | .absent, .absent => True
  | .noKeywords, .noKeywords => True
  | .named name, .variableNode var => var.name? 0 = .ok (some name.name)
  | .doubleStar, .variableNode var => var.name? 0 = .ok (some ⟨"**"⟩)
  | .elided, .variableNode var => var.name? 0 = .ok none
  | _, _ => False

theorem keywordRestAt_returns {form : KeywordRestForm} {slot : Legacy.KeywordRest}
    (h : KeywordRestOf form slot)
    (hc : cursor + (Signature.nameSlots form.name?).length ≤ table.length) :
    Returns (keywordRestAt args table cursor slot)
      (· = (form.parameter, cursor + (Signature.nameSlots form.name?).length)) := by
  unfold KeywordRestOf at h
  split at h
  · exact .pure rfl
  · exact .pure rfl
  · refine .after h (.after (skipSlot_eq hc) (.pure ?_))
    rw [properName_eq]
    rfl
  · exact .after h (.after (skipSlot_eq hc) (.pure rfl))
  · exact .after h (.pure rfl)
  · cases h

theorem blockAt_returns (form : BlockForm)
    (hc : cursor + (Signature.nameSlots form.name?).length ≤ table.length) :
    Returns (blockAt args table cursor form.name?)
      (· = (form.parameter, cursor + (Signature.nameSlots form.name?).length)) := by
  cases form with
  | absent => exact .pure rfl
  | ampersand => exact .after (skipSlot_eq hc) (.pure rfl)
  | named name =>
    refine .after (skipSlot_eq hc) (.pure ?_)
    rw [properName_eq]
    rfl

theorem skipKeywordSlot_eq {s : Signature} {before : Table}
    (ht : before ++ s.hiddenSlots <+: table) (hc : cursor = before.length) :
    skipKeywordSlot table cursor (!s.keywords.isEmpty) = cursor + s.hiddenSlots.length := by
  obtain ⟨after, ht⟩ := ht
  unfold Signature.hiddenSlots at ht ⊢
  cases hk : s.keywords.isEmpty with
  | true =>
    unfold skipKeywordSlot
    split
    · rfl
    · rfl
  | false =>
    have hslot : table[cursor]? = some none := by
      rw [← ht, hc, hk]
      simp
    rw [skipKeywordSlot, hslot]
    rfl

end

/-! The descriptor. -/

section

variable {slots : Legacy.Build.ArgsSlots} {position : Position}

theorem args_restParameter {rest : RestForm} (h : slots.rest = rest.child) (position : Position) :
    (Legacy.Build.args slots position).restParameter = .ok rest.slot := by
  obtain ⟨_, _, _, _, _, _, _, _, _, _⟩ := slots
  cases h
  cases rest <;> rfl

theorem args_keywordRest {form : KeywordRestForm} (h : form.Written slots.keywordRest)
    (position : Position) :
    ∃ slot, (Legacy.Build.args slots position).keywordRest = .ok slot ∧
      KeywordRestOf form slot := by
  obtain ⟨_, _, _, _, _, _, _, _, keywordRest, _⟩ := slots
  cases form with
  | absent =>
    cases h
    exact ⟨.absent, rfl, trivial⟩
  | noKeywords =>
    cases h
    exact ⟨.noKeywords, rfl, trivial⟩
  | named name =>
    obtain ⟨kind, position, rfl | rfl, rfl⟩ := h
    · exact ⟨_, rfl, rfl⟩
    · exact ⟨_, rfl, rfl⟩
  | doubleStar =>
    obtain ⟨kind, position, rfl | rfl, rfl⟩ := h
    · exact ⟨_, rfl, rfl⟩
    · exact ⟨_, rfl, rfl⟩
  | elided =>
    obtain ⟨kind, position, rfl | rfl, rfl⟩ := h
    · exact ⟨_, rfl, rfl⟩
    · exact ⟨_, rfl, rfl⟩

theorem name?_nameSlot {n : Node} {index : Nat} {o : Option Name}
    (h : n.child index = Legacy.Build.nameSlot o) : n.name? index = .ok o := by
  rw [Legacy.Node.name?, h]
  cases o <;> rfl

theorem args_descriptor {rest : Legacy.RestParameter} {keywordRest : Legacy.KeywordRest}
    (hrest : (Legacy.Build.args slots position).restParameter = .ok rest)
    (hkeywordRest : (Legacy.Build.args slots position).keywordRest = .ok keywordRest) :
    (Legacy.Build.args slots position).descriptor = .ok {
      preCount := slots.preCount, preInit := slots.preInit, optionals := slots.optionals
      firstPost := slots.firstPost, postCount := slots.postCount, postInit := slots.postInit
      rest, keywords := slots.keywords, keywordRest, block := slots.block } := by
  have hnode {index : Nat} {o : Option Node}
      (h : (Legacy.Build.args slots position).child index = Child.ofNode? o) :=
    Legacy.Node.node?_eq_ok_iff.mpr h
  unfold Legacy.Node.descriptor
  rw [hrest, hkeywordRest, hnode (o := slots.preInit) rfl, hnode (o := slots.optionals) rfl,
    name?_nameSlot (o := slots.firstPost) rfl, hnode (o := slots.postInit) rfl,
    hnode (o := slots.keywords) rfl,
    name?_nameSlot (o := slots.block) rfl]
  rfl

end

end Parameters

namespace Signature

variable {s : Signature}

/-- A descriptor says what the signature says. -/
structure Described (s : Signature) (d : Legacy.Descriptor) : Prop where
  preCount : d.preCount = s.requireds.length
  preInit : PatternGroup.InitWritten (Pattern.groups s.requireds) d.preInit
  optionals : Chain .OPT_ARG OptionalParameter.Written s.optionals d.optionals
  postCount : d.postCount = s.posts.length
  postInit : PatternGroup.InitWritten (Pattern.groups s.posts) d.postInit
  rest : d.rest = s.rest.slot
  keywords : Chain .KW_ARG KeywordParameter.Written s.keywords d.keywords
  keywordRest : Parameters.KeywordRestOf s.keywordRest d.keywordRest
  block : d.block = s.block.name?

theorem Written.descriptor {slots : Legacy.Build.ArgsSlots} (h : s.Written slots)
    (position : Position) :
    Returns (Legacy.Build.args slots position).descriptor s.Described := by
  have hrest := Parameters.args_restParameter h.rest position
  obtain ⟨keywordRest, hkeywordRest, hof⟩ := Parameters.args_keywordRest h.keywordRest position
  refine ⟨_, Parameters.args_descriptor hrest hkeywordRest, ?_⟩
  exact ⟨h.preCount, h.preInit, h.optionals, h.postCount, h.postInit, rfl, h.keywords, hof, h.block⟩

theorem chain_eq_nil {α : Type} {kind : Legacy.Kind} {Body : α → Node → Prop} {items : List α}
    (h : Chain kind Body items none) : items = [] := by
  cases items with
  | nil => rfl
  | cons item items =>
    obtain ⟨body, next, position, hlink, _⟩ := h
    cases hlink

theorem Described.not_takesAny {d : Legacy.Descriptor} (h : s.Described d)
    (hd : d.isEmpty = true) : ¬s.TakesAny := by
  simp only [Legacy.Descriptor.isEmpty, Bool.and_eq_true, beq_iff_eq, Option.isNone_iff_eq_none]
    at hd
  obtain ⟨⟨⟨⟨⟨⟨⟨⟨⟨hpre, _⟩, hoptionals⟩, _⟩, hpost⟩, _⟩, hrest⟩, hkeywords⟩, hkeywordRest⟩,
    hblock⟩ := hd
  have hrequireds : s.requireds = [] := List.eq_nil_of_length_eq_zero (h.preCount.symm.trans hpre)
  have hposts : s.posts = [] := List.eq_nil_of_length_eq_zero (h.postCount.symm.trans hpost)
  have hoptionals : s.optionals = [] := chain_eq_nil (hoptionals ▸ h.optionals)
  have hkeywords : s.keywords = [] := chain_eq_nil (hkeywords ▸ h.keywords)
  have hrest : s.rest = .absent := by
    rw [h.rest] at hrest
    cases hform : s.rest with
    | absent => rfl
    | _ => simp [hform, RestForm.slot] at hrest
  have hkeywordRest : s.keywordRest = .absent := by
    have hof := h.keywordRest
    cases hslot : d.keywordRest with
    | absent =>
      rw [hslot] at hof
      cases hform : s.keywordRest with
      | absent => rfl
      | _ => simp [hform, Parameters.KeywordRestOf] at hof
    | _ => simp [hslot] at hkeywordRest
  have hblock : s.block = .absent := by
    rw [h.block] at hblock
    cases hform : s.block with
    | absent => rfl
    | _ => simp [hform, BlockForm.name?] at hblock
  simp [TakesAny, hrequireds, hoptionals, hrest, hposts, hkeywords, hkeywordRest, hblock]

/-! Where the parts of the table start. -/

def postStart (s : Signature) : Nat :=
  s.requireds.length + s.optionals.length + (nameSlots s.rest.name?).length

def hiddenStart (s : Signature) : Nat := s.postStart + s.posts.length + s.keywords.length

def boundStart (s : Signature) : Nat :=
  s.hiddenStart + s.hiddenSlots.length + (nameSlots s.keywordRest.name?).length +
    (nameSlots s.block.name?).length

theorem boundStart_le_length (s : Signature) : s.boundStart ≤ s.table.length := by
  simp only [boundStart, hiddenStart, postStart, table, List.length_append, List.length_map]
  omega

theorem slots_requireds (s : Signature) (args : Node) :
    Parameters.slots args s.table 0 s.requireds.length = .ok (s.requireds.map Pattern.slot) := by
  have ht : [] ++ s.requireds.map Pattern.slot <+: s.table := by simp [table]
  exact Parameters.slots_eq ht rfl (by rw [List.length_map])

theorem slots_posts (s : Signature) (args : Node) :
    Parameters.slots args s.table s.postStart s.posts.length = .ok (s.posts.map Pattern.slot) := by
  have ht : s.requireds.map Pattern.slot ++ s.optionals.map (fun p => some p.name) ++
      nameSlots s.rest.name? ++ s.posts.map Pattern.slot <+: s.table := by simp [table]
  refine Parameters.slots_eq ht ?_ (by rw [List.length_map])
  simp only [postStart, List.length_append, List.length_map]

theorem skipKeywordSlot_hiddenStart (s : Signature) :
    Parameters.skipKeywordSlot s.table s.hiddenStart (!s.keywords.isEmpty) =
      s.hiddenStart + s.hiddenSlots.length := by
  have ht : s.requireds.map Pattern.slot ++ s.optionals.map (fun p => some p.name) ++
      nameSlots s.rest.name? ++ s.posts.map Pattern.slot ++
      s.keywords.map (fun p => some p.name) ++ s.hiddenSlots <+: s.table := by simp [table]
  refine Parameters.skipKeywordSlot_eq ht ?_
  simp only [hiddenStart, postStart, List.length_append, List.length_map]

/-- Behind the names that destructurings bind there are only the locals of the block. -/
theorem names_drop_table (s : Signature) :
    Parameters.names (s.table.drop (s.boundStart +
      ((Pattern.groups s.requireds).flatMap PatternGroup.names).length +
      ((Pattern.groups s.posts).flatMap PatternGroup.names).length)) = s.blockLocals := by
  rw [table, List.drop_left']
  · simp [Parameters.names]
  · simp only [boundStart, hiddenStart, postStart, List.length_append, List.length_map]

theorem Described.ofDescriptor {d : Legacy.Descriptor} (h : s.Described d) (args : Node) :
    Returns (Parameters.ofDescriptor s.table args d) s.Spelled := by
  obtain ⟨preGroups, hpreGroups, hpre⟩ := Parameters.groups_returns h.preInit
  obtain ⟨postGroups, hpostGroups, hpost⟩ := Parameters.groups_returns h.postInit
  obtain ⟨optionalLinks, hoptionalLinks, hoptionals⟩ :=
    Parameters.chain_returns (.inl rfl) h.optionals
  obtain ⟨keywordLinks, hkeywordLinks, hkeywords⟩ := Parameters.chain_returns (.inr rfl) h.keywords
  have hlength := s.boundStart_le_length
  simp only [boundStart, hiddenStart, postStart] at hlength
  unfold Parameters.ofDescriptor
  rw [h.preCount, h.postCount, h.rest, h.block]
  refine .after (s.slots_requireds args) (.after hpreGroups (.after hoptionalLinks ?_))
  refine .bind (Parameters.optionalsAt_returns hoptionals (by omega)) ?_
  rintro _ rfl
  refine .bind (Parameters.restAt_returns s.rest (by omega)) ?_
  rintro _ rfl
  refine .after (s.slots_posts args) (.after hpostGroups (.after hkeywordLinks ?_))
  refine .bind (Parameters.keywordsAt_returns hkeywords (by omega)) ?_
  rintro _ rfl
  dsimp only
  have hhidden := s.skipKeywordSlot_hiddenStart
  simp only [hiddenStart, postStart] at hhidden
  rw [hhidden]
  refine .bind (Parameters.keywordRestAt_returns h.keywordRest (by omega)) ?_
  rintro _ rfl
  refine .bind (Parameters.blockAt_returns s.block (by omega)) ?_
  rintro _ rfl
  refine .pure ⟨?_, rfl, rfl, ?_, rfl, rfl, rfl, ?_⟩
  · exact Parameters.fillSlots_spelled hpre
  · exact Parameters.fillSlots_spelled hpost
  · have hlocals := s.names_drop_table
    rw [← Parameters.bindingCount_eq hpre, ← Parameters.bindingCount_eq hpost] at hlocals
    exact hlocals

/-- A signature can be written down, and whatever is written for it is read back as it. -/
theorem ofNode_written (hs : s.TakesAny) :
    (∃ slots, s.Written slots) ∧
      ∀ slots position, s.Written slots →
        ∃ p, Parameters.ofNode s.table (Legacy.Build.args slots position) = .ok (some p) ∧
          s.Spelled p := by
  refine ⟨⟨s.toSlots, s.written_toSlots⟩, fun slots position h => ?_⟩
  obtain ⟨d, hd, hdescribed⟩ := h.descriptor position
  have hempty : ¬d.isEmpty = true := fun hempty => hdescribed.not_takesAny hempty hs
  obtain ⟨p, hp, hspelled⟩ := hdescribed.ofDescriptor (Legacy.Build.args slots position)
  have hread : Returns (Parameters.ofNode s.table (Legacy.Build.args slots position))
      (· = some p) := by
    refine .after rfl (.after hd ?_)
    rw [if_neg hempty]
    exact .after hp (.pure rfl)
  obtain ⟨_, hread, rfl⟩ := hread
  exact ⟨p, hread, hspelled⟩

/-- `|a, (b, *c, (d, *)), *, e, f:, **g, &h; i|`. -/
def nested : Signature where
  requireds := [.name ⟨"a"⟩,
    .group (.mk [.name ⟨"b"⟩] (.named ⟨"c"⟩) [.group (.mk [.name ⟨"d"⟩] .anonymous [])])]
  optionals := []
  rest := .star
  posts := [.name ⟨"e"⟩]
  keywords := [⟨⟨"f"⟩, none⟩]
  keywordRest := .named ⟨⟨"g"⟩, by decide⟩
  block := .named ⟨⟨"h"⟩, by decide⟩
  blockLocals := [⟨"i"⟩]

theorem ofNode_written_nested :
    nested.TakesAny ∧
      ∃ p, Parameters.ofNode nested.table (Legacy.Build.args nested.toSlots default) =
        .ok (some p) ∧ nested.Spelled p := by
  have hs : nested.TakesAny := .inl nofun
  exact ⟨hs, (ofNode_written hs).2 nested.toSlots default nested.written_toSlots⟩

end Signature

end RubyTree
