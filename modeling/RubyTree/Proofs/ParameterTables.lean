import RubyTree.Proofs.Destructuring

/-! Parameters against any table. A descriptor needs a number of slots; a table that is shorter is
refused as a whole, and from any other each slot is used at most once, in the order of the table. -/

namespace RubyTree

open Legacy (Node Child Table)

/-! What the nodes of a descriptor say. -/

namespace Legacy.Node

/-- The bodies of a chain, each link in the last slot of the one before it. -/
inductive Links (kind : Legacy.Kind) : Option Node → List Node → Prop where
  | done : Links kind none []
  | link {n body : Node} {next : Option Node} {rest : List Node} (hkind : n.kind = kind)
      (hbody : n.child 0 = .node body) (hnext : n.child 1 = .ofNode? next)
      (hrest : Links kind next rest) : Links kind (some n) (body :: rest)

def WritesLocal (n : Node) (name : Name) : Prop :=
  (n.kind = .LASGN ∨ n.kind = .DASGN) ∧ n.child 0 = .name name

end Legacy.Node

def OptionalParameter.Given (p : OptionalParameter) (n : Node) : Prop :=
  n.WritesLocal p.name ∧ n.child 1 = .node p.value

/-- A required keyword has a marker in the place of its default. -/
def KeywordParameter.Given (p : KeywordParameter) (n : Node) : Prop :=
  n.WritesLocal p.name ∧
    n.child 1 = (p.value.map Child.node).getD (.marker .requiredKeyword)

def GroupOutline.Given (d : GroupOutline) (n : Node) : Prop :=
  d.Encoded n ∧ ∀ m ∈ d.leaves, TargetStyle.parameter.Admits m

/-- The destructurings of a slot: none, one, or those of a `BLOCK`. -/
inductive GroupOutline.Grouped : Option Node → List GroupOutline → Prop where
  | none : Grouped none []
  | one {n : Node} {d : GroupOutline} (h : d.Given n) : Grouped (some n) [d]
  | block {n : Node} {nodes : List Node} {ds : List GroupOutline} (hkind : n.kind = .BLOCK)
      (hchildren : n.children = nodes.map .node) (h : List.Forall₂ GroupOutline.Given ds nodes) :
      Grouped (some n) ds

namespace Legacy

def RestParameter.slotCount : RestParameter → Nat
  | .named _ => 1
  | _ => 0

/-- The name of a keyword rest, which its variable may lack. -/
def KeywordRest.Named : KeywordRest → Option Name → Prop
  | .variableNode var, name => var.child 0 = Build.nameSlot name
  | _, name => name = none

structure Descriptor.Parts where
  preGroups : List GroupOutline
  optionals : List OptionalParameter
  postGroups : List GroupOutline
  keywords : List KeywordParameter
  keywordRestName : Option Name

structure Descriptor.WellFormed (d : Descriptor) (parts : Descriptor.Parts) : Prop where
  preGroups : GroupOutline.Grouped d.preInit parts.preGroups
  optionals : ∃ links, Node.Links .OPT_ARG d.optionals links ∧
    List.Forall₂ OptionalParameter.Given parts.optionals links
  postGroups : GroupOutline.Grouped d.postInit parts.postGroups
  keywords : ∃ links, Node.Links .KW_ARG d.keywords links ∧
    List.Forall₂ KeywordParameter.Given parts.keywords links
  keywordRest : d.keywordRest.Named parts.keywordRestName

namespace Descriptor

/-! Where the slots of the parameters stand. -/

def postStart (d : Descriptor) (parts : Parts) : Nat :=
  d.preCount + parts.optionals.length + d.rest.slotCount

def keywordStop (d : Descriptor) (parts : Parts) : Nat :=
  d.postStart parts + d.postCount + parts.keywords.length

/-- Keywords are followed by an entry without a name, if the table has one there. -/
def hiddenSlots (d : Descriptor) (parts : Parts) (table : Table) : Nat :=
  if parts.keywords ≠ [] ∧ table[d.keywordStop parts]? = some none then 1 else 0

/-- The slots of all parameters; behind them come the names that the destructurings bind. -/
def slotCount (d : Descriptor) (parts : Parts) (table : Table) : Nat :=
  d.keywordStop parts + d.hiddenSlots parts table + parts.keywordRestName.toList.length +
    d.block.toList.length

def Parts.bindingCount (parts : Parts) : Nat :=
  ((parts.preGroups ++ parts.postGroups).flatMap GroupOutline.leaves).length

end Descriptor

end Legacy

namespace RequiredParameter

def name? : RequiredParameter → Option Name
  | .name value => some value
  | .group _ => none

def group? : RequiredParameter → Option TargetGroup
  | .name _ => none
  | .group value => some value

end RequiredParameter

namespace Parameters

/-- Where the plain parameters, the destructurings and the locals of a block come from. -/
structure PlacedIn (table : Table) (d : Legacy.Descriptor) (parts : Legacy.Descriptor.Parts)
    (p : Parameters) : Prop where
  requireds : p.requireds.filterMap RequiredParameter.name? = names (table.take d.preCount)
  posts : p.posts.filterMap RequiredParameter.name? =
    names ((table.drop (d.postStart parts)).take d.postCount)
  blockLocals : p.blockLocals =
    names (table.drop (min (d.slotCount parts table + parts.bindingCount) table.length))
  inOrder : (p.requireds.filterMap RequiredParameter.name? ++
    p.posts.filterMap RequiredParameter.name? ++ p.blockLocals).Sublist (names table)
  preGroups : groups d.preInit = .ok (p.requireds.filterMap RequiredParameter.group?) ∧
    (p.requireds.filterMap RequiredParameter.group?).map TargetGroup.outline = parts.preGroups
  postGroups : groups d.postInit = .ok (p.posts.filterMap RequiredParameter.group?) ∧
    (p.posts.filterMap RequiredParameter.group?).map TargetGroup.outline = parts.postGroups
  optionals : p.optionals = parts.optionals
  keywords : p.keywords = parts.keywords

/-! Reading the nodes, which never looks at the table. -/

theorem chainWithin_of_links {kind : Legacy.Kind} (hkind : kind = .OPT_ARG ∨ kind = .KW_ARG)
    {link : Option Node} {bodies : List Node} (h : Legacy.Node.Links kind link bodies) {bound : Nat}
    (hbound : Legacy.Node.Optional (·.height ≤ bound) link) :
    chainWithin kind bound link = .ok bodies := by
  induction h generalizing bound with
  | done => cases bound <;> rfl
  | @link n body next rest hn hbody hnext _ ih =>
    have hheight := hbound n rfl
    have hpos := n.height_pos
    obtain ⟨bound, rfl⟩ := Nat.exists_eq_add_one.mpr (Nat.lt_of_lt_of_le hpos hheight)
    have hlower : Legacy.Node.Optional (·.height ≤ bound) next := by
      rintro m rfl
      have := Legacy.Node.height_lt_of_child hnext
      omega
    have hfirst := Legacy.Node.node_eq_ok_iff.mpr hbody
    have hsecond := Legacy.Node.node?_eq_ok_iff.mpr hnext
    have hshape : n.shape = .ok (.paramLink body next) := by
      obtain rfl | rfl := hkind
      all_goals
        simp only [Legacy.Node.shape, hn, hfirst, hsecond]
        rfl
    rw [chainWithin, Legacy.Node.expectKind_of_kind hn]
    show n.shape >>= _ = _
    rw [hshape]
    show chainWithin kind bound next >>= _ = _
    rw [ih hlower]
    rfl

theorem chain_of_links {kind : Legacy.Kind} (hkind : kind = .OPT_ARG ∨ kind = .KW_ARG)
    {link : Option Node} {bodies : List Node} (h : Legacy.Node.Links kind link bodies) :
    chain kind link = .ok bodies := by
  cases link with
  | none =>
    cases h
    rfl
  | some n => exact chainWithin_of_links hkind h (Legacy.Node.optional_some (Nat.le_refl _))

theorem mapM_ofNode_of_given {ds : List GroupOutline} {nodes : List Node}
    (h : List.Forall₂ GroupOutline.Given ds nodes) :
    Returns (nodes.mapM (TargetGroup.ofNode .parameter)) (·.map TargetGroup.outline = ds) := by
  induction h with
  | nil => exact .pure rfl
  | @cons d n ds nodes hd _ ih =>
    rw [List.mapM_cons]
    refine .bind (d.ofNode_returns hd.1 hd.2) fun group hgroup => .bind ih fun groups hgroups => ?_
    refine .pure ?_
    rw [List.map_cons, hgroup.2, hgroups]

theorem groups_of_grouped {init : Option Node} {ds : List GroupOutline}
    (h : GroupOutline.Grouped init ds) :
    Returns (groups init) (·.map TargetGroup.outline = ds) := by
  cases h with
  | none => exact .pure rfl
  | @one n d hd =>
    have hgroup := d.ofNode_returns hd.1 hd.2
    obtain ⟨value, head, slot, posts, hshape⟩ : ∃ value head slot posts,
        n.shape = .ok (.multiAssign value head slot posts) := by
      obtain ⟨lefts, rest, rights⟩ := d
      obtain ⟨_, value, head, posts, _, _, hshape, _⟩ := GroupOutline.shape_of_encoded hd.1 hd.2
      exact ⟨value, head, _, posts, hshape⟩
    refine .after hshape (.bind hgroup fun group hgroup => .pure ?_)
    rw [List.map_singleton, hgroup.2]
  | @block n nodes _ hkind hchildren hds =>
    have hshape : n.shape = .ok (.block nodes) := by
      have hnodes : n.nodesFrom 0 = .ok nodes :=
        Legacy.Node.nodesAt_eq_ok_iff.mpr (by rw [List.drop_zero, hchildren])
      simp only [Legacy.Node.shape, hkind, hnodes]
      rfl
    exact .after hshape (mapM_ofNode_of_given hds)

end Parameters

namespace Legacy.Node

variable {n : Node} {name : Name}

theorem WritesLocal.expectKind (h : n.WritesLocal name) :
    n.expectKind [.DASGN, .LASGN] = .ok n := by
  have hmem : n.kind ∈ [.DASGN, .LASGN] := by simpa [or_comm] using h.1
  exact expectKind_eq_ok_iff.mpr ⟨hmem, rfl⟩

theorem WritesLocal.shape_eq (h : n.WritesLocal name) : n.shape = n.assignShape := by
  obtain ⟨hkind | hkind, _⟩ := h
  · rw [Node.shape, hkind]
  · rw [Node.shape, hkind]

theorem WritesLocal.shape_of_value (h : n.WritesLocal name) {value : Node}
    (hvalue : n.child 1 = .node value) : n.shape = .ok (.assign name (some value) false) := by
  have hfirst : n.name 0 = .ok name := name_eq_ok_iff.mpr h.2
  have hsecond : n.node? 1 = .ok (some value) := node?_eq_ok_iff.mpr hvalue
  have hmarker : n.marker? 1 ≠ some .requiredKeyword := by simp [marker?, hvalue]
  rw [h.shape_eq]
  simp only [assignShape, hfirst, hsecond, hmarker]
  rfl

theorem WritesLocal.shape_of_required (h : n.WritesLocal name)
    (hmarker : n.child 1 = .marker .requiredKeyword) :
    n.shape = .ok (.assign name none true) := by
  have hfirst : n.name 0 = .ok name := name_eq_ok_iff.mpr h.2
  rw [h.shape_eq]
  simp only [assignShape, hfirst, marker?, hmarker]
  rfl

end Legacy.Node

namespace Parameters

/-! The cursor. A step needs the table to reach some position; after a step that succeeds, the
positions before it are all there. -/

/-- The step gives the value, unless the table ends before the position. -/
def Needs {α : Type} (args : Node) (table : Table) (position : Nat) (x : Result α) (a : α) : Prop :=
  x = if position ≤ table.length then .ok a else .error (args.unexpected .tableEntry)

section

variable {args : Node} {table : Table} {cursor : Nat}

theorem Needs.pure {α : Type} {a : α} (h : cursor ≤ table.length) :
    Needs args table cursor (Pure.pure a) a := by
  rw [Needs, if_pos h]
  rfl

theorem Needs.bind {α β : Type} {x : Result α} {f : α → Result β} {a : α} {b : β} {first last : Nat}
    (hx : Needs args table first x a) (hle : first ≤ last)
    (hf : first ≤ table.length → Needs args table last (f a) b) :
    Needs args table last (x >>= f) b := by
  by_cases hfirst : first ≤ table.length
  · have hvalue : x = .ok a := by rw [hx, if_pos hfirst]
    rw [hvalue]
    exact hf hfirst
  · have hlast : ¬last ≤ table.length := by omega
    rw [Needs, hx, if_neg hfirst, if_neg hlast]
    rfl

theorem Needs.after {α β : Type} {x : Result α} {f : α → Result β} {a : α} {b : β} (hx : x = .ok a)
    (hf : Needs args table cursor (f a) b) : Needs args table cursor (x >>= f) b := by
  rw [hx]
  exact hf

theorem slots_needs (count : Nat) : Needs args table (cursor + count)
    (slots args table cursor count) ((table.drop cursor).take count) := rfl

theorem skipSlot_needs :
    Needs args table (cursor + 1) (skipSlot args table cursor) (cursor + 1) := by
  have hslots : Needs args table (cursor + 1) (slots args table cursor 1) _ := slots_needs 1
  exact hslots.bind (Nat.le_refl _) fun h => .pure h

theorem skipSlot_with_needs {α : Type} (a : α) : Needs args table (cursor + 1)
    (skipSlot args table cursor >>= fun cursor => Pure.pure (a, cursor)) (a, cursor + 1) :=
  skipSlot_needs.bind (Nat.le_refl _) fun h => .pure h

theorem optionalsAt_needs {items : List OptionalParameter} {links : List Node}
    (h : List.Forall₂ OptionalParameter.Given items links) (hc : cursor ≤ table.length) :
    Needs args table (cursor + items.length) (optionalsAt args table cursor links)
      (items, cursor + items.length) := by
  induction h generalizing cursor with
  | nil => exact .pure hc
  | @cons item link items links hlink _ ih =>
    obtain ⟨hwrites, hvalue⟩ := hlink
    have hlength : cursor + (item :: items).length = cursor + 1 + items.length := by
      rw [List.length_cons]
      omega
    rw [hlength]
    refine .after hwrites.expectKind (.after (hwrites.shape_of_value hvalue) ?_)
    refine skipSlot_needs.bind (by omega) fun hskip => ?_
    exact (ih hskip).bind (Nat.le_refl _) fun hrest => .pure hrest

theorem keywordsAt_needs {items : List KeywordParameter} {links : List Node}
    (h : List.Forall₂ KeywordParameter.Given items links) (hc : cursor ≤ table.length) :
    Needs args table (cursor + items.length) (keywordsAt args table cursor links)
      (items, cursor + items.length) := by
  induction h generalizing cursor with
  | nil => exact .pure hc
  | @cons item link items links hlink _ ih =>
    obtain ⟨name, value⟩ := item
    obtain ⟨hwrites, hvalue⟩ := hlink
    have hlength : cursor + (KeywordParameter.mk name value :: items).length =
        cursor + 1 + items.length := by
      rw [List.length_cons]
      omega
    -- With or without a default, what follows the link is the same.
    have hrest : Needs args table (cursor + 1 + items.length)
        (skipSlot args table cursor >>= fun cursor =>
          keywordsAt args table cursor links >>= fun found =>
            Pure.pure (⟨name, value⟩ :: found.1, found.2))
        (⟨name, value⟩ :: items, cursor + 1 + items.length) := by
      refine skipSlot_needs.bind (by omega) fun hskip => ?_
      exact (ih hskip).bind (Nat.le_refl _) fun hrest => .pure hrest
    rw [hlength]
    refine .after hwrites.expectKind ?_
    cases value with
    | none => exact .after (hwrites.shape_of_required hvalue) hrest
    | some value => exact .after (hwrites.shape_of_value hvalue) hrest

/-! What these three steps give does not depend on where the cursor stands. -/

theorem restAt_needs (args : Node) (table : Table) (rest : Legacy.RestParameter) :
    ∃ found, ∀ cursor ≤ table.length, Needs args table (cursor + rest.slotCount)
      (restAt args table cursor rest) (found, cursor + rest.slotCount) := by
  cases rest with
  | named name => exact ⟨_, fun cursor _ => skipSlot_with_needs _⟩
  | _ => exact ⟨_, fun cursor hc => .pure hc⟩

theorem keywordRestAt_needs (args : Node) (table : Table) {rest : Legacy.KeywordRest}
    {name : Option Name} (h : rest.Named name) :
    ∃ found, ∀ cursor ≤ table.length, Needs args table (cursor + name.toList.length)
      (keywordRestAt args table cursor rest) (found, cursor + name.toList.length) := by
  cases rest with
  | variableNode var =>
    have hname : var.name? 0 = .ok name := name?_nameSlot h
    cases name with
    | none => exact ⟨_, fun cursor hc => .after hname (.pure hc)⟩
    | some name => exact ⟨_, fun cursor _ => .after hname (skipSlot_with_needs _)⟩
  | _ =>
    have hnone : name = none := h
    rw [hnone]
    exact ⟨_, fun cursor hc => .pure hc⟩

theorem blockAt_needs (args : Node) (table : Table) (block : Option Name) :
    ∃ found, ∀ cursor ≤ table.length, Needs args table (cursor + block.toList.length)
      (blockAt args table cursor block) (found, cursor + block.toList.length) := by
  cases block with
  | none => exact ⟨_, fun cursor hc => .pure hc⟩
  | some name => exact ⟨_, fun cursor _ => skipSlot_with_needs _⟩

theorem skipKeywordSlot_eq_add (table : Table) (d : Legacy.Descriptor)
    (parts : Legacy.Descriptor.Parts) :
    skipKeywordSlot table (d.keywordStop parts) (!parts.keywords.isEmpty) =
      d.keywordStop parts + d.hiddenSlots parts table := by
  unfold skipKeywordSlot Legacy.Descriptor.hiddenSlots
  cases hkeywords : parts.keywords with
  | nil => split <;> simp
  | cons first rest =>
    by_cases hslot : table[d.keywordStop parts]? = some none
    · simp [hslot]
    · split
      · next hnone => exact absurd hnone hslot
      · simp [hslot]

theorem keywordStop_add_hiddenSlots_le {d : Legacy.Descriptor} {parts : Legacy.Descriptor.Parts}
    (h : d.keywordStop parts ≤ table.length) :
    d.keywordStop parts + d.hiddenSlots parts table ≤ table.length := by
  unfold Legacy.Descriptor.hiddenSlots
  by_cases hhidden : parts.keywords ≠ [] ∧ table[d.keywordStop parts]? = some none
  · obtain ⟨hlt, _⟩ := List.getElem?_eq_some_iff.mp hhidden.2
    rw [if_pos hhidden]
    omega
  · rw [if_neg hhidden]
    exact h

end

/-! The slots of requireds and posts. -/

theorem filterMap_name?_fillSlots (slots : Table) (groups : List TargetGroup) :
    (fillSlots slots groups).filterMap RequiredParameter.name? = names slots := by
  fun_induction fillSlots slots groups with
  | case1 groups => simp [names, RequiredParameter.name?, Function.comp_def]
  | case2 name slots groups ih => exact congrArg (name :: ·) ih
  | case3 slots ih => exact ih
  | case4 slots group groups ih => exact ih

theorem filterMap_group?_fillSlots (slots : Table) (groups : List TargetGroup) :
    (fillSlots slots groups).filterMap RequiredParameter.group? = groups := by
  fun_induction fillSlots slots groups with
  | case1 groups => simp [RequiredParameter.group?, Function.comp_def]
  | case2 name slots groups ih => exact ih
  | case3 slots ih => exact ih
  | case4 slots group groups ih => exact congrArg (group :: ·) ih

theorem bindingCount_eq_leaves (groups : List TargetGroup) :
    bindingCount groups =
      ((groups.map TargetGroup.outline).flatMap GroupOutline.leaves).length := by
  induction groups with
  | nil => rfl
  | cons group groups ih =>
    rw [List.map_cons, List.flatMap_cons, List.length_append, ← ih, ← group.bindingCount_eq_length]
    rfl

theorem names_parts_sublist (table : Table) {stop start count rest : Nat} (hstart : stop ≤ start)
    (hrest : start + count ≤ rest) :
    (names (table.take stop) ++ names ((table.drop start).take count) ++
      names (table.drop rest)).Sublist (names table) := by
  have hlast : (table.drop rest).Sublist ((table.drop start).drop count) := by
    rw [List.drop_drop]
    exact List.drop_sublist_drop_left table hrest
  have hmiddle : ((table.drop start).take count ++ table.drop rest).Sublist (table.drop stop) := by
    have hboth := (List.Sublist.refl ((table.drop start).take count)).append hlast
    rw [List.take_append_drop] at hboth
    exact hboth.trans (List.drop_sublist_drop_left table hstart)
  have hall := (List.Sublist.refl (table.take stop)).append hmiddle
  rw [List.take_append_drop] at hall
  have hnames := hall.filterMap id
  simpa [names] using hnames

theorem names_drop_min (table : Table) (start : Nat) :
    names (table.drop (min start table.length)) = names (table.drop start) := by
  by_cases h : start ≤ table.length
  · rw [Nat.min_eq_left h]
  · have hlength : table.length ≤ start := by omega
    rw [Nat.min_eq_right hlength, List.drop_length, List.drop_eq_nil_of_le hlength]

section

variable {table : Table} {d : Legacy.Descriptor} {parts : Legacy.Descriptor.Parts}
  {preGroups postGroups : List TargetGroup}

theorem bindingCount_eq_parts (hpre : preGroups.map TargetGroup.outline = parts.preGroups)
    (hpost : postGroups.map TargetGroup.outline = parts.postGroups) :
    bindingCount preGroups + bindingCount postGroups = parts.bindingCount := by
  rw [bindingCount_eq_leaves, bindingCount_eq_leaves, hpre, hpost,
    Legacy.Descriptor.Parts.bindingCount, List.flatMap_append, List.length_append]

theorem placedIn_of_groups {p : Parameters} (hpreGroups : groups d.preInit = .ok preGroups)
    (hpre : preGroups.map TargetGroup.outline = parts.preGroups)
    (hpostGroups : groups d.postInit = .ok postGroups)
    (hpost : postGroups.map TargetGroup.outline = parts.postGroups)
    (hrequireds : p.requireds = fillSlots (table.take d.preCount) preGroups)
    (hposts : p.posts = fillSlots ((table.drop (d.postStart parts)).take d.postCount) postGroups)
    (hlocals : p.blockLocals = names (table.drop
      (d.slotCount parts table + bindingCount preGroups + bindingCount postGroups)))
    (hoptionals : p.optionals = parts.optionals) (hkeywords : p.keywords = parts.keywords) :
    p.PlacedIn table d parts := by
  have hstart : d.postStart parts = d.preCount + parts.optionals.length + d.rest.slotCount := rfl
  have hcount : d.slotCount parts table = d.postStart parts + d.postCount + parts.keywords.length +
      d.hiddenSlots parts table + parts.keywordRestName.toList.length +
      d.block.toList.length := rfl
  have hbindings := bindingCount_eq_parts hpre hpost
  have hplainPre : p.requireds.filterMap RequiredParameter.name? =
      names (table.take d.preCount) := by
    rw [hrequireds, filterMap_name?_fillSlots]
  have hplainPost : p.posts.filterMap RequiredParameter.name? =
      names ((table.drop (d.postStart parts)).take d.postCount) := by
    rw [hposts, filterMap_name?_fillSlots]
  refine ⟨hplainPre, hplainPost, ?_, ?_, ?_, ?_, hoptionals, hkeywords⟩
  · rw [hlocals, names_drop_min, ← hbindings, Nat.add_assoc]
  · rw [hplainPre, hplainPost, hlocals]
    exact names_parts_sublist table (by omega) (by omega)
  · rw [hrequireds, filterMap_group?_fillSlots]
    exact ⟨hpreGroups, hpre⟩
  · rw [hposts, filterMap_group?_fillSlots]
    exact ⟨hpostGroups, hpost⟩

end

/-- Everything but the slots is read from the descriptor, whatever the table. -/
theorem ofDescriptor_needs {d : Legacy.Descriptor} {parts : Legacy.Descriptor.Parts}
    (h : d.WellFormed parts) (args : Node) (table : Table) :
    ∃ p, Needs args table (d.slotCount parts table) (ofDescriptor table args d) p ∧
      p.PlacedIn table d parts := by
  obtain ⟨preGroups, hpreGroups, hpre⟩ := groups_of_grouped h.preGroups
  obtain ⟨postGroups, hpostGroups, hpost⟩ := groups_of_grouped h.postGroups
  obtain ⟨optionalLinks, hoptionalLinks, hoptionals⟩ := h.optionals
  obtain ⟨keywordLinks, hkeywordLinks, hkeywords⟩ := h.keywords
  obtain ⟨rest, hrest⟩ := restAt_needs args table d.rest
  obtain ⟨keywordRest, hkeywordRest⟩ := keywordRestAt_needs args table h.keywordRest
  obtain ⟨block, hblock⟩ := blockAt_needs args table d.block
  have hcount : d.slotCount parts table = d.preCount + parts.optionals.length + d.rest.slotCount +
      d.postCount + parts.keywords.length + d.hiddenSlots parts table +
      parts.keywordRestName.toList.length + d.block.toList.length := rfl
  have hpreSlots : Needs args table d.preCount (slots args table 0 d.preCount)
      (table.take d.preCount) := by
    have hslots : Needs args table (0 + d.preCount) _ _ := slots_needs d.preCount
    rwa [Nat.zero_add, List.drop_zero] at hslots
  refine ⟨{
    requireds := fillSlots (table.take d.preCount) preGroups
    optionals := parts.optionals
    rest
    posts := fillSlots ((table.drop (d.postStart parts)).take d.postCount) postGroups
    keywords := parts.keywords
    keywordRest, block
    blockLocals := names (table.drop
      (d.slotCount parts table + bindingCount preGroups + bindingCount postGroups)) },
    ?_, placedIn_of_groups hpreGroups hpre hpostGroups hpost rfl rfl rfl rfl rfl⟩
  -- Behind each step, `hc` says that the table reaches the cursor.
  refine hpreSlots.bind (by omega) fun hc => ?_
  refine .after hpreGroups (.after (chain_of_links (.inl rfl) hoptionalLinks) ?_)
  refine (optionalsAt_needs hoptionals hc).bind (by omega) fun hc => ?_
  refine (hrest _ hc).bind (by omega) fun hc => ?_
  refine (slots_needs d.postCount).bind (by omega) fun hc => ?_
  refine .after hpostGroups (.after (chain_of_links (.inr rfl) hkeywordLinks) ?_)
  refine (keywordsAt_needs hkeywords hc).bind (by omega) fun hc => ?_
  have hstop := keywordStop_add_hiddenSlots_le hc
  show Needs args table _ (keywordRestAt args table
    (skipKeywordSlot table (d.keywordStop parts) (!parts.keywords.isEmpty)) d.keywordRest >>= _) _
  rw [skipKeywordSlot_eq_add]
  refine (hkeywordRest _ hstop).bind (Nat.le_add_right _ _) fun hc => ?_
  exact (hblock _ hc).bind (Nat.le_refl _) fun hc => .pure hc

/-- Against any table, parameters are read exactly if the table has a slot for each of them; what is
read uses every entry of the table at most once, and every destructuring once. -/
theorem ofNode_table {args : Node} {d : Legacy.Descriptor} {parts : Legacy.Descriptor.Parts}
    (hkind : args.kind = .ARGS) (hd : args.descriptor = .ok d) (hempty : d.isEmpty = false)
    (hparts : d.WellFormed parts) (table : Table) :
    ((∃ p, ofNode table args = .ok p) ↔ d.slotCount parts table ≤ table.length) ∧
      (table.length < d.slotCount parts table →
        ofNode table args = .error (args.unexpected .tableEntry)) ∧
      ∀ found, ofNode table args = .ok found → ∃ p, found = some p ∧ p.PlacedIn table d parts := by
  obtain ⟨p, hneeds, hplaced⟩ := ofDescriptor_needs hparts args table
  have hread : ofNode table args = (do
      let parameters ← ofDescriptor table args d
      pure (some parameters)) := by
    rw [ofNode, Legacy.Node.expectKind_of_kind hkind]
    show (args.descriptor >>= _) = _
    rw [hd]
    simp only [bind, Except.bind, hempty]
    rfl
  by_cases hlength : d.slotCount parts table ≤ table.length
  · have hok : ofNode table args = .ok (some p) := by
      rw [hread, hneeds, if_pos hlength]
      rfl
    refine ⟨⟨fun _ => hlength, fun _ => ⟨_, hok⟩⟩, fun hlt => by omega, ?_⟩
    intro found hfound
    rw [hok] at hfound
    cases hfound
    exact ⟨p, rfl, hplaced⟩
  · have herror : ofNode table args = .error (args.unexpected .tableEntry) := by
      rw [hread, hneeds, if_neg hlength]
      rfl
    refine ⟨⟨?_, fun h => absurd h hlength⟩, fun _ => herror, ?_⟩
    · rintro ⟨found, hfound⟩
      rw [herror] at hfound
      cases hfound
    · intro found hfound
      rw [herror] at hfound
      cases hfound

/-- `(b, c)`, `d = k` and `g:` in `|a, (b, c), d = k, *e, f, g:, **h, &i; j|`. -/
def mixedParts : Legacy.Descriptor.Parts :=
  let target (name : String) : TargetOutline :=
    .simple (Legacy.Build.assign .DASGN ⟨name⟩ none default)
  { preGroups := [.mk [target "b", target "c"] none []]
    optionals := [⟨⟨"d"⟩, Legacy.Build.named .VCALL ⟨"k"⟩ default⟩]
    postGroups := []
    keywords := [⟨⟨"g"⟩, none⟩]
    keywordRestName := some ⟨"h"⟩ }

def mixedDescriptor : Legacy.Descriptor where
  preCount := 2
  preInit := (mixedParts.preGroups.map GroupOutline.toNode).head?
  optionals := Layout.toChain .OPT_ARG (mixedParts.optionals.map fun p =>
    Legacy.Build.assign .LASGN p.name (some p.value) default)
  firstPost := some ⟨"f"⟩
  postCount := 1
  postInit := none
  rest := .named ⟨"e"⟩
  keywords := Layout.toChain .KW_ARG (mixedParts.keywords.map fun p =>
    .make .LASGN [.name p.name, .marker .requiredKeyword] default)
  keywordRest := .variableNode (.make .LVAR [.name ⟨"h"⟩] default)
  block := some ⟨"i"⟩

def mixedArgs : Node :=
  .make .ARGS
    [.count 2, .ofNode? mixedDescriptor.preInit, .ofNode? mixedDescriptor.optionals,
      .name ⟨"f"⟩, .count 1, .nil, .name ⟨"e"⟩, .ofNode? mixedDescriptor.keywords,
      .node (.make .LVAR [.name ⟨"h"⟩] default), .name ⟨"i"⟩]
    default

def mixedTable : Table :=
  [some ⟨"a"⟩, none, some ⟨"d"⟩, some ⟨"e"⟩, some ⟨"f"⟩, some ⟨"g"⟩, none, some ⟨"h"⟩, some ⟨"i"⟩,
    some ⟨"b"⟩, some ⟨"c"⟩, some ⟨"j"⟩]

theorem mixedDescriptor_wellFormed : mixedDescriptor.WellFormed mixedParts where
  preGroups := by
    refine .one ⟨GroupOutline.encoded_toNode _, ?_⟩
    intro m hm
    obtain rfl | rfl : m = _ ∨ m = _ := by
      simpa [GroupOutline.leaves, TargetOutline.leavesOf, TargetOutline.leaves,
        GroupRest.leaves] using hm
    · exact .inr rfl
    · exact .inr rfl
  optionals := ⟨_, .link rfl rfl rfl .done, .cons ⟨⟨.inl rfl, rfl⟩, rfl⟩ .nil⟩
  postGroups := .none
  keywords := ⟨_, .link rfl rfl rfl .done, .cons ⟨⟨.inl rfl, rfl⟩, rfl⟩ .nil⟩
  keywordRest := rfl

theorem ofNode_table_mixed :
    mixedArgs.kind = .ARGS ∧ mixedArgs.descriptor = .ok mixedDescriptor ∧
      mixedDescriptor.isEmpty = false ∧ mixedDescriptor.WellFormed mixedParts ∧
      mixedDescriptor.slotCount mixedParts mixedTable = 9 ∧
      (∃ p, ofNode mixedTable mixedArgs = .ok (some p) ∧
        p.PlacedIn mixedTable mixedDescriptor mixedParts) ∧
      ofNode (mixedTable.take 8) mixedArgs = .error (mixedArgs.unexpected .tableEntry) := by
  have hkind : mixedArgs.kind = .ARGS := rfl
  have hd : mixedArgs.descriptor = .ok mixedDescriptor := rfl
  have hempty : mixedDescriptor.isEmpty = false := rfl
  have hcount : mixedDescriptor.slotCount mixedParts mixedTable = 9 := rfl
  have hread := ofNode_table hkind hd hempty mixedDescriptor_wellFormed
  obtain ⟨hsucceeds, _, hplaced⟩ := hread mixedTable
  obtain ⟨_, hrefused, _⟩ := hread (mixedTable.take 8)
  obtain ⟨found, hfound⟩ := hsucceeds.mpr (by decide)
  obtain ⟨p, rfl, hp⟩ := hplaced found hfound
  exact ⟨hkind, hd, hempty, mixedDescriptor_wellFormed, hcount, ⟨p, hfound, hp⟩,
    hrefused (by decide)⟩

end Parameters

end RubyTree
