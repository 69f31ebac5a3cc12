import RubyTree.Proofs.Locations

/-! Moving legacy nodes about in the source. Maps on the positions of two legacy trees that make the
trees equal, and maps on spans that fit them, make the outcomes of the two conversions equal. With
maps that forget, this says that the structure of the outcome does not depend on positions. -/

namespace RubyTree

open Canonical
open Legacy (Node)

namespace Legacy.Node

mutual

def mapPositions (f : Position → Position) : Node → Node
  | .mk kind children position => .mk kind (mapPositionsList f children) (f position)

def mapPositionsList (f : Position → Position) : List Child → List Child
  | [] => []
  | child :: rest => mapPositionsChild f child :: mapPositionsList f rest

def mapPositionsChild (f : Position → Position) : Child → Child
  | .node n => .node (n.mapPositions f)
  | child => child

end

variable {f g : Position → Position}

@[simp] theorem mapPositions_kind (n : Node) : (n.mapPositions f).kind = n.kind := by
  cases n
  rfl

@[simp] theorem mapPositions_position (n : Node) :
    (n.mapPositions f).position = f n.position := by
  cases n
  rfl

theorem mapPositionsList_eq_map (cs : List Child) :
    mapPositionsList f cs = cs.map (mapPositionsChild f) := by
  induction cs with
  | nil => rfl
  | cons c cs ih => rw [mapPositionsList, List.map_cons, ih]

@[simp] theorem mapPositions_children (n : Node) :
    (n.mapPositions f).children = n.children.map (mapPositionsChild f) := by
  obtain ⟨kind, cs, position⟩ := n
  exact mapPositionsList_eq_map cs

theorem mapPositionsChild_of_ne {c : Child} (h : ∀ n, c ≠ .node n) :
    mapPositionsChild f c = c := by
  cases c with
  | node n => exact absurd rfl (h n)
  | _ => rfl

theorem mapPositionsChild_eq_node {c : Child} {m : Node} (h : mapPositionsChild f c = .node m) :
    ∃ n, c = .node n ∧ n.mapPositions f = m := by
  cases c with
  | node n =>
    cases h
    exact ⟨n, rfl, rfl⟩
  | _ => cases h

mutual

theorem mapPositions_id : (n : Node) → n.mapPositions id = n
  | .mk kind cs position => by rw [mapPositions, mapPositionsList_id cs, id]

theorem mapPositionsList_id : (cs : List Child) → mapPositionsList id cs = cs
  | [] => rfl
  | c :: cs => by rw [mapPositionsList, mapPositionsChild_id c, mapPositionsList_id cs]

theorem mapPositionsChild_id : (c : Child) → mapPositionsChild id c = c
  | .node n => congrArg Child.node (mapPositions_id n)
  | .nil | .name _ | .literal _ | .marker _ | .flag _ | .count _ | .table _ => rfl

end

mutual

def positions : Node → List Position
  | .mk _ children position => position :: positionsList children

def positionsList : List Child → List Position
  | [] => []
  | child :: rest => positionsChild child ++ positionsList rest

def positionsChild : Child → List Position
  | .node n => n.positions
  | _ => []

end

theorem position_mem_positions (n : Node) : n.position ∈ n.positions := by
  cases n
  exact List.mem_cons_self

theorem positions_subset_list {n : Node} {cs : List Child} (h : .node n ∈ cs) :
    n.positions ⊆ positionsList cs := by
  induction cs with
  | nil => cases h
  | cons c cs ih =>
    rw [positionsList]
    rcases List.mem_cons.mp h with rfl | h
    · exact List.subset_append_left _ _
    · exact List.subset_append_of_subset_right _ (ih h)

theorem Contains.positions_subset {root n : Node} (h : root.Contains n) :
    n.positions ⊆ root.positions := by
  induction h with
  | root => exact List.Subset.refl _
  | @child n m _ hm ih =>
    obtain ⟨kind, cs, position⟩ := n
    have hn : m.positions ⊆ positions (.mk kind cs position) :=
      List.subset_cons_of_subset _ (positions_subset_list hm)
    exact List.Subset.trans hn ih

theorem Contains.position_mem {root n : Node} (h : root.Contains n) :
    n.position ∈ root.positions :=
  h.positions_subset n.position_mem_positions

def erasePositions (n : Node) : Node := n.mapPositions fun _ => default

/-- Nodes of two trees that become equal when their positions are mapped. -/
def SameBut (f g : Position → Position) (root root' n n' : Node) : Prop :=
  n.mapPositions f = n'.mapPositions g ∧ root.Contains n ∧ root'.Contains n'

namespace SameBut

variable {root root' n n' : Node}

theorem kind_eq (h : SameBut f g root root' n n') : n'.kind = n.kind := by
  simpa using congrArg Node.kind h.1.symm

theorem position_eq (h : SameBut f g root root' n n') : f n.position = g n'.position := by
  simpa using congrArg Node.position h.1

theorem child {c c' : Child} (hc : mapPositionsChild f c = mapPositionsChild g c')
    (h : SameBut f g root root' n n') (hmem : c ∈ n.children) (hmem' : c' ∈ n'.children) :
    c.Mirrored (SameBut f g root root') c' := by
  by_cases hnode : ∃ m, c = .node m
  · obtain ⟨m, rfl⟩ := hnode
    obtain ⟨m', rfl, hm⟩ := mapPositionsChild_eq_node hc.symm
    exact .node ⟨hm.symm, .child h.2.1 hmem, .child h.2.2 hmem'⟩
  · have hne : ∀ m, c ≠ .node m := fun m hm => hnode ⟨m, hm⟩
    have hne' : ∀ m, c' ≠ .node m := by
      rintro m rfl
      obtain ⟨m', rfl, _⟩ := mapPositionsChild_eq_node hc
      exact hne m' rfl
    rw [mapPositionsChild_of_ne hne, mapPositionsChild_of_ne hne'] at hc
    subst hc
    exact .same hne

theorem children (h : SameBut f g root root' n n') :
    List.Forall₂ (Child.Mirrored (SameBut f g root root')) n.children n'.children := by
  have hmap : List.Forall₂ Eq (n.children.map (mapPositionsChild f))
      (n'.children.map (mapPositionsChild g)) := by
    rw [List.forall₂_eq_eq_eq]
    simpa using congrArg Node.children h.1
  rw [List.forall₂_map_left_iff, List.forall₂_map_right_iff] at hmap
  obtain ⟨hlength, hzip⟩ := List.forall₂_iff_zip.mp hmap
  refine List.forall₂_iff_zip.mpr ⟨hlength, fun hmem => ?_⟩
  exact h.child (hzip hmem) (List.of_mem_zip hmem).1 (List.of_mem_zip hmem).2

theorem mirrored (h : SameBut f g root root' n n') :
    n.Mirrored (SameBut f g root root') (SameBut f g root root') n' :=
  ⟨h, h.kind_eq, h.children⟩

end SameBut

end Legacy.Node

namespace Canonical

mutual

def Tree.mapSpans (f : Span → Span) : Tree → Tree
  | .mk kind fields location => .mk kind (fields.mapSpans f) (f location)

def Fields.mapSpans (f : Span → Span) : {fields : List Field} → Fields fields → Fields fields
  | _, .nil => .nil
  | _, .cons value values => .cons (value.mapSpans f) (values.mapSpans f)

def Value.mapSpans (f : Span → Span) : {sort : FieldSort} → Value sort → Value sort
  | _, .span s => .span (f s)
  | _, .tree t => .tree (t.mapSpans f)
  | _, .optTree none => .optTree none
  | _, .optTree (some t) => .optTree (some (t.mapSpans f))
  | _, .trees ts => .trees (Tree.mapSpansList f ts)
  | _, .name n => .name n
  | _, .optName n => .optName n
  | _, .names ns => .names ns
  | _, .flags w => .flags w
  | _, .nat n => .nat n
  | _, .int i => .int i
  | _, .float x => .float x
  | _, .text s => .text s

def Tree.mapSpansList (f : Span → Span) : List Tree → List Tree
  | [] => []
  | t :: ts => t.mapSpans f :: Tree.mapSpansList f ts

end

theorem Value.mapSpans_of_isFixed {f : Span → Span} {sort : FieldSort} (h : sort.isFixed = true)
    (v : Value sort) : v.mapSpans f = v := by
  cases v with
  | span | tree | optTree | trees => cases h
  | _ => rfl

mutual

theorem Tree.mapSpans_id : (t : Tree) → t.mapSpans id = t
  | .mk kind fields location => by rw [Tree.mapSpans, Fields.mapSpans_id fields, id]

theorem Fields.mapSpans_id : {fields : List Field} → (fs : Fields fields) → fs.mapSpans id = fs
  | _, .nil => rfl
  | _, .cons value values => by
    rw [Fields.mapSpans, Value.mapSpans_id value, Fields.mapSpans_id values]

theorem Value.mapSpans_id : {sort : FieldSort} → (v : Value sort) → v.mapSpans id = v
  | _, .span _ => rfl
  | _, .tree t => congrArg Value.tree t.mapSpans_id
  | _, .optTree none => rfl
  | _, .optTree (some t) => congrArg (Value.optTree ∘ some) t.mapSpans_id
  | _, .trees ts => congrArg Value.trees (Tree.mapSpansList_id ts)
  | _, .name _ | _, .optName _ | _, .names _ | _, .flags _ => rfl
  | _, .nat _ | _, .int _ | _, .float _ | _, .text _ => rfl

theorem Tree.mapSpansList_id : (ts : List Tree) → Tree.mapSpansList id ts = ts
  | [] => rfl
  | t :: ts => by rw [Tree.mapSpansList, t.mapSpans_id, Tree.mapSpansList_id ts]

end

def Tree.eraseSpans (t : Tree) : Tree := t.mapSpans fun _ => .null

end Canonical

namespace Fault

def mapPosition (f : Position → Position) : Fault → Fault
  | .notSupported kind position => .notSupported kind (f position)
  | .unexpected expected kind position => .unexpected expected kind (f position)

def erasePosition (e : Fault) : Fault := e.mapPosition fun _ => default

end Fault

/-- Maps of positions and spans under which nodes that correspond come to lie at the same place. -/
structure Coupling.Placement (k : Coupling) where
  position : Position → Position
  position' : Position → Position
  span : Span → Span
  span' : Span → Span
  positions : ∀ n n', k.nodes n n' → position n.position = position' n'.position
  null : span .null = span' .null
  located : ∀ n n' s s', k.Located n n' s s' → span s = span' s'
  cover : ∀ s s' u u', span s = span' s' → span u = span' u' →
    span (s.cover u) = span' (s'.cover u')

/-- Maps of positions and spans under which two conversions become the same. -/
structure Coupling.Alignment (k : Coupling) extends k.Placement where
  frozen : k.options'.frozenStringLiteral = k.options.frozenStringLiteral
  tight : ¬k.Loose := by exact fun h => h.2 rfl

namespace Coupling.Placement

variable {k : Coupling} (a : k.Placement)

theorem spans {s s' : Span} (h : k.Spans s s') : a.span s = a.span' s' := by
  rcases h with ⟨rfl, rfl⟩ | ⟨n, n', h⟩
  · exact a.null
  · exact a.located n n' s s' h

theorem pair {t t' : Tree} {list list' : Node} {i : Nat} (hlist : k.Pairs list list')
    (h : t.IsPair k.lines k.options list i) (h' : t'.IsPair k.lines' k.options' list' i) :
    a.span t.location = a.span' t'.location := by
  have hmirrored := (k.mirroring list list' hlist.nodes).opened (by rw [hlist.kind]; rfl)
  obtain ⟨key, value, _, _, _, s, u, hkey, hvalue, hs, hu, _, _, rfl⟩ := h
  obtain ⟨key', value', _, _, _, s', u', hkey', hvalue', hs', hu', _, _, rfl⟩ := h'
  have hkeys := hmirrored.child (2 * i)
  have hvalues := hmirrored.child (2 * i + 1)
  rw [hkey, hkey'] at hkeys
  rw [hvalue, hvalue'] at hvalues
  exact a.cover s s' u u' (a.located key key' s s' ⟨hkeys.of_node, hs, hs'⟩)
    (a.located value value' u u' ⟨hvalues.of_node, hu, hu'⟩)

theorem locations {t t' : Tree} (h : k.Locations t t') :
    a.span t.location = a.span' t'.location := by
  unfold Coupling.Locations at h
  split at h
  · obtain ⟨list, list', i, hlist, hpair, hpair'⟩ := h
    exact a.pair hlist hpair hpair'
  · exact a.spans h

theorem inner {t t' : Tree} {label : String} {s s' : Span} (ht : k.Locations t t')
    (h : k.Inner t t' label s s') : a.span s = a.span' s' := by
  unfold Coupling.Inner at h
  split_ifs at h
  · obtain ⟨rfl, rfl⟩ := h
    exact a.locations ht
  · obtain ⟨n, n', _, h, _⟩ := h
    exact a.located n n' s s' h
  · obtain ⟨rfl, rfl⟩ := h
    exact a.null

theorem fault {e e' : Fault} (h : e.Mirrored k.nodes e') :
    e.mapPosition a.position = e'.mapPosition a.position' := by
  cases h with
  | @notSupported n n' h _ =>
    have hkind := (k.mirroring n n' h).kind
    simp only [Node.notSupported, Fault.mapPosition, hkind, a.positions n n' h]
  | @unexpected n n' h expected _ =>
    have hkind := (k.mirroring n n' h).kind
    simp only [Node.unexpected, Fault.mapPosition, hkind, a.positions n n' h]

end Coupling.Placement

theorem Coupling.Words.eq {k : Coupling} {t t' : Tree} {f f' : Flags} (h : k.Words t t' f f')
    (hfrozen : k.options'.frozenStringLiteral = k.options.frozenStringLiteral) : f' = f := by
  unfold Coupling.Words at h
  split_ifs at h
  · rcases h with ⟨_, _, _, _, _, _, _, rfl, rfl⟩ | ⟨_, _, _, _, _, _, _, _, _, _, _, rfl, rfl⟩
    · rw [Options.stringFlags, Options.stringFlags, hfrozen]
    · rfl
  · rw [h.1, h.2]
  · exact h

namespace Canonical

section

variable {f f' : Span → Span}

def Tree.Mapped (f f' : Span → Span) (t t' : Tree) : Prop := t.mapSpans f = t'.mapSpans f'

theorem Tree.mapSpansList_eq {ts ts' : List Tree} (h : List.Forall₂ (Tree.Mapped f f') ts ts') :
    Tree.mapSpansList f ts = Tree.mapSpansList f' ts' := by
  induction h with
  | nil => rfl
  | cons h _ ih =>
    unfold Tree.Mapped at h
    rw [Tree.mapSpansList, Tree.mapSpansList, h, ih]

theorem Value.Related.mapSpans_eq {S : Span → Span → Prop} {F : Flags → Flags → Prop}
    {sort : FieldSort} {v w : Value sort} (hS : ∀ s s', S s s' → f s = f' s')
    (hF : ∀ g g', F g g' → g' = g) (h : Value.Related (Tree.Mapped f f') S F v w) :
    v.mapSpans f = w.mapSpans f' := by
  cases h with
  | span h => exact congrArg Value.span (hS _ _ h)
  | flags h => exact congrArg Value.flags (hF _ _ h).symm
  | tree h => exact congrArg Value.tree h
  | optTree h =>
    cases h with
    | none => rfl
    | some h => exact congrArg (Value.optTree ∘ some) h
  | trees h => exact congrArg Value.trees (Tree.mapSpansList_eq h)
  | fixed h => rw [Value.mapSpans_of_isFixed h, Value.mapSpans_of_isFixed h]

theorem Fields.Related.mapSpans_eq {S : String → Span → Span → Prop} {F : Flags → Flags → Prop}
    {fields : List Field} {fs gs : Fields fields}
    (hS : ∀ label s s', S label s s' → f s = f' s') (hF : ∀ g g', F g g' → g' = g)
    (h : Fields.Related (Tree.Mapped f f') S F fs gs) : fs.mapSpans f = gs.mapSpans f' := by
  induction fields with
  | nil =>
    cases h
    rfl
  | cons field rest ih =>
    cases h with
    | cons value values =>
      rw [Fields.mapSpans, Fields.mapSpans, value.mapSpans_eq (hS _) hF, ih values]

end

theorem Tree.Mirrored.mapSpans_eq {k : Coupling} (a : k.Alignment) {t t' : Tree}
    (h : t.Mirrored k t') : t.mapSpans a.span = t'.mapSpans a.span' := by
  refine h.induct (motive := Tree.Mapped a.span a.span') a.tight ?_
  intro kind fs gs s s' fields location
  have hfields : fs.mapSpans a.span = gs.mapSpans a.span' :=
    fields.mapSpans_eq (fun _ _ _ h => a.inner location h) fun _ _ h => h.eq a.frozen
  unfold Tree.Mapped
  rw [Tree.mapSpans, Tree.mapSpans, hfields]
  exact congrArg (Tree.mk kind _) (a.locations location)

end Canonical

namespace Coupling.Alignment

variable {k : Coupling} (a : k.Alignment)

end Coupling.Alignment

def Coupling.Placement.unmoved {k : Coupling}
    (positions : ∀ n n', k.nodes n n' → n.position = n'.position)
    (located : ∀ n n' s s', k.Located n n' s s' → s = s') : k.Placement where
  position := id
  position' := id
  span := id
  span' := id
  positions := positions
  null := rfl
  located := located
  cover s s' u u' hs hu := by
    subst hs hu
    rfl

def Coupling.Placement.beside (lines : LineTable) (options options' : Options) (root : Node)
    (hunwrap : options'.unwrapIntegerFlipFlop = options.unwrapIntegerFlipFlop) :
    (Coupling.beside lines options options' root hunwrap).Placement := by
  refine .unmoved (fun n n' h => by rw [h.1]) fun n n' s s' h => ?_
  obtain ⟨⟨rfl, _⟩, hs, hs'⟩ := h
  exact Except.ok.inj (hs.symm.trans hs')

/-- Forgetting all positions and spans. -/
def Coupling.Alignment.forget {k : Coupling}
    (frozen : k.options'.frozenStringLiteral = k.options.frozenStringLiteral)
    (tight : ¬k.Loose := by exact fun h => h.2 rfl) : k.Alignment where
  position _ := default
  position' _ := default
  span _ := .null
  span' _ := .null
  positions _ _ _ := rfl
  null := rfl
  located _ _ _ _ _ := rfl
  cover _ _ _ _ _ _ := rfl
  frozen := frozen
  tight := tight

/-- Conversions of two trees that become equal when their positions are mapped. -/
def Coupling.sameBut (f g : Position → Position) (lines lines' : LineTable) (options : Options)
    (root root' : Node)
    (resolves : ∀ n n', Node.SameBut f g root root' n n' →
      (lines.span n).isOk = (lines'.span n').isOk) : Coupling where
  lines := lines
  lines' := lines'
  options := options
  options' := options
  nodes := Node.SameBut f g root root'
  mirroring := Node.mirroring_of_unwrap rfl fun _ _ h => h.mirrored
  resolves n n' h := LineTable.span_mirrored h (resolves n n' h)

/-- Each position tells nothing or lies in the source. -/
def LineTable.Resolves (lines : LineTable) (positions : List Position) : Prop :=
  ∀ p ∈ positions, p.isDegenerate = true ∨ (lines.span? p).isSome = true

instance (lines : LineTable) (positions : List Position) :
    Decidable (lines.Resolves positions) :=
  inferInstanceAs (Decidable (∀ p ∈ positions, _))

theorem LineTable.Resolves.span_isOk {lines : LineTable} {root n : Node}
    (h : lines.Resolves root.positions) (hn : root.Contains n) : (lines.span n).isOk = true := by
  unfold LineTable.span
  split
  · rfl
  · next hdegenerate =>
    rcases h n.position hn.position_mem with hp | hp
    · exact absurd hp hdegenerate
    · obtain ⟨s, hs⟩ := Option.isSome_iff_exists.mp hp
      rw [hs]
      rfl

namespace Legacy.Node

variable {lines lines' : LineTable} {options : Options} {root root' : Node}

/-- Trees that differ in positions only are converted to trees that differ in spans only, or are
refused for the same reason. -/
theorem program_erased (hroots : root.erasePositions = root'.erasePositions)
    (hlines : lines.Resolves root.positions) (hlines' : lines'.Resolves root'.positions) :
    (∃ t t', root.program lines options = .ok t ∧ root'.program lines' options = .ok t' ∧
        t.eraseSpans = t'.eraseSpans) ∨
      ∃ e e', root.program lines options = .error e ∧ root'.program lines' options = .error e' ∧
        e.erasePosition = e'.erasePosition := by
  let k : Coupling := .sameBut (fun _ => default) (fun _ => default) lines lines' options root root'
    (fun n n' h => by rw [hlines.span_isOk h.2.1, hlines'.span_isOk h.2.2])
  let forget : k.Alignment := .forget rfl
  have hsteps : k.Steps (Tree.Mirrored k) (root.program lines options)
      (root'.program lines' options) := k.program_mirrored ⟨hroots, .root, .root⟩
  generalize root.program lines options = x at hsteps ⊢
  generalize root'.program lines' options = y at hsteps ⊢
  cases hsteps with
  | ok h => exact .inl ⟨_, _, rfl, rfl, h.mapSpans_eq forget⟩
  | error h => exact .inr ⟨_, _, rfl, rfl, forget.fault h⟩

/-- `{a => b}`, with the positions of the whole, of `a` and of `b`. -/
def pairAt (whole key value : Position) : Node :=
  let pair := Build.list [Build.named .VCALL ⟨"a"⟩ key, Build.named .VCALL ⟨"b"⟩ value] whole
  Build.scope (.table []) none (some (.make .HASH [.node pair] whole)) whole

def pairOnOneLine : Node := pairAt ⟨1, 0, 1, 8⟩ ⟨1, 1, 1, 2⟩ ⟨1, 6, 1, 7⟩

/-- Begins in the middle of a line, and nothing is known of `a`. -/
def pairOnTwoLines : Node := pairAt ⟨1, 4, 2, 2⟩ default ⟨2, 0, 2, 1⟩

theorem program_erased_pair :
    ∃ t t', pairOnOneLine.program ⟨[0], 8⟩ {} = .ok t ∧
      pairOnTwoLines.program ⟨[0, 10], 12⟩ {} = .ok t' ∧ t.eraseSpans = t'.eraseSpans := by
  have hroots : pairOnOneLine.erasePositions = pairOnTwoLines.erasePositions := rfl
  have hone : LineTable.Resolves ⟨[0], 8⟩ pairOnOneLine.positions := by decide
  have htwo : LineTable.Resolves ⟨[0, 10], 12⟩ pairOnTwoLines.positions := by decide
  refine (program_erased hroots hone htwo).resolve_right ?_
  rintro ⟨e, _, he, _⟩
  obtain ⟨t, ht⟩ : ∃ t, pairOnOneLine.program ⟨[0], 8⟩ {} = .ok t := ⟨_, rfl⟩
  rw [ht] at he
  cases he

end Legacy.Node

end RubyTree
