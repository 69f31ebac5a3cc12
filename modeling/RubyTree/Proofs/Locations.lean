import RubyTree.Proofs.CoupledPrograms

/-! Where the spans of a canonical tree come from. A node is located at the legacy node that it was
converted from; some nodes borrow the span of another one, and a pair covers two. No span leaves the
source, and none is made up. -/

namespace RubyTree

open Canonical
open Legacy (Node)

namespace Canonical.Tree

variable {l : Span}

@[simp] theorem location_write (value : Tree) (v : Variable) : (write value l v).location = l := by
  cases v <;> rfl

@[simp] theorem location_andWrite (value : Tree) (v : Variable) :
    (andWrite value l v).location = l := by
  cases v <;> rfl

@[simp] theorem location_orWrite (value : Tree) (v : Variable) :
    (orWrite value l v).location = l := by
  cases v <;> rfl

@[simp] theorem location_constantPathOpWrite (operator : Name) (target value : Tree) :
    (constantPathOpWrite operator target value l).location = l := by
  unfold constantPathOpWrite
  split_ifs <;> rfl

@[simp] theorem location_callOpWrite (operator : Name) (flags : Flags) (receiver value : Tree)
    (readName writeName : Name) :
    (callOpWrite operator flags receiver readName writeName value l).location = l := by
  unfold callOpWrite
  split_ifs <;> rfl

@[simp] theorem location_indexOpWrite (operator : Name) (receiver value : Tree)
    (arguments block : Option Tree) :
    (indexOpWrite operator receiver arguments block value l).location = l := by
  unfold indexOpWrite
  split_ifs <;> rfl

@[simp] theorem location_withLocation (t : Tree) : (t.withLocation l).location = l := by
  cases t
  rfl

theorem location_of_once? {t u : Tree} (h : once? l t = some u) : u.location = l := by
  obtain ⟨kind, fields, _⟩ := t
  cases kind with
  | interpolatedRegularExpressionNode =>
    rcases fields with _ | ⟨_ | _ | _ | _ | flags, rest⟩
    cases h
    rfl
  | _ => cases h

end Canonical.Tree

namespace Context

variable {c : Context} {n : Node} {o : Option Node} {pending : Option Tree} {l : Span}

theorem numeric?_location {value : Literal} {t : Tree} (h : numeric? l value = some t) :
    t.location = l := by
  cases value <;> cases h <;> rfl

theorem literal_location (value : Literal) : Yields (c.literal n value l) (·.location = l) := by
  unfold Context.literal
  split
  case h_1 | h_2 | h_3 =>
    split
    · next ht => exact .pure (numeric?_location ht)
    · exact .throw
  case h_4 =>
    split
    · exact .pure rfl
    · exact .throw
  case h_10 => exact .throw
  all_goals exact .pure rfl

theorem pair_location {left right : Option Node} :
    Yields (c.pair n left right l) (·.location = l) := by
  unfold Context.pair
  split
  case h_7 | h_8 => exact .after fun _ _ => .after fun _ _ => .pure rfl
  case h_9 => exact .throw
  all_goals exact .after fun _ _ => .after fun _ _ => .pure rfl

theorem wrapper_location : Yields (c.wrapper n o l) (·.location = l) := by
  unfold Context.wrapper
  split
  · refine .after fun t _ => ?_
    split
    · next hu => exact .pure (Tree.location_of_once? hu)
    · exact .throw
  · exact .after fun _ _ => .pure rfl
  · cases o with
    | none => exact .throw
    | some scope => exact .after fun _ _ => .after fun _ _ => .pure rfl
  · cases o with
    | none => exact .throw
    | some scope => exact .after fun _ _ => .pure rfl
  · exact .after fun _ _ => .after fun _ _ => .pure rfl
  · exact .throw

theorem shaped_location {shape : Legacy.Shape} :
    Yields (c.shaped n pending l shape) (·.location = l) := by
  cases shape with
  | block => exact .after fun _ _ => .pure rfl
  | conditional =>
    refine .after fun _ _ => .after fun _ _ => ?_
    split
    · exact .after fun _ _ => .pure rfl
    · exact .after fun _ _ => .pure rfl
  | case => exact .after fun _ _ => .after fun _ _ => .pure rfl
  | loop =>
    refine .after fun _ _ => .after fun _ _ => ?_
    dsimp only
    split
    · exact .pure rfl
    · exact .pure rfl
  | iter => exact .after fun _ _ => .after fun _ _ => .pure (by simp)
  | forIn =>
    refine .after fun (_, args, _) _ => ?_
    cases args with
    | none => exact .throw
    | some args =>
      exact .after fun _ _ => .after fun _ _ => .after fun _ _ => .after fun _ _ =>
        .after fun _ _ => .pure rfl
  | jump =>
    refine .after fun _ _ => ?_
    dsimp only
    split
    · exact .pure rfl
    · exact .pure rfl
    · exact .pure rfl
  | begin => exact .after fun _ _ => .pure rfl
  | rescue => exact .after fun _ _ => .pure rfl
  | ensure => exact .after fun _ _ => .pure rfl
  | pair => exact pair_location
  | multiAssign =>
    exact .after fun _ _ => .after fun _ _ => .after fun _ _ => .after fun _ _ =>
      .after fun _ _ => .pure rfl
  | assign name value required =>
    cases required with
    | true => exact .throw
    | false =>
      refine .after fun _ _ => ?_
      split
      · exact .pure (by simp)
      · exact .throw
  | constPathAssign => exact .after fun _ _ => .after fun _ _ => .pure rfl
  | indexOpAssign =>
    exact .after fun _ _ => .after fun _ _ => .after fun _ _ => .pure (by simp)
  | attrOpAssign => exact .after fun _ _ => .after fun _ _ => .pure (by simp)
  | conditionalAssign =>
    refine .after fun _ _ => ?_
    split
    · refine .after fun _ _ => ?_
      split
      · split
        · exact .pure (by simp)
        · exact .pure (by simp)
      · exact .throw
    · exact .throw
  | constOpAssign => exact .after fun _ _ => .after fun _ _ => .pure (by simp)
  | call => exact .after fun _ _ => .after fun _ _ => .pure rfl
  | invoke =>
    refine .after fun _ _ => ?_
    dsimp only
    split
    · exact .pure rfl
    · split
      · exact .throw
      · exact .pure rfl
  | list => exact .after fun _ _ => .after fun _ _ => .pure rfl
  | hash => exact .after fun _ _ => .pure rfl
  | variableName =>
    simp only [Context.shaped, Context.read]
    split
    case h_7 =>
      split
      · exact .pure rfl
      · exact .throw
    case h_9 => exact .throw
    all_goals exact .pure rfl
  | literal value => exact literal_location value
  | symbol => exact .pure rfl
  | interpolation =>
    refine .after fun _ _ => ?_
    split
    · exact .pure rfl
    · exact .pure rfl
    · exact .pure rfl
    · exact .pure rfl
  | wrapper => exact wrapper_location
  | matchOperator _ _ captures =>
    refine .after fun _ _ => .after fun _ _ => .after fun _ _ => ?_
    cases captures with
    | none => exact .pure rfl
    | some captures => exact .after fun _ _ => .after fun _ _ => .pure rfl
  | definition =>
    exact .after fun _ _ => .after fun _ _ => .after fun _ _ => .after fun _ _ => .pure rfl
  | «alias» => exact .after fun _ _ => .after fun _ _ => .pure rfl
  | globalAlias => exact .pure rfl
  | undef => exact .after fun _ _ => .pure rfl
  | classDefinition => exact .after fun _ _ => .after fun _ _ => .after fun _ _ => .pure rfl
  | moduleDefinition => exact .after fun _ _ => .after fun _ _ => .pure rfl
  | singletonClass => exact .after fun _ _ => .after fun _ _ => .pure rfl
  | colon => exact .after fun _ _ => .pure rfl
  | leaf =>
    simp only [Context.shaped, Context.leaf]
    split
    case h_10 => exact .throw
    all_goals exact .pure rfl
  | _ => exact .throw

end Context

theorem Legacy.Node.convert_location {lines : LineTable} {options : Options} {scope : Scope}
    {n : Node} {pending : Option Tree} {t : Tree}
    (h : n.convert lines options scope pending = .ok t) : lines.span n = .ok t.location := by
  unfold Legacy.Node.convert at h
  cases hb : n.height with
  | zero =>
    have := n.height_pos
    omega
  | succ bound =>
    rw [hb, Legacy.Node.convertWithin, Context.step] at h
    split at h
    · cases h
    · obtain ⟨l, hl, h⟩ := bind_eq_ok_iff.mp h
      obtain ⟨shape, _, h⟩ := bind_eq_ok_iff.mp h
      rw [Context.shaped_location t h]
      exact hl

/-! Bounds. -/

theorem Span.stop_null_le (bound : Nat) : Span.null.stop ≤ bound := Nat.zero_le _

theorem Span.stop_cover_le {s t : Span} {bound : Nat} (hs : s.stop ≤ bound)
    (ht : t.stop ≤ bound) : (s.cover t).stop ≤ bound := by
  unfold Span.cover
  split
  · exact ht
  · split
    · exact hs
    · simp only [Span.ofBounds, Span.stop] at hs ht ⊢
      omega

theorem LineTable.span_eq_ok_iff {lines : LineTable} {n : Node} {s : Span} : lines.span n = .ok s ↔
    if n.position.isDegenerate = true then s = .null else lines.span? n.position = some s := by
  unfold LineTable.span
  split
  · exact ⟨fun h => (Except.ok.inj h).symm, fun h => congrArg Except.ok h.symm⟩
  · cases lines.span? n.position with
    | none => exact ⟨nofun, nofun⟩
    | some u =>
      refine ⟨fun h => congrArg some (Except.ok.inj h), fun h => ?_⟩
      exact congrArg Except.ok (Option.some.inj h)

theorem LineTable.stop_le_length {lines : LineTable} {n : Node} {s : Span}
    (h : lines.span n = .ok s) : s.stop ≤ lines.length := by
  unfold LineTable.span at h
  split at h
  · cases h
    exact Span.stop_null_le _
  · split at h
    · next t ht =>
      cases h
      simp only [LineTable.span?, Option.bind_eq_bind, Option.bind_eq_some_iff] at ht
      obtain ⟨start, _, stop, _, ht⟩ := ht
      split at ht
      · next hle =>
        cases ht
        simp only [Span.ofBounds, Span.stop]
        omega
      · cases ht
    · cases h

namespace Canonical

def Value.span? : {sort : FieldSort} → Value sort → Option Span
  | _, .span s => some s
  | _, _ => none

def Fields.Holds : {fields : List Field} → Fields fields → String → Span → Prop
  | _, .nil, _, _ => False
  | field :: _, .cons value values, label, s =>
    label = field.label ∧ value.span? = some s ∨ values.Holds label s

namespace Tree

def Holds : Tree → String → Span → Prop
  | .mk _ fields _, label, s => fields.Holds label s

/-- The spans of a node, and where in the legacy tree they come from. -/
structure Sourced (run : Run) (u : Tree) : Prop where
  location_le : u.location.stop ≤ run.lines.length
  inner_le : ∀ label s, u.Holds label s → s.stop ≤ run.lines.length
  location : if u.kind = .assocNode then
      ∃ list i, run.root.Contains list ∧ u.IsPair run.lines run.options list i
    else u.location = .null ∨ ∃ m, run.root.Contains m ∧ run.lines.span m = .ok u.location
  inner : ∀ label s, u.Holds label s →
    if u.isBareJump = true ∧ label = "keyword_loc" then s = u.location
    else if u.isVariableCall = true ∧ label = "message_loc" then
      ∃ n name, run.root.Contains n ∧ n.kind = .VCALL ∧ n.name 0 = .ok name ∧
        u.name? = some name ∧ run.lines.span n = .ok s
    else s = .null

end Tree

section

variable {R : Tree → Tree → Prop}

theorem Value.Related.of_child {S : Span → Span → Prop} {F : Flags → Flags → Prop}
    {sort : FieldSort} {v w : Value sort} (h : Value.Related R S F v w) {u : Tree}
    (hu : v.Child u) : ∃ u', R u u' := by
  cases h with
  | span _ => cases hu
  | flags _ => cases hu
  | tree h =>
    cases hu
    exact ⟨_, h⟩
  | optTree h =>
    cases h with
    | none => cases hu
    | some h =>
      cases hu
      exact ⟨_, h⟩
  | trees h =>
    change u ∈ _ at hu
    induction h with
    | nil => cases hu
    | cons h _ ih =>
      rcases List.mem_cons.mp hu with rfl | hu
      · exact ⟨_, h⟩
      · exact ih hu
  | fixed hfixed =>
    cases v with
    | tree | optTree | trees => cases hfixed
    | _ => cases hu

theorem Value.Related.of_span? {S : Span → Span → Prop} {F : Flags → Flags → Prop}
    {sort : FieldSort} {v w : Value sort} (h : Value.Related R S F v w) {s : Span}
    (hs : v.span? = some s) : ∃ s', S s s' := by
  cases h with
  | span h =>
    cases hs
    exact ⟨_, h⟩
  | fixed hfixed =>
    cases v with
    | span => cases hfixed
    | _ => cases hs
  | _ => cases hs

variable {S : String → Span → Span → Prop} {F : Flags → Flags → Prop}
  {fields : List Field} {fs gs : Fields fields} {label : String}

theorem Fields.Related.of_child (h : Fields.Related R S F fs gs) {u : Tree}
    (hu : fs.Child label u) : ∃ u', R u u' := by
  induction fields with
  | nil =>
    cases h
    cases hu
  | cons field rest ih =>
    cases h with
    | cons value values =>
      rcases hu with ⟨_, hu⟩ | hu
      · exact value.of_child hu
      · exact ih values hu

theorem Fields.Related.of_holds (h : Fields.Related R S F fs gs) {s : Span}
    (hs : fs.Holds label s) : ∃ s', S label s s' := by
  induction fields with
  | nil =>
    cases h
    cases hs
  | cons field rest ih =>
    cases h with
    | cons value values =>
      rcases hs with ⟨rfl, hs⟩ | hs
      · exact value.of_span? hs
      · exact ih values hs

theorem Tree.Mirrored.of_contains {k : Coupling} {t t' u : Tree} (h : t.Mirrored k t')
    (hu : t.Contains u) (htight : ¬k.Loose := by exact fun h => h.2 rfl) :
    ∃ u', u.Mirrored k u' := by
  induction hu with
  | root => exact ⟨t', h⟩
  | child _ hu ih =>
    obtain ⟨u', hm⟩ := ih
    cases hm with
    | mk fields _ => exact fields.of_child hu
    | flipFlop hloose => exact absurd hloose htight

end

end Canonical

namespace Legacy.Node

def Diagonal (root n n' : Node) : Prop := n' = n ∧ root.Contains n

theorem Diagonal.mirrored {root n n' : Node} (h : root.Diagonal n n') :
    n.Mirrored root.Diagonal root.Diagonal n' := by
  obtain ⟨rfl, hn⟩ := h
  refine ⟨⟨rfl, hn⟩, rfl, List.forall₂_same.mpr fun child hchild => ?_⟩
  cases child with
  | node m => exact .node ⟨rfl, .child hn hchild⟩
  | _ => exact .same nofun

end Legacy.Node

/-- Two conversions of the same tree, which unwrap the operands of flip-flops alike. -/
def Coupling.beside (lines : LineTable) (options options' : Options) (root : Node)
    (hunwrap : options'.unwrapIntegerFlipFlop = options.unwrapIntegerFlipFlop) : Coupling where
  lines := lines
  lines' := lines
  options := options
  options' := options'
  nodes := root.Diagonal
  mirroring := Legacy.Node.mirroring_of_unwrap hunwrap fun _ _ h => h.mirrored
  resolves n n' h := LineTable.span_mirrored h (by rw [h.1])

def Canonical.Run.diagonal (run : Run) : Coupling :=
  .beside run.lines run.options run.options run.root rfl

namespace Canonical.Tree

variable {run : Run} {t t' : Tree}

theorem IsPair.stop_le {lines : LineTable} {options : Options} {list : Node} {i : Nat}
    (h : t.IsPair lines options list i) : t.location.stop ≤ lines.length := by
  obtain ⟨key, value, _, _, _, _, _, _, _, hkey, hvalue, _, _, rfl⟩ := h
  exact Span.stop_cover_le (lines.stop_le_length hkey) (lines.stop_le_length hvalue)

theorem location_of_mirrored (h : t.Mirrored run.diagonal t') :
    if t.kind = .assocNode then
      ∃ list i, run.root.Contains list ∧ t.IsPair run.lines run.options list i
    else t.location = .null ∨ ∃ m, run.root.Contains m ∧ run.lines.span m = .ok t.location := by
  cases h with
  | @mk kind fs gs s s' _ location =>
    unfold Coupling.Locations at location
    split_ifs at location ⊢ with hkind
    · obtain ⟨list, _, i, hlist, hpair, _⟩ := location
      exact ⟨list, i, hlist.nodes.2, hpair⟩
    · rcases location with ⟨hnull, _⟩ | ⟨n, _, ⟨_, hn⟩, hs, _⟩
      · exact .inl hnull
      · exact .inr ⟨n, hn, hs⟩
  | flipFlop hloose => exact absurd rfl hloose.2

theorem inner_of_mirrored (h : t.Mirrored run.diagonal t') {label : String} {s : Span}
    (hs : t.Holds label s) :
    if t.isBareJump = true ∧ label = "keyword_loc" then s = t.location
    else if t.isVariableCall = true ∧ label = "message_loc" then
      ∃ n name, run.root.Contains n ∧ n.kind = .VCALL ∧ n.name 0 = .ok name ∧
        t.name? = some name ∧ run.lines.span n = .ok s
    else s = .null := by
  cases h with
  | mk fields _ =>
    obtain ⟨s', hinner⟩ := fields.of_holds hs
    unfold Coupling.Inner at hinner
    split_ifs at hinner ⊢
    · exact hinner.1
    · obtain ⟨n, _, name, ⟨⟨_, hn⟩, hspan, _⟩, hkind, hname, hcall⟩ := hinner
      exact ⟨n, name, hn, hkind, hname, hcall, hspan⟩
    · exact hinner.1
  | flipFlop hloose => exact absurd rfl hloose.2

theorem Mirrored.sourced (h : t.Mirrored run.diagonal t') : t.Sourced run := by
  have hlocation := location_of_mirrored h
  have hle : t.location.stop ≤ run.lines.length := by
    split_ifs at hlocation
    · obtain ⟨list, i, _, hpair⟩ := hlocation
      exact hpair.stop_le
    · rcases hlocation with hnull | ⟨m, _, hm⟩
      · rw [hnull]
        exact Span.stop_null_le _
      · exact run.lines.stop_le_length hm
  refine ⟨hle, fun label s hs => ?_, hlocation, fun label s => inner_of_mirrored h⟩
  have hinner := inner_of_mirrored h hs
  split_ifs at hinner
  · exact hinner ▸ hle
  · obtain ⟨n, _, _, _, _, _, hspan⟩ := hinner
    exact run.lines.stop_le_length hspan
  · exact hinner ▸ Span.stop_null_le _

end Canonical.Tree

namespace Legacy.Node

variable {lines : LineTable} {options : Options} {root : Node} {t : Tree}

/-- The spans of a program are those of legacy nodes, and lie in the source. -/
theorem program_sourced (h : root.program lines options = .ok t) :
    (∀ u, t.Contains u → u.Sourced ⟨lines, options, root⟩) ∧
      ∀ scope n pending r, convert lines options scope n pending = .ok r →
        lines.span n = .ok r.location := by
  refine ⟨fun u hu => ?_, fun scope n pending r => convert_location⟩
  let run : Run := ⟨lines, options, root⟩
  have hroot : run.diagonal.Steps (Tree.Mirrored run.diagonal) (root.program lines options)
      (root.program lines options) := run.diagonal.program_mirrored ⟨rfl, .root⟩
  rw [h] at hroot
  cases hroot with
  | ok hroot =>
    obtain ⟨u', hu'⟩ := hroot.of_contains hu
    exact hu'.sourced

/-- `{a => 1}` on the first line and `b { break }` on the second. -/
def pairAndJump : Node :=
  let pair := Build.list
    [Build.named .VCALL ⟨"a"⟩ ⟨1, 1, 1, 2⟩, Build.int 1 ⟨1, 6, 1, 7⟩] ⟨1, 1, 1, 7⟩
  let block := Build.scope (.table []) none (some (.make .BREAK [.nil] ⟨2, 4, 2, 9⟩)) ⟨2, 2, 2, 11⟩
  Build.scope (.table []) none
    (some (Build.block
      [.make .HASH [.node pair] ⟨1, 0, 1, 8⟩,
        .make .ITER [.node (Build.named .VCALL ⟨"b"⟩ ⟨2, 0, 2, 1⟩), .node block] ⟨2, 0, 2, 11⟩]
      ⟨1, 0, 2, 11⟩))
    ⟨1, 0, 2, 11⟩

theorem program_sourced_pairAndJump :
    ∃ t, pairAndJump.program ⟨[0, 9], 21⟩ {} = .ok t ∧
      (∀ u, t.Contains u → u.Sourced ⟨⟨[0, 9], 21⟩, {}, pairAndJump⟩) ∧
      ∀ scope n pending r, convert ⟨[0, 9], 21⟩ {} scope n pending = .ok r →
        LineTable.span ⟨[0, 9], 21⟩ n = .ok r.location := by
  obtain ⟨t, ht⟩ : ∃ t, pairAndJump.program ⟨[0, 9], 21⟩ {} = .ok t := ⟨_, rfl⟩
  exact ⟨t, ht, program_sourced ht⟩

end Legacy.Node

end RubyTree
