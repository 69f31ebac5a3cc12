import RubyTree.Proofs.Everywhere
import RubyTree.Proofs.Operands

/-! Two conversions of legacy trees that mirror each other give canonical trees that differ in their
spans, and in what the options of the two sides ask for, at most. Where a span of the one tree comes
from, the span of the other at the same place comes from the corresponding node. -/

namespace RubyTree

open Legacy (Node)

namespace Canonical

namespace Kind

def isJump : Kind → Bool
  | breakNode | nextNode | returnNode => true
  | _ => false

def hasStringFlags : Kind → Bool
  | stringNode | xStringNode | interpolatedStringNode | sourceFileNode => true
  | _ => false

/-- Nodes whose location says something about their fields. -/
def ownsLocation (kind : Kind) : Bool := kind.isJump || kind == assocNode || kind == stringNode

/-- Nodes without known spans in their fields, located at one node of the legacy tree, with flags
that no option changes. -/
def isPlain : Kind → Bool
  | callNode => false
  | kind => !kind.hasStringFlags && !kind.ownsLocation

end Kind

namespace Value

def text? : {sort : FieldSort} → Value sort → Option String
  | _, .text s => some s
  | _, _ => none

def isAbsent? : {sort : FieldSort} → Value sort → Option Bool
  | _, .optTree o => some o.isNone
  | _, _ => none

end Value

namespace Tree

def isBareJump : Tree → Bool
  | .mk kind fields _ => kind.isJump && fields.get? Value.isAbsent? "arguments" == some true

/-- A call that could be the read of a variable. -/
def isVariableCall : Tree → Bool
  | .mk kind fields _ =>
    kind == .callNode &&
      (fields.get? Value.flags? "flags").any (Flags.contains · Flags.variableCall)

def text? : Tree → Option String
  | .mk _ fields _ => fields.get? Value.text? "unescaped"

/-- The tree stands for the key and the value in slots `2 * i` and `2 * i + 1` of the list, and
covers the spans of both. -/
def IsPair (lines : LineTable) (options : Options) (list : Node) (i : Nat) (t : Tree) : Prop :=
  ∃ (key value : Node) (scope : Scope) (k v : Tree) (s u : Span),
    list.child (2 * i) = .node key ∧ list.child (2 * i + 1) = .node value ∧
      lines.span key = .ok s ∧ lines.span value = .ok u ∧
      key.convert lines options scope none = .ok k ∧
      value.convert lines options scope none = .ok v ∧ t = .assoc k v (s.cover u)

end Tree

namespace FieldSort

def isFixed : FieldSort → Bool
  | name | optName | names | nat | int | float | text => true
  | _ => false

end FieldSort

end Canonical

open Canonical

def Options.stringFlags (options : Options) : Flags :=
  if options.frozenStringLiteral then Flags.frozen else Flags.empty

/-- Two conversions side by side. Corresponding nodes mirror each other, and their positions
resolve in both sources or in neither, as far as the accord asks for it. -/
structure Coupling where
  lines : LineTable
  lines' : LineTable
  options : Options
  options' : Options
  accord : Accord := .alike
  nodes : Node → Node → Prop
  mirroring : Legacy.Node.Mirroring nodes (Operands accord options options' nodes nodes) nodes
  resolves : ∀ n n', nodes n n' →
    Mirrored nodes accord (fun _ _ => True) (lines.span n) (lines'.span n')

namespace Coupling

abbrev Steps (k : Coupling) {α β : Type} (R : α → β → Prop) (x : Result α) (y : Result β) : Prop :=
  Mirrored k.nodes k.accord R x y

abbrev Inside (k : Coupling) (D : Node → Node → Prop) (n : Node) : Node → Node → Prop :=
  n.Inside (Operands k.accord k.options k.options' k.nodes D) D

/-- The operands of flip-flops need not be converted alike: it is enough that the right side
converts them where the left one does. -/
def Loose (k : Coupling) : Prop :=
  k.accord = .onward ∧ k.options.unwrapIntegerFlipFlop ≠ k.options'.unwrapIntegerFlipFlop

structure Located (k : Coupling) (n n' : Node) (s s' : Span) : Prop where
  nodes : k.nodes n n'
  left : k.lines.span n = .ok s
  right : k.lines'.span n' = .ok s'

def Spans (k : Coupling) (s s' : Span) : Prop :=
  s = .null ∧ s' = .null ∨ ∃ n n', k.Located n n' s s'

theorem spans_null (k : Coupling) : k.Spans .null .null := .inl ⟨rfl, rfl⟩

theorem Located.spans {k : Coupling} {n n' : Node} {s s' : Span} (h : k.Located n n' s s') :
    k.Spans s s' := .inr ⟨n, n', h⟩

structure Pairs (k : Coupling) (list list' : Node) : Prop where
  nodes : k.nodes list list'
  kind : list.kind = .LIST
  hashes : ∃ n n', k.nodes n n' ∧ n.kind = .HASH ∧ n.child 0 = .node list ∧
    n'.child 0 = .node list'

/-- Pairs cover two nodes; any other node is located at one. -/
def Locations (k : Coupling) (t t' : Tree) : Prop :=
  if t.kind = .assocNode then ∃ list list' i, k.Pairs list list' ∧
    t.IsPair k.lines k.options list i ∧ t'.IsPair k.lines' k.options' list' i
  else k.Spans t.location t'.location

/-- The spans in the fields of a node. A bare jump is all keyword, and the name of a variable call
is all there is in the legacy node; other spans are unknown. -/
def Inner (k : Coupling) (t t' : Tree) (label : String) (s s' : Span) : Prop :=
  if t.isBareJump = true ∧ label = "keyword_loc" then s = t.location ∧ s' = t'.location
  else if t.isVariableCall = true ∧ label = "message_loc" then
    ∃ n n' name, k.Located n n' s s' ∧ n.kind = .VCALL ∧ n.name 0 = .ok name ∧ t.name? = some name
  else s = .null ∧ s' = .null

/-- The flags of strings. That of a `STR` has those that the options of each side ask for; the text
in front of an interpolation, which has no node of its own, has none. -/
def Texts (k : Coupling) (t t' : Tree) (f f' : Flags) : Prop :=
  (∃ n n' text, k.Located n n' t.location t'.location ∧ n.kind = .STR ∧
      n.literal 0 = .ok (.string text) ∧ t.text? = some text ∧
      f = k.options.stringFlags ∧ f' = k.options'.stringFlags) ∨
    ∃ n n' text head tail options, k.nodes n n' ∧
      n.shape = .ok (.interpolation (some text) head tail options) ∧ t.text? = some text ∧
      t.location = .null ∧ t'.location = .null ∧ f = Flags.empty ∧ f' = Flags.empty

def Words (k : Coupling) (t t' : Tree) (f f' : Flags) : Prop :=
  if t.kind = .stringNode then k.Texts t t' f f'
  else if t.kind.hasStringFlags = true then f = Flags.empty ∧ f' = Flags.empty
  else f' = f

end Coupling

namespace Canonical

section

variable (R : Tree → Tree → Prop)

/-- Spans, flags and trees are related as given; anything else is equal. -/
inductive Value.Related : {sort : FieldSort} → (Span → Span → Prop) → (Flags → Flags → Prop) →
    Value sort → Value sort → Prop where
  | span {S : Span → Span → Prop} {F : Flags → Flags → Prop} {s t : Span} (h : S s t) :
      Value.Related S F (.span s) (.span t)
  | flags {S : Span → Span → Prop} {F : Flags → Flags → Prop} {f g : Flags} (h : F f g) :
      Value.Related S F (.flags f) (.flags g)
  | tree {S : Span → Span → Prop} {F : Flags → Flags → Prop} {t u : Tree} (h : R t u) :
      Value.Related S F (.tree t) (.tree u)
  | optTree {S : Span → Span → Prop} {F : Flags → Flags → Prop} {t u : Option Tree}
      (h : Option.Rel R t u) : Value.Related S F (.optTree t) (.optTree u)
  | trees {S : Span → Span → Prop} {F : Flags → Flags → Prop} {ts us : List Tree}
      (h : List.Forall₂ R ts us) : Value.Related S F (.trees ts) (.trees us)
  | fixed {S : Span → Span → Prop} {F : Flags → Flags → Prop} {sort : FieldSort}
      (h : sort.isFixed = true) (v : Value sort) : Value.Related S F v v

inductive Fields.Related : {fields : List Field} → (String → Span → Span → Prop) →
    (Flags → Flags → Prop) → Fields fields → Fields fields → Prop where
  | nil {S : String → Span → Span → Prop} {F : Flags → Flags → Prop} :
      Fields.Related S F .nil .nil
  | cons {S : String → Span → Span → Prop} {F : Flags → Flags → Prop} {field : Field}
      {rest : List Field} {v w : Value field.sort} {vs ws : Fields rest}
      (value : Value.Related R (S field.label) F v w) (values : Fields.Related S F vs ws) :
      Fields.Related S F (.cons v vs) (.cons w ws)

end

/-- The same kind and fields, apart from the spans and flags that the coupling relates. -/
inductive Tree.Mirrored (k : Coupling) : Tree → Tree → Prop where
  | mk {kind : Kind} {fs gs : Fields kind.fields} {s t : Span}
      (fields : Fields.Related (Tree.Mirrored k) (k.Inner (.mk kind fs s) (.mk kind gs t))
        (k.Words (.mk kind fs s) (.mk kind gs t)) fs gs)
      (location : k.Locations (.mk kind fs s) (.mk kind gs t)) :
      Tree.Mirrored k (.mk kind fs s) (.mk kind gs t)
  | flipFlop {fs gs : Fields Kind.flipFlopNode.fields} {s t : Span} (h : k.Loose) :
      Tree.Mirrored k (.mk .flipFlopNode fs s) (.mk .flipFlopNode gs t)

section

variable {R : Tree → Tree → Prop}

namespace Value

variable {S : Span → Span → Prop} {F : Flags → Flags → Prop}

@[simp] theorem related_span {s t : Span} : Related R S F (span s) (span t) ↔ S s t := by
  refine ⟨?_, .span⟩
  intro h
  cases h with
  | span h => exact h
  | fixed h => cases h

@[simp] theorem related_flags {f g : Flags} : Related R S F (flags f) (flags g) ↔ F f g := by
  refine ⟨?_, .flags⟩
  intro h
  cases h with
  | flags h => exact h
  | fixed h => cases h

@[simp] theorem related_tree {t u : Tree} : Related R S F (tree t) (tree u) ↔ R t u := by
  refine ⟨?_, .tree⟩
  intro h
  cases h with
  | tree h => exact h
  | fixed h => cases h

@[simp] theorem related_optTree {t u : Option Tree} :
    Related R S F (optTree t) (optTree u) ↔ Option.Rel R t u := by
  refine ⟨?_, .optTree⟩
  intro h
  cases h with
  | optTree h => exact h
  | fixed h => cases h

@[simp] theorem related_trees {ts us : List Tree} :
    Related R S F (trees ts) (trees us) ↔ List.Forall₂ R ts us := by
  refine ⟨?_, .trees⟩
  intro h
  cases h with
  | trees h => exact h
  | fixed h => cases h

@[simp] theorem related_name {n : Name} : Related R S F (name n) (name n) := .fixed rfl _

@[simp] theorem related_optName {n : Option Name} : Related R S F (optName n) (optName n) :=
  .fixed rfl _

@[simp] theorem related_names {ns : List Name} : Related R S F (names ns) (names ns) :=
  .fixed rfl _

@[simp] theorem related_nat {n : Nat} : Related R S F (nat n) (nat n) := .fixed rfl _

@[simp] theorem related_int {i : Int} : Related R S F (int i) (int i) := .fixed rfl _

@[simp] theorem related_float {x : Double} : Related R S F (float x) (float x) := .fixed rfl _

@[simp] theorem related_text {s : String} : Related R S F (text s) (text s) := .fixed rfl _

theorem Related.imp {S' : Span → Span → Prop} {F' : Flags → Flags → Prop} {sort : FieldSort}
    {v w : Value sort} (hS : ∀ s t, S s t → S' s t) (hF : ∀ f g, F f g → F' f g)
    (h : Related R S F v w) : Related R S' F' v w := by
  cases h with
  | span h => exact .span (hS _ _ h)
  | flags h => exact .flags (hF _ _ h)
  | tree h => exact .tree h
  | optTree h => exact .optTree h
  | trees h => exact .trees h
  | fixed h => exact .fixed h v

end Value

namespace Fields

variable {S S' : String → Span → Span → Prop} {F F' : Flags → Flags → Prop} {fields : List Field}

@[simp] theorem related_nil : Related R S F .nil .nil := .nil

@[simp] theorem related_cons {field : Field} {rest : List Field} {v w : Value field.sort}
    {vs ws : Fields rest} :
    Related R S F (cons v vs) (cons w ws) ↔
      Value.Related R (S field.label) F v w ∧ Related R S F vs ws := by
  constructor
  · intro h
    cases h with
    | cons value values => exact ⟨value, values⟩
  · rintro ⟨value, values⟩
    exact .cons value values

theorem Related.imp {fs gs : Fields fields} (hS : ∀ label s t, S label s t → S' label s t)
    (hF : ∀ f g, F f g → F' f g) (h : Related R S F fs gs) : Related R S' F' fs gs := by
  induction fields with
  | nil =>
    cases h
    exact .nil
  | cons field rest ih =>
    cases h with
    | cons value values => exact .cons (value.imp (hS field.label) hF) (ih values)

end Fields

end

variable {k : Coupling}

/-- Induction on mirrored trees, where none is a flip-flop that may differ. -/
theorem Tree.Mirrored.induct {motive : Tree → Tree → Prop} (tight : ¬k.Loose)
    (step : ∀ kind (fs gs : Fields (Kind.fields kind)) s s',
      Fields.Related motive (k.Inner (.mk kind fs s) (.mk kind gs s'))
        (k.Words (.mk kind fs s) (.mk kind gs s')) fs gs →
      k.Locations (.mk kind fs s) (.mk kind gs s') → motive (.mk kind fs s) (.mk kind gs s'))
    {t t' : Tree} (h : t.Mirrored k t') : motive t t' := by
  refine @Tree.Mirrored.rec k (fun t t' _ => motive t t')
    (fun S F fs gs _ => Fields.Related motive S F fs gs)
    (fun S F v w _ => Value.Related motive S F v w)
    (fun o o' _ => Option.Rel motive o o')
    (fun ts ts' _ => List.Forall₂ motive ts ts')
    ?mk ?flipFlop ?nil ?cons ?span ?flags ?tree ?optTree ?trees ?fixed ?some ?none ?nil' ?cons'
    t t' h
  case mk => exact fun _ location fields => step _ _ _ _ _ fields location
  case flipFlop => exact fun hloose => absurd hloose tight
  case nil => exact .nil
  case cons => exact fun _ _ value values => .cons value values
  case span => exact fun h => .span h
  case flags => exact fun h => .flags h
  case tree => exact fun _ h => .tree h
  case optTree => exact fun _ h => .optTree h
  case trees => exact fun _ h => .trees h
  case fixed => exact fun h v => .fixed h v
  case some => exact fun _ h => .some h
  case none => exact .none
  case nil' => exact .nil
  case cons' => exact fun _ _ h hs => .cons h hs

namespace Tree

variable {kind : Kind} {fs gs : Fields kind.fields} {t t' : Tree} {s s' : Span}

theorem isBareJump_eq_false (h : kind.isJump = false) : isBareJump (.mk kind fs s) = false := by
  simp [isBareJump, h]

theorem isVariableCall_eq_false (h : kind ≠ .callNode) :
    isVariableCall (.mk kind fs s) = false := by
  simp [isVariableCall, h]

theorem inner_iff (hjump : kind.isJump = false) (hcall : kind ≠ .callNode) {label : String}
    {u u' : Span} :
    k.Inner (.mk kind fs s) (.mk kind gs s') label u u' ↔ u = .null ∧ u' = .null := by
  simp [Coupling.Inner, isBareJump_eq_false hjump, isVariableCall_eq_false hcall]

theorem inner_iff_of_isPlain (hkind : kind.isPlain = true) {label : String} {u u' : Span} :
    k.Inner (.mk kind fs s) (.mk kind gs s') label u u' ↔ u = .null ∧ u' = .null := by
  refine inner_iff ?_ ?_
  · cases kind <;> first | rfl | cases hkind
  · rintro rfl
    cases hkind

theorem words_iff (hkind : kind ≠ .stringNode) {f f' : Flags} :
    k.Words (.mk kind fs s) (.mk kind gs s') f f' ↔
      if kind.hasStringFlags = true then f = Flags.empty ∧ f' = Flags.empty else f' = f :=
  iff_of_eq (if_neg hkind)

theorem words_iff_of_isPlain (hkind : kind.isPlain = true) {f f' : Flags} :
    k.Words (.mk kind fs s) (.mk kind gs s') f f' ↔ f' = f := by
  have hstring : kind.hasStringFlags = false := by cases kind <;> first | rfl | cases hkind
  have hne : kind ≠ .stringNode := by
    rintro rfl
    cases hkind
  simp [words_iff hne, hstring]

theorem Mirrored.plain (hkind : kind.isPlain = true)
    (hfields : Fields.Related (Mirrored k) (fun _ s s' => s = .null ∧ s' = .null)
      (fun f f' => f' = f) fs gs)
    (hl : k.Spans s s') : Mirrored k (.mk kind fs s) (.mk kind gs s') := by
  have hassoc : kind ≠ .assocNode := by
    rintro rfl
    cases hkind
  refine .mk (hfields.imp ?_ ?_) ?_
  · exact fun label s t => (inner_iff_of_isPlain hkind).mpr
  · exact fun f g => (words_iff_of_isPlain hkind).mpr
  · simpa [Coupling.Locations, Tree.kind, Tree.location, hassoc] using hl

theorem Mirrored.unflagged (hkind : kind.hasStringFlags = true) (hstring : kind ≠ .stringNode)
    (hfields : Fields.Related (Mirrored k) (fun _ s s' => s = .null ∧ s' = .null)
      (fun f f' => f = Flags.empty ∧ f' = Flags.empty) fs gs)
    (hl : k.Spans s s') : Mirrored k (.mk kind fs s) (.mk kind gs s') := by
  have hassoc : kind ≠ .assocNode := by
    rintro rfl
    cases hkind
  refine .mk (hfields.imp ?_ ?_) ?_
  · refine fun label s t => (inner_iff ?_ ?_).mpr
    · cases kind <;> first | rfl | cases hkind
    · rintro rfl
      cases hkind
  · intro f g h
    simpa [words_iff hstring, hkind] using h
  · simpa [Coupling.Locations, Tree.kind, Tree.location, hassoc] using hl

theorem Mirrored.withLocation (h : t.Mirrored k t') (hkind : t.kind.ownsLocation = false)
    (hl : k.Spans s s') : (t.withLocation s).Mirrored k (t'.withLocation s') := by
  cases h with
  | @mk kind fs gs _ _ fields location =>
    have hkind : (kind.isJump = false ∧ kind ≠ .assocNode) ∧ kind ≠ .stringNode := by
      simpa [Kind.ownsLocation, Tree.kind] using hkind
    refine .mk (fields.imp ?_ ?_) ?_
    · intro label s t h
      -- A variable call is told by its flags and its name, which stay.
      simpa [Coupling.Inner, isBareJump_eq_false hkind.1.1, isVariableCall, name?] using h
    · intro f f' h
      rwa [words_iff hkind.2] at h ⊢
    · simpa [Coupling.Locations, Tree.kind, Tree.location, hkind.1.2] using hl
  | flipFlop h => exact .flipFlop h

/-! The forms with spans of their own. -/

theorem Mirrored.jump {form : Option Tree → Span → Span → Tree}
    (hform : form = breakJump ∨ form = nextJump ∨ form = returnJump) {a a' : Option Tree}
    (ha : Option.Rel (Mirrored k) a a') (hl : k.Spans s s') :
    (form a (if a.isNone then s else .null) s).Mirrored k
      (form a' (if a'.isNone then s' else .null) s') := by
  rcases hform with rfl | rfl | rfl
  all_goals
    refine .mk ?_ (by simpa [Coupling.Locations, Tree.kind, Tree.location] using hl)
    cases ha with
    | none =>
      simp [Coupling.Inner, isBareJump, Kind.isJump, Fields.get?, Value.isAbsent?, Tree.location]
    | some ha =>
      simp [Coupling.Inner, isBareJump, isVariableCall, Fields.get?, Value.isAbsent?,
        Option.Rel.some ha]

theorem Mirrored.call {flags : Flags} {name : Name} {m m' : Span} {r r' a a' b b' : Option Tree}
    (hr : Option.Rel (Mirrored k) r r')
    (hm : if Flags.contains flags Flags.variableCall = true then
        ∃ n n', k.Located n n' m m' ∧ n.kind = .VCALL ∧ n.name 0 = .ok name
      else m = .null ∧ m' = .null)
    (ha : Option.Rel (Mirrored k) a a') (hb : Option.Rel (Mirrored k) b b')
    (hl : k.Spans s s') :
    (Tree.call flags r name m a b s).Mirrored k (Tree.call flags r' name m' a' b' s') := by
  refine .mk ?_ (by simpa [Coupling.Locations, Tree.kind, Tree.location] using hl)
  simpa [Coupling.Inner, words_iff, Kind.hasStringFlags, isBareJump, Kind.isJump, isVariableCall,
    name?, Fields.get?, Value.flags?, Value.name?, hr, ha, hb] using hm

theorem Mirrored.string {text : String} {f f' : Flags} (hl : k.Spans s s')
    (hf : k.Texts (.string f text s) (.string f' text s') f f') :
    (Tree.string f text s).Mirrored k (Tree.string f' text s') := by
  refine .mk ?_ (by simpa [Coupling.Locations, Tree.kind, Tree.location] using hl)
  simpa [Coupling.Inner, Coupling.Words, Tree.kind, isBareJump, Kind.isJump, isVariableCall,
    Tree.string] using hf

theorem Mirrored.assoc {key key' value value' : Tree} (hkey : key.Mirrored k key')
    (hvalue : value.Mirrored k value') {list list' : Node} {i : Nat} (hlist : k.Pairs list list')
    (hpair : (Tree.assoc key value s).IsPair k.lines k.options list i)
    (hpair' : (Tree.assoc key' value' s').IsPair k.lines' k.options' list' i) :
    (Tree.assoc key value s).Mirrored k (Tree.assoc key' value' s') := by
  refine .mk ?_ ?_
  · simp [Coupling.Inner, isBareJump, Kind.isJump, isVariableCall, hkey, hvalue]
  · unfold Coupling.Locations
    rw [Tree.kind, if_pos rfl]
    exact ⟨list, list', i, hlist, hpair, hpair'⟩

theorem Mirrored.once? (h : t.Mirrored k t') (hl : k.Spans s s') :
    Option.Rel (Mirrored k) (Tree.once? s t) (Tree.once? s' t') := by
  cases h with
  | @mk kind fs gs _ _ fields _ =>
    cases kind with
    | interpolatedRegularExpressionNode =>
      rcases fs with _ | ⟨_ | _ | _ | _ | f, fs⟩
      rcases gs with _ | ⟨_ | _ | _ | _ | g, gs⟩
      have hfields : Fields.Related (Mirrored k) (fun _ s s' => s = .null ∧ s' = .null)
          (fun f f' => f' = f) _ _ :=
        fields.imp (fun _ _ _ => (inner_iff_of_isPlain rfl).mp) fun _ _ =>
          (words_iff_of_isPlain rfl).mp
      have hflags : g = f := by simpa using (Fields.related_cons.mp hfields).1
      refine .some (.plain rfl ?_ hl)
      simpa [hflags] using (Fields.related_cons.mp hfields).2
    | _ => exact .none
  | flipFlop _ => exact .none

end Tree

end Canonical

end RubyTree
