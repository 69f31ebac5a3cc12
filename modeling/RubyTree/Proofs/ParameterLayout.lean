import Mathlib.Data.List.Forall2
import RubyTree.Legacy.Build
import RubyTree.Parameters

/-! The layout of a parameter list. A signature says what a scope takes, independently of any tree;
it is written down as a local table and an `ARGS` node. -/

namespace RubyTree

open Legacy (Node Child Table)
open Legacy.Build (ArgsSlots)

/-- A name that is none of the markers of an anonymous parameter. -/
structure ProperName where
  name : Name
  proper : name.text ≠ "*" ∧ name.text ≠ "**" ∧ name.text ≠ "&"

inductive PatternRest where
  | absent
  | anonymous
  | named (name : Name)

mutual

/-- A required parameter: a name, or a destructuring of any depth. -/
inductive Pattern where
  | name (value : Name)
  | group (value : PatternGroup)

inductive PatternGroup where
  | mk (lefts : List Pattern) (rest : PatternRest) (rights : List Pattern)

end

/-- An anonymous rest is written as a marker or as a star. -/
inductive RestForm where
  | absent
  | named (name : ProperName)
  | anonymous
  | star
  | excessiveComma

/-- An anonymous keyword rest is elided or written as two stars. -/
inductive KeywordRestForm where
  | absent
  | named (name : ProperName)
  | elided
  | doubleStar
  | noKeywords

inductive BlockForm where
  | absent
  | named (name : ProperName)
  | ampersand

structure Signature where
  requireds : List Pattern
  optionals : List OptionalParameter
  rest : RestForm
  posts : List Pattern
  keywords : List KeywordParameter
  keywordRest : KeywordRestForm
  block : BlockForm
  blockLocals : List Name

/-! The local table. -/

namespace PatternRest

def names : PatternRest → List Name
  | .named name => [name]
  | _ => []

end PatternRest

namespace Pattern

def slot : Pattern → Option Name
  | .name value => some value
  | .group _ => none

def group? : Pattern → Option PatternGroup
  | .name _ => none
  | .group value => some value

def groups (patterns : List Pattern) : List PatternGroup := patterns.filterMap group?

end Pattern

mutual

def PatternGroup.names : PatternGroup → List Name
  | .mk lefts rest rights => Pattern.namesOf lefts ++ rest.names ++ Pattern.namesOf rights

def Pattern.namesOf : List Pattern → List Name
  | [] => []
  | pattern :: rest => pattern.names ++ Pattern.namesOf rest

def Pattern.names : Pattern → List Name
  | .name value => [value]
  | .group value => value.names

end

namespace RestForm

def name? : RestForm → Option Name
  | .named name => some name.name
  | .star => some ⟨"*"⟩
  | _ => none

def slot : RestForm → Legacy.RestParameter
  | .absent => .absent
  | .named name => .named name.name
  | .anonymous => .anonymous
  | .star => .named ⟨"*"⟩
  | .excessiveComma => .excessiveComma

/-- The parameter itself, where an anonymous rest is an anonymous rest. -/
def parameter : RestForm → Option RestParameter
  | .absent => none
  | .named name => some (.splat (some name.name))
  | .anonymous | .star => some (.splat none)
  | .excessiveComma => some .implicitComma

end RestForm

namespace KeywordRestForm

def name? : KeywordRestForm → Option Name
  | .named name => some name.name
  | .doubleStar => some ⟨"**"⟩
  | _ => none

def parameter : KeywordRestForm → Option KeywordRestParameter
  | .absent => none
  | .named name => some (.named (some name.name))
  | .elided | .doubleStar => some (.named none)
  | .noKeywords => some .noKeywords

end KeywordRestForm

namespace BlockForm

def name? : BlockForm → Option Name
  | .absent => none
  | .named name => some name.name
  | .ampersand => some ⟨"&"⟩

def parameter : BlockForm → Option (Option Name)
  | .absent => none
  | .named name => some (some name.name)
  | .ampersand => some none

end BlockForm

namespace Signature

def nameSlots (name : Option Name) : Table := (name.map some).toList

/-- Keywords are followed by a slot for internal use. -/
def hiddenSlots (s : Signature) : Table := if s.keywords.isEmpty then [] else [none]

/-- The local table of a scope with these parameters. The names bound in destructurings come behind
the parameters, and the locals of a block come last. -/
def table (s : Signature) : Table :=
  s.requireds.map Pattern.slot ++ s.optionals.map (fun p => some p.name) ++
    nameSlots s.rest.name? ++ s.posts.map Pattern.slot ++ s.keywords.map (fun p => some p.name) ++
    s.hiddenSlots ++ nameSlots s.keywordRest.name? ++ nameSlots s.block.name? ++
    ((Pattern.groups s.requireds).flatMap PatternGroup.names).map some ++
    ((Pattern.groups s.posts).flatMap PatternGroup.names).map some ++ s.blockLocals.map some

/-- The scope takes something; locals of a block do not count. -/
def TakesAny (s : Signature) : Prop :=
  s.requireds ≠ [] ∨ s.optionals ≠ [] ∨ s.rest ≠ .absent ∨ s.posts ≠ [] ∨ s.keywords ≠ [] ∨
    s.keywordRest ≠ .absent ∨ s.block ≠ .absent

end Signature

/-! The `ARGS` node. Positions are free, and a local is written by either of two kinds. -/

namespace Layout

def IsLocalWrite (kind : Legacy.Kind) : Prop := kind = .LASGN ∨ kind = .DASGN

def IsLocalRead (kind : Legacy.Kind) : Prop := kind = .LVAR ∨ kind = .DVAR

def listSlot (nodes : List Node) (position : Position) : Option Node :=
  if nodes.isEmpty then none else some (Legacy.Build.list nodes position)

def tailSlot (splat : Child) (posts : Option Node) (position : Position) : Child :=
  match posts with
  | none => splat
  | some posts => .node (Legacy.Build.postArg splat posts position)

/-- The links of a chain hold these bodies, in order. -/
def Chain {α : Type} (kind : Legacy.Kind) (Body : α → Node → Prop) : List α → Option Node → Prop
  | [], link => link = none
  | a :: rest, link => ∃ body next position,
      link = some (Legacy.Build.paramLink kind body next position) ∧ Body a body ∧
        Chain kind Body rest next

def Local (name : Name) (n : Node) : Prop :=
  ∃ kind position, IsLocalWrite kind ∧ n = Legacy.Build.assign kind name none position

end Layout

open Layout

namespace PatternRest

def Written : PatternRest → Child → Prop
  | .absent, splat => splat = .nil
  | .anonymous, splat => splat = .marker .anonymousRest
  | .named name, splat => ∃ n, Local name n ∧ splat = .node n

end PatternRest

mutual

def PatternGroup.Written : PatternGroup → Node → Prop
  | .mk lefts rest rights, n => ∃ ls rs splat p q r s,
      Pattern.AllWritten lefts ls ∧ rest.Written splat ∧ Pattern.AllWritten rights rs ∧
        n = Legacy.Build.multiAssign none (listSlot ls p) (tailSlot splat (listSlot rs q) r) s

def Pattern.AllWritten : List Pattern → List Node → Prop
  | [], nodes => nodes = []
  | pattern :: patterns, nodes => ∃ n ns,
      pattern.Written n ∧ Pattern.AllWritten patterns ns ∧ nodes = n :: ns

def Pattern.Written : Pattern → Node → Prop
  | .name value, n => Local value n
  | .group value, n => value.Written n

end

namespace PatternGroup

/-- One destructuring stands by itself, several make a `BLOCK`. -/
def InitWritten : List PatternGroup → Option Node → Prop
  | [], init => init = none
  | [group], init => ∃ n, group.Written n ∧ init = some n
  | groups, init => ∃ nodes position, List.Forall₂ Written groups nodes ∧
      init = some (Legacy.Build.block nodes position)

end PatternGroup

def OptionalParameter.Written (p : OptionalParameter) (n : Node) : Prop :=
  ∃ kind position, IsLocalWrite kind ∧ n = Legacy.Build.assign kind p.name (some p.value) position

/-- In place of its default a required keyword has a marker. -/
def KeywordParameter.Written (p : KeywordParameter) (n : Node) : Prop :=
  ∃ kind position, IsLocalWrite kind ∧
    n = .make kind [.name p.name, (p.value.map Child.node).getD (.marker .requiredKeyword)] position

namespace RestForm

def child : RestForm → Child
  | .absent => .nil
  | .named name => .name name.name
  | .anonymous => .marker .anonymousRest
  | .star => .name ⟨"*"⟩
  | .excessiveComma => .marker .excessiveComma

end RestForm

namespace KeywordRestForm

/-- The variable of a keyword rest lacks a name only if that is elided. -/
def Written : KeywordRestForm → Child → Prop
  | .absent, slot => slot = .nil
  | .noKeywords, slot => slot = .marker .noKeywords
  | form, slot => ∃ kind position, IsLocalRead kind ∧
      slot = .node (.make kind [Legacy.Build.nameSlot form.name?] position)

end KeywordRestForm

namespace Signature

/-- The slots of an `ARGS` node that is written for the signature. The slot for the name of the
first parameter behind the rest is not read. -/
structure Written (s : Signature) (slots : ArgsSlots) : Prop where
  preCount : slots.preCount = s.requireds.length
  preInit : PatternGroup.InitWritten (Pattern.groups s.requireds) slots.preInit
  optionals : Chain .OPT_ARG OptionalParameter.Written s.optionals slots.optionals
  postCount : slots.postCount = s.posts.length
  postInit : PatternGroup.InitWritten (Pattern.groups s.posts) slots.postInit
  rest : slots.rest = s.rest.child
  keywords : Chain .KW_ARG KeywordParameter.Written s.keywords slots.keywords
  keywordRest : s.keywordRest.Written slots.keywordRest
  block : slots.block = s.block.name?

end Signature

/-! Every signature can be written down. -/

namespace Layout

def toLocal (name : Name) : Node := Legacy.Build.assign .LASGN name none default

theorem local_toLocal (name : Name) : Local name (toLocal name) := ⟨.LASGN, default, .inl rfl, rfl⟩

def toChain (kind : Legacy.Kind) (bodies : List Node) : Option Node :=
  bodies.foldr (fun body next => some (Legacy.Build.paramLink kind body next default)) none

theorem chain_toChain {α : Type} {kind : Legacy.Kind} {Body : α → Node → Prop} {body : α → Node}
    (h : ∀ a, Body a (body a)) (items : List α) :
    Chain kind Body items (toChain kind (items.map body)) := by
  induction items with
  | nil => rfl
  | cons item items ih => exact ⟨body item, _, default, rfl, h item, ih⟩

end Layout

def PatternRest.toChild : PatternRest → Child
  | .absent => .nil
  | .anonymous => .marker .anonymousRest
  | .named name => .node (toLocal name)

theorem PatternRest.written_toChild (rest : PatternRest) : rest.Written rest.toChild := by
  cases rest with
  | absent => rfl
  | anonymous => rfl
  | named name => exact ⟨_, local_toLocal name, rfl⟩

mutual

def PatternGroup.toNode : PatternGroup → Node
  | .mk lefts rest rights =>
    Legacy.Build.multiAssign none (listSlot (Pattern.toNodes lefts) default)
      (tailSlot rest.toChild (listSlot (Pattern.toNodes rights) default) default) default

def Pattern.toNodes : List Pattern → List Node
  | [] => []
  | pattern :: patterns => pattern.toNode :: Pattern.toNodes patterns

def Pattern.toNode : Pattern → Node
  | .name value => toLocal value
  | .group value => value.toNode

end

mutual

theorem PatternGroup.written_toNode : (group : PatternGroup) → group.Written group.toNode
  | .mk lefts rest rights => by
    rw [PatternGroup.Written, PatternGroup.toNode]
    exact ⟨_, _, _, _, _, _, _, Pattern.allWritten_toNodes lefts, rest.written_toChild,
      Pattern.allWritten_toNodes rights, rfl⟩

theorem Pattern.allWritten_toNodes :
    (patterns : List Pattern) → Pattern.AllWritten patterns (Pattern.toNodes patterns)
  | [] => by
    rw [Pattern.AllWritten, Pattern.toNodes]
  | pattern :: patterns => by
    rw [Pattern.AllWritten, Pattern.toNodes]
    exact ⟨_, _, pattern.written_toNode, Pattern.allWritten_toNodes patterns, rfl⟩

theorem Pattern.written_toNode : (pattern : Pattern) → pattern.Written pattern.toNode
  | .name value => by
    rw [Pattern.Written, Pattern.toNode]
    exact local_toLocal value
  | .group value => by
    rw [Pattern.Written, Pattern.toNode]
    exact value.written_toNode

end

def PatternGroup.toInit : List PatternGroup → Option Node
  | [] => none
  | [group] => some group.toNode
  | groups => some (Legacy.Build.block (groups.map PatternGroup.toNode) default)

theorem PatternGroup.initWritten_toInit (groups : List PatternGroup) :
    PatternGroup.InitWritten groups (PatternGroup.toInit groups) := by
  match groups with
  | [] => rfl
  | [group] => exact ⟨_, group.written_toNode, rfl⟩
  | first :: second :: groups =>
    refine ⟨_, default, ?_, rfl⟩
    rw [List.forall₂_map_right_iff, List.forall₂_same]
    exact fun group _ => group.written_toNode

def KeywordRestForm.toChild : KeywordRestForm → Child
  | .absent => .nil
  | .noKeywords => .marker .noKeywords
  | form => .node (.make .LVAR [Legacy.Build.nameSlot form.name?] default)

theorem KeywordRestForm.written_toChild (form : KeywordRestForm) : form.Written form.toChild := by
  cases form with
  | absent => rfl
  | noKeywords => rfl
  | _ => exact ⟨.LVAR, default, .inl rfl, rfl⟩

namespace Signature

def toSlots (s : Signature) : ArgsSlots where
  preCount := s.requireds.length
  preInit := PatternGroup.toInit (Pattern.groups s.requireds)
  optionals := toChain .OPT_ARG
    (s.optionals.map fun p => Legacy.Build.assign .LASGN p.name (some p.value) default)
  firstPost := s.posts.head?.bind Pattern.slot
  postCount := s.posts.length
  postInit := PatternGroup.toInit (Pattern.groups s.posts)
  rest := s.rest.child
  keywords := toChain .KW_ARG
    (s.keywords.map fun p => .make .LASGN
      [.name p.name, (p.value.map Child.node).getD (.marker .requiredKeyword)] default)
  keywordRest := s.keywordRest.toChild
  block := s.block.name?

theorem written_toSlots (s : Signature) : s.Written s.toSlots where
  preCount := rfl
  preInit := PatternGroup.initWritten_toInit _
  optionals := chain_toChain (fun _ => ⟨.LASGN, default, .inl rfl, rfl⟩) _
  postCount := rfl
  postInit := PatternGroup.initWritten_toInit _
  rest := rfl
  keywords := chain_toChain (fun _ => ⟨.LASGN, default, .inl rfl, rfl⟩) _
  keywordRest := s.keywordRest.written_toChild
  block := rfl

end Signature

/-! Reading. -/

def PatternRest.Spelled : PatternRest → Option GroupRest → Prop
  | .absent, none => True
  | .anonymous, some .anonymous => True
  | .named name, some (.named n) => n.name 0 = .ok name
  | _, _ => False

mutual

def PatternGroup.Spelled : PatternGroup → TargetGroup → Prop
  | .mk lefts rest rights, .mk _ ls r rs =>
    Pattern.AllSpelled lefts ls ∧ rest.Spelled r ∧ Pattern.AllSpelled rights rs

def Pattern.AllSpelled : List Pattern → List Target → Prop
  | [], targets => targets = []
  | _ :: _, [] => False
  | pattern :: patterns, target :: targets =>
    pattern.Spelled target ∧ Pattern.AllSpelled patterns targets

/-- A target is read as the pattern has it, at every depth. -/
def Pattern.Spelled : Pattern → Target → Prop
  | .name value, .simple n => n.name 0 = .ok value
  | .group value, .group group => value.Spelled group
  | _, _ => False

end

def Pattern.SpelledAs : Pattern → RequiredParameter → Prop
  | .name value, .name found => found = value
  | .group value, .group found => value.Spelled found
  | _, _ => False

structure Signature.Spelled (s : Signature) (p : Parameters) : Prop where
  requireds : List.Forall₂ Pattern.SpelledAs s.requireds p.requireds
  optionals : p.optionals = s.optionals
  rest : p.rest = s.rest.parameter
  posts : List.Forall₂ Pattern.SpelledAs s.posts p.posts
  keywords : p.keywords = s.keywords
  keywordRest : p.keywordRest = s.keywordRest.parameter
  block : p.block = s.block.parameter
  blockLocals : p.blockLocals = s.blockLocals

end RubyTree
