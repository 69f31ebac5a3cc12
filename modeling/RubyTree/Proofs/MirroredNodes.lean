import Mathlib.Data.List.Forall2
import RubyTree.Proofs.Descent

/-! Two runs side by side. Legacy nodes mirror each other when they have the same kind and the same
children, apart from the nodes among them, which mirror each other in turn; positions are not
looked at. Steps that read mirrored nodes succeed together, or fault about nodes that correspond. -/

namespace RubyTree

open Legacy (Node)

namespace Legacy.Kind

/-- Kinds without a canonical form; an `ATTRASGN` has none as a target. -/
def isUnsupported : Kind → Bool
  | CASE3 | IN | FOR_MASGN | ARYPTN | FNDPTN | HSHPTN | ERROR | ARGS_AUX | ERRINFO | ATTRASGN =>
    true
  | _ => false

/-- Kinds that only the nodes around them take apart. -/
def isFragment : Kind → Bool
  | SCOPE | WHEN | RESBODY | EVSTR | ARGS | OPT_ARG | KW_ARG | POSTARG | BLOCK_PASS => true
  | _ => false

def isFlipFlop : Kind → Bool
  | FLIP2 | FLIP3 => true
  | _ => false

end Legacy.Kind

def Expectation.asksExpression : Expectation → Bool
  | .expression => true
  | .other text => text == "expression"
  | _ => false

/-- Faults of the same sort, about nodes that correspond. -/
inductive Fault.Mirrored (N : Node → Node → Prop) : Fault → Fault → Prop where
  | notSupported {n n' : Node} (h : N n n') (hkind : n.kind.isUnsupported = true) :
      Mirrored N n.notSupported n'.notSupported
  | unexpected {n n' : Node} (h : N n n') (expected : Expectation)
      (hkind : expected.asksExpression = true → n.kind.isFragment = true) :
      Mirrored N (n.unexpected expected) (n'.unexpected expected)

/-- How the faults of two runs go together. -/
inductive Accord where
  /-- The runs fault for the same reason. -/
  | alike
  /-- The runs fault together, each for a reason of its own. -/
  | together
  /-- The right run may go on where the left one faults. -/
  | onward

/-- Both steps succeed, with values that are related, or both fault; a fault on the left can also
excuse the right. -/
inductive Mirrored {α β : Type} (N : Node → Node → Prop) :
    Accord → (α → β → Prop) → Result α → Result β → Prop where
  | ok {q : Accord} {R : α → β → Prop} {a : α} {b : β} (h : R a b) :
      Mirrored N q R (.ok a) (.ok b)
  | error {q : Accord} {R : α → β → Prop} {e f : Fault} (h : e.Mirrored N f) :
      Mirrored N q R (.error e) (.error f)
  | faults {R : α → β → Prop} {e f : Fault} : Mirrored N .together R (.error e) (.error f)
  | excused {R : α → β → Prop} {e : Fault} {y : Result β} : Mirrored N .onward R (.error e) y

namespace Mirrored

section

variable {N : Node → Node → Prop} {q : Accord} {α β γ δ : Type} {R : α → β → Prop}
  {S : γ → δ → Prop}

theorem pure {a : α} {b : β} (h : R a b) : Mirrored N q R (Pure.pure a) (Pure.pure b) := .ok h

theorem unexpected {n n' : Node} (h : N n n') {expected : Expectation}
    (hplain : expected.asksExpression = false) :
    Mirrored N q R (throw (n.unexpected expected)) (throw (n'.unexpected expected)) := by
  refine .error (.unexpected h expected fun hasks => ?_)
  rw [hplain] at hasks
  cases hasks

theorem unexpectedFragment {n n' : Node} (h : N n n') {expected : Expectation}
    (hkind : n.kind.isFragment = true) :
    Mirrored N q R (throw (n.unexpected expected)) (throw (n'.unexpected expected)) :=
  .error (.unexpected h expected fun _ => hkind)

theorem notSupported {n n' : Node} (h : N n n') (hkind : n.kind.isUnsupported = true) :
    Mirrored N q R (throw n.notSupported) (throw n'.notSupported) :=
  .error (.notSupported h hkind)

theorem bind {x : Result α} {y : Result β} {f : α → Result γ} {g : β → Result δ}
    (hx : Mirrored N q R x y) (hf : ∀ a b, R a b → Mirrored N q S (f a) (g b)) :
    Mirrored N q S (x >>= f) (y >>= g) := by
  cases hx with
  | ok h => exact hf _ _ h
  | error h => exact .error h
  | faults => exact .faults
  | excused => exact .excused

theorem same {x y : Result α} {f : α → Result γ} {g : α → Result δ} (hx : Mirrored N q Eq x y)
    (hf : ∀ a, Mirrored N q S (f a) (g a)) : Mirrored N q S (x >>= f) (y >>= g) := by
  refine hx.bind fun a b hab => ?_
  subst hab
  exact hf a

theorem mono {T : α → β → Prop} {x : Result α} {y : Result β} (hx : Mirrored N q R x y)
    (h : ∀ a b, R a b → T a b) : Mirrored N q T x y := by
  cases hx with
  | ok hab => exact .ok (h _ _ hab)
  | error he => exact .error he
  | faults => exact .faults
  | excused => exact .excused

theorem ofAlike {x : Result α} {y : Result β} (hx : Mirrored N .alike R x y) :
    Mirrored N q R x y := by
  cases hx with
  | ok hab => exact .ok hab
  | error he => exact .error he

theorem values {x : Result α} {y : Result β} (hx : Mirrored N q R x y) :
    Mirrored N q (fun a b => R a b ∧ x = .ok a ∧ y = .ok b) x y := by
  cases hx with
  | ok hab => exact .ok ⟨hab, rfl, rfl⟩
  | error he => exact .error he
  | faults => exact .faults
  | excused => exact .excused

/-- Steps that fault together can be exchanged for steps that do, or for the same ones. -/
theorem ofTogether {x x' : Result α} {y y' : Result β} (h : Mirrored N .together R x' y')
    (hx : x = x' ∨ (∃ e, x = .error e) ∧ ∃ e, x' = .error e)
    (hy : y = y' ∨ (∃ e, y = .error e) ∧ ∃ e, y' = .error e) : Mirrored N .together R x y := by
  rcases hx with rfl | ⟨⟨e, rfl⟩, e', rfl⟩
  · rcases hy with rfl | ⟨⟨f, rfl⟩, f', rfl⟩
    · exact h
    · cases h with
      | error _ => exact .faults
      | faults => exact .faults
  · rcases hy with rfl | ⟨⟨f, rfl⟩, f', rfl⟩
    · cases h with
      | error _ => exact .faults
      | faults => exact .faults
    · exact .faults

theorem right_of_ok {a : α} {y : Result β} (h : Mirrored N .onward R (.ok a) y) :
    ∃ b, y = .ok b ∧ R a b := by
  cases h with
  | ok h => exact ⟨_, rfl, h⟩

theorem mapM {f : α → Result γ} {g : β → Result δ} {as : List α} {bs : List β}
    (h : List.Forall₂ R as bs) (hf : ∀ a b, R a b → Mirrored N q S (f a) (g b)) :
    Mirrored N q (List.Forall₂ S) (as.mapM f) (bs.mapM g) := by
  induction h with
  | nil =>
    rw [List.mapM_nil, List.mapM_nil]
    exact .pure .nil
  | cons hab _ ih =>
    rw [List.mapM_cons, List.mapM_cons]
    exact .bind (hf _ _ hab) fun _ _ hhead => .bind ih fun _ _ htail => .pure (.cons hhead htail)

theorem mapM_same {f : α → Result γ} {g : α → Result δ} {as : List α}
    (hf : ∀ a ∈ as, Mirrored N q S (f a) (g a)) :
    Mirrored N q (List.Forall₂ S) (as.mapM f) (as.mapM g) := by
  have h : List.Forall₂ (fun a b => a = b ∧ a ∈ as) as as :=
    List.forall₂_same.mpr fun a ha => ⟨rfl, ha⟩
  refine mapM h fun a b hab => ?_
  obtain ⟨rfl, ha⟩ := hab
  exact hf a ha

end

end Mirrored

namespace Legacy

inductive Child.Mirrored (D : Node → Node → Prop) : Child → Child → Prop where
  | node {m m' : Node} (h : D m m') : Mirrored D (.node m) (.node m')
  | same {c : Child} (h : ∀ m, c ≠ .node m) : Mirrored D c c

theorem Child.Mirrored.content {D : Node → Node → Prop} {c c' : Child} (h : c.Mirrored D c') :
    c'.content = c.content := by
  cases h with
  | node _ => rfl
  | same _ => rfl

theorem Child.Mirrored.of_node {D : Node → Node → Prop} {m m' : Node}
    (h : Child.Mirrored D (.node m) (.node m')) : D m m' := by
  cases h with
  | node h => exact h
  | same h => exact absurd rfl (h m)

theorem Child.Mirrored.single {D : Node → Node → Prop} {cs cs' : List Child}
    (h : List.Forall₂ (Child.Mirrored D) cs cs') :
    (∃ m m', cs = [.node m] ∧ cs' = [.node m'] ∧ D m m') ∨
      (∀ m, cs ≠ [.node m]) ∧ ∀ m, cs' ≠ [.node m] := by
  cases h with
  | nil => exact .inr ⟨nofun, nofun⟩
  | cons hc hrest =>
    cases hrest with
    | cons _ _ => exact .inr ⟨nofun, nofun⟩
    | nil =>
      cases hc with
      | node hm => exact .inl ⟨_, _, rfl, rfl, hm⟩
      | same hne =>
        have hlist : ∀ m, [_] ≠ [Child.node m] := fun m h => hne m (List.head_eq_of_cons_eq h)
        exact .inr ⟨hlist, hlist⟩

/-- Corresponding nodes whose children mirror each other. The nodes among the children are related
by `D`, which may say more of them than that they correspond. -/
structure Node.Mirrored (N D : Node → Node → Prop) (n n' : Node) : Prop where
  self : N n n'
  kind : n'.kind = n.kind
  children : List.Forall₂ (Child.Mirrored D) n.children n'.children

/-- How the nodes in the slots of a node are related: by `O` in those of a flip-flop, whose operands
may be taken apart, and by `D` in any other. -/
def Node.Inside (O D : Node → Node → Prop) (n m m' : Node) : Prop :=
  if n.kind.isFlipFlop = true then O m m' else D m m'

def Node.Mirroring (N O D : Node → Node → Prop) : Prop :=
  ∀ n n', D n n' → n.Mirrored N (n.Inside O D) n'

namespace Node

variable {N O D E : Node → Node → Prop} {q : Accord} {n n' : Node}

theorem inside_of_isFlipFlop (hn : n.kind.isFlipFlop = true) : n.Inside O D = O := by
  funext m m'
  rw [Inside, if_pos hn]

theorem inside_of_not_isFlipFlop (hn : n.kind.isFlipFlop = false) : n.Inside O D = D := by
  funext m m'
  rw [Inside, if_neg (by simp [hn])]

theorem Mirrored.opened (hn : n.Mirrored N (n.Inside O D) n') (hkind : n.kind.isFlipFlop = false) :
    n.Mirrored N D n' := by
  rwa [inside_of_not_isFlipFlop hkind] at hn

theorem Mirrored.imp (hn : n.Mirrored N D n')
    (h : ∀ m m', .node m ∈ n.children → .node m' ∈ n'.children → D m m' → E m m') :
    n.Mirrored N E n' := by
  refine ⟨hn.self, hn.kind, ?_⟩
  have hchildren := hn.children
  generalize n.children = cs at hchildren h
  generalize n'.children = cs' at hchildren h
  induction hchildren with
  | nil => exact .nil
  | cons hc _ ih =>
    refine .cons ?_ (ih fun m m' hm hm' => h m m' (.tail _ hm) (.tail _ hm'))
    cases hc with
    | node hm => exact .node (h _ _ (.head _) (.head _) hm)
    | same hne => exact .same hne

/-! Slots. -/

theorem Mirrored.child (hn : n.Mirrored N D n') (i : Nat) :
    (n.child i).Mirrored D (n'.child i) := by
  have hi := hn.children
  unfold Node.child
  generalize n.children = cs at hi
  generalize n'.children = cs' at hi
  induction hi generalizing i with
  | nil => exact .same (by simp)
  | cons hc _ ih =>
    cases i with
    | zero => exact hc
    | succ i => exact ih i

theorem Mirrored.child_cases (hn : n.Mirrored N D n') (i : Nat) :
    (∃ m m', n.child i = .node m ∧ n'.child i = .node m' ∧ D m m') ∨
      (∀ m, n.child i ≠ .node m) ∧ n'.child i = n.child i := by
  have hi := hn.child i
  revert hi
  generalize n.child i = c
  generalize n'.child i = c'
  rintro (⟨h⟩ | h)
  · exact .inl ⟨_, _, rfl, rfl, h⟩
  · exact .inr ⟨h, rfl⟩

theorem Mirrored.badSlot (hn : n.Mirrored N D n') {α β : Type} {R : α → β → Prop} {use : SlotUse}
    {i : Nat} : RubyTree.Mirrored N q R (throw (n.badSlot use i)) (throw (n'.badSlot use i)) := by
  unfold Node.badSlot
  rw [(hn.child i).content]
  exact .unexpected hn.self rfl

theorem Mirrored.expectKind (hn : n.Mirrored N D n') {kinds : List Kind} :
    RubyTree.Mirrored N q (fun m m' => m = n ∧ m' = n' ∧ n.kind ∈ kinds) (n.expectKind kinds)
      (n'.expectKind kinds) := by
  unfold Node.expectKind
  rw [hn.kind]
  split
  · next hkind => exact .pure ⟨rfl, rfl, hkind⟩
  · exact .unexpected hn.self rfl

theorem Mirrored.ofKind (hn : n.Mirrored N D n') {kinds : List Kind} {α β : Type}
    {R : α → β → Prop} {f : Node → Result α} {g : Node → Result β}
    (h : n.kind ∈ kinds → RubyTree.Mirrored N q R (f n) (g n')) :
    RubyTree.Mirrored N q R (n.expectKind kinds >>= f) (n'.expectKind kinds >>= g) := by
  refine hn.expectKind.bind fun m m' hm => ?_
  obtain ⟨rfl, rfl, hkind⟩ := hm
  exact h hkind

theorem Mirrored.node (hn : n.Mirrored N D n') {i : Nat} :
    RubyTree.Mirrored N q D (n.node i) (n'.node i) := by
  unfold Node.node
  rcases hn.child_cases i with ⟨m, m', h, h', hm⟩ | ⟨h, h'⟩
  · rw [h, h']
    exact .pure hm
  · rw [h']
    split
    · next m hm => exact absurd hm (h m)
    · exact hn.badSlot

theorem Mirrored.node? (hn : n.Mirrored N D n') {i : Nat} :
    RubyTree.Mirrored N q (Option.Rel D) (n.node? i) (n'.node? i) := by
  unfold Node.node?
  rcases hn.child_cases i with ⟨m, m', h, h', hm⟩ | ⟨h, h'⟩
  · rw [h, h']
    exact .pure (.some hm)
  · rw [h']
    split
    · exact .pure .none
    · next m hm => exact absurd hm (h m)
    · exact hn.badSlot

theorem Mirrored.name (hn : n.Mirrored N D n') {i : Nat} :
    RubyTree.Mirrored N q Eq (n.name i) (n'.name i) := by
  unfold Node.name
  rcases hn.child_cases i with ⟨m, m', h, h', hm⟩ | ⟨h, h'⟩
  · rw [h, h']
    exact hn.badSlot
  · rw [h']
    split
    · exact .pure rfl
    · exact hn.badSlot

theorem Mirrored.name? (hn : n.Mirrored N D n') {i : Nat} :
    RubyTree.Mirrored N q Eq (n.name? i) (n'.name? i) := by
  unfold Node.name?
  rcases hn.child_cases i with ⟨m, m', h, h', hm⟩ | ⟨h, h'⟩
  · rw [h, h']
    exact hn.badSlot
  · rw [h']
    split
    · exact .pure rfl
    · exact .pure rfl
    · exact hn.badSlot

theorem Mirrored.literal (hn : n.Mirrored N D n') {i : Nat} :
    RubyTree.Mirrored N q Eq (n.literal i) (n'.literal i) := by
  unfold Node.literal
  rcases hn.child_cases i with ⟨m, m', h, h', hm⟩ | ⟨h, h'⟩
  · rw [h, h']
    exact hn.badSlot
  · rw [h']
    split
    · exact .pure rfl
    · exact hn.badSlot

theorem Mirrored.marker? (hn : n.Mirrored N D n') (i : Nat) : n'.marker? i = n.marker? i := by
  unfold Node.marker?
  rcases hn.child_cases i with ⟨m, m', h, h', hm⟩ | ⟨h, h'⟩
  · rw [h, h']
  · rw [h']

theorem Mirrored.flag (hn : n.Mirrored N D n') {i : Nat} :
    RubyTree.Mirrored N q Eq (n.flag i) (n'.flag i) := by
  unfold Node.flag
  rcases hn.child_cases i with ⟨m, m', h, h', hm⟩ | ⟨h, h'⟩
  · rw [h, h']
    exact hn.badSlot
  · rw [h']
    split
    · exact .pure rfl
    · exact hn.badSlot

theorem Mirrored.count (hn : n.Mirrored N D n') {i : Nat} :
    RubyTree.Mirrored N q Eq (n.count i) (n'.count i) := by
  unfold Node.count
  rcases hn.child_cases i with ⟨m, m', h, h', hm⟩ | ⟨h, h'⟩
  · rw [h, h']
    exact hn.badSlot
  · rw [h']
    split
    · exact .pure rfl
    · exact .pure rfl
    · exact hn.badSlot

theorem Mirrored.table (hn : n.Mirrored N D n') {i : Nat} :
    RubyTree.Mirrored N q Eq (n.table i) (n'.table i) := by
  unfold Node.table
  rcases hn.child_cases i with ⟨m, m', h, h', hm⟩ | ⟨h, h'⟩
  · rw [h, h']
    exact hn.badSlot
  · rw [h']
    split
    · exact .pure rfl
    · exact .pure rfl
    · exact hn.badSlot

theorem nodesAt_mirrored (hn : N n n') {cs cs' : List Child}
    (h : List.Forall₂ (Child.Mirrored D) cs cs') {i : Nat} :
    RubyTree.Mirrored N q (List.Forall₂ D) (n.nodesAt i cs) (n'.nodesAt i cs') := by
  induction h generalizing i with
  | nil => exact .pure .nil
  | @cons c c' _ _ hc _ ih =>
    cases hc with
    | node hm => exact .bind ih fun _ _ hms => .pure (.cons hm hms)
    | same hc =>
      cases c with
      | node m => exact absurd rfl (hc m)
      | _ => exact .unexpected hn rfl

theorem Mirrored.nodesFrom (hn : n.Mirrored N D n') {i : Nat} :
    RubyTree.Mirrored N q (List.Forall₂ D) (n.nodesFrom i) (n'.nodesFrom i) :=
  nodesAt_mirrored hn.self (List.forall₂_drop i hn.children)

end Node

/-! Shapes. -/

inductive RestSlot.Mirrored (D : Node → Node → Prop) : RestSlot → RestSlot → Prop where
  | absent : Mirrored D .absent .absent
  | anonymous : Mirrored D .anonymous .anonymous
  | target {n n' : Node} (h : D n n') : Mirrored D (.target n) (.target n')

inductive KeywordRest.Mirrored (D : Node → Node → Prop) : KeywordRest → KeywordRest → Prop where
  | absent : Mirrored D .absent .absent
  | variableNode {n n' : Node} (h : D n n') : Mirrored D (.variableNode n) (.variableNode n')
  | noKeywords : Mirrored D .noKeywords .noKeywords

structure Descriptor.Mirrored (D : Node → Node → Prop) (d d' : Descriptor) : Prop where
  preCount : d'.preCount = d.preCount
  preInit : Option.Rel D d.preInit d'.preInit
  optionals : Option.Rel D d.optionals d'.optionals
  firstPost : d'.firstPost = d.firstPost
  postCount : d'.postCount = d.postCount
  postInit : Option.Rel D d.postInit d'.postInit
  rest : d'.rest = d.rest
  keywords : Option.Rel D d.keywords d'.keywords
  keywordRest : d.keywordRest.Mirrored D d'.keywordRest
  block : d'.block = d.block

inductive NameOperand.Mirrored (D : Node → Node → Prop) : NameOperand → NameOperand → Prop where
  | node {n n' : Node} (h : D n n') : Mirrored D (.node n) (.node n')
  | name (s : Name) : Mirrored D (.name s) (.name s)

/-- The same shape, with related nodes in its fields. The operands of a pair, which may be those of
a flip-flop, are related by `E`. -/
inductive Shape.Mirrored (D E : Node → Node → Prop) : Shape → Shape → Prop where
  | scope {args args' body body'} (table : Table) (hargs : Option.Rel D args args')
      (hbody : Option.Rel D body body') :
      Mirrored D E (.scope table args body) (.scope table args' body')
  | block {ns ns'} (h : List.Forall₂ D ns ns') : Mirrored D E (.block ns) (.block ns')
  | conditional {m m' body body' other other'} (hm : D m m') (hbody : Option.Rel D body body')
      (hother : Option.Rel D other other') :
      Mirrored D E (.conditional m body other) (.conditional m' body' other')
  | case {subject subject' clauses clauses'} (hsubject : Option.Rel D subject subject')
      (hclauses : Option.Rel D clauses clauses') :
      Mirrored D E (.case subject clauses) (.case subject' clauses')
  | when {conditions conditions' body body' next next'}
      (hconditions : Option.Rel D conditions conditions') (hbody : Option.Rel D body body')
      (hnext : Option.Rel D next next') :
      Mirrored D E (.when conditions body next) (.when conditions' body' next')
  | loop {m m' body body'} (hm : D m m') (hbody : Option.Rel D body body') (post : Bool) :
      Mirrored D E (.loop m body post) (.loop m' body' post)
  | iter {call call' scope scope'} (hcall : D call call') (hscope : D scope scope') :
      Mirrored D E (.iter call scope) (.iter call' scope')
  | forIn {m m' scope scope'} (hm : D m m') (hscope : D scope scope') :
      Mirrored D E (.forIn m scope) (.forIn m' scope')
  | jump {o o'} (h : Option.Rel D o o') : Mirrored D E (.jump o) (.jump o')
  | begin {o o'} (h : Option.Rel D o o') : Mirrored D E (.begin o) (.begin o')
  | rescue {body body' clause clause' other other'} (hbody : Option.Rel D body body')
      (hclause : Option.Rel D clause clause') (hother : Option.Rel D other other') :
      Mirrored D E (.rescue body clause other) (.rescue body' clause' other')
  | rescueClause {exceptions exceptions' body body' next next'}
      (hexceptions : Option.Rel D exceptions exceptions') (hbody : Option.Rel D body body')
      (hnext : Option.Rel D next next') :
      Mirrored D E (.rescueClause exceptions body next) (.rescueClause exceptions' body' next')
  | ensure {body body' ensured ensured'} (hbody : Option.Rel D body body')
      (hensured : Option.Rel D ensured ensured') :
      Mirrored D E (.ensure body ensured) (.ensure body' ensured')
  | pair {left left' right right'} (hleft : Option.Rel E left left')
      (hright : Option.Rel E right right') : Mirrored D E (.pair left right) (.pair left' right')
  | multiAssign {value value' head head' rest rest' posts posts'}
      (hvalue : Option.Rel D value value') (hhead : Option.Rel D head head')
      (hrest : RestSlot.Mirrored D rest rest') (hposts : Option.Rel D posts posts') :
      Mirrored D E (.multiAssign value head rest posts) (.multiAssign value' head' rest' posts')
  | assign {value value'} (name : Name) (hvalue : Option.Rel D value value') (required : Bool) :
      Mirrored D E (.assign name value required) (.assign name value' required)
  | constPathAssign {path path' value value'} (hpath : D path path') (name : Name)
      (hvalue : Option.Rel D value value') :
      Mirrored D E (.constPathAssign path name value) (.constPathAssign path' name value')
  | indexOpAssign {receiver receiver' index index' value value'} (hreceiver : D receiver receiver')
      (operator : Name) (hindex : Option.Rel D index index') (hvalue : D value value') :
      Mirrored D E (.indexOpAssign receiver operator index value)
        (.indexOpAssign receiver' operator index' value')
  | attrOpAssign {receiver receiver' value value'} (hreceiver : D receiver receiver') (safe : Bool)
      (name operator : Name) (hvalue : D value value') :
      Mirrored D E (.attrOpAssign receiver safe name operator value)
        (.attrOpAssign receiver' safe name operator value')
  | conditionalAssign {read read' assignment assignment'} (hread : D read read')
      (hassignment : D assignment assignment') :
      Mirrored D E (.conditionalAssign read assignment) (.conditionalAssign read' assignment')
  | constOpAssign {path path' value value'} (hpath : D path path') (operator : Name)
      (hvalue : D value value') :
      Mirrored D E (.constOpAssign path operator value) (.constOpAssign path' operator value')
  | call {receiver receiver' args args'} (hreceiver : Option.Rel D receiver receiver')
      (name : Name) (hargs : Option.Rel D args args') :
      Mirrored D E (.call receiver name args) (.call receiver' name args')
  | invoke {o o'} (h : Option.Rel D o o') : Mirrored D E (.invoke o) (.invoke o')
  | list {ns ns'} (h : List.Forall₂ D ns ns') : Mirrored D E (.list ns) (.list ns')
  | hash {o o'} (h : Option.Rel D o o') : Mirrored D E (.hash o) (.hash o')
  | variableName (name : Name) : Mirrored D E (.variableName name) (.variableName name)
  | literal (value : Literal) : Mirrored D E (.literal value) (.literal value)
  | symbol (name : Name) : Mirrored D E (.symbol name) (.symbol name)
  | interpolation {head head' tail tail'} (leading : Option String)
      (hhead : Option.Rel D head head') (htail : Option.Rel D tail tail') (options : UInt32) :
      Mirrored D E (.interpolation leading head tail options)
        (.interpolation leading head' tail' options)
  | wrapper {o o'} (h : Option.Rel D o o') : Mirrored D E (.wrapper o) (.wrapper o')
  | matchOperator {regexp regexp' value value' captures captures'} (hregexp : D regexp regexp')
      (hvalue : D value value') (hcaptures : Option.Rel D captures captures') :
      Mirrored D E (.matchOperator regexp value captures) (.matchOperator regexp' value' captures')
  | definition {receiver receiver' scope scope'} (hreceiver : Option.Rel D receiver receiver')
      (name : Name) (hscope : D scope scope') :
      Mirrored D E (.definition receiver name scope) (.definition receiver' name scope')
  | «alias» {m m' old old'} (hm : D m m') (hold : D old old') :
      Mirrored D E (.alias m old) (.alias m' old')
  | globalAlias (newName oldName : Name) :
      Mirrored D E (.globalAlias newName oldName) (.globalAlias newName oldName)
  | undef {names names'} (h : List.Forall₂ (NameOperand.Mirrored D) names names') :
      Mirrored D E (.undef names) (.undef names')
  | classDefinition {path path' superclass superclass' scope scope'} (hpath : D path path')
      (hsuperclass : Option.Rel D superclass superclass') (hscope : D scope scope') :
      Mirrored D E (.classDefinition path superclass scope)
        (.classDefinition path' superclass' scope')
  | moduleDefinition {path path' scope scope'} (hpath : D path path') (hscope : D scope scope') :
      Mirrored D E (.moduleDefinition path scope) (.moduleDefinition path' scope')
  | singletonClass {receiver receiver' scope scope'} (hreceiver : D receiver receiver')
      (hscope : D scope scope') :
      Mirrored D E (.singletonClass receiver scope) (.singletonClass receiver' scope')
  | colon {parent parent'} (hparent : Option.Rel D parent parent') (name : Name) :
      Mirrored D E (.colon parent name) (.colon parent' name)
  | params {d d'} (h : Descriptor.Mirrored D d d') : Mirrored D E (.params d) (.params d')
  | paramLink {body body' next next'} (hbody : D body body') (hnext : Option.Rel D next next') :
      Mirrored D E (.paramLink body next) (.paramLink body' next')
  | postArg {rest rest' posts posts'} (hrest : RestSlot.Mirrored D rest rest')
      (hposts : D posts posts') : Mirrored D E (.postArg rest posts) (.postArg rest' posts')
  | leaf : Mirrored D E .leaf .leaf
  | unsupported : Mirrored D E .unsupported .unsupported

namespace Node

variable {N O D E : Node → Node → Prop} {q : Accord} {n n' : Node}

theorem Mirrored.restSlot (hn : n.Mirrored N D n') {i : Nat} :
    RubyTree.Mirrored N q (RestSlot.Mirrored D) (n.restSlot i) (n'.restSlot i) := by
  unfold Node.restSlot
  rcases hn.child_cases i with ⟨m, m', h, h', hm⟩ | ⟨h, h'⟩
  · rw [h, h']
    exact .bind hn.node fun _ _ hnode => .pure (.target hnode)
  · rw [h']
    split
    · exact .pure .absent
    · exact .pure .anonymous
    · exact .bind hn.node fun _ _ hnode => .pure (.target hnode)

/-- The slots of a `POSTARG` are read through the node that holds it. -/
theorem Mirrored.multiAssignShape (hD : Mirroring N O D) (hn : n.Mirrored N D n') :
    RubyTree.Mirrored N q (Shape.Mirrored D E) n.multiAssignShape n'.multiAssignShape := by
  unfold Node.multiAssignShape
  refine .bind hn.node? fun value value' hvalue => .bind hn.node? fun head head' hhead => ?_
  have hplain : RubyTree.Mirrored N q (Shape.Mirrored D E)
      (n.restSlot 2 >>= fun rest => Pure.pure (.multiAssign value head rest none))
      (n'.restSlot 2 >>= fun rest => Pure.pure (.multiAssign value' head' rest none)) :=
    .bind hn.restSlot fun _ _ hrest => .pure (.multiAssign hvalue hhead hrest .none)
  rcases hn.child_cases 2 with ⟨m, m', h, h', hm⟩ | ⟨h, h'⟩
  · rw [h, h']
    have hargs := hD m m' hm
    dsimp only
    rw [hargs.kind]
    split
    · next hkind =>
      have hargs := hargs.opened (by rw [hkind]; rfl)
      exact .bind hargs.restSlot fun _ _ hrest => .bind hargs.node fun _ _ hposts =>
        .pure (.multiAssign hvalue hhead hrest (.some hposts))
    · exact hplain
  · rw [h']
    split
    · next m hm => exact absurd hm (h m)
    · exact hplain

theorem Mirrored.assignShape (hn : n.Mirrored N D n') :
    RubyTree.Mirrored N q (Shape.Mirrored D E) n.assignShape n'.assignShape := by
  unfold Node.assignShape
  refine .same hn.name fun name => ?_
  rw [hn.marker? 1]
  split
  · exact .pure (.assign name .none true)
  · exact .bind hn.node? fun _ _ hvalue => .pure (.assign name hvalue false)

theorem Mirrored.constAssignShape (hn : n.Mirrored N D n') :
    RubyTree.Mirrored N q (Shape.Mirrored D E) n.constAssignShape n'.constAssignShape := by
  unfold Node.constAssignShape
  rcases hn.child_cases 0 with ⟨m, m', h, h', hm⟩ | ⟨h, h'⟩
  · rw [h, h']
    exact .same hn.name fun name => .bind hn.node? fun _ _ hvalue =>
      .pure (.constPathAssign hm name hvalue)
  · rw [h']
    split
    · next m hm => exact absurd hm (h m)
    · exact hn.assignShape

theorem Mirrored.symbolShape (hn : n.Mirrored N D n') :
    RubyTree.Mirrored N q (Shape.Mirrored D E) n.symbolShape n'.symbolShape := by
  unfold Node.symbolShape
  rcases hn.child_cases 0 with ⟨m, m', h, h', hm⟩ | ⟨h, h'⟩
  · rw [h, h']
    exact .same hn.name fun name => .pure (.symbol name)
  · rw [h']
    split
    · exact .pure (.symbol _)
    · exact .same hn.name fun name => .pure (.symbol name)

theorem Mirrored.leadingText (hn : n.Mirrored N D n') :
    RubyTree.Mirrored N q Eq n.leadingText n'.leadingText := by
  unfold Node.leadingText
  rcases hn.child_cases 0 with ⟨m, m', h, h', hm⟩ | ⟨h, h'⟩
  · rw [h, h']
    exact .unexpected hn.self rfl
  · rw [h']
    split
    · exact .pure rfl
    · exact .pure rfl
    · exact .unexpected hn.self rfl

theorem Mirrored.interpolationShape (hn : n.Mirrored N D n') :
    RubyTree.Mirrored N q (Shape.Mirrored D E) n.interpolationShape n'.interpolationShape := by
  unfold Node.interpolationShape
  refine .same hn.leadingText fun leading => .bind hn.node? fun head head' hhead => ?_
  refine .bind hn.node? fun tail tail' htail => ?_
  rcases hn.child_cases 3 with ⟨m, m', h, h', hm⟩ | ⟨h, h'⟩
  · rw [h, h']
    exact .same hn.count fun options => .pure (.interpolation leading hhead htail _)
  · rw [h']
    split
    · exact .pure (.interpolation leading hhead htail 0)
    · exact .same hn.count fun options => .pure (.interpolation leading hhead htail _)

theorem nameOperandsAt_mirrored (hn : N n n') {cs cs' : List Child}
    (h : List.Forall₂ (Child.Mirrored D) cs cs') {i : Nat} :
    RubyTree.Mirrored N q (List.Forall₂ (NameOperand.Mirrored D)) (n.nameOperandsAt i cs)
      (n'.nameOperandsAt i cs') := by
  induction h generalizing i with
  | nil => exact .pure .nil
  | @cons c c' _ _ hc _ ih =>
    cases hc with
    | node hm => exact .bind ih fun _ _ hs => .pure (.cons (.node hm) hs)
    | same hc =>
      cases c with
      | node m => exact absurd rfl (hc m)
      | name s => exact .bind ih fun _ _ hs => .pure (.cons (.name s) hs)
      | _ => exact .unexpected hn rfl

theorem Mirrored.restParameter (hn : n.Mirrored N D n') :
    RubyTree.Mirrored N q Eq n.restParameter n'.restParameter := by
  unfold Node.restParameter
  rcases hn.child_cases 6 with ⟨m, m', h, h', hm⟩ | ⟨h, h'⟩
  · rw [h, h']
    exact .same hn.name fun name => .pure rfl
  · rw [h']
    split
    · exact .pure rfl
    · exact .pure rfl
    · exact .pure rfl
    · exact .same hn.name fun name => .pure rfl

theorem Mirrored.keywordRest (hD : Mirroring N O D) (hn : n.Mirrored N D n') :
    RubyTree.Mirrored N q (KeywordRest.Mirrored D) n.keywordRest n'.keywordRest := by
  have hvariable : RubyTree.Mirrored N q (KeywordRest.Mirrored D)
      (n.node 8 >>= fun var => var.expectKind [.DVAR, .LVAR] >>= fun m =>
        Pure.pure (.variableNode m))
      (n'.node 8 >>= fun var => var.expectKind [.DVAR, .LVAR] >>= fun m =>
        Pure.pure (.variableNode m)) :=
    .bind hn.node fun m m' hm => (hD m m' hm).ofKind fun _ => .pure (.variableNode hm)
  unfold Node.keywordRest
  rcases hn.child_cases 8 with ⟨m, m', h, h', hm⟩ | ⟨h, h'⟩
  · rw [h, h']
    exact hvariable
  · rw [h']
    split
    · exact .pure .absent
    · exact .pure .noKeywords
    · exact hvariable

theorem Mirrored.descriptor (hD : Mirroring N O D) (hn : n.Mirrored N D n') :
    RubyTree.Mirrored N q (Descriptor.Mirrored D) n.descriptor n'.descriptor := by
  unfold Node.descriptor
  exact .same hn.restParameter fun rest => .bind (hn.keywordRest hD) fun _ _ hkeywordRest =>
    .same hn.count fun preCount => .bind hn.node? fun _ _ hpre =>
    .bind hn.node? fun _ _ hoptionals => .same hn.name? fun firstPost =>
    .same hn.count fun postCount => .bind hn.node? fun _ _ hpost =>
    .bind hn.node? fun _ _ hkeywords => .same hn.name? fun block =>
    .pure ⟨rfl, hpre, hoptionals, rfl, rfl, hpost, rfl, hkeywords, hkeywordRest, rfl⟩

theorem Mirrored.plainShape (hD : Mirroring N O D) (hn : n.Mirrored N D n') :
    RubyTree.Mirrored N q (Shape.Mirrored D D) n.shape n'.shape := by
  unfold Node.shape
  rw [hn.kind]
  cases n.kind
  all_goals with_reducible
    first
    | exact hn.multiAssignShape hD
    | exact hn.assignShape
    | exact hn.constAssignShape
    | exact hn.symbolShape
    | exact hn.interpolationShape
    | skip
  -- What is left reads its slots one after the other and puts them together.
  all_goals with_reducible
    repeat first
      | refine .bind hn.node fun _ _ _ => ?_
      | refine .bind hn.node? fun _ _ _ => ?_
      | refine .bind hn.nodesFrom fun _ _ _ => ?_
      | refine .bind hn.restSlot fun _ _ _ => ?_
      | refine .bind (hn.descriptor hD) fun _ _ _ => ?_
      | refine .bind (nameOperandsAt_mirrored hn.self hn.children) fun _ _ _ => ?_
      | refine .same hn.name fun _ => ?_
      | refine .same hn.literal fun _ => ?_
      | refine .same hn.flag fun _ => ?_
      | refine .same hn.table fun _ => ?_
    refine .pure ?_
    constructor
  all_goals first | assumption | exact .some ‹_› | exact .none | exact .nil

theorem Mirrored.flipFlopShape (hn : n.Mirrored N E n') (hkind : n.kind.isFlipFlop = true) :
    RubyTree.Mirrored N q (Shape.Mirrored D E) n.shape n'.shape := by
  have hpair : RubyTree.Mirrored N q (Shape.Mirrored D E)
      (n.node? 0 >>= fun left => n.node? 1 >>= fun right => Pure.pure (.pair left right))
      (n'.node? 0 >>= fun left => n'.node? 1 >>= fun right => Pure.pure (.pair left right)) :=
    .bind hn.node? fun _ _ hleft => .bind hn.node? fun _ _ hright => .pure (.pair hleft hright)
  unfold Node.shape
  rw [hn.kind]
  generalize n.kind = kind at hkind
  cases kind with
  | FLIP2 => exact hpair
  | FLIP3 => exact hpair
  | _ => cases hkind

theorem Mirrored.shape (hD : Mirroring N O D) (hn : n.Mirrored N (n.Inside O D) n') :
    RubyTree.Mirrored N q (Shape.Mirrored D (n.Inside O D)) n.shape n'.shape := by
  cases hkind : n.kind.isFlipFlop with
  | true => exact hn.flipFlopShape hkind
  | false =>
    rw [inside_of_not_isFlipFlop hkind]
    exact (hn.opened hkind).plainShape hD

end Node

end Legacy

end RubyTree
