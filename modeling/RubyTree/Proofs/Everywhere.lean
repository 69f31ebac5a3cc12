import RubyTree.Canonical.Forms

/-! Properties of every node of a canonical tree. What is asked of a node may depend on what it
inherits from the nodes around it, such as the place where it stands or the names it can see. -/

namespace RubyTree

namespace Canonical

variable {sort : FieldSort} {field : Field} {rest : List Field}

/-- The tree stands in the field, by itself or in a list. -/
def Value.Child : {sort : FieldSort} → Value sort → Tree → Prop
  | _, .tree u, t => t = u
  | _, .optTree o, t => o = some t
  | _, .trees ts, t => t ∈ ts
  | _, _, _ => False

namespace Value

@[simp] theorem not_child_span {s : Span} {t : Tree} : ¬(span s).Child t := id

@[simp] theorem not_child_name {n : Name} {t : Tree} : ¬(name n).Child t := id

@[simp] theorem not_child_optName {n : Option Name} {t : Tree} : ¬(optName n).Child t := id

@[simp] theorem not_child_names {ns : List Name} {t : Tree} : ¬(names ns).Child t := id

@[simp] theorem not_child_flags {f : Flags} {t : Tree} : ¬(flags f).Child t := id

@[simp] theorem not_child_nat {n : Nat} {t : Tree} : ¬(nat n).Child t := id

@[simp] theorem not_child_int {i : Int} {t : Tree} : ¬(int i).Child t := id

@[simp] theorem not_child_float {x : Double} {t : Tree} : ¬(float x).Child t := id

@[simp] theorem not_child_text {s : String} {t : Tree} : ¬(text s).Child t := id

def name? : {sort : FieldSort} → Value sort → Option Name
  | _, .name n => some n
  | _, _ => none

def nat? : {sort : FieldSort} → Value sort → Option Nat
  | _, .nat n => some n
  | _, _ => none

def names? : {sort : FieldSort} → Value sort → Option (List Name)
  | _, .names ns => some ns
  | _, _ => none

def flags? : {sort : FieldSort} → Value sort → Option Flags
  | _, .flags f => some f
  | _, _ => none

def tree? : {sort : FieldSort} → Value sort → Option Tree
  | _, .tree t => some t
  | _, _ => none

def trees? : {sort : FieldSort} → Value sort → Option (List Tree)
  | _, .trees ts => some ts
  | _, _ => none

end Value

namespace Fields

def Child : {fields : List Field} → Fields fields → String → Tree → Prop
  | _, .nil, _, _ => False
  | field :: _, .cons value values, label, t =>
    label = field.label ∧ value.Child t ∨ values.Child label t

@[simp] theorem forall_child_nil {P : String → Tree → Prop} :
    (∀ label t, Fields.nil.Child label t → P label t) ↔ True := by
  simp [Child]

@[simp] theorem forall_child_cons {value : Value field.sort} {values : Fields rest}
    {P : String → Tree → Prop} :
    (∀ label t, (Fields.cons value values).Child label t → P label t) ↔
      (∀ t, value.Child t → P field.label t) ∧ ∀ label t, values.Child label t → P label t := by
  constructor
  · intro h
    exact ⟨fun t ht => h field.label t (.inl ⟨rfl, ht⟩), fun label t ht => h label t (.inr ht)⟩
  · rintro ⟨hvalue, hvalues⟩ label t (⟨rfl, ht⟩ | ht)
    · exact hvalue t ht
    · exact hvalues label t ht

def get? {α : Type} (read : {sort : FieldSort} → Value sort → Option α) (label : String) :
    {fields : List Field} → Fields fields → Option α
  | _, .nil => none
  | field :: _, .cons value values =>
    if field.label = label then read value else values.get? read label

end Fields

namespace Tree

def flags? : Tree → Option Flags
  | .mk _ fields _ => fields.get? Value.flags? "flags"

def name? : Tree → Option Name
  | .mk _ fields _ => fields.get? Value.name? "name"

def tree? (label : String) : Tree → Option Tree
  | .mk _ fields _ => fields.get? Value.tree? label

def trees? (label : String) : Tree → Option (List Tree)
  | .mk _ fields _ => fields.get? Value.trees? label

/-- The nodes of a tree, its root included. -/
inductive Contains (t : Tree) : Tree → Prop where
  | root : Contains t t
  | child {kind : Kind} {fields : Fields kind.fields} {location : Span} {label : String} {u : Tree}
      (h : Contains t (.mk kind fields location)) (hu : fields.Child label u) : Contains t u

/-- Every node passes, given what it inherits when the root inherits `e`. `Enters` says what the
children of a node under a label may inherit; one inheritance is chosen for each label. -/
inductive Every {E : Type} (Enters : E → Tree → String → E → Prop) (Passes : E → Tree → Prop) :
    E → Tree → Prop where
  | node {e : E} {kind : Kind} {fields : Fields kind.fields} {location : Span}
      (inner : String → E)
      (here : Passes e (.mk kind fields location))
      (enters : ∀ label, Enters e (.mk kind fields location) label (inner label))
      (below : ∀ label t, fields.Child label t → Every Enters Passes (inner label) t) :
      Every Enters Passes e (.mk kind fields location)

theorem Every.map {E F : Type} {Enters : E → Tree → String → E → Prop} {Passes : E → Tree → Prop}
    {Enters' : F → Tree → String → F → Prop} {Passes' : F → Tree → Prop} (f : E → F)
    (hpasses : ∀ e t, Passes e t → Passes' (f e) t)
    (henters : ∀ e t label i, Enters e t label i → Enters' (f e) t label (f i))
    {e : E} {t : Tree} (h : t.Every Enters Passes e) : t.Every Enters' Passes' (f e) := by
  induction h with
  | node inner here enters below ih =>
    exact .node (fun label => f (inner label)) (hpasses _ _ here)
      (fun label => henters _ _ _ _ (enters label)) ih

theorem Every.of_contains {E : Type} {Enters : E → Tree → String → E → Prop}
    {Passes : E → Tree → Prop} {e : E} {t u : Tree} (h : t.Every Enters Passes e)
    (hu : t.Contains u) : ∃ inherited, u.Every Enters Passes inherited := by
  induction hu with
  | root => exact ⟨e, h⟩
  | @child _ _ _ label u _ hchild ih =>
    obtain ⟨inherited, hparent⟩ := ih
    cases hparent with
    | node inner here enters below => exact ⟨inner label, below label u hchild⟩

theorem Every.here {E : Type} {Enters : E → Tree → String → E → Prop} {Passes : E → Tree → Prop}
    {e : E} {t : Tree} (h : t.Every Enters Passes e) : Passes e t := by
  cases h with
  | node inner here enters below => exact here

end Tree

end Canonical

end RubyTree
