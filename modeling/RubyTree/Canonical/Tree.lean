import RubyTree.Canonical.Flags
import RubyTree.Canonical.Kind
import RubyTree.Name
import RubyTree.Span

/-! The canonical tree. The fields of a node are typed by its kind, so a tree has exactly the fields
that its kinds call for; what is done to every tree alike goes over the fields and not over the
kinds. -/

namespace RubyTree

namespace Canonical

mutual

inductive Tree : Type where
  | mk (kind : Kind) (fields : Fields kind.fields) (location : Span)

inductive Fields : List Field → Type where
  | nil : Fields []
  | cons {field : Field} {rest : List Field} (value : Value field.sort) (values : Fields rest) :
      Fields (field :: rest)

inductive Value : FieldSort → Type where
  | span (value : Span) : Value .span
  | name (value : Name) : Value .name
  | optName (value : Option Name) : Value .optName
  | names (value : List Name) : Value .names
  | flags (value : Flags) : Value .flags
  | nat (value : Nat) : Value .nat
  | int (value : Int) : Value .int
  | float (value : Double) : Value .float
  | text (value : String) : Value .text
  | tree (value : Tree) : Value .tree
  | optTree (value : Option Tree) : Value .optTree
  | trees (value : List Tree) : Value .trees

end

namespace Tree

def kind : Tree → Kind
  | .mk kind _ _ => kind

def location : Tree → Span
  | .mk _ _ location => location

def withLocation (location : Span) : Tree → Tree
  | .mk kind fields _ => .mk kind fields location

def typeName (t : Tree) : String := t.kind.typeName

mutual

/-- Exact equality, with floats compared as numbers. -/
def same : Tree → Tree → Bool
  | .mk k fs s, .mk l gs t => if h : k = l then sameFields fs (h ▸ gs) && s == t else false

def sameFields : {fields : List Field} → Fields fields → Fields fields → Bool
  | _, .nil, .nil => true
  | _, .cons v vs, .cons w ws => sameValue v w && sameFields vs ws

def sameValue : {sort : FieldSort} → Value sort → Value sort → Bool
  | _, .span a, .span b => a == b
  | _, .name a, .name b => a == b
  | _, .optName a, .optName b => a == b
  | _, .names a, .names b => a == b
  | _, .flags a, .flags b => a == b
  | _, .nat a, .nat b => a == b
  | _, .int a, .int b => a == b
  | _, .float a, .float b => a.sameNumber b
  | _, .text a, .text b => a == b
  | _, .tree a, .tree b => same a b
  | _, .optTree none, .optTree none => true
  | _, .optTree (some a), .optTree (some b) => same a b
  | _, .optTree _, .optTree _ => false
  | _, .trees as, .trees bs => sameTrees as bs

def sameTrees : List Tree → List Tree → Bool
  | [], [] => true
  | a :: as, b :: bs => same a b && sameTrees as bs
  | _, _ => false

end

end Tree

end Canonical

end RubyTree
