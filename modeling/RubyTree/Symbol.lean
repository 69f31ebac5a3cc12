import RubyTree.Name

/-! Names by number. A table numbers the names that it meets, and a symbol is such a number: symbols
are told apart by their numbers, and by the names behind them where an order is asked for. -/

namespace RubyTree

/-- Names numbered in the order in which they were first met. One table finds the number of a name,
in the other a name stands at its number. -/
structure Interner where
  ids : List (Name × UInt32)
  names : Array Name

namespace Interner

def empty : Interner := ⟨[], #[]⟩

def size (table : Interner) : Nat := table.names.size

def id? (table : Interner) (name : Name) : Option UInt32 :=
  (table.ids.find? (·.1 = name)).map (·.2)

def name? (table : Interner) (id : UInt32) : Option Name := table.names[id.toNat]?

/-- A new name takes the next place. Its number keeps the low 32 bits of the place. -/
def add (table : Interner) (name : Name) : UInt32 × Interner :=
  let id := UInt32.ofNat table.names.size
  (id, ⟨(name, id) :: table.ids, table.names.push name⟩)

/-- The number of a name, which joins the table if it is new. -/
def intern (table : Interner) (name : Name) : UInt32 × Interner :=
  match table.id? name with
  | some id => (id, table)
  | none => table.add name

/-- The numbers of several names, met one after the other. -/
def internAll (table : Interner) : List Name → List UInt32 × Interner
  | [] => ([], table)
  | name :: rest =>
    let (id, table) := table.intern name
    let (ids, table) := table.internAll rest
    (id :: ids, table)

end Interner

/-- A name by its number in a table. -/
@[ext]
structure Symbol where
  id : UInt32
deriving DecidableEq

namespace Symbol

/-- The symbol of a name, which joins the table if it is new. -/
def ofName (table : Interner) (name : Name) : Symbol × Interner :=
  let (id, table) := table.intern name
  (⟨id⟩, table)

def name? (table : Interner) (symbol : Symbol) : Option Name := table.name? symbol.id

def withSuffix (table : Interner) (symbol : Symbol) (suffix : String) :
    Option (Symbol × Interner) := do
  let name ← symbol.name? table
  pure (ofName table (name.withSuffix suffix))

/-- Symbols come in the order of their names, which are looked at only if the numbers differ. -/
def compare (table : Interner) (a b : Symbol) : Option Ordering :=
  if a = b then some .eq
  else do
    let left ← a.name? table
    let right ← b.name? table
    pure (Ord.compare left right)

end Symbol

end RubyTree
