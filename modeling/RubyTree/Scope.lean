import RubyTree.Legacy.Node

/-! The chain of local tables that a reference can see, the innermost first. A block or lambda adds
a table; the body of a method, class or module starts a chain of its own. -/

namespace RubyTree

abbrev Scope := List Legacy.Table

namespace Scope

def declares (table : Legacy.Table) (name : Name) : Bool := table.contains (some name)

/-- How many tables separate a reference from the one that declares the name; zero when none
does. -/
def depth (scope : Scope) (name : Name) : Nat :=
  (scope.findIdx? (declares · name)).getD 0

end Scope

end RubyTree
