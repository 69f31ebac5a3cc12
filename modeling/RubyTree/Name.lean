/-! Names of methods, variables and constants. -/

namespace RubyTree

/-- A name is its text: comparison is exact and case-sensitive. -/
@[ext]
structure Name where
  text : String
deriving DecidableEq, Inhabited

/-- The order of the characters, which is that of the bytes. -/
instance : Ord Name where
  compare a b := compare a.text b.text

namespace Name

/-- The name with a suffix, such as the writer `foo=` of the reader `foo`. -/
def withSuffix (name : Name) (suffix : String) : Name := ⟨name.text ++ suffix⟩

def symbolText (name : Name) : String := ":" ++ name.text

end Name

end RubyTree
