/-! Flag words of canonical nodes. A word has thirty-two bits, of which a family names some; the
others are kept. -/

namespace RubyTree

namespace Canonical

abbrev Flags := UInt32

inductive FlagFamily where
  | call | loop | range | integerBase | string | regexp | arguments | array
deriving DecidableEq

namespace Flags

def empty : Flags := 0

def safeNavigation : Flags := 1
def variableCall : Flags := 2
def attributeWrite : Flags := 4
def ignoreVisibility : Flags := 8

def beginModifier : Flags := 1

def excludeEnd : Flags := 1

def decimal : Flags := 2

def frozen : Flags := 4

def ignoreCase : Flags := 1
def extended : Flags := 2
def multiLine : Flags := 4
def once : Flags := 8

def containsSplat : Flags := 4
def containsMultipleSplats : Flags := 8

def arrayContainsSplat : Flags := 1

/-- Whether every bit of `other` is set. -/
def contains (word other : Flags) : Bool := word &&& other == other

end Flags

namespace FlagFamily

/-- The named bits, from the lowest on. -/
def bits : FlagFamily → List (String × Flags)
  | .call =>
    [("SAFE_NAVIGATION", 1), ("VARIABLE_CALL", 2), ("ATTRIBUTE_WRITE", 4), ("IGNORE_VISIBILITY", 8)]
  | .loop => [("BEGIN_MODIFIER", 1)]
  | .range => [("EXCLUDE_END", 1)]
  | .integerBase => [("BINARY", 1), ("DECIMAL", 2), ("OCTAL", 4), ("HEXADECIMAL", 8)]
  | .string =>
    [("FORCED_UTF8_ENCODING", 1), ("FORCED_BINARY_ENCODING", 2), ("FROZEN", 4), ("MUTABLE", 8)]
  | .regexp => [("IGNORE_CASE", 1), ("EXTENDED", 2), ("MULTI_LINE", 4), ("ONCE", 8)]
  | .arguments =>
    [("CONTAINS_KEYWORDS", 1), ("CONTAINS_KEYWORD_SPLAT", 2), ("CONTAINS_SPLAT", 4),
      ("CONTAINS_MULTIPLE_SPLATS", 8)]
  | .array => [("CONTAINS_SPLAT", 1)]

def names (family : FlagFamily) (word : Flags) : List String :=
  (family.bits.filter fun (_, bit) => word &&& bit != 0).map (·.1)

end FlagFamily

end Canonical

end RubyTree
