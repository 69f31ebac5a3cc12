/-! Where the lines of a source start, to turn a line and a column into a byte offset. -/

namespace RubyTree

/-- The offsets of the first byte of each line, and the length of the source in bytes. -/
structure LineTable where
  starts : List Nat
  length : Nat
deriving DecidableEq, Inhabited

namespace LineTable

/-- Running sums: where each of the parts starts when they are laid end to end. -/
def startsFrom (offset : Nat) : List Nat → List Nat
  | [] => []
  | size :: rest => offset :: startsFrom (offset + size) rest

def total (sizes : List Nat) : Nat := sizes.foldr (· + ·) 0

def ofSizes (sizes : List Nat) : LineTable := ⟨startsFrom 0 sizes, total sizes⟩

/-- From lines that each include their line break. -/
def ofLines (lines : List String) : LineTable := ofSizes (lines.map String.utf8ByteSize)

def cutLines : List Char → List (List Char)
  | [] => []
  | c :: rest =>
    if c = '\n' then [c] :: cutLines rest
    else match cutLines rest with
      | [] => [[c]]
      | line :: lines => (c :: line) :: lines

def byteSize (cs : List Char) : Nat := total (cs.map Char.utf8Size)

def ofSource (source : String) : LineTable := ofSizes ((cutLines source.toList).map byteSize)

def lineCount (table : LineTable) : Nat := table.starts.length

/-- The offset of a column on a line, modulo the size of a word. The column may lie behind the end
of the line. -/
def resolve? (table : LineTable) (line column : Nat) : Option Nat :=
  match line with
  | 0 => none
  | k + 1 => table.starts[k]?.map fun start => (start + column) % UInt64.size

end LineTable

end RubyTree
