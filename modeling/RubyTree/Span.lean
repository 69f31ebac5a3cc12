import RubyTree.Json.Basic

/-! Byte spans of a source, and the line and column bounds that legacy nodes carry. -/

namespace RubyTree

structure Span where
  start : Nat
  length : Nat
deriving DecidableEq, Inhabited

namespace Span

def null : Span := ⟨0, 0⟩

def isNull (s : Span) : Bool := s.start == 0 && s.length == 0

def stop (s : Span) : Nat := s.start + s.length

def ofBounds (start stop : Nat) : Span := ⟨start, stop - start⟩

/-- The smallest span that contains both. A null side contributes nothing. -/
def cover (s t : Span) : Span :=
  if s.isNull then t
  else if t.isNull then s
  else ofBounds (min s.start t.start) (max s.stop t.stop)

/-- Whether one span may stand for the other when trees are compared. -/
def agrees (s t : Span) : Bool := s.isNull || t.isNull || s == t

def text (s : Span) : String :=
  if s.isNull then "(null)" else "(" ++ Nat.repr s.start ++ "..." ++ Nat.repr s.stop ++ ")"

/-- Splits a text behind its first `n` bytes, if a character ends there. -/
def splitBytes? (n : Nat) : List Char → Option (List Char × List Char)
  | [] => if n = 0 then some ([], []) else none
  | c :: rest =>
    if n = 0 then some ([], c :: rest)
    else if n < c.utf8Size then none
    else do
      let (front, back) ← splitBytes? (n - c.utf8Size) rest
      some (c :: front, back)

/-- The part of the source that the span covers, if it starts and ends between characters. -/
def slice? (s : Span) (source : String) : Option String := do
  let (_, rest) ← splitBytes? s.start source.toList
  let (part, _) ← splitBytes? s.length rest
  some (String.ofList part)

def toJson (s : Span) : Json :=
  .object [("start", .ofNat s.start), ("length", .ofNat s.length)]

def ofJson? (value : Json) : Option Span := do
  match ← value.recordFields? ["start", "length"] with
  | [some start, some length] => some ⟨← start.nat64?, ← length.nat64?⟩
  | _ => none

end Span

/-- The bounds of a legacy node: lines from one, columns in bytes from zero. -/
structure Position where
  firstLine : Nat
  firstColumn : Nat
  lastLine : Nat
  lastColumn : Nat
deriving DecidableEq, Inhabited

namespace Position

/-- The first point is the last: there was nothing to report. -/
def isDegenerate (p : Position) : Bool :=
  p.firstLine == p.lastLine && p.firstColumn == p.lastColumn

def text (p : Position) : String :=
  Nat.repr p.firstLine ++ ":" ++ Nat.repr p.firstColumn ++ "-" ++
    Nat.repr p.lastLine ++ ":" ++ Nat.repr p.lastColumn

def toJson (p : Position) : Json :=
  .object [("first_line", .ofNat p.firstLine), ("first_column", .ofNat p.firstColumn),
    ("last_line", .ofNat p.lastLine), ("last_column", .ofNat p.lastColumn)]

def ofJson? (value : Json) : Option Position := do
  match ← value.recordFields? ["first_line", "first_column", "last_line", "last_column"] with
  | [some a, some b, some c, some d] =>
    some ⟨← a.nat64?, ← b.nat64?, ← c.nat64?, ← d.nat64?⟩
  | _ => none

end Position

end RubyTree
