import RubyTree.Double.Text
import RubyTree.Json.Basic

/-! Compact JSON text: no blanks, members in their order, and only those characters escaped that
have to be. -/

namespace RubyTree

namespace Json

/-- Floats from `1e-5` up to `1e16` are written without an exponent, with a digit behind the point.
An exponent carries its sign. -/
def floatLayout : Double.Layout where
  plainFrom := -4
  plainUpTo := 16
  exponentPlus := true
  tie := .even

def hexDigit (n : Nat) : Char := if n < 10 then Char.ofNat (0x30 + n) else Char.ofNat (0x57 + n)

def escapeChar (c : Char) : List Char :=
  if c = '"' then ['\\', '"']
  else if c = '\\' then ['\\', '\\']
  else if c = '\n' then ['\\', 'n']
  else if c = '\r' then ['\\', 'r']
  else if c = '\t' then ['\\', 't']
  else if c.toNat = 0x08 then ['\\', 'b']
  else if c.toNat = 0x0c then ['\\', 'f']
  else if c.toNat < 0x20 then
    ['\\', 'u', '0', '0', hexDigit (c.toNat / 16), hexDigit (c.toNat % 16)]
  else [c]

def quote (s : String) : String :=
  "\"" ++ String.ofList (s.toList.flatMap escapeChar) ++ "\""

def intText : Int → String
  | .ofNat n => Nat.repr n
  | .negSucc n => "-" ++ Nat.repr (n + 1)

def Number.text : Number → String
  | .int i => intText i
  | .float x => x.text floatLayout

mutual

/-- The text of a value in pieces, put before the pieces that follow. -/
def pieces (tail : List String) : Json → List String
  | .null => "null" :: tail
  | .bool b => (if b then "true" else "false") :: tail
  | .number n => n.text :: tail
  | .string s => quote s :: tail
  | .array items => "[" :: piecesList ("]" :: tail) items
  | .object members => "\x7b" :: piecesMembers ("\x7d" :: tail) members

def piecesList (tail : List String) : List Json → List String
  | [] => tail
  | [item] => pieces tail item
  | item :: rest => pieces ("," :: piecesList tail rest) item

def piecesMembers (tail : List String) : List (String × Json) → List String
  | [] => tail
  | [(key, value)] => quote key :: ":" :: pieces tail value
  | (key, value) :: rest => quote key :: ":" :: pieces ("," :: piecesMembers tail rest) value

end

def text (value : Json) : String := String.join (pieces [] value)

end Json

end RubyTree
