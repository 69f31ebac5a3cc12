import RubyTree.Json.Basic

/-! Reading JSON text. A draft is what the grammar alone finds in a text; whether every number is in
range and every string is Unicode is decided afterwards, so that a part of a text can be skipped
without being understood. Nesting is limited in the same way. -/

namespace RubyTree

namespace Json

/-- A grammatical text. A number out of range, and a string that is not Unicode, has no value. -/
inductive Draft where
  | null
  | bool (value : Bool)
  | number (value : Option Number)
  | string (value : Option String)
  | array (items : List Draft)
  | object (members : List (Option String × Draft))

/-- The deepest nesting of arrays and objects that is read. -/
def nestingLimit : Nat := 127

namespace Draft

mutual

def depth : Draft → Nat
  | .array items => depthList items + 1
  | .object members => depthMembers members + 1
  | _ => 0

def depthList : List Draft → Nat
  | [] => 0
  | item :: rest => max (depth item) (depthList rest)

def depthMembers : List (Option String × Draft) → Nat
  | [] => 0
  | (_, value) :: rest => max (depth value) (depthMembers rest)

end

mutual

/-- The value of a draft all of whose parts have one. -/
def value? : Draft → Option Json
  | .null => some .null
  | .bool b => some (.bool b)
  | .number n => n.map .number
  | .string s => s.map .string
  | .array items => (valueList? items).map .array
  | .object members => (valueMembers? members).map .object

def valueList? : List Draft → Option (List Json)
  | [] => some []
  | item :: rest => do
    let value ← value? item
    let values ← valueList? rest
    some (value :: values)

def valueMembers? : List (Option String × Draft) → Option (List (String × Json))
  | [] => some []
  | (key, item) :: rest => do
    let key ← key
    let value ← value? item
    let values ← valueMembers? rest
    some ((key, value) :: values)

end

/-- The value of a draft within the nesting limit. -/
def boundedValue? (draft : Draft) : Option Json :=
  if draft.depth ≤ nestingLimit then draft.value? else none

/-- Drops the members of an object whose names are not listed, whatever their values are. A member
whose name is not Unicode stays. -/
def keepMembers (labels : List String) : Draft → Draft
  | .object members => .object (members.filter fun (key, _) => key.all labels.contains)
  | draft => draft

end Draft

/-! Numbers. -/

/-- A number as written. The fraction is empty when there is no point. -/
structure Numeral where
  negative : Bool
  whole : List Nat
  fraction : List Nat
  exponent : Option Int

namespace Numeral

/-- Takes digits while the number fits in a word of sixty-four bits, and counts those left over. -/
def takeWord (word : Nat) : List Nat → Nat × Nat
  | [] => (word, 0)
  | digit :: rest =>
    let next := word * 10 + digit
    if next < UInt64.size then takeWord next rest else (word, rest.length + 1)

/-- The significant digits and the power of ten they are multiplied by. Digits before the point
that do not fit raise the exponent; those behind it that do not fit are dropped. -/
def parts (n : Numeral) : Nat × Int :=
  let (word, skipped) := takeWord 0 n.whole
  let (word', dropped) := takeWord word n.fraction
  (word', Int.ofNat skipped - Int.ofNat (n.fraction.length - dropped) + n.exponent.getD 0)

def double? (n : Numeral) : Option Double :=
  let (digits, exponent) := n.parts
  Double.ofDecimal? n.negative digits exponent

/-- Without point and exponent a number is an integer if it fits into a word of sixty-four bits;
minus zero is a float. -/
def value? (n : Numeral) : Option Number :=
  if n.fraction.isEmpty && n.exponent.isNone then
    match takeWord 0 n.whole with
    | (word, 0) =>
      if n.negative then
        if 0 < word ∧ word ≤ 0x8000000000000000 then some (.int (-Int.ofNat word))
        else n.double?.map .float
      else some (.int (Int.ofNat word))
    | _ => n.double?.map .float
  else n.double?.map .float

end Numeral

namespace Draft

/-! The grammar, over the bytes of a text. Each function takes what it reads off the front and
returns the rest. -/

def isBlank (b : UInt8) : Bool := b == 0x20 || b == 0x09 || b == 0x0a || b == 0x0d

def isDigit (b : UInt8) : Bool := decide (0x30 ≤ b) && decide (b ≤ 0x39)

def digitValue (b : UInt8) : Nat := b.toNat - 0x30

def skipBlanks (bytes : List UInt8) : List UInt8 := bytes.dropWhile isBlank

def digits? (bytes : List UInt8) : Option (List Nat × List UInt8) :=
  match bytes.takeWhile isDigit with
  | [] => none
  | ds => some (ds.map digitValue, bytes.dropWhile isDigit)

def whole? (bytes : List UInt8) : Option (List Nat × List UInt8) := do
  let (ds, rest) ← digits? bytes
  if ds.head? == some 0 && ds.length != 1 then none else some (ds, rest)

def fraction? : List UInt8 → Option (List Nat × List UInt8)
  | 0x2e :: rest => digits? rest
  | bytes => some ([], bytes)

def exponent? : List UInt8 → Option (Option Int × List UInt8)
  | b :: rest =>
    if b == 0x65 || b == 0x45 then
      let (negative, rest) := match rest with
        | 0x2b :: rest => (false, rest)
        | 0x2d :: rest => (true, rest)
        | rest => (false, rest)
      do
        let (ds, rest) ← digits? rest
        let n := ds.foldl (fun n d => n * 10 + d) 0
        some (some (if negative then -Int.ofNat n else Int.ofNat n), rest)
    else some (none, b :: rest)
  | [] => some (none, [])

def numeral? (bytes : List UInt8) : Option (Numeral × List UInt8) := do
  let (negative, bytes) := match bytes with
    | 0x2d :: rest => (true, rest)
    | bytes => (false, bytes)
  let (whole, bytes) ← whole? bytes
  let (fraction, bytes) ← fraction? bytes
  let (exponent, bytes) ← exponent? bytes
  some (⟨negative, whole, fraction, exponent⟩, bytes)

/-- A piece of a string: a byte of the text, or a sixteen-bit unit given by its four digits. -/
inductive Piece where
  | byte (b : UInt8)
  | unit (u : Nat)

def hexDigit? (b : UInt8) : Option Nat :=
  if isDigit b then some (digitValue b)
  else if 0x61 ≤ b ∧ b ≤ 0x66 then some (b.toNat - 0x57)
  else if 0x41 ≤ b ∧ b ≤ 0x46 then some (b.toNat - 0x37)
  else none

def unit? (a b c d : UInt8) : Option Nat := do
  let a ← hexDigit? a
  let b ← hexDigit? b
  let c ← hexDigit? c
  let d ← hexDigit? d
  some (((a * 16 + b) * 16 + c) * 16 + d)

/-- The byte that a short escape stands for. -/
def shortEscape? (b : UInt8) : Option UInt8 :=
  if b == 0x22 || b == 0x5c || b == 0x2f then some b
  else if b == 0x62 then some 0x08
  else if b == 0x66 then some 0x0c
  else if b == 0x6e then some 0x0a
  else if b == 0x72 then some 0x0d
  else if b == 0x74 then some 0x09
  else none

def pieces? : List UInt8 → Option (List Piece × List UInt8)
  | 0x22 :: rest => some ([], rest)
  | 0x5c :: 0x75 :: a :: b :: c :: d :: rest => do
    let u ← unit? a b c d
    let (ps, rest) ← pieces? rest
    some (.unit u :: ps, rest)
  | 0x5c :: b :: rest => do
    let b ← shortEscape? b
    let (ps, rest) ← pieces? rest
    some (.byte b :: ps, rest)
  | b :: rest =>
    if b < 0x20 then none
    else do
      let (ps, rest) ← pieces? rest
      some (.byte b :: ps, rest)
  | [] => none

def isHighSurrogate (u : Nat) : Bool := decide (0xd800 ≤ u ∧ u < 0xdc00)

def isLowSurrogate (u : Nat) : Bool := decide (0xdc00 ≤ u ∧ u < 0xe000)

/-- The bytes of a string. Surrogates have to come in pairs. -/
def bytes? : List Piece → Option (List UInt8)
  | [] => some []
  | .byte b :: rest => (b :: ·) <$> bytes? rest
  | .unit u :: rest =>
    if isLowSurrogate u then none
    else if isHighSurrogate u then
      match rest with
      | .unit v :: rest =>
        if isLowSurrogate v then
          let c := Char.ofNat (0x10000 + (u - 0xd800) * 0x400 + (v - 0xdc00))
          (String.utf8EncodeChar c ++ ·) <$> bytes? rest
        else none
      | _ => none
    else (String.utf8EncodeChar (Char.ofNat u) ++ ·) <$> bytes? rest

def text? (pieces : List Piece) : Option String := do
  String.fromUTF8? (ByteArray.mk (← bytes? pieces).toArray)

def keyword? (word : String) (bytes : List UInt8) : Option (List UInt8) :=
  let expected := word.toUTF8.toList
  if expected.isPrefixOf bytes then some (bytes.drop expected.length) else none

mutual

/-- A value, after blanks. Every byte taken pays for two calls, so twice the length is enough
fuel. -/
def read? : Nat → List UInt8 → Option (Draft × List UInt8)
  | 0, _ => none
  | fuel + 1, bytes =>
    match skipBlanks bytes with
    | 0x22 :: rest => do
      let (ps, rest) ← pieces? rest
      some (.string (text? ps), rest)
    | 0x5b :: rest =>
      match skipBlanks rest with
      | 0x5d :: rest => some (.array [], rest)
      | rest => do
        let (items, rest) ← readItems? fuel rest
        some (.array items, rest)
    | 0x7b :: rest =>
      match skipBlanks rest with
      | 0x7d :: rest => some (.object [], rest)
      | rest => do
        let (members, rest) ← readMembers? fuel rest
        some (.object members, rest)
    | 0x6e :: rest => do some (.null, ← keyword? "ull" rest)
    | 0x74 :: rest => do some (.bool true, ← keyword? "rue" rest)
    | 0x66 :: rest => do some (.bool false, ← keyword? "alse" rest)
    | rest => do
      let (n, rest) ← numeral? rest
      some (.number n.value?, rest)

/-- Values parted by commas, up to the closing bracket. -/
def readItems? : Nat → List UInt8 → Option (List Draft × List UInt8)
  | 0, _ => none
  | fuel + 1, bytes => do
    let (item, bytes) ← read? fuel bytes
    match skipBlanks bytes with
    | 0x2c :: rest => do
      let (items, rest) ← readItems? fuel rest
      some (item :: items, rest)
    | 0x5d :: rest => some ([item], rest)
    | _ => none

/-- Members parted by commas, up to the closing brace. -/
def readMembers? : Nat → List UInt8 → Option (List (Option String × Draft) × List UInt8)
  | 0, _ => none
  | fuel + 1, bytes =>
    match skipBlanks bytes with
    | 0x22 :: rest => do
      let (ps, rest) ← pieces? rest
      match skipBlanks rest with
      | 0x3a :: rest => do
        let (item, rest) ← read? fuel rest
        match skipBlanks rest with
        | 0x2c :: rest => do
          let (members, rest) ← readMembers? fuel rest
          some ((text? ps, item) :: members, rest)
        | 0x7d :: rest => some ([(text? ps, item)], rest)
        | _ => none
      | _ => none
    | _ => none

end

/-- The draft of a whole text: one value, and blanks around it. -/
def ofBytes? (bytes : List UInt8) : Option Draft := do
  let (draft, rest) ← read? (2 * bytes.length + 2) bytes
  if (skipBlanks rest).isEmpty then some draft else none

def ofText? (text : String) : Option Draft := ofBytes? text.toUTF8.toList

end Draft

end Json

end RubyTree
