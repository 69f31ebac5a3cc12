import RubyTree.Legacy.Node

/-! The wire form of a legacy tree, as a JSON value. A wire tree still holds the names of its
markers as text; they are looked up once the whole tree has been read, so that a malformed value
anywhere is found before an unknown marker. -/

namespace RubyTree

namespace Legacy

mutual

inductive Wire where
  | mk (kind : Kind) (children : List WireChild) (position : Position)

inductive WireChild where
  | nil
  | flag (value : Bool)
  | node (value : Wire)
  | name (value : Name)
  | marker (value : String)
  | table (value : Table)
  | count (value : Nat)
  | literal (value : Literal)

end

inductive DecodeError where
  /-- Not JSON, or not the JSON of a tree. -/
  | malformed
  | unknownMarker (name : String)
deriving DecidableEq

namespace DecodeError

def message : DecodeError → String
  | .malformed => "malformed legacy tree"
  | .unknownMarker name => "unknown special value " ++ name

end DecodeError

namespace Wire

/-- The fields of a node, in order. Only `children` may be left out. -/
def labels : List String :=
  ["type", "children", "first_lineno", "first_column", "last_lineno", "last_column"]

def entryOfJson? : Json → Option (Option Name)
  | .null => some none
  | .string s => some (some ⟨s⟩)
  | _ => none

def tableOfJson? : Json → Option Table
  | .array items => items.mapM entryOfJson?
  | _ => none

/-- A child other than null, a boolean and a node: an object with one member. -/
def atomOfJson? (value : Json) : Option WireChild :=
  match value with
  | .object [(key, v)] =>
    if key = "sym" then v.string?.map fun s => .name ⟨s⟩
    else if key = "special" then v.string?.map .marker
    else if key = "table" then (tableOfJson? v).map .table
    else if key = "count" then v.nat64?.map .count
    else (Literal.ofJson? value).map .literal
  | _ => none

/-- A field of a node: its value, and the children it holds if it is read as a list of them. -/
abbrev FieldReading := Json × Option (List WireChild)

/-- The single reading under a label, `none` inside when there is none. -/
def single? (fields : List (String × FieldReading)) (label : String) :
    Option (Option FieldReading) :=
  match fields.filter (·.1 == label) with
  | [] => some none
  | [(_, reading)] => some (some reading)
  | _ => none

def assemble? : List (Option FieldReading) → Option Wire
  | [some (kind, _), children, some (firstLine, _), some (firstColumn, _), some (lastLine, _),
      some (lastColumn, _)] => do
    let kind ← Kind.ofText? (← kind.string?)
    let children ← match children with
      | none => some []
      | some (_, children) => children
    some (.mk kind children
      ⟨← firstLine.nat64?, ← firstColumn.nat64?, ← lastLine.nat64?, ← lastColumn.nat64?⟩)
  | _ => none

def ofFields? (fields : List (String × FieldReading)) : Option Wire := do
  assemble? (← labels.mapM (single? fields))

/-- A node from the items of an array, which are all its fields in order. -/
def ofReadings? (readings : List FieldReading) : Option Wire := assemble? (readings.map some)

mutual

def ofJson? : Json → Option Wire
  | .object members => ofFields? (readMembers members)
  | .array items => ofReadings? (readItems items)
  | _ => none

/-- A child that can be read as a node is one. -/
def childOfJson? : Json → Option WireChild
  | .null => some .nil
  | .bool b => some (.flag b)
  | .object members =>
    match ofFields? (readMembers members) with
    | some node => some (.node node)
    | none => atomOfJson? (.object members)
  | .array items => (ofReadings? (readItems items)).map .node
  | _ => none

def childrenOfJson? : Json → Option (List WireChild)
  | .array items => childListOfJson? items
  | _ => none

def childListOfJson? : List Json → Option (List WireChild)
  | [] => some []
  | item :: rest => do
    let child ← childOfJson? item
    let children ← childListOfJson? rest
    some (child :: children)

def readMembers : List (String × Json) → List (String × FieldReading)
  | [] => []
  | (key, value) :: rest => (key, (value, childrenOfJson? value)) :: readMembers rest

def readItems : List Json → List FieldReading
  | [] => []
  | value :: rest => (value, childrenOfJson? value) :: readItems rest

end

mutual

/-- The tree with its markers looked up; the first unknown one in reading order is an error. -/
def toNode : Wire → Except DecodeError Node
  | .mk kind children position => do
    let children ← toChildren children
    pure (Node.make kind children position)

def toChildren : List WireChild → Except DecodeError (List Child)
  | [] => pure []
  | child :: rest => do
    let child ← toChild child
    let children ← toChildren rest
    pure (child :: children)

def toChild : WireChild → Except DecodeError Child
  | .nil => pure .nil
  | .flag b => pure (.flag b)
  | .node w => do
    let node ← w.toNode
    pure (.node node)
  | .name s => pure (.name s)
  | .marker s =>
    match Marker.ofText? s with
    | some m => pure (.marker m)
    | none => throw (.unknownMarker s)
  | .table t => pure (.table t)
  | .count k => pure (.count k)
  | .literal l => pure (.literal l)

end

mutual

/-- The wire form of a tree, each node as an object. -/
def toJson : Wire → Json
  | .mk kind children position =>
    .object [("type", .string kind.text), ("children", .array (childrenToJson children)),
      ("first_lineno", .ofNat position.firstLine), ("first_column", .ofNat position.firstColumn),
      ("last_lineno", .ofNat position.lastLine), ("last_column", .ofNat position.lastColumn)]

def childrenToJson : List WireChild → List Json
  | [] => []
  | child :: rest => childToJson child :: childrenToJson rest

def childToJson : WireChild → Json
  | .nil => .null
  | .flag b => .bool b
  | .node w => w.toJson
  | .name s => .object [("sym", .string s.text)]
  | .marker s => .object [("special", .string s)]
  | .table t => .object [("table", .array (t.map (Json.ofOption fun s => .string s.text)))]
  | .count k => .object [("count", .ofNat k)]
  | .literal l => l.toJson

end

end Wire

namespace Node

def ofJson (value : Json) : Except DecodeError Node :=
  match Wire.ofJson? value with
  | some wire => wire.toNode
  | none => throw .malformed

/-- Unknown members of the outermost node are passed over unread. -/
def ofDraft (draft : Json.Draft) : Except DecodeError Node :=
  match (draft.keepMembers Wire.labels).boundedValue? with
  | some value => ofJson value
  | none => throw .malformed

def ofBytes (bytes : List UInt8) : Except DecodeError Node :=
  match Json.Draft.ofBytes? bytes with
  | some draft => ofDraft draft
  | none => throw .malformed

def ofText (text : String) : Except DecodeError Node := ofBytes text.toUTF8.toList

end Node

end Legacy

end RubyTree
