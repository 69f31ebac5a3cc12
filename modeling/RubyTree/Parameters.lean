import RubyTree.Targets

/-! Parameter lists. The local table of a scope has a slot for every parameter, in the order of the
descriptor; behind them come the names bound inside destructured parameters, and what is left are
the locals that a block declares. -/

namespace RubyTree

open Legacy (Node Table)

inductive RequiredParameter where
  | name (value : Name)
  | group (value : TargetGroup)

/-- The rest parameter: a splat, which may be anonymous, or a trailing comma. -/
inductive RestParameter where
  | splat (name : Option Name)
  | implicitComma

structure OptionalParameter where
  name : Name
  value : Node

/-- A keyword without a value is required. -/
structure KeywordParameter where
  name : Name
  value : Option Node

inductive KeywordRestParameter where
  | named (name : Option Name)
  | noKeywords

structure Parameters where
  requireds : List RequiredParameter
  optionals : List OptionalParameter
  rest : Option RestParameter
  posts : List RequiredParameter
  keywords : List KeywordParameter
  keywordRest : Option KeywordRestParameter
  /-- The inner option is empty for an anonymous block. -/
  block : Option (Option Name)
  blockLocals : List Name

namespace Parameters

/-- The slots from the cursor on. The table has to reach that far. -/
def slots (args : Node) (table : Table) (cursor count : Nat) : Result Table :=
  if cursor + count ≤ table.length then pure ((table.drop cursor).take count)
  else throw (args.unexpected .tableEntry)

def skipSlot (args : Node) (table : Table) (cursor : Nat) : Result Nat := do
  let _ ← slots args table cursor 1
  pure (cursor + 1)

/-- Keywords are followed by a slot for internal use, which never has a name. An entry with a name
belongs to what comes next. -/
def skipKeywordSlot (table : Table) (cursor : Nat) (hasKeywords : Bool) : Nat :=
  match table[cursor]? with
  | some none => if hasKeywords then cursor + 1 else cursor
  | _ => cursor

/-- The stars and the ampersand stand for parameters without a name. They take a slot. -/
def properName (name : Name) : Option Name :=
  if name.text = "*" ∨ name.text = "**" ∨ name.text = "&" then none else some name

def chainWithin (kind : Legacy.Kind) : Nat → Option Node → Result (List Node)
  | _, none => pure []
  | 0, some n => throw (n.unexpected .shallowerTree)
  | bound + 1, some n => do
    let n ← n.expectKind [kind]
    match ← n.shape with
    | .paramLink body next => do
      let bodies ← chainWithin kind bound next
      pure (body :: bodies)
    | _ => throw (n.unexpected (.kinds [kind]))

def chain (kind : Legacy.Kind) : Option Node → Result (List Node)
  | none => pure []
  | some n => chainWithin kind n.height (some n)

/-- The destructurings of a slot: one, or a `BLOCK` of several. -/
def groups : Option Node → Result (List TargetGroup)
  | none => pure []
  | some init => do
    match ← init.shape with
    | .block statements => statements.mapM (TargetGroup.ofNode .parameter)
    | _ => do
      let group ← TargetGroup.ofNode .parameter init
      pure [group]

def optionalsAt (args : Node) (table : Table) (cursor : Nat) :
    List Node → Result (List OptionalParameter × Nat)
  | [] => pure ([], cursor)
  | link :: rest => do
    let link ← link.expectKind [.DASGN, .LASGN]
    match ← link.shape with
    | .assign name (some value) _ => do
      let cursor ← skipSlot args table cursor
      let (parameters, cursor) ← optionalsAt args table cursor rest
      pure (⟨name, value⟩ :: parameters, cursor)
    | _ => throw (link.unexpected .optionalDefault)

def keywordsAt (args : Node) (table : Table) (cursor : Nat) :
    List Node → Result (List KeywordParameter × Nat)
  | [] => pure ([], cursor)
  | link :: rest => do
    let link ← link.expectKind [.DASGN, .LASGN]
    match ← link.shape with
    | .assign name value required =>
      if !required && value.isNone then throw (link.unexpected .keywordDefault)
      else do
        let cursor ← skipSlot args table cursor
        let (parameters, cursor) ← keywordsAt args table cursor rest
        pure (⟨name, value⟩ :: parameters, cursor)
    | _ => throw (link.unexpected .keywordParameter)

def restAt (args : Node) (table : Table) (cursor : Nat) :
    Legacy.RestParameter → Result (Option RestParameter × Nat)
  | .absent => pure (none, cursor)
  | .named name => do
    let cursor ← skipSlot args table cursor
    pure (some (.splat (properName name)), cursor)
  | .anonymous => pure (some (.splat none), cursor)
  | .excessiveComma => pure (some .implicitComma, cursor)

/-- A keyword rest without a name takes no slot. -/
def keywordRestAt (args : Node) (table : Table) (cursor : Nat) :
    Legacy.KeywordRest → Result (Option KeywordRestParameter × Nat)
  | .absent => pure (none, cursor)
  | .noKeywords => pure (some .noKeywords, cursor)
  | .variableNode var => do
    match ← var.name? 0 with
    | none => pure (some (.named none), cursor)
    | some name => do
      let cursor ← skipSlot args table cursor
      pure (some (.named (properName name)), cursor)

def blockAt (args : Node) (table : Table) (cursor : Nat) :
    Option Name → Result (Option (Option Name) × Nat)
  | none => pure (none, cursor)
  | some name => do
    let cursor ← skipSlot args table cursor
    pure (some (properName name), cursor)

/-- Slots without a name are filled with the groups in order. Groups left over are appended, slots
left over dropped. -/
def fillSlots : Table → List TargetGroup → List RequiredParameter
  | [], groups => groups.map .group
  | some name :: slots, groups => .name name :: fillSlots slots groups
  | none :: slots, [] => fillSlots slots []
  | none :: slots, group :: groups => .group group :: fillSlots slots groups

def bindingCount (groups : List TargetGroup) : Nat :=
  groups.foldr (fun group count => group.bindingCount + count) 0

def names (table : Table) : List Name := table.filterMap id

def ofDescriptor (table : Table) (args : Node) (d : Legacy.Descriptor) : Result Parameters := do
  let preSlots ← slots args table 0 d.preCount
  let preGroups ← groups d.preInit
  let links ← chain .OPT_ARG d.optionals
  let (optionals, cursor) ← optionalsAt args table d.preCount links
  let (rest, cursor) ← restAt args table cursor d.rest
  let postSlots ← slots args table cursor d.postCount
  let postGroups ← groups d.postInit
  let links ← chain .KW_ARG d.keywords
  let (keywords, cursor) ← keywordsAt args table (cursor + d.postCount) links
  let cursor := skipKeywordSlot table cursor !keywords.isEmpty
  let (keywordRest, cursor) ← keywordRestAt args table cursor d.keywordRest
  let (block, cursor) ← blockAt args table cursor d.block
  let cursor := cursor + bindingCount preGroups + bindingCount postGroups
  pure {
    requireds := fillSlots preSlots preGroups
    optionals, rest
    posts := fillSlots postSlots postGroups
    keywords, keywordRest, block
    blockLocals := names (table.drop cursor) }

/-- The parameters that an `ARGS` node describes against the table of its scope. There are none at
all when every slot is empty. -/
def ofNode (table : Table) (args : Node) : Result (Option Parameters) := do
  let args ← args.expectKind [.ARGS]
  let d ← args.descriptor
  if d.isEmpty then pure none
  else do
    let parameters ← ofDescriptor table args d
    pure (some parameters)

end Parameters

end RubyTree
