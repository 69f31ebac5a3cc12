import RubyTree.Legacy.Build
import RubyTree.Proofs.ArgumentOrder
import RubyTree.Proofs.FlipFlops

/-! Matches against a literal. The legacy parser has nodes of their own for `=~` with a literal on
one side; they are converted to the call that they stand for. Named captures of the literal are
written to locals on top of that. -/

namespace RubyTree

open Canonical (Tree Flags)
open Legacy (Node Child)

namespace Legacy.Node

/-- The node asks for `left =~ right`. The literal is the left operand of a `MATCH2` and the right
operand of a `MATCH3`. -/
inductive Matches (n : Node) : Node → Node → Prop where
  | literalLeft {regexp value : Node} (hkind : n.kind = .MATCH2)
      (hregexp : n.child 0 = .node regexp) (hvalue : n.child 1 = .node value) :
      Matches n regexp value
  | literalRight {regexp value : Node} (hkind : n.kind = .MATCH3)
      (hregexp : n.child 0 = .node regexp) (hvalue : n.child 1 = .node value) :
      Matches n value regexp

/-- The node is the call `left =~ right`, whose argument list stands where its argument does. -/
structure CallsMatch (n left right : Node) : Prop where
  kind : n.kind = .OPCALL
  receiver : n.child 0 = .node left
  name : n.child 1 = .name ⟨"=~"⟩
  argument : ∃ list, n.child 2 = .node list ∧ list.kind = .LIST ∧ list.children = [.node right] ∧
    list.position = right.position

def Assigns (n : Node) (name : Name) : Prop :=
  (n.kind = .LASGN ∨ n.kind = .DASGN) ∧ n.child 0 = .name name

/-- The names of captures: those of a `BLOCK` of assignments, or of a single one. -/
inductive Captures (n : Node) : List Name → Prop where
  | single {name : Name} (hslots : n.WellTyped) (hassigns : n.Assigns name) : Captures n [name]
  | block {assignments : List Node} {names : List Name} (hkind : n.kind = .BLOCK)
      (hchildren : n.children = assignments.map .node)
      (hassigns : List.Forall₂ Assigns assignments names) : Captures n names

variable {n left right : Node}

theorem shape_of_MATCH {regexp value : Node} {captures : Option Node}
    (hkind : n.kind = .MATCH2 ∨ n.kind = .MATCH3) (hregexp : n.child 0 = .node regexp)
    (hvalue : n.child 1 = .node value) (hcaptures : n.child 2 = .ofNode? captures) :
    n.shape = .ok (.matchOperator regexp value captures) := by
  have hfirst := node_eq_ok_iff.mpr hregexp
  have hsecond := node_eq_ok_iff.mpr hvalue
  have hthird := node?_eq_ok_iff.mpr hcaptures
  unfold Node.shape
  obtain hkind | hkind := hkind
  all_goals
    rw [hkind]
    simp only [hfirst, hsecond, hthird]
    rfl

end Legacy.Node

def Scope.captureTarget (scope : Scope) (name : Name) : Tree :=
  .target .null (.localVariable name (scope.depth name))

namespace Context

variable {c : Context} {n : Node}

theorem capture_eq_ok_iff {t : Tree} :
    c.capture n = .ok t ↔ ∃ name, n.Assigns name ∧ t = c.scope.captureTarget name := by
  simp only [capture, bind_eq_ok_iff, Legacy.Node.expectKind_eq_ok_iff, List.mem_cons,
    List.not_mem_nil, or_false, Legacy.Node.name_eq_ok_iff, pure_eq_ok_iff]
  constructor
  · rintro ⟨_, ⟨hkind, rfl⟩, name, hname, rfl⟩
    exact ⟨name, ⟨hkind, hname⟩, rfl⟩
  · rintro ⟨name, ⟨hkind, hname⟩, rfl⟩
    exact ⟨n, ⟨hkind, rfl⟩, name, hname, rfl⟩

theorem mapM_capture_eq_ok_iff {assignments : List Node} {trees : List Tree} :
    assignments.mapM c.capture = .ok trees ↔ ∃ names,
      List.Forall₂ Legacy.Node.Assigns assignments names ∧
        trees = names.map c.scope.captureTarget := by
  rw [mapM_eq_ok_iff]
  simp only [capture_eq_ok_iff]
  constructor
  · intro h
    induction h with
    | nil => exact ⟨[], .nil, rfl⟩
    | cons hfirst _ ih =>
      obtain ⟨name, hname, rfl⟩ := hfirst
      obtain ⟨names, hnames, rfl⟩ := ih
      exact ⟨name :: names, .cons hname hnames, rfl⟩
  · rintro ⟨names, hnames, rfl⟩
    rw [List.forall₂_map_right_iff]
    exact hnames.imp fun _ name hname => ⟨name, hname, rfl⟩

theorem captures_eq_ok_iff {captures : Node} {trees : List Tree} :
    (captures.sequence >>= fun assignments => assignments.mapM c.capture) = .ok trees ↔
      ∃ names, captures.Captures names ∧ trees = names.map c.scope.captureTarget := by
  simp only [bind_eq_ok_iff, mapM_capture_eq_ok_iff, Legacy.Node.sequence_eq_ok_iff]
  by_cases hkind : captures.kind = .BLOCK
  · simp only [if_pos hkind]
    constructor
    · rintro ⟨assignments, hchildren, names, hnames, rfl⟩
      exact ⟨names, .block hkind hchildren hnames, rfl⟩
    · rintro ⟨names, hcaptures, rfl⟩
      cases hcaptures with
      | single _ hassigns =>
        obtain ⟨hother, _⟩ := hassigns
        simp [hkind] at hother
      | block _ hchildren hnames => exact ⟨_, hchildren, names, hnames, rfl⟩
  · simp only [if_neg hkind]
    constructor
    · rintro ⟨_, ⟨hslots, rfl⟩, names, hnames, rfl⟩
      cases hnames with
      | cons hname hrest =>
        cases hrest
        exact ⟨_, .single hslots hname, rfl⟩
    · rintro ⟨names, hcaptures, rfl⟩
      cases hcaptures with
      | single hslots hassigns =>
        exact ⟨_, ⟨hslots, rfl⟩, _, .cons hassigns .nil, rfl⟩
      | block hblock _ _ => exact absurd hblock hkind

end Context

namespace Legacy.Node

variable {lines : LineTable} {options : Options} {scope : Scope} {n left right : Node}

def MatchTree (lines : LineTable) (options : Options) (scope : Scope) (left right : Node)
    (location : Span) (t : Tree) : Prop :=
  ∃ receiver argument place, left.convert lines options scope none = .ok receiver ∧
    right.convert lines options scope none = .ok argument ∧ lines.span right = .ok place ∧
    t = .call Flags.empty (some receiver) ⟨"=~"⟩ .null
      (some (.arguments Flags.empty [argument] place)) none location

theorem MatchTree.location_eq {location : Span} {t : Tree}
    (h : MatchTree lines options scope left right location t) : t.location = location := by
  obtain ⟨_, _, _, _, _, _, rfl⟩ := h
  rfl

/-- What becomes of the call when there are captures to write. -/
inductive Writes (scope : Scope) (location : Span) (call : Tree) : Option Node → Tree → Prop where
  | nothing : Writes scope location call none call
  | captures {captures : Node} {names : List Name} (h : captures.Captures names) :
      Writes scope location call (some captures)
        (.matchWrite call (names.map scope.captureTarget) location)

/-- The operands in their order decide what a match is converted to, whichever of them is the
literal. -/
theorem matchOperator_eq_ok_iff {regexp value : Node} {captures : Option Node} {location : Span}
    (hsides : (if n.kind = .MATCH2 then (regexp, value) else (value, regexp)) = (left, right))
    {t : Tree} :
    (Context.whole lines options scope).matchOperator n regexp value captures location = .ok t ↔
      ∃ call, MatchTree lines options scope left right location call ∧
        Writes scope location call captures t := by
  rw [Context.matchOperator, hsides]
  simp only [bind_eq_ok_iff]
  constructor
  · rintro ⟨receiver, hreceiver, argument, hargument, place, hplace, h⟩
    refine ⟨_, ⟨receiver, argument, place, hreceiver, hargument, hplace, rfl⟩, ?_⟩
    cases captures with
    | none =>
      cases h
      exact .nothing
    | some captures =>
      simp only [← bind_assoc] at h
      obtain ⟨trees, htrees, h⟩ := bind_eq_ok_iff.mp h
      obtain ⟨names, hnames, rfl⟩ := Context.captures_eq_ok_iff.mp htrees
      cases h
      exact .captures hnames
  · rintro ⟨_, ⟨receiver, argument, place, hreceiver, hargument, hplace, rfl⟩, h⟩
    refine ⟨receiver, hreceiver, argument, hargument, place, hplace, ?_⟩
    cases h with
    | nothing => rfl
    | captures hnames =>
      have htrees := (Context.captures_eq_ok_iff (c := Context.whole lines options scope)).mpr
        ⟨_, hnames, rfl⟩
      simp only [← bind_assoc, htrees]
      rfl

theorem Matches.convert_eq_ok_iff (h : n.Matches left right) (captures : Option Node)
    (hcaptures : n.child 2 = .ofNode? captures) {t : Tree} :
    n.convert lines options scope none = .ok t ↔ ∃ location call, lines.span n = .ok location ∧
      MatchTree lines options scope left right location call ∧
      Writes scope location call captures t := by
  cases h with
  | literalLeft hkind hregexp hvalue =>
    have hshape := shape_of_MATCH (.inl hkind) hregexp hvalue hcaptures
    have hsides : (if n.kind = .MATCH2 then (left, right) else (right, left)) = (left, right) :=
      if_pos hkind
    simp only [Node.convert_eq_ok_iff hshape, Context.shaped, matchOperator_eq_ok_iff hsides,
      exists_and_left]
  | literalRight hkind hregexp hvalue =>
    have hshape := shape_of_MATCH (.inr hkind) hregexp hvalue hcaptures
    have hsides : (if n.kind = .MATCH2 then (right, left) else (left, right)) = (left, right) :=
      if_neg (by simp [hkind])
    simp only [Node.convert_eq_ok_iff hshape, Context.shaped, matchOperator_eq_ok_iff hsides,
      exists_and_left]

theorem ofNode_of_single {list : Node} (hkind : list.kind = .LIST)
    (hchildren : list.children = [.node right]) (hright : right.kind ≠ .SPLAT)
    {arguments : List Argument} :
    Argument.ofNode list = .ok arguments ↔ right.WellTyped ∧ arguments = [.positional right] := by
  simp only [Argument.ofNode_single hkind hchildren, bind_eq_ok_iff, pure_eq_ok_iff,
    Argument.ofElement_eq_ok_iff]
  constructor
  · rintro ⟨_, helement, rfl⟩
    cases helement with
    | splat hsplat => exact absurd hsplat hright
    | positional hslots => exact ⟨hslots, rfl⟩
  · rintro ⟨hslots, rfl⟩
    exact ⟨_, .positional hslots fun hsplat => absurd hsplat hright, rfl⟩

theorem callArguments_of_single {list : Node} (hkind : list.kind = .LIST)
    (hchildren : list.children = [.node right]) (hright : right.kind ≠ .SPLAT)
    {parts : Option Tree × Option Tree} :
    (Context.whole lines options scope).callArguments (some list) = .ok parts ↔
      ∃ argument place, right.convert lines options scope none = .ok argument ∧
        lines.span list = .ok place ∧
        parts = (some (.arguments Flags.empty [argument] place), none) := by
  have hlaid : (Context.whole lines options scope).callArguments (some list) = .ok parts ↔
      right.WellTyped ∧ ∃ argument place, right.convert lines options scope none = .ok argument ∧
        lines.span list = .ok place ∧
        parts = (some (.arguments Flags.empty [argument] place), none) := by
    have htree (tree : Tree) : (Context.whole lines options scope).argumentsTree list
        [.positional right] = .ok tree ↔ ∃ argument place,
          right.convert lines options scope none = .ok argument ∧ lines.span list = .ok place ∧
          tree = .arguments Flags.empty [argument] place := by
      simp only [Context.argumentsTree, List.mapM_cons, List.mapM_nil, bind_eq_ok_iff,
        pure_eq_ok_iff]
      constructor
      · rintro ⟨_, ⟨argument, hargument, _, rfl, rfl⟩, place, hplace, rfl⟩
        exact ⟨argument, place, hargument, hplace, rfl⟩
      · rintro ⟨argument, place, hargument, hplace, rfl⟩
        exact ⟨_, ⟨argument, hargument, _, rfl, rfl⟩, place, hplace, rfl⟩
    simp only [Context.callArguments, bind_eq_ok_iff, ofNode_of_single hkind hchildren hright]
    constructor
    · rintro ⟨_, ⟨hslots, rfl⟩, block, hblock, h⟩
      cases hblock
      obtain ⟨tree, hfound, h⟩ := bind_eq_ok_iff.mp h
      cases h
      obtain ⟨argument, place, hargument, hplace, rfl⟩ := (htree tree).mp hfound
      exact ⟨hslots, argument, place, hargument, hplace, rfl⟩
    · rintro ⟨hslots, argument, place, hargument, hplace, rfl⟩
      have hfound := (htree _).mpr ⟨argument, place, hargument, hplace, rfl⟩
      exact ⟨_, ⟨hslots, rfl⟩, none, rfl, bind_eq_ok_iff.mpr ⟨_, hfound, rfl⟩⟩
  rw [hlaid, and_iff_right_of_imp]
  rintro ⟨argument, _, hargument, _⟩
  obtain ⟨_, shape, _, hshape⟩ := exists_shape_of_convert hargument
  exact ⟨shape, hshape⟩

theorem CallsMatch.convert_eq_ok_iff (h : n.CallsMatch left right) (hright : right.kind ≠ .SPLAT)
    {t : Tree} :
    n.convert lines options scope none = .ok t ↔ ∃ location, lines.span n = .ok location ∧
      MatchTree lines options scope left right location t := by
  obtain ⟨list, hlist, hkind, hchildren, hposition⟩ := h.argument
  have hshape := (shape_eq_call_iff (.inr h.kind)).mpr ⟨h.receiver, h.name, hlist⟩
  have hplace (s : Span) : lines.span list = .ok s ↔ lines.span right = .ok s := by
    rw [LineTable.span_eq_ok_iff, LineTable.span_eq_ok_iff, hposition]
  rw [Node.convert_eq_ok_iff hshape]
  refine exists_congr fun location => and_congr_right fun _ => ?_
  simp only [Context.shaped, Context.call, bind_eq_ok_iff,
    callArguments_of_single hkind hchildren hright, h.kind, hplace]
  constructor
  · rintro ⟨_, ⟨argument, place, hargument, hplace, rfl⟩, _, hreceiver, h⟩
    obtain ⟨receiver, hleft, hsome⟩ := bind_eq_ok_iff.mp hreceiver
    cases hsome
    exact ⟨receiver, argument, place, hleft, hargument, hplace, pure_eq_ok_iff.mp h⟩
  · rintro ⟨receiver, argument, place, hreceiver, hargument, hplace, rfl⟩
    exact ⟨_, ⟨argument, place, hargument, hplace, rfl⟩, some receiver,
      bind_eq_ok_iff.mpr ⟨receiver, hreceiver, rfl⟩, rfl⟩

/-- A match is converted to the call that it stands for, unless its right operand is a splat. With
captures, that call is wrapped in a write to one local for each captured name. -/
theorem convert_matches (h : n.Matches left right) :
    (∀ call : Node, n.child 2 = .nil → call.CallsMatch left right → call.position = n.position →
        right.kind ≠ .SPLAT → ∀ t, n.convert lines options scope none = .ok t ↔
          call.convert lines options scope none = .ok t) ∧
      ∀ plain captures : Node, plain.Matches left right → plain.child 2 = .nil →
        plain.position = n.position → n.child 2 = .node captures →
          ∀ t, n.convert lines options scope none = .ok t ↔ ∃ call names,
            plain.convert lines options scope none = .ok call ∧ captures.Captures names ∧
            t = .matchWrite call (names.map scope.captureTarget) call.location := by
  have hspan (m : Node) (hposition : m.position = n.position) (s : Span) :
      lines.span m = .ok s ↔ lines.span n = .ok s := by
    rw [LineTable.span_eq_ok_iff, LineTable.span_eq_ok_iff, hposition]
  constructor
  · intro call hnone hcall hposition hright t
    simp only [hcall.convert_eq_ok_iff hright, h.convert_eq_ok_iff none hnone,
      hspan call hposition]
    constructor
    · rintro ⟨location, call, hlocation, hmatch, hwrites⟩
      cases hwrites
      exact ⟨location, hlocation, hmatch⟩
    · rintro ⟨location, hlocation, hmatch⟩
      exact ⟨location, t, hlocation, hmatch, .nothing⟩
  · intro plain captures hplain hnone hposition hcaptures t
    simp only [h.convert_eq_ok_iff (some captures) hcaptures,
      hplain.convert_eq_ok_iff none hnone, hspan plain hposition]
    constructor
    · rintro ⟨location, call, hlocation, hmatch, hwrites⟩
      cases hwrites with
      | @captures _ names hnames =>
        rw [← hmatch.location_eq]
        exact ⟨call, names, ⟨location, call, hlocation, hmatch, .nothing⟩, hnames, rfl⟩
    · rintro ⟨call, names, ⟨location, _, hlocation, hmatch, hwrites⟩, hnames, rfl⟩
      cases hwrites
      rw [hmatch.location_eq]
      exact ⟨location, call, hlocation, hmatch, .captures hnames⟩

/-- `a =~ /b/`, with what is written in the slot for captures. -/
def matchLiteral (captures : List Child) : Node :=
  .make .MATCH3 (.node (Build.regexp "b" 0 ⟨1, 5, 1, 8⟩) ::
    .node (Build.named .VCALL ⟨"a"⟩ ⟨1, 0, 1, 1⟩) :: captures) ⟨1, 0, 1, 8⟩

theorem convert_matches_matchLiteral :
    let regexp := Build.regexp "b" 0 ⟨1, 5, 1, 8⟩
    let call := Build.call .OPCALL (Build.named .VCALL ⟨"a"⟩ ⟨1, 0, 1, 1⟩) ⟨"=~"⟩
      (some (Build.list [regexp] regexp.position)) ⟨1, 0, 1, 8⟩
    let captures := Build.block [Build.assign .LASGN ⟨"x"⟩ none default,
      Build.assign .DASGN ⟨"y"⟩ none default] default
    let scope := [[some ⟨"y"⟩], [some ⟨"x"⟩]]
    ∃ t, call.convert ⟨[0], 8⟩ {} scope none = .ok t ∧
      (matchLiteral []).convert ⟨[0], 8⟩ {} scope none = .ok t ∧
      (matchLiteral [.node captures]).convert ⟨[0], 8⟩ {} scope none = .ok (.matchWrite t
        [.target .null (.localVariable ⟨"x"⟩ 1), .target .null (.localVariable ⟨"y"⟩ 0)]
        t.location) := by
  intro regexp call captures scope
  have hplain : (matchLiteral []).Matches (Build.named .VCALL ⟨"a"⟩ ⟨1, 0, 1, 1⟩) regexp :=
    .literalRight rfl rfl rfl
  have hwriting : (matchLiteral [.node captures]).Matches
      (Build.named .VCALL ⟨"a"⟩ ⟨1, 0, 1, 1⟩) regexp := .literalRight rfl rfl rfl
  have hcall : call.CallsMatch (Build.named .VCALL ⟨"a"⟩ ⟨1, 0, 1, 1⟩) regexp :=
    ⟨rfl, rfl, rfl, _, rfl, rfl, rfl, rfl⟩
  have hnames : captures.Captures [⟨"x"⟩, ⟨"y"⟩] :=
    .block rfl rfl (.cons ⟨.inl rfl, rfl⟩ (.cons ⟨.inr rfl, rfl⟩ .nil))
  obtain ⟨t, ht⟩ : ∃ t, call.convert ⟨[0], 8⟩ {} scope none = .ok t := ⟨_, rfl⟩
  have hsame := ((convert_matches hplain).1 call rfl hcall rfl (by decide) t).mpr ht
  have hwrites := ((convert_matches hwriting).2 (matchLiteral []) captures hplain rfl rfl rfl _).mpr
    ⟨t, _, hsame, hnames, rfl⟩
  exact ⟨t, ht, hsame, hwrites⟩

end Legacy.Node

end RubyTree
