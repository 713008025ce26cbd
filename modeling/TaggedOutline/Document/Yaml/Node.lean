import TaggedOutline.Document.Yaml.Token.Stream

/-!
# Nodes of YAML

What a YAML text holds: scalars, lists and maps, each with its tag if it has one.  An alias is the
node that its anchor was last set on; while that node is still being read, it is a cycle.

`Yaml.node?` reads a text with exactly one document, or none at all.
-/

namespace TaggedOutline

namespace Document

namespace Yaml

/-- A part of a document. -/
inductive Node where
  | scalar (tag : Option Text) (style : Style) (t : Text)
  | list (tag : Option Text) (items : List Node)
  | map (tag : Option Text) (entries : List (Node × Node))
  /-- A node inside itself. -/
  | cycle
deriving Repr, Inhabited

namespace Node

/-- The node where nothing is written. -/
def nothing : Node := .scalar none .plain []

/-- What has to be known while nodes are read. -/
structure Context where
  tokens : List Token
  /-- What the handles of tags stand for. -/
  handles : List (Text × Text) := []
  /-- The anchors, the latest first, with the numbers of their nodes. -/
  anchors : List (Text × Nat) := []
  /-- The nodes with anchors that have been read. -/
  known : List (Nat × Node) := []
  /-- The number of the next node with an anchor. -/
  next : Nat := 0

/-- Something that takes tokens from the front. -/
abbrev Reader := StateT Context Option

/-- Fails. -/
def fail {α : Type} : Reader α := fun _ => none

/-- The next token, which stays. -/
def peek : Reader Token := do return (← get).tokens.head?.getD .streamEnd

/-- Takes the next token away. -/
def drop : Reader Unit := modify fun c => { c with tokens := c.tokens.tail }

/-- Takes the next token away if it is a given one. -/
def dropIf (t : Token) : Reader Bool := do
  if (← peek) == t then drop; return true else return false

/-- Whether one of some tokens comes next. -/
def seesAny (ts : List Token) : Reader Bool := do return ts.contains (← peek)

/-- What handles stand for without a directive. -/
def defaultHandles : List (Text × Text) :=
  [(['!'], ['!']), (['!', '!'], "tag:yaml.org,2002:".toList)]

/-- The tag that a handle and a suffix stand for. -/
def tagOf (handle suffix : Text) : Reader Text := do
  if handle.isEmpty then return suffix
  else
    match ((← get).handles ++ defaultHandles).lookup handle with
    | some lead => return lead ++ suffix
    | none => fail

/-- The anchor that comes next, if one does. -/
def anchor? : Reader (Option Text) := do
  match ← peek with
  | .anchor name => drop; return some name
  | _ => return none

/-- The tag that comes next, if one does. -/
def tag? : Reader (Option Text) := do
  match ← peek with
  | .tag handle suffix => drop; return some (← tagOf handle suffix)
  | _ => return none

/-- The anchor and the tag of a node, in either order. -/
def properties : Reader (Option Text × Option Text) := do
  match ← anchor? with
  | some name => return (some name, ← tag?)
  | none =>
    let tag ← tag?
    return (← anchor?, tag)

/-- The node that an alias stands for. -/
def aliased (name : Text) : Reader Node := do
  match (← get).anchors.lookup name with
  | none => fail
  | some n => return ((← get).known.lookup n).getD .cycle

/-- Reads a node that has an anchor. -/
def anchored (name : Option Text) (read : Reader Node) : Reader Node := do
  match name with
  | none => read
  | some name =>
    let n := (← get).next
    modify fun c => { c with next := n + 1, anchors := (name, n) :: c.anchors }
    let node ← read
    modify fun c => { c with known := (n, node) :: c.known }
    return node

/-- Reads a node unless one of some tokens comes next. -/
def orNothing (ends : List Token) (read : Reader Node) : Reader Node := do
  if ← seesAny ends then return nothing else read

/-! ## Blocks -/

/-- The items of a block list with an indentation of its own. -/
def blockItems (node : Reader Node) : Nat → Reader (List Node)
  | 0 => fail
  | n + 1 => do
    if ← dropIf .blockEntry then
      let item ← orNothing [.blockEntry, .blockEnd] node
      return item :: (← blockItems node n)
    else if ← dropIf .blockEnd then return []
    else fail

/-- The items of a block list with the indentation of the map around it. -/
def flushItems (node : Reader Node) : Nat → Reader (List Node)
  | 0 => fail
  | n + 1 => do
    if ← dropIf .blockEntry then
      let item ← orNothing [.blockEntry, .key, .value, .blockEnd] node
      return item :: (← flushItems node n)
    else return []

/-- The entries of a block map. -/
def blockEntries (node : Reader Node) : Nat → Reader (List (Node × Node))
  | 0 => fail
  | n + 1 => do
    let ends := [.key, .value, .blockEnd]
    if ← dropIf .blockEnd then return []
    else
      if !(← dropIf .key) then fail
      let key ← orNothing ends node
      let value ← if ← dropIf .value then orNothing ends node else pure nothing
      return (key, value) :: (← blockEntries node n)

/-! ## Brackets -/

/-- The value behind a key between brackets. -/
def flowValue (node : Reader Node) (ends : List Token) : Reader Node := do
  if ← dropIf .value then orNothing ends node else return nothing

/-- The items of a list between brackets.  An item with a colon is a map with one entry. -/
def flowItems (node : Reader Node) : Nat → Bool → Reader (List Node)
  | 0, _ => fail
  | n + 1, first => do
    let ends := [.flowEntry, .flowListEnd]
    if ← dropIf .flowListEnd then return []
    else
      unless first do unless ← dropIf .flowEntry do fail
      if ← dropIf .key then
        let key ←
          if ← seesAny (.value :: ends) then do drop; pure nothing else node
        let value ← flowValue node ends
        return .map none [(key, value)] :: (← flowItems node n false)
      else if ← dropIf .flowListEnd then return []
      else
        let item ← node
        return item :: (← flowItems node n false)

/-- The entries of a map between braces.  A node without a colon is a key with nothing behind it. -/
def flowEntries (node : Reader Node) : Nat → Bool → Reader (List (Node × Node))
  | 0, _ => fail
  | n + 1, first => do
    let ends := [.flowEntry, .flowMapEnd]
    if ← dropIf .flowMapEnd then return []
    else
      unless first do unless ← dropIf .flowEntry do fail
      if ← dropIf .key then
        let key ← orNothing (.value :: ends) node
        let value ← flowValue node ends
        return (key, value) :: (← flowEntries node n false)
      else if ← dropIf .flowMapEnd then return []
      else
        let key ← node
        return (key, nothing) :: (← flowEntries node n false)

/-! ## Nodes -/

/-- Whether something can be a node outside brackets only, and whether a list needs no indentation
of its own. -/
inductive Position where
  | flow
  | block
  | flush
deriving DecidableEq

/-- Reads a node, with nodes inside it at most a number deep. -/
def readWithin : Nat → Position → Reader Node
  | 0, _ => fail
  | depth + 1, position => do
    match ← peek with
    | .alias name => drop; aliased name
    | _ =>
      let (name, tag) ← properties
      let bound := (← get).tokens.length + 1
      anchored name do
        match ← peek with
        | .scalar style t =>
          drop
          return .scalar (if tag == some ['!'] then none else tag) style t
        | .flowListStart =>
          drop
          return .list tag (← flowItems (readWithin depth .flow) bound true)
        | .flowMapStart =>
          drop
          return .map tag (← flowEntries (readWithin depth .flow) bound true)
        | .blockEntry =>
          if position = .flush then
            return .list tag (← flushItems (readWithin depth .block) bound)
          else if name.isSome || tag.isSome then return .scalar tag .plain []
          else fail
        | .blockListStart =>
          if position = .flow then
            if name.isSome || tag.isSome then return .scalar tag .plain [] else fail
          else
            drop
            return .list tag (← blockItems (readWithin depth .block) bound)
        | .blockMapStart =>
          if position = .flow then
            if name.isSome || tag.isSome then return .scalar tag .plain [] else fail
          else
            drop
            return .map tag (← blockEntries (readWithin depth .flush) bound)
        | _ => if name.isSome || tag.isSome then return .scalar tag .plain [] else fail

/-- Reads the directives in front of a document.  Each may be there once. -/
def directives : Nat → Bool → Reader Unit
  | 0, _ => fail
  | n + 1, versioned => do
    match ← peek with
    | .version major minor =>
      drop
      if versioned || major != 1 || (minor != 1 && minor != 2) then fail
      directives n true
    | .tagHandle handle lead =>
      drop
      if ((← get).handles.lookup handle).isSome then fail
      modify fun c => { c with handles := (handle, lead) :: c.handles }
      directives n versioned
    | _ => return ()

/-- Takes away marks for the end of a document, at most a number of them. -/
def dropEnds : Nat → Reader Unit
  | 0 => return ()
  | n + 1 => do
    if ← dropIf .documentEnd then dropEnds n

/-- Reads a whole text with at most one document. -/
def document : Reader (Option Node) := do
  let bound := (← get).tokens.length + 1
  let before := (← get).tokens.length
  directives bound false
  let directed := (← get).tokens.length < before
  let node ←
    if ← dropIf .documentStart then do
      let ends ← seesAny [.documentStart, .documentEnd, .streamEnd]
      match ← peek with
      | .version _ _ => pure (some nothing)
      | .tagHandle _ _ => pure (some nothing)
      | _ => if ends then pure (some nothing) else some <$> readWithin bound .block
    else if directed then fail
    else if ← seesAny [.streamEnd] then pure none
    else some <$> readWithin bound .block
  dropEnds bound
  if (← peek) == .streamEnd then return node else fail

end Node

/-- The node of a text with one document; `some none` if the text has no document. -/
def node? (t : Text) : Option (Option Node) := do
  let tokens ← tokens? t
  let (node, _) ← Node.document { tokens }
  return node

end Yaml

end Document

end TaggedOutline
