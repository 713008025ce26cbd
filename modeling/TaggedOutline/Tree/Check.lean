import TaggedOutline.Handler
import TaggedOutline.Tree.Search

/-!
# Checks

A check says what a node should be like, and reports the difference in words when it is not.
`Check.firstFailure?` runs checks in order and stops at the first one that fails.  Every report
begins with the way to the node, such as `root/group[0]/item[1]`.
-/

namespace TaggedOutline

/-- What a node should be like. -/
inductive Check where
  | tag (expected : Text)
  | name (expected : Text)
  | names (expected : List Text)
  | param (key expected : Text)
  | option (key expected : Text)
  | paramKeys (expected : List Text)
  | label (expected : Text)
  | noLabel
  | suppressed (expected : Bool)
  | runtimeOnly (expected : Bool)
  | built
  /-- The body was not made into children and is this text. -/
  | rawBody (expected : Text)
  | handler (expected : Text)
  | payload (expected : Payload)
  | noPayload
  | callable (expected : Bool)
  | diagnosticCount (expected : Nat)
  | hasDiagnostic (code : Text)
  | childCount (expected : Nat)
  | fragments (expected : List Text)
  /-- The child node at a place, counted from zero, passes checks. -/
  | child (place : Nat) (checks : List Check)
  /-- The node that a path leads to passes checks. -/
  | located (path : Text) (checks : List Check)
deriving Repr, Inhabited

namespace Check

variable {H : Type}

/-- A report: the way to the node and a list of parts. -/
def report (context : Text) (parts : List Text) : Text := context ++ ':' :: ' ' :: parts.flatten

/-- Passes if a condition holds and reports otherwise. -/
def require (context : Text) (holds : Bool) (parts : List Text) : Option Text :=
  if holds then none else some (report context parts)

/-- The word for a truth value. -/
def word (b : Bool) : Text := (toString b).toList

/-- The display form of a payload. -/
def shownPayload : Payload → Text
  | .whole n => Text.ofInt n
  | .text t => Text.shown t

/-- The payload of a node, as far as it is of the same kind as another one. -/
def payloadLike (expected : Payload) (actual : Option Payload) : Option Payload :=
  match expected, actual with
  | .whole _, some (.whole n) => some (.whole n)
  | .text _, some (.text t) => some (.text t)
  | _, _ => none

/-- The display form of a payload that may be absent. -/
def shownFound : Option Payload → Text
  | none => "None".toList
  | some p => "Some(".toList ++ shownPayload p ++ [')']

/-- The tags of the child nodes of a node. -/
def childTags (t : Tree H) (id : NodeId) : List Text :=
  (t.childNodes id).filterMap fun below => (t.node? below).map Node.tag

/-- The report of a check that a node does not pass, apart from checks of other nodes. -/
def failureOf (read : Matcher.Reader) (t : Tree Handler) (context : Text) (id : NodeId)
    (n : Node Handler) : Check → Option Text
  | .tag expected =>
    require context (n.tag == expected)
      ["expected tag '".toList, expected, "', found '".toList, n.tag, ['\'']]
  | .name expected =>
    require context (n.name == some expected)
      ["expected name '".toList, expected, "', found ".toList, Text.shownOption n.name]
  | .names expected =>
    require context (n.names == expected)
      ["expected names ".toList, Text.shownList expected, ", found ".toList,
        Text.shownList n.names]
  | .param key expected =>
    require context (n.params.get? key == some expected)
      ["expected param ".toList, key, ['='], Text.shown expected, ", found ".toList,
        Text.shownOption (n.params.get? key)]
  | .option key expected =>
    require context (n.options.get? key == some expected)
      ["expected option ".toList, key, ['='], Text.shown expected, ", found ".toList,
        Text.shownOption (n.options.get? key)]
  | .paramKeys expected =>
    require context (n.params.keys == expected)
      ["expected param keys ".toList, Text.shownList expected, ", found ".toList,
        Text.shownList n.params.keys]
  | .label expected =>
    require context (n.label == some expected)
      ["expected label ".toList, Text.shown expected, ", found ".toList, Text.shownOption n.label]
  | .noLabel =>
    require context n.label.isNone ["expected no label, found ".toList, Text.shownOption n.label]
  | .suppressed expected =>
    require context (n.suppressed == expected)
      ["expected suppressed=".toList, word expected, ", found ".toList, word n.suppressed]
  | .runtimeOnly expected =>
    require context (n.runtimeOnly == expected)
      ["expected runtime_only=".toList, word expected, ", found ".toList, word n.runtimeOnly]
  | .built =>
    require context n.isBuilt ["expected a built node, state is ".toList, n.state.shown]
  | .rawBody expected =>
    if n.expanded then
      some (report context ["expected a raw body, but the body was expanded".toList])
    else
      require context (n.body.text? == some expected)
        ["expected raw body ".toList, Text.shown expected, ", found ".toList,
          Text.shownOption n.body.text?]
  | .handler expected =>
    require context (n.handler.map Handler.name == some expected)
      ["expected handler '".toList, expected, "', found ".toList,
        Text.shownOption (n.handler.map Handler.name)]
  | .payload expected =>
    let found := payloadLike expected n.payload
    require context (found == some expected)
      ["expected payload ".toList, shownPayload expected, ", found ".toList, shownFound found]
  | .noPayload => require context n.payload.isNone ["expected no payload".toList]
  | .callable expected =>
    require context (n.isCallable == expected)
      ["expected callable=".toList, word expected, ", found ".toList, word n.isCallable]
  | .diagnosticCount expected =>
    require context (n.diagnostics.length == expected)
      ["expected ".toList, Text.ofNat expected, " diagnostics, found ".toList,
        Diagnostic.shownList n.diagnostics]
  | .hasDiagnostic code =>
    require context (n.diagnostics.any (·.hasCode code))
      ["expected a diagnostic with code '".toList, code, "', found ".toList,
        Diagnostic.shownList n.diagnostics]
  | .childCount expected =>
    let found := t.childNodes id
    require context (found.length == expected)
      ["expected ".toList, Text.ofNat expected, " children, found ".toList,
        Text.ofNat found.length, ": [".toList, Text.join ", ".toList (childTags t id), [']']]
  | .fragments expected =>
    require context (n.fragments == expected)
      ["expected fragments ".toList, Text.shownList expected, ", found ".toList,
        Text.shownList n.fragments]
  | .child place _ =>
    let found := t.childNodes id
    require context (place < found.length)
      ["child index ".toList, Text.ofNat place, " out of bounds (".toList, Text.ofNat found.length,
        " children)".toList]
  | .located path _ =>
    require context (t.find? read id path).isSome
      ["path '".toList, path, "' does not resolve".toList]

/-- The report of a check that a node of a tree does not pass, apart from checks of other nodes. -/
def failure (read : Matcher.Reader) (t : Tree Handler) (context : Text) (id : NodeId) (c : Check) :
    Option Text :=
  (t.node? id).bind (failureOf read t context id · c)

/-- The way to the child of a node at a place. -/
def childContext (t : Tree H) (context : Text) (below : NodeId) (place : Nat) : Text :=
  context ++ '/' :: ((t.node? below).map Node.tag).getD [] ++ '[' :: Text.ofNat place ++ [']']

mutual

/-- The report of a check that fails. -/
def run (read : Matcher.Reader) (t : Tree Handler) (context : Text) (id : NodeId) :
    Check → Option Text
  | .child place checks =>
    match failure read t context id (.child place []), (t.childNodes id)[place]? with
    | some message, _ => some message
    | none, some below => runAll read t (childContext t context below place) below checks
    | none, none => none
  | .located path checks =>
    match failure read t context id (.located path []), t.find? read id path with
    | some message, _ => some message
    | none, some found => runAll read t (context ++ '@' :: path) found checks
    | none, none => none
  | check => failure read t context id check

/-- The report of the first check that fails. -/
def runAll (read : Matcher.Reader) (t : Tree Handler) (context : Text) (id : NodeId) :
    List Check → Option Text
  | [] => none
  | check :: checks =>
    match run read t context id check with
    | some message => some message
    | none => runAll read t context id checks

end

/-- The report of the first check that a node does not pass. -/
def firstFailure? (read : Matcher.Reader) (t : Tree Handler) (id : NodeId) (checks : List Check) :
    Option Text :=
  runAll read t (((t.node? id).map Node.tag).getD []) id checks

end Check

end TaggedOutline
