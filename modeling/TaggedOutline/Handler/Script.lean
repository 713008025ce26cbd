import TaggedOutline.Document.Json.Printer
import TaggedOutline.Handler
import TaggedOutline.Tree.Search

/-!
# Scripts

A script is a handler written as data: for each occasion a list of steps that are done in order.
The payload of the node is what the last step that makes one has made; a step that fails ends the
script.  A script notes each of its calls in the journal, and some of its steps note what they see.
-/

namespace TaggedOutline

namespace Script

/-- A step of a script. -/
inductive Step where
  /-- The payload is a constant. -/
  | constant (p : Payload)
  /-- The payload is the name of the node. -/
  | name
  /-- The payload is the value of an attribute. -/
  | attribute (key : Text)
  /-- The payload is the number that a parameter holds. -/
  | number (key : Text)
  | fail (e : BuildError)
  | annotate (d : Diagnostic)
  /-- Sets the handler of a tag beneath the node. -/
  | override (tag key : Text)
  | setAction (a : Action)
  /-- Counts the node under a key on the node it stands under. -/
  | countAbove (key : Text)
  | setLabel (t : Text)
  | setParam (key value : Text)
  | insertText (t : Text)
  /-- Adds elements next to the node. -/
  | insertTextAbove (t : Text)
  | insertSpec (s : Spec)
  /-- Builds the node itself and notes its payload. -/
  | buildSelf
  | buildChildren
  /-- Notes the payloads of the children. -/
  | notePayloads
  /-- Notes where a path leads. -/
  | noteFound (path : Text)

/-- A payload as a document. -/
def payloadValue : Payload → Document.Value
  | .whole n => .whole n
  | .text t => .text t

/-- A payload as it is noted. -/
def writtenPayload : Option Payload → Text
  | none => "null".toList
  | some p => Document.Json.print (payloadValue p)

/-- Looks at a node and goes on. -/
def withNode {α : Type} (id : NodeId) (next : Node Text → Hook α) : Hook α :=
  .look fun t =>
    match t.node? id with
    | some n => next n
    | none => .done (.error { message := "no such node".toList })

/-- The number that a parameter of a node holds. -/
def numberOf (n : Node Text) (key : Text) : Except BuildError Int :=
  match n.params.get? key with
  | none => .error { message := "needs ".toList ++ key, code := "missing-value".toList }
  | some raw =>
    match Text.int? 64 raw with
    | some n => .ok n
    | none => .error { message := "not a number: ".toList ++ raw }

/-- The payloads of the children of a node, as they are noted. -/
def writtenPayloads (t : Tree Text) (id : NodeId) : Text :=
  Text.join [' '] <| (t.childNodes id).filterMap fun child =>
    (t.payload? child).map fun p => NodeId.shown child ++ '=' :: writtenPayload (some p)

/-- Builds nodes one after the other. -/
def buildEach {α : Type} (next : Hook α) : List NodeId → Hook α
  | [] => next
  | id :: ids => .build id fun _ => buildEach next ids

/-- Does a step for a node; `made` is the payload that the steps before have made, and `read` reads
the patterns of paths. -/
def Step.run (read : Matcher.Reader) (id : NodeId) (made : Option Payload) :
    Step → Hook (Option Payload)
  | .constant p => pure (some p)
  | .name => withNode id fun n => pure (some (.text (n.name.getD [])))
  | .attribute key => withNode id fun n => pure ((n.attribute? key).map .text)
  | .number key => withNode id fun n => .done ((numberOf n key).map fun n => some (.whole n))
  | .fail e => .done (.error e)
  | .annotate d => .edit id (·.annotate d) (pure made)
  | .override tag key => .override id tag key (pure made)
  | .setAction a => .setAction id a (pure made)
  | .countAbove key =>
    .look fun t =>
      match t.parent? id with
      | some parent => .edit parent (·.count key) (pure made)
      | none => pure made
  | .setLabel t => .edit id (fun f => { f with label := some t }) (pure made)
  | .setParam key value =>
    .edit id (fun f => { f with params := f.params.insert key value }) (pure made)
  | .insertText t => .insertText id t fun _ => pure made
  | .insertTextAbove t =>
    .look fun tree =>
      match tree.parent? id with
      | some parent => .insertText parent t fun _ => pure made
      | none => pure made
  | .insertSpec s => .insertSpec id s fun _ => pure made
  | .buildSelf => .build id fun p => .note ("  rebuilt ".toList ++ writtenPayload p) (pure made)
  | .buildChildren => .look fun t => buildEach (pure made) (t.childNodes id)
  | .notePayloads =>
    .look fun t => .note ("  payloads ".toList ++ writtenPayloads t id) (pure made)
  | .noteFound path =>
    .look fun t =>
      let found := ((t.find? read id path).map NodeId.shown).getD "none".toList
      .note ("  found ".toList ++ found) (pure made)

/-- Does steps in order. -/
def runSteps (read : Matcher.Reader) (id : NodeId) :
    Option Payload → List Step → Hook (Option Payload)
  | made, [] => pure made
  | made, step :: steps => step.run read id made >>= fun made => runSteps read id made steps

/-- Notes the call of a script, and then does its steps. -/
def run (read : Matcher.Reader) (occasion : Occasion) (id : NodeId) (steps : List Step) :
    Hook (Option Payload) :=
  withNode id fun n =>
    .note (occasion.word ++ ' ' :: NodeId.shown id ++ ' ' :: n.tag ++ ' ' :: n.state.shown)
      (runSteps read id none steps)

end Script

/-- The handler whose occasions are scripts. -/
def Handler.scripted (read : Matcher.Reader) (name : Text)
    (payload register post : List Script.Step) : Handler where
  name := name
  payload id := Script.run read .payload id payload
  register id parent :=
    .note ("register in ".toList ++ NodeId.shown parent) <|
      Script.run read .register id register >>= fun _ => pure ()
  post id := Script.run read .post id post >>= fun _ => pure ()

end TaggedOutline
