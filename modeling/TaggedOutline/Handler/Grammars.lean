import TaggedOutline.Handler

/-!
# Results of special grammars

What a grammar of its own makes of a body or of a header line can be said by naming rules: the
results of one rule are the items of the body, and the parts of a header are the results of others.
-/

namespace TaggedOutline

/-- How the results of one rule become items of a body. -/
structure ItemReading where
  /-- The rule whose results are the items. -/
  rule : String
  /-- What stands in front of the texts of a result. -/
  lead : Text := []
  /-- The body of every item. -/
  body : Text := []
  /-- The items are texts and not elements. -/
  asText : Bool := false
deriving DecidableEq, Repr

namespace ItemReading

/-- The item that a result stands for. -/
def item (r : ItemReading) (t : ParseTree) : BodyItem :=
  let header := r.lead ++ Text.join [' '] t.texts
  if r.asText then .text (header ++ ['\n']) else .tag header r.body false

/-- The items of a parse tree. -/
def decode (r : ItemReading) (t : ParseTree) : Option (List BodyItem) :=
  some ((t.findAll r.rule).map r.item)

end ItemReading

/-- The header that a parse tree stands for by the names of its rules: `tag`, `names`, `param` for
keys without a value, `label`, and `open` for a bracket. -/
def Header.ofRules (t : ParseTree) : Option Header := do
  let tag ← t.textOf? "tag"
  return {
    tag
    names := ((t.find? "names").map ParseTree.texts).getD []
    params := .ofList <| (t.findAll "param").filterMap fun p => p.text?.map (·, Params.flagValue)
    label := (t.find? "label").map fun l => Text.join [' '] l.texts
    bracket := (t.find? "open").isSome }

end TaggedOutline
