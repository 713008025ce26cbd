import TaggedOutline.Token

/-!
# Parse trees

Every recognizer gives the same kind of result: a token, a list of results, or the result of a named
rule.  A part that was absent is `empty`.

`ParseTree.tokens` is the view through which a tree is compared with the tokens it was made from;
`find?` and `findAll` look up the results of a rule by name, from the left and outside in.
-/

namespace TaggedOutline

/-- The result of a recognizer. -/
inductive ParseTree where
  | empty
  | token (t : Token)
  | list (items : List ParseTree)
  | rule (name : String) (inner : ParseTree)
deriving BEq, Repr, Inhabited

namespace ParseTree

mutual

/-- Whether the tree holds no token. -/
def isEmpty : ParseTree → Bool
  | .empty => true
  | .token _ => false
  | .list items => areEmpty items
  | .rule _ inner => inner.isEmpty

/-- Whether no tree of a list holds a token. -/
def areEmpty : List ParseTree → Bool
  | [] => true
  | t :: ts => t.isEmpty && areEmpty ts

end

mutual

/-- All tokens, from left to right. -/
def tokens : ParseTree → List Token
  | .empty => []
  | .token t => [t]
  | .list items => tokensOf items
  | .rule _ inner => inner.tokens

/-- All tokens of a list of trees. -/
def tokensOf : List ParseTree → List Token
  | [] => []
  | t :: ts => t.tokens ++ tokensOf ts

end

/-- The texts of all tokens. -/
def texts (t : ParseTree) : List Text := t.tokens.map Token.text

/-- The text of the first token. -/
def text? (t : ParseTree) : Option Text := t.texts.head?

/-- The name of the rule that made the tree. -/
def ruleName? : ParseTree → Option String
  | .rule name _ => some name
  | _ => none

/-- The value inside a named rule; any other tree is its own value. -/
def inner : ParseTree → ParseTree
  | .rule _ inner => inner
  | t => t

/-- The token of a tree that is one token, inside named rules or not. -/
def token? : ParseTree → Option Token
  | .token t => some t
  | .rule _ inner => inner.token?
  | _ => none

/-- The items of a list; a single token is one item. -/
def items : ParseTree → List ParseTree
  | .empty => []
  | .list items => items
  | .rule _ inner => inner.items
  | .token t => [.token t]

mutual

/-- The first result of the rule with a given name. -/
def find? (name : String) : ParseTree → Option ParseTree
  | .rule r inner => if r = name then some (.rule r inner) else inner.find? name
  | .list items => findIn? name items
  | _ => none

/-- The first result of a named rule in a list of trees. -/
def findIn? (name : String) : List ParseTree → Option ParseTree
  | [] => none
  | t :: ts =>
    match t.find? name with
    | some found => some found
    | none => findIn? name ts

end

mutual

/-- Every result of the rule with a given name that is not inside another one. -/
def findAll (name : String) : ParseTree → List ParseTree
  | .rule r inner => if r = name then [.rule r inner] else inner.findAll name
  | .list items => findAllIn name items
  | _ => []

/-- Every outermost result of a named rule in a list of trees. -/
def findAllIn (name : String) : List ParseTree → List ParseTree
  | [] => []
  | t :: ts => t.findAll name ++ findAllIn name ts

end

/-- The text of the first result of a rule. -/
def textOf? (name : String) (t : ParseTree) : Option Text := (t.find? name).bind text?

end ParseTree

end TaggedOutline
