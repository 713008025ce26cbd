import TaggedOutline.Grammar
import TaggedOutline.Token.Stream

/-!
# Running a grammar

A rule expression is run at a place in the tokens and either fails or gives a parse tree and the
place after it.  A choice takes its first alternative that matches and does not come back to it.

A rule may refer to itself at the place where it is running.  Such a call does not run the rule
again: it answers with the *seed* of the running call, at first a failure, and marks it.  If a run
has met its own seed and matched, its result becomes the seed and the body is run once more, for as
long as the match grows.  This is how a rule that begins with itself comes to nest to the left.

The seeds of the calls in progress are threaded through the run as a table, `Seeds`.  Every function
takes the depth to which calls may still nest and has no result when that runs out;
`Grammar.depthBound` is a depth that is always enough, and `Grammar.recognize` runs with it.
-/

namespace TaggedOutline

/-- A parse tree and the place after it. -/
abbrev Match := ParseTree × Nat

/-- What a call in progress answers to itself. -/
structure Seed where
  found : Option Match := none
  /-- Whether a call has asked for the seed. -/
  met : Bool := false
deriving BEq, Repr

/-- The seeds of the calls in progress, by rule and place. -/
abbrev Seeds := List ((String × Nat) × Seed)

namespace Seeds

/-- The seed under a key. -/
def get? (s : Seeds) (key : String × Nat) : Option Seed := s.lookup key

/-- The table with a seed put under a key, in its old place if it has one. -/
def put (key : String × Nat) (seed : Seed) : Seeds → Seeds
  | [] => [(key, seed)]
  | (k, old) :: rest => if k = key then (k, seed) :: rest else (k, old) :: put key seed rest

/-- The table without a key. -/
def remove (key : String × Nat) : Seeds → Seeds
  | [] => []
  | (k, seed) :: rest => if k = key then rest else (k, seed) :: remove key rest

end Seeds

/-- A run over a table of seeds.  It has no result if it would nest too deep. -/
abbrev Run (α : Type) := StateT Seeds Option α

namespace Grammar

/-- The result of a named rule: a value without tokens stays nameless. -/
def nameResult (name : String) (m : Match) : Match :=
  if m.1.isEmpty then (.empty, m.2) else (.rule name m.1, m.2)

/-- The next token as a match, if it passes a test. -/
def takeIf (tokens : List Token) (place : Nat) (test : Token → Bool) : Option Match :=
  match tokens[place]? with
  | some t => if test t then some (.token t, place + 1) else none
  | none => none

mutual

/-- Runs an expression at a place. -/
def run (rules : List NamedRule) (tokens : List Token) (depth : Nat) (e : Expr) (place : Nat) :
    Run (Option Match) :=
  match depth with
  | 0 => failure
  | depth + 1 =>
    match e with
    | .token kind => return takeIf tokens place fun t => t.kind = kind
    | .literal text => return takeIf tokens place fun t => t.text = text
    | .word => return takeIf tokens place fun t => !t.structural
    | .finish => return if tokens.length ≤ place then some (.empty, place) else none
    | .seq parts => runSeq rules tokens depth parts [] place
    | .choice alternatives => runChoice rules tokens depth alternatives place
    | .many item => runMany rules tokens depth item [] place
    | .optional item => do
      match ← run rules tokens depth item place with
      | some m => return some m
      | none => return some (.empty, place)
    | .list item separator visible => do
      match ← run rules tokens depth item place with
      | some (first, next) => runList rules tokens depth item separator visible [first] next
      | none => return none
    | .ref name =>
      match rules.lookup name with
      | some body => runRule rules tokens depth name body place
      | none => return none

/-- Runs the parts of a sequence; `done` are the earlier results, latest first. -/
def runSeq (rules : List NamedRule) (tokens : List Token) (depth : Nat) (parts : List Expr)
    (done : List ParseTree) (place : Nat) : Run (Option Match) :=
  match depth with
  | 0 => failure
  | depth + 1 =>
    match parts with
    | [] => return some (.list done.reverse, place)
    | part :: parts => do
      match ← run rules tokens depth part place with
      | some (value, next) => runSeq rules tokens depth parts (value :: done) next
      | none => return none

/-- Runs the alternatives of a choice. -/
def runChoice (rules : List NamedRule) (tokens : List Token) (depth : Nat)
    (alternatives : List Expr) (place : Nat) : Run (Option Match) :=
  match depth with
  | 0 => failure
  | depth + 1 =>
    match alternatives with
    | [] => return none
    | e :: alternatives => do
      match ← run rules tokens depth e place with
      | some m => return some m
      | none => runChoice rules tokens depth alternatives place

/-- Runs a repetition; an item that takes no token ends it. -/
def runMany (rules : List NamedRule) (tokens : List Token) (depth : Nat) (item : Expr)
    (done : List ParseTree) (place : Nat) : Run (Option Match) :=
  match depth with
  | 0 => failure
  | depth + 1 => do
    match ← run rules tokens depth item place with
    | some (value, next) =>
      if next = place then return some (.list done.reverse, place)
      else runMany rules tokens depth item (value :: done) next
    | none => return some (.list done.reverse, place)

/-- Runs a list after its first item.  A separator is taken only together with the item after it. -/
def runList (rules : List NamedRule) (tokens : List Token) (depth : Nat) (item : Expr)
    (separator : Option String) (visible : Bool) (done : List ParseTree) (place : Nat) :
    Run (Option Match) :=
  match depth with
  | 0 => failure
  | depth + 1 =>
    let gap : Option Match :=
      match separator with
      | some kind => takeIf tokens place fun t => t.kind = kind
      | none => some (.empty, place)
    match gap with
    | none => return some (.list done.reverse, place)
    | some (between, after) => do
      match ← run rules tokens depth item after with
      | some (value, next) =>
        if next = place then return some (.list done.reverse, place)
        else
          let done := if visible && !between.isEmpty then between :: done else done
          runList rules tokens depth item separator visible (value :: done) next
      | none => return some (.list done.reverse, place)

/-- Runs a named rule: answers with the seed if the rule is running at this place already. -/
def runRule (rules : List NamedRule) (tokens : List Token) (depth : Nat) (name : String)
    (body : Expr) (place : Nat) : Run (Option Match) :=
  match depth with
  | 0 => failure
  | depth + 1 => do
    match (← get).get? (name, place) with
    | some seed =>
      modify (Seeds.put (name, place) { seed with met := true })
      return seed.found
    | none =>
      modify (Seeds.put (name, place) {})
      let first := (← run rules tokens depth body place).map (nameResult name)
      let met := ((← get).get? (name, place)).any Seed.met
      let result ← match first, met with
        | some m, true => runGrowing rules tokens depth name body place m
        | found, _ => pure found
      modify (Seeds.remove (name, place))
      return result

/-- Runs the body of a rule again with its match as the seed while the match grows. -/
def runGrowing (rules : List NamedRule) (tokens : List Token) (depth : Nat) (name : String)
    (body : Expr) (place : Nat) (best : Match) : Run (Option Match) :=
  match depth with
  | 0 => failure
  | depth + 1 => do
    modify (Seeds.put (name, place) { found := some best, met := true })
    match ← run rules tokens depth body place with
    | some grown =>
      if best.2 < grown.2 then
        runGrowing rules tokens depth name body place (nameResult name grown)
      else return some best
    | none => return some best

end

/-- A depth to which no run of the rules nests: each call in progress has a rule and a place of its
own, and within one call the nesting is that of the expression and of the rounds of its loops. -/
def depthBound (rules : List NamedRule) (tokens : List Token) : Nat :=
  let size := rules.foldl (fun n r => n + r.2.size) 1
  (rules.length * (tokens.length + 1) + 1) * (size + 1) * (tokens.length + 4)

/-- Runs a rule with a given body at a place of a stream, where references mean the given rules. -/
def recognizeWith (rules : List NamedRule) (depth : Nat) (name : String) (body : Expr)
    (s : Stream) : Option (ParseTree × Stream) :=
  match (runRule rules s.tokens depth name body s.position).run [] with
  | some (some (value, place), _) => some (value, { s with position := place })
  | _ => none

/-- Runs the rule with a given name at a place of a stream. -/
def recognize (g : Grammar) (name : String) (s : Stream) : Option (ParseTree × Stream) :=
  match g.body? name with
  | some body => recognizeWith g.rules (depthBound g.rules s.tokens) name body s
  | none => none

/-- Runs the rule with a given name when the grammar is gone: every reference in it fails. -/
def recognizeAlone (g : Grammar) (name : String) (s : Stream) : Option (ParseTree × Stream) :=
  match g.body? name with
  | some body => recognizeWith [] (depthBound g.rules s.tokens) name body s
  | none => none

/-- The tree of the start rule; what it leaves is discarded. -/
def parse (g : Grammar) (s : Stream) : Option ParseTree := (g.recognize g.start s).map Prod.fst

end Grammar

end TaggedOutline
