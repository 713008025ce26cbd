import TaggedOutline.Grammar.Tree
import TaggedOutline.Text.Shown

/-!
# Grammars

A grammar is a list of named rules over tokens and the name of the rule to start with.  Rules refer
to each other by name, in any order and also to themselves.  A list of rules makes a grammar if no
name is given twice and every name that is used is there; `Grammar.build` checks this and reports
the first fault.

`Grammar.Recognize` runs the rules.
-/

namespace TaggedOutline

/-- A rule expression. -/
inductive Expr where
  /-- A token of a kind. -/
  | token (kind : String)
  /-- A token with exactly this text. -/
  | literal (text : Text)
  /-- Any token that is not structural. -/
  | word
  | seq (parts : List Expr)
  /-- The first alternative that matches. -/
  | choice (alternatives : List Expr)
  /-- Any number, as many as possible. -/
  | many (item : Expr)
  | optional (item : Expr)
  /-- At least one item, with a token of the separator's kind between two of them if one is given;
  visible separators stand in the result. -/
  | list (item : Expr) (separator : Option String) (visible : Bool)
  /-- The end of the tokens. -/
  | finish
  /-- Another rule of the grammar. -/
  | ref (name : String)
deriving BEq, Repr, Inhabited

namespace Expr

mutual

/-- The names of the rules that an expression refers to, from left to right. -/
def references : Expr → List String
  | .ref name => [name]
  | .seq parts => referencesOf parts
  | .choice alternatives => referencesOf alternatives
  | .many item => item.references
  | .optional item => item.references
  | .list item _ _ => item.references
  | .token _ | .literal _ | .word | .finish => []

/-- The names that a list of expressions refers to. -/
def referencesOf : List Expr → List String
  | [] => []
  | e :: es => e.references ++ referencesOf es

end

mutual

/-- The size of an expression: one for each node and one for each part of a list. -/
def size : Expr → Nat
  | .seq parts => sizeOf parts + 1
  | .choice alternatives => sizeOf alternatives + 1
  | .many item => item.size + 1
  | .optional item => item.size + 1
  | .list item _ _ => item.size + 1
  | .token _ | .literal _ | .word | .finish | .ref _ => 1

/-- The size of a list of expressions. -/
def sizeOf : List Expr → Nat
  | [] => 0
  | e :: es => e.size + sizeOf es + 1

end

end Expr

/-- A named rule. -/
abbrev NamedRule := String × Expr

/-- Why a list of rules makes no grammar. -/
inductive GrammarError where
  | duplicateRule (name : String)
  | unknownRule (rule missing : String)
  | missingStart (name : String)
deriving DecidableEq, Repr

/-- The wording of the error. -/
def GrammarError.message : GrammarError → String
  | .duplicateRule name => "rule \x60" ++ name ++ "\x60 is defined more than once"
  | .unknownRule rule missing =>
    "rule \x60" ++ rule ++ "\x60 refers to undefined rule \x60" ++ missing ++ "\x60"
  | .missingStart name => "start rule \x60" ++ name ++ "\x60 is not defined"

namespace Grammar

/-- The first name that a list of names repeats. -/
def firstRepeated? (seen : List String) : List String → Option String
  | [] => none
  | name :: names =>
    if seen.contains name then some name else firstRepeated? (name :: seen) names

/-- The first reference to a rule that is not there, with the rule that makes it. -/
def firstUnknown? (names : List String) (rules : List NamedRule) : Option (String × String) :=
  rules.findSome? fun (rule, e) =>
    (e.references.find? fun r => !names.contains r).map fun missing => (rule, missing)

/-- The first fault of a list of rules with a start rule. -/
def fault? (rules : List NamedRule) (start : String) : Option GrammarError :=
  let names := rules.map Prod.fst
  match firstRepeated? [] names with
  | some name => some (.duplicateRule name)
  | none =>
    match firstUnknown? names rules with
    | some (rule, missing) => some (.unknownRule rule missing)
    | none => if names.contains start then none else some (.missingStart start)

end Grammar

/-- A list of rules without a fault. -/
structure Grammar where
  rules : List NamedRule
  start : String
  sound : Grammar.fault? rules start = none

namespace Grammar

/-- The grammar of a list of rules, or the first fault of the list. -/
def build (rules : List NamedRule) (start : String) : Except GrammarError Grammar :=
  match h : fault? rules start with
  | some e => .error e
  | none => .ok ⟨rules, start, h⟩

/-- The expression of the rule with a given name. -/
def body? (g : Grammar) (name : String) : Option Expr := g.rules.lookup name

end Grammar

end TaggedOutline
