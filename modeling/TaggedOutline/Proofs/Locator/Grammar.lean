import TaggedOutline.Locator
import TaggedOutline.Proofs.Readings

/-!
# The grammar of paths as a reading

No rule of paths comes back to itself, so the grammar is a `Reading`: `parse_grammar` says which
one.
-/

namespace TaggedOutline

namespace Locator

open Reading

/-- The reading of a value under a name: a bare word or a quoted one. -/
def valueReading (name : String) : Reading := named name (choice [token "word", token "string"])

/-- The reading of a condition on an attribute, with its sign. -/
def attrReading (name sign : String) : Reading :=
  named name (seq [named "key" (token "word"), token sign, valueReading "value"])

/-- The reading of what stands between square brackets. -/
def conditionReading : Reading :=
  choice [attrReading "attr_match" "match_op", attrReading "attr_eq" "equals", valueReading "name"]

/-- The reading of a condition with its brackets. -/
def filterReading : Reading :=
  named "filter" (seq [token "lbracket", conditionReading, token "rbracket"])

/-- The reading of a place with its brackets. -/
def positionReading : Reading :=
  named "position" (seq [token "lparen", named "index" (token "word"), token "rparen"])

/-- The reading of a step. -/
def stepReading : Reading :=
  named "step"
    (seq [named "tag" (token "word"), optional (choice [filterReading, positionReading])])

/-- The reading of a step behind a mark. -/
def nextReading : Reading := seq [choice [token "dot", token "slash"], stepReading]

/-- The reading of a whole path. -/
def pathReading : Reading := seq [stepReading, many nextReading, finish]

section Reads

lemma reads_word (name : String) (hbody : rules.lookup name = some (.token "word")) :
    Reads rules [name] (fun _ => 3) (.ref name) (named name (token "word")) :=
  (Reads.token "word").rule name hbody (by simp)

lemma reads_value (name : String)
    (hbody : rules.lookup name = some (.choice [.token "word", .token "string"])) :
    Reads rules [name] (fun _ => 7) (.ref name) (valueReading name) :=
  (Reads.choice (.cons (.token "word") (.cons (.token "string") .nil))).rule name hbody (by simp)

lemma reads_attr (name sign : String)
    (hbody : rules.lookup name = some (.seq [.ref "key", .token sign, .ref "value"]))
    (hname : name ∉ ["key", "value"]) :
    Reads rules [name, "key", "value"] (fun _ => 14) (.ref name) (attrReading name sign) := by
  have hparts : Reads rules ["key", "value"] (fun _ => 12)
      (.seq [.ref "key", .token sign, .ref "value"]) _ :=
    Reads.seq (.cons ((reads_word "key" rfl).mono (by simp) (by intro n; exact Nat.le_add_left 3 4))
      (.cons ((Reads.token sign).mono (by simp) (by intro n; exact Nat.le_add_left 1 6))
        (.cons ((reads_value "value" rfl).mono (by simp) (by intro n; exact le_rfl)) .nil)))
  exact hparts.rule name hbody hname

/-- The names of the rules that a condition uses. -/
def conditionNames : List String := ["attr_match", "attr_eq", "key", "value", "name"]

lemma reads_filter :
    Reads rules ("filter" :: conditionNames) (fun _ => 26) (.ref "filter") filterReading := by
  have hcondition : Reads rules conditionNames (fun _ => 19)
      (.choice [.ref "attr_match", .ref "attr_eq", .ref "name"]) conditionReading :=
    Reads.choice (.cons ((reads_attr "attr_match" "match_op" rfl (by simp)).mono
        (by simp [conditionNames]) (by intro n; exact le_rfl))
      (.cons ((reads_attr "attr_eq" "equals" rfl (by simp)).mono
        (by simp [conditionNames]) (by intro n; exact le_rfl))
      (.cons ((reads_value "name" rfl).mono
        (by simp [conditionNames]) (by intro n; exact Nat.le_add_left 7 7)) .nil)))
  have hparts : Reads rules conditionNames (fun _ => 24) (.seq [.token "lbracket",
      .choice [.ref "attr_match", .ref "attr_eq", .ref "name"], .token "rbracket"]) _ :=
    Reads.seq (.cons ((Reads.token "lbracket").mono (by simp)
        (by intro n; exact Nat.le_add_left 1 18))
      (.cons hcondition
        (.cons ((Reads.token "rbracket").mono (by simp) (by intro n; exact Nat.le_add_left 1 18))
          .nil)))
  exact hparts.rule "filter" rfl (by simp [conditionNames])

lemma reads_position :
    Reads rules ["position", "index"] (fun _ => 10) (.ref "position") positionReading := by
  have hparts : Reads rules ["index"] (fun _ => 8)
      (.seq [.token "lparen", .ref "index", .token "rparen"]) _ :=
    Reads.seq (.cons ((Reads.token "lparen").mono (by simp) (by intro n; exact Nat.le_add_left 1 2))
      (.cons (reads_word "index" rfl)
        (.cons ((Reads.token "rparen").mono (by simp) (by intro n; exact Nat.le_add_left 1 2))
          .nil)))
  exact hparts.rule "position" rfl (by simp)

/-- The names of the rules that a step uses, but its own. -/
def selectorNames : List String := "tag" :: "filter" :: "position" :: "index" :: conditionNames

lemma reads_step :
    Reads rules ("step" :: selectorNames) (fun _ => 37) (.ref "step") stepReading := by
  have hselector : Reads rules selectorNames (fun _ => 30)
      (.choice [.ref "filter", .ref "position"]) _ :=
    Reads.choice (.cons (reads_filter.mono (by simp [selectorNames, conditionNames])
        (by intro n; exact le_rfl))
      (.cons (reads_position.mono (by simp [selectorNames])
        (by intro n; exact Nat.le_add_left 10 16)) .nil))
  have hparts : Reads rules selectorNames (fun _ => 35)
      (.seq [.ref "tag", .optional (.choice [.ref "filter", .ref "position"])]) _ :=
    Reads.seq (.cons ((reads_word "tag" rfl).mono (by simp [selectorNames])
        (by intro n; exact Nat.le_add_left 3 28))
      (.cons hselector.optional .nil))
  exact hparts.rule "step" rfl (by simp [selectorNames, conditionNames])

lemma reads_path :
    ∃ e, grammar.body? grammar.start = some e ∧
      Reads rules ("step" :: selectorNames) (fun n => n + 60) e pathReading := by
  refine ⟨_, rfl, ?_⟩
  have hmark : Reads rules [] (fun _ => 5) (.choice [.token "dot", .token "slash"]) _ :=
    Reads.choice (.cons (.token "dot") (.cons (.token "slash") .nil))
  have hnext : Reads rules ("step" :: selectorNames) (fun _ => 41)
      (.seq [.choice [.token "dot", .token "slash"], .ref "step"]) nextReading :=
    Reads.seq (.cons (hmark.mono (by simp) (by intro n; exact Nat.le_add_left 5 32))
      (.cons reads_step .nil))
  have hall : Reads rules ("step" :: selectorNames) (fun n => n + 50 + 3 + 2) _ pathReading :=
    Reads.seq (.cons (reads_step.mono (by simp) (by intro n; omega))
      (.cons (hnext.many.mono (by simp) (by intro n; omega))
        (.cons (Reads.finish.mono (by simp) (by intro n; omega)) .nil)))
  exact hall.mono (by simp) (by intro n; omega)

end Reads

/-- A path is parsed by its reading. -/
theorem parse_grammar (tokens : List Token) :
    grammar.parse { tokens } = (named "path" pathReading tokens).map Prod.fst := by
  obtain ⟨e, hbody, hreads⟩ := reads_path
  refine Grammar.parse_of_reads hbody hreads (by decide) tokens ?_
  show tokens.length + 60 + 1 ≤ (11 * (tokens.length + 1) + 1) * (74 + 1) * (tokens.length + 4)
  calc tokens.length + 60 + 1 ≤ 1 * (74 + 1) * (tokens.length + 4) := by omega
    _ ≤ _ := Nat.mul_le_mul_right _ (Nat.mul_le_mul_right _ (Nat.le_add_left _ _))

end Locator

end TaggedOutline
