import TaggedOutline.Header
import TaggedOutline.Proofs.Readings

/-!
# The grammar of header lines as a reading

No rule of header lines comes back to itself, so the grammar is a `Reading`: `parse_grammar` says
which one.
-/

namespace TaggedOutline

namespace Header

open Reading

/-- The reading of an entry. -/
def entryReading : Reading :=
  named "entry" (seq [named "key" (token "word"), optional (seq [token "equals",
    named "value" (choice [token "word", token "string"])])])

/-- The reading of the entries of a list. -/
def entriesReading : Reading :=
  named "entries" (seq [entryReading, many (seq [optional (token "comma"), entryReading])])

/-- The reading of a list between two brackets. -/
def blockReading (name left right : String) : Reading :=
  named name (seq [token left, optional entriesReading, token right])

/-- The reading of a whole line. -/
def lineReading : Reading :=
  seq [named "tag" (token "word"), named "names" (many (token "word")),
    optional (blockReading "params" "lparen" "rparen"),
    optional (blockReading "options" "lbracket" "rbracket"),
    optional (named "label" (token "string")),
    optional (named "parser" (seq [token "colon", named "parser_name" (token "word")])),
    optional (choice [named "code" (token "code"), named "open" (token "open_brace")]),
    optional (named "comment" (token "comment")), finish]

section Reads

lemma reads_token (name kind : String) (hbody : rules.lookup name = some (.token kind)) :
    Reads rules [name] (fun _ => 3) (.ref name) (named name (token kind)) :=
  (Reads.token kind).rule name hbody (by simp)

lemma reads_entry :
    Reads rules ["entry", "key", "value"] (fun _ => 20) (.ref "entry") entryReading := by
  have hvalue : Reads rules ["value"] (fun _ => 7) (.ref "value") _ :=
    (Reads.choice (.cons (.token "word") (.cons (.token "string") .nil))).rule "value" rfl (by simp)
  have hset : Reads rules ["value"] (fun _ => 12) (.seq [.token "equals", .ref "value"]) _ :=
    Reads.seq (.cons ((Reads.token "equals").mono (by simp) (by intro n; exact Nat.le_add_left 1 7))
      (.cons (hvalue.mono (by simp) (by intro n; exact Nat.le_succ 7)) .nil))
  have hentry : Reads rules ["key", "value"] (fun _ => 17)
      (.seq [.ref "key", .optional (.seq [.token "equals", .ref "value"])]) _ :=
    Reads.seq (.cons ((reads_token "key" "word" rfl).mono (by simp) (by simp))
      (.cons (hset.optional.mono (by simp) (by intro n; exact Nat.le_refl 13)) .nil))
  exact (hentry.rule "entry" rfl (by simp)).mono (by simp) (by simp)

lemma reads_entries :
    Reads rules ["entries", "entry", "key", "value"] (fun n => n + 40) (.ref "entries")
      entriesReading := by
  have hcomma : Reads rules [] (fun _ => 2) (.optional (.token "comma")) _ :=
    (Reads.token "comma").optional
  have hnext : Reads rules ["entry", "key", "value"] (fun _ => 24)
      (.seq [.optional (.token "comma"), .ref "entry"]) _ :=
    Reads.seq (.cons (hcomma.mono (by simp) (by intro n; exact Nat.le_add_left 2 18))
      (.cons reads_entry .nil))
  have hall : Reads rules ["entry", "key", "value"] (fun n => n + 34)
      (.seq [.ref "entry", .many (.seq [.optional (.token "comma"), .ref "entry"])]) _ :=
    Reads.seq (.cons (reads_entry.mono (by simp) (by intro n; exact Nat.le_add_left 20 (n + 10)))
      (.cons (hnext.many.mono (by simp) (by intro n; simp; omega)) .nil))
  exact (hall.rule "entries" rfl (by simp)).mono (by simp) (by intro n; simp)

lemma reads_block (name left right : String)
    (hbody : rules.lookup name =
      some (.seq [.token left, .optional (.ref "entries"), .token right]))
    (hname : name ∉ ["entries", "entry", "key", "value"]) :
    Reads rules (name :: ["entries", "entry", "key", "value"]) (fun n => n + 50) (.ref name)
      (blockReading name left right) := by
  have hall : Reads rules ["entries", "entry", "key", "value"] (fun n => n + 41 + 3 + 2)
      (.seq [.token left, .optional (.ref "entries"), .token right]) _ :=
    Reads.seq (.cons ((Reads.token left).mono (by simp) (by intro n; omega))
      (.cons (reads_entries.optional.mono (by simp) (by intro n; omega))
        (.cons ((Reads.token right).mono (by simp) (by intro n; omega)) .nil)))
  exact (hall.rule name hbody hname).mono (by simp) (by intro n; simp)

/-- The names of the rules that a header line uses. -/
def ruleNames : List String :=
  ["tag", "names", "params", "options", "entries", "entry", "key", "value", "label", "parser",
    "parser_name", "code", "open", "comment"]

lemma reads_line :
    ∃ e, grammar.body? grammar.start = some e ∧
      Reads rules ruleNames (fun n => n + 70) e lineReading := by
  refine ⟨_, rfl, ?_⟩
  have hnames : Reads rules ["names"] (fun n => 1 + n + 2 + 2) (.ref "names") _ :=
    (Reads.token "word").many.rule "names" rfl (by simp)
  have hsign : Reads rules ["parser_name"] (fun _ => 3 + 2 + 2)
      (.seq [.token "colon", .ref "parser_name"]) _ :=
    Reads.seq (.cons ((Reads.token "colon").mono (by simp) (by simp))
      (.cons (reads_token "parser_name" "word" rfl) .nil))
  have hlabel := (reads_token "label" "string" rfl).optional
  have hparser := (hsign.rule "parser" rfl (by simp)).optional
  have hend : Reads rules ["code", "open"] (fun _ => 3 + 2 + 2)
      (.choice [.ref "code", .ref "open"]) _ :=
    Reads.choice (.cons ((reads_token "code" "code" rfl).mono (by simp) (by simp))
      (.cons ((reads_token "open" "open_brace" rfl).mono (by simp) (by simp)) .nil))
  have hparams := (reads_block "params" "lparen" "rparen" rfl (by simp)).optional
  have hoptions := (reads_block "options" "lbracket" "rbracket" rfl (by simp)).optional
  have hcomment := (reads_token "comment" "comment" rfl).optional
  have hall : Reads rules ruleNames (fun n => n + 55 + 9 + 2) _ lineReading := Reads.seq
    (.cons ((reads_token "tag" "word" rfl).mono (by simp [ruleNames]) (by intro n; omega))
    (.cons (hnames.mono (by simp [ruleNames]) (by intro n; simp; omega))
    (.cons (hparams.mono (by simp [ruleNames]) (by intro n; simp))
    (.cons (hoptions.mono (by simp [ruleNames]) (by intro n; simp))
    (.cons (hlabel.mono (by simp [ruleNames]) (by intro n; simp))
    (.cons (hparser.mono (by simp [ruleNames]) (by intro n; simp))
    (.cons (hend.optional.mono (by simp [ruleNames]) (by intro n; simp))
    (.cons (hcomment.mono (by simp [ruleNames]) (by intro n; simp))
    (.cons (Reads.finish.mono (by simp) (by intro n; simp)) .nil)))))))))
  exact hall.mono (by simp) (by intro n; simp)

end Reads

/-- A header line is parsed by its reading. -/
theorem parse_grammar (tokens : List Token) :
    grammar.parse { tokens } = (named "header" lineReading tokens).map Prod.fst := by
  obtain ⟨e, hbody, hreads⟩ := reads_line
  refine Grammar.parse_of_reads hbody hreads (by decide) tokens ?_
  show tokens.length + 70 + 1 ≤ (15 * (tokens.length + 1) + 1) * (86 + 1) * (tokens.length + 4)
  calc tokens.length + 70 + 1 ≤ 1 * (86 + 1) * (tokens.length + 4) := by omega
    _ ≤ _ := Nat.mul_le_mul_right _ (Nat.mul_le_mul_right _ (Nat.le_add_left _ _))

end Header

end TaggedOutline
