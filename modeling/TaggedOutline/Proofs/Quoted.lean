import TaggedOutline.Proofs.Header.Entries
import TaggedOutline.Proofs.Locator.Lexemes
import TaggedOutline.Proofs.Locator.Syntax
import TaggedOutline.Proofs.Tiling

/-!
# Quoted texts

Three things have to agree on where a quoted text ends: the way it is written, the pattern of
strings and the way it is read.  `scan_quote` says that they do, whatever the text is and whatever
follows it, for every lexer in this library: the first token is the whole quoted text and stands for
the text.  So any text can be written where a header line or a path takes a string.
-/

namespace TaggedOutline

namespace Header

/-! ## The end of a quoted text -/

/-- The quote that closes a quoted text is neither missed nor passed. -/
lemma closeQuote_escape_append (v w : Text) : closeQuote (escape v ++ '"' :: w) = some w :=
  closeQuote_eq_some_iff.mpr ⟨escape v, isQuoted_escape v, rfl⟩

lemma quote_append (v w : Text) : quote v ++ w = '"' :: (escape v ++ '"' :: w) := by
  simp [quote]

lemma dropEnds_quote (v : Text) : dropEnds (quote v) = escape v :=
  List.dropLast_concat

lemma unescape_dropEnds_quote (v : Text) : unescape (dropEnds (quote v)) = v := by
  rw [dropEnds_quote, unescape_escape]

lemma after?_quoted_quote (v w : Text) : after? .quoted (quote v ++ w) = some w := by
  rw [quote_append, after?_quoted_cons, if_pos rfl, closeQuote_escape_append]

end Header

namespace Lexer

open Header (after? quote)

/-- The token of a quoted text that begins at byte `offset`. -/
def quotedToken (offset : Nat) (v : Text) : Token where
  kind := "string"
  text := v
  start := offset
  stop := offset + Text.byteSize (quote v)

/-- A lexer reads strings if no rule before that of strings takes a quote. -/
def ReadsStrings (lx : Lexer) : Prop :=
  ∃ before behind, lx.rules = before ++ .quoted :: behind ∧
    ∀ r ∈ before, ∀ t, after? r ('"' :: t) = none

variable {lx : Lexer}

/-- The next token of a text that begins with a quoted one is the quoted one. -/
lemma ReadsStrings.next?_quote (h : lx.ReadsStrings) (offset : Nat) (v w : Text) :
    ∃ hlt, lx.next? offset (quote v ++ w) = some (quotedToken offset v, ⟨w, hlt⟩) := by
  obtain ⟨before, behind, hrules, hbefore⟩ := h
  have hskip : ∀ r ∈ before, after? r (quote v ++ w) = none := by
    intro r hr
    rw [Header.quote_append]
    exact hbefore r hr _
  obtain ⟨⟨rest, hlt⟩, hrest, hw⟩ := Option.map_eq_some_iff.mp (Header.after?_quoted_quote v w)
  obtain rfl : rest = w := hw
  have hnone : before.findSome? (fun r => (r.rest? (quote v ++ rest)).map fun left => (r, left)) =
      none := by
    rw [List.findSome?_eq_none_iff]
    intro r hr
    rw [Header.rest?_eq_none (hskip r hr)]
    rfl
  have hcut : (quote v ++ rest).take ((quote v ++ rest).length - rest.length) = quote v :=
    Text.take_length_sub rfl
  have htext : LexRule.quoted.transform (quote v) = v := Header.unescape_dropEnds_quote v
  refine ⟨hlt, ?_⟩
  rw [next?, hrules, List.findSome?_append, hnone, Option.none_or, List.findSome?_cons, hrest]
  simp only [Option.map_some, hcut, htext]
  rfl

lemma ReadsStrings.head?_scan_quote (h : lx.ReadsStrings) (v w : Text) :
    (lx.scan (quote v ++ w)).1.head? = some (quotedToken 0 v) := by
  obtain ⟨hlt, hnext⟩ := h.next?_quote 0 v w
  have hne : ¬(quote v ++ w).isEmpty = true := by simp [Header.quote_append]
  rw [scan, scanFrom, if_neg hne, hnext]
  rfl

/-- A quoted text is one lexeme of a text. -/
lemma ReadsStrings.lexes_quote (h : lx.ReadsStrings) {t : Text} {ls : List Lexeme}
    (ht : lx.Lexes t ls) (v : Text) : lx.Lexes (quote v ++ t) (("string", v) :: ls) := by
  apply Lexes.cons _ ht
  intro offset
  obtain ⟨hlt, hnext⟩ := h.next?_quote offset v t
  exact ⟨_, hlt, hnext, rfl, rfl⟩

end Lexer

lemma Header.readsStrings : lexer.ReadsStrings := by
  refine ⟨[.spaces], _, rules_lexer, ?_⟩
  simp [Layout.isIndent]

lemma Locator.readsStrings : lexer.ReadsStrings := by
  refine ⟨[.spaces], _, rules_lexer, ?_⟩
  simp [Layout.isIndent]

/-! ## Quoted texts in lines and paths -/

namespace Header

/-- A header line takes any text as its label. -/
lemma parse_label (v : Text) :
    parse (['n'] ++ ' ' :: quote v) = some { tag := ['n'], label := some v } := by
  have htag : Lexed ['n'] [("word", ['n'])] := .of_isWord (by decide)
  have hrest : Lexed (' ' :: quote v) [("string", v)] := .space (by decide) (lexed_quote v)
  have hline := htag.append (by simp) hrest (by rintro _ ⟨⟩; decide)
  have hlabel : SpellsMaybe (SpellsOne "string") [("string", v)] (some v) := .present rfl
  rw [parse_eq_some_iff]
  refine ⟨_, lexemes_eq_some_iff.mpr hline, ?_⟩
  exact .mk (h := { tag := ['n'], label := some v })
    .nil .absent .absent hlabel .absent .absent .absent rfl rfl rfl

/-- A header line takes any text as a value. -/
lemma parse_value (v : Text) :
    parse (['n'] ++ '(' :: (['k'] ++ '=' :: (quote v ++ [')']))) =
      some { tag := ['n'], params := Params.empty.insert ['k'] v } := by
  have hkey : IsWord ['k'] := by decide
  have hnone : IsBlanks [] := by decide
  have hentry : WritesEntry (['k'] ++ ([] ++ '=' :: ([] ++ quote v))) (['k'], some v) :=
    .valued hkey hnone hnone (.quoted v)
  have hblock : WritesBlock '(' ')' ('(' :: ([] ++ ('k' :: '=' :: quote v ++ ([] ++ [')']))))
      [(['k'], some v)] := .mk hnone (.one hentry) hnone
  have hlexed : ∃ ls, Lexed ('(' :: (['k'] ++ '=' :: (quote v ++ [')']))) ls ∧
      SpellsBlock "lparen" "rparen" ls (lastValues [(['k'], some v)]) :=
    hblock.exists_lexed (by decide) (by decide)
  obtain ⟨ls, hlexed, hspells⟩ := hlexed
  have htag : Lexed ['n'] [("word", ['n'])] := .of_isWord (by decide)
  have hline := htag.append (by simp) hlexed (endsWord_cons (by decide) _)
  rw [← ofEntries_eq_lastValues] at hspells
  rw [parse_eq_some_iff]
  refine ⟨_, lexemes_eq_some_iff.mpr hline, ?_⟩
  rw [← List.append_nil ls]
  exact .mk (h := { tag := ['n'], params := Params.empty.insert ['k'] v }) .nil (.present hspells)
    .absent .absent .absent .absent .absent rfl rfl rfl

end Header

namespace Locator

/-- A path takes any text as a value. -/
lemma compile_value (read : Matcher.Reader) (v : Text) :
    (compile read (['n'] ++ '[' :: (Header.quote v ++ [']']))).map Locator.steps =
      .ok [⟨['n'], .name v⟩] := by
  have hclose : lexer.Lexes [']'] [("rbracket", [']'])] :=
    lexes_mark (by decide) (by decide) (.nil lexer)
  have hopen : lexer.Lexes ('[' :: (Header.quote v ++ [']']))
      [("lbracket", ['[']), ("string", v), ("rbracket", [']'])] :=
    lexes_mark (by decide) (by decide) (readsStrings.lexes_quote hclose v)
  have hpath := lexes_word (w := ['n']) (by simp) (List.forall_mem_singleton.mpr (by decide))
    (by rintro _ ⟨⟩; decide) hopen
  obtain ⟨tokens, hvisible, hlexemes⟩ := hpath.visible
  have hspells : SpellsPath (tokens.map Token.lexeme) [.name ['n'] v] := by
    rw [hlexemes]
    exact .mk (.name (by decide) _ _ _ _) .nil
  have hmeans : List.Forall₂ (Means read) [.name ['n'] v] [⟨['n'], .name v⟩] :=
    .cons (.name _ _) .nil
  have hcompile := (compile_eq_ok_iff_of_spells hvisible hspells).mpr
    (show _ ∧ Locator.source ⟨_, [⟨['n'], .name v⟩]⟩ = _ from ⟨hmeans, rfl⟩)
  rw [hcompile]
  rfl

end Locator

/-- A quoted text reads back whole, whatever the text is and whatever follows it: for both lexers
the first token is the quoted text, up to its closing quote and no further, and stands for the text.
So a header line takes any text as its label or as a value, and a path takes any text as a value. -/
theorem scan_quote (v : Text) :
    (∀ w, ∀ lx ∈ [Header.lexer, Locator.lexer], (lx.scan (Header.quote v ++ w)).1.head? = some
      { kind := "string", text := v, start := 0, stop := Text.byteSize (Header.quote v) }) ∧
    Header.unescape (Header.dropEnds (Header.quote v)) = v ∧
    Header.parse (['n'] ++ ' ' :: Header.quote v) = some { tag := ['n'], label := some v } ∧
    Header.parse (['n'] ++ '(' :: (['k'] ++ '=' :: (Header.quote v ++ [')']))) =
      some { tag := ['n'], params := Params.empty.insert ['k'] v } ∧
    ∀ read, (Locator.compile read (['n'] ++ '[' :: (Header.quote v ++ [']']))).map Locator.steps =
      .ok [⟨['n'], .name v⟩] := by
  refine ⟨fun w lx hlx => ?_, Header.unescape_dropEnds_quote v, Header.parse_label v,
    Header.parse_value v, fun read => Locator.compile_value read v⟩
  have hreads : lx.ReadsStrings := by
    rcases List.mem_pair.mp hlx with rfl | rfl
    · exact Header.readsStrings
    · exact Locator.readsStrings
  rw [hreads.head?_scan_quote v w, Lexer.quotedToken, Nat.zero_add]

end TaggedOutline
