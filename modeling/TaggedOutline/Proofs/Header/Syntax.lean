import Mathlib.Computability.RegularExpressions
import TaggedOutline.Proofs.Header.Spelling

/-!
# The syntax of header lines

`headerSyntax` is the syntax of headers as it is documented, a regular expression over the kinds of
tokens.  The grammar that reads headers chooses in order and repeats greedily; `parse_iff_syntax`
says that it still accepts exactly the lines of that syntax, and what it reads off them.
-/

namespace TaggedOutline

namespace Header

open RegularExpression (char)

/-! ## The documented syntax -/

/-- What may be absent. -/
def maybe (r : RegularExpression String) : RegularExpression String := 1 + r

/-- An entry: a key, perhaps with a value. -/
def entrySyntax : RegularExpression String :=
  char "word" * maybe (char "equals" * (char "word" + char "string"))

/-- Entries, with commas between them or without. -/
def entriesSyntax : RegularExpression String :=
  entrySyntax * (maybe (char "comma") * entrySyntax).star

/-- Perhaps entries, between two brackets. -/
def blockSyntax (left right : String) : RegularExpression String :=
  char left * (maybe entriesSyntax * char right)

/-- A header. -/
def headerSyntax : RegularExpression String :=
  char "word" * ((char "word").star * (maybe (blockSyntax "lparen" "rparen") *
    (maybe (blockSyntax "lbracket" "rbracket") * (maybe (char "string") *
      (maybe (char "colon" * char "word") * (maybe (char "code" + char "open_brace") *
        maybe (char "comment")))))))

/-! ## The kinds of what is spelled -/

/-- The kinds of the lexemes that spell something are the words of an expression. -/
def Forms {α : Type} (r : RegularExpression String) (spells : List Lexeme → α → Prop) : Prop :=
  ∀ ls, (∃ a, spells ls a) ↔ ls.map Prod.fst ∈ r.matches'

section Forms

variable {α β : Type} {r r' : RegularExpression String} {spells : List Lexeme → α → Prop}
  {behind : List Lexeme → β → Prop}

lemma forms_one (kind : String) : Forms (char kind) (SpellsOne kind) := by
  intro ls
  rw [RegularExpression.matches'_char]
  constructor
  · rintro ⟨t, rfl⟩
    exact rfl
  · intro h
    obtain ⟨⟨_, t⟩, rfl, rfl⟩ := List.map_eq_singleton_iff.mp h
    exact ⟨t, rfl⟩

lemma forms_maybe (h : Forms r spells) : Forms (maybe r) (SpellsMaybe spells) := by
  intro ls
  rw [maybe, RegularExpression.matches'_add, RegularExpression.matches'_epsilon, Language.mem_add,
    Language.mem_one, List.map_eq_nil_iff, ← h ls]
  constructor
  · rintro ⟨a, ha⟩
    cases ha with
    | absent => exact .inl rfl
    | present ha => exact .inr ⟨_, ha⟩
  · rintro (rfl | ⟨a, ha⟩)
    · exact ⟨none, .absent⟩
    · exact ⟨some a, .present ha⟩

lemma forms_both (h : Forms r spells) (h' : Forms r' behind) :
    Forms (r * r') (SpellsBoth spells behind) := by
  intro ls
  rw [RegularExpression.matches'_mul, Language.mem_mul]
  constructor
  · rintro ⟨m, before, after, rfl, hbefore, hafter⟩
    refine ⟨_, (h before).mp ⟨_, hbefore⟩, _, (h' after).mp ⟨_, hafter⟩, ?_⟩
    rw [List.map_append]
  · rintro ⟨_, hbefore, _, hafter, hls⟩
    obtain ⟨before, after, rfl, rfl, rfl⟩ := List.map_eq_append_iff.mp hls.symm
    obtain ⟨a, ha⟩ := (h before).mpr hbefore
    obtain ⟨b, hb⟩ := (h' after).mpr hafter
    exact ⟨(a, b), before, after, rfl, ha, hb⟩

lemma forms_each (h : Forms r spells) : Forms r.star (SpellsEach spells) := by
  intro ls
  rw [RegularExpression.matches'_star, Language.mem_kstar]
  constructor
  · rintro ⟨as, hs⟩
    induction hs with
    | nil => exact ⟨[], rfl, by simp⟩
    | cons ha _ ih =>
      obtain ⟨words, hwords, hmem⟩ := ih
      refine ⟨_ :: words, ?_, List.forall_mem_cons.mpr ⟨(h _).mp ⟨_, ha⟩, hmem⟩⟩
      rw [List.map_append, hwords, List.flatten_cons]
  · rintro ⟨words, hwords, hmem⟩
    induction words generalizing ls with
    | nil =>
      obtain rfl : ls = [] := List.map_eq_nil_iff.mp hwords
      exact ⟨[], .nil⟩
    | cons word words ih =>
      rw [List.flatten_cons] at hwords
      obtain ⟨first, more, rfl, rfl, hmore⟩ := List.map_eq_append_iff.mp hwords
      obtain ⟨hfirst, hmem⟩ := List.forall_mem_cons.mp hmem
      obtain ⟨a, ha⟩ := (h first).mpr hfirst
      obtain ⟨as, has⟩ := ih more hmore hmem
      exact ⟨a :: as, .cons ha has⟩

/-- What is spelled by either of two spellings. -/
lemma forms_either (h : Forms r spells) (h' : Forms r' behind) {γ : Type}
    (either : List Lexeme → γ → Prop)
    (heither : ∀ ls, (∃ c, either ls c) ↔ (∃ a, spells ls a) ∨ ∃ b, behind ls b) :
    Forms (r + r') either := by
  intro ls
  rw [RegularExpression.matches'_add, Language.mem_add, heither, h ls, h' ls]

lemma Forms.congr (h : Forms r spells) (hsame : ∀ ls, (∃ b, behind ls b) ↔ ∃ a, spells ls a) :
    Forms r behind := fun ls => (hsame ls).trans (h ls)

end Forms

lemma forms_value : Forms (char "equals" * (char "word" + char "string")) SpellsValue := by
  have heither := forms_either (forms_one "word") (forms_one "string")
    (fun ls t => SpellsOne "word" ls t ∨ SpellsOne "string" ls t)
    (fun ls => exists_or)
  refine (forms_both (forms_one "equals") heither).congr fun ls => ?_
  constructor
  · rintro ⟨_, ⟨sign, _⟩ | ⟨sign, _⟩⟩
    · exact ⟨(sign, _), [_], [_], rfl, rfl, .inl rfl⟩
    · exact ⟨(sign, _), [_], [_], rfl, rfl, .inr rfl⟩
  · rintro ⟨⟨sign, value⟩, _, _, rfl, rfl, rfl | rfl⟩
    · exact ⟨value, .word sign value⟩
    · exact ⟨value, .quoted sign value⟩

lemma forms_entry : Forms entrySyntax SpellsEntry := by
  refine (forms_both (forms_one "word") (forms_maybe forms_value)).congr fun ls => ?_
  constructor
  · rintro ⟨_, ⟨key, h⟩⟩
    exact ⟨(key, _), [_], _, rfl, rfl, h⟩
  · rintro ⟨⟨key, value⟩, _, _, rfl, rfl, h⟩
    exact ⟨(key, value), .mk key h⟩

lemma forms_next : Forms (maybe (char "comma") * entrySyntax) SpellsNext := by
  refine (forms_both (forms_maybe (forms_one "comma")) forms_entry).congr fun ls => ?_
  constructor
  · rintro ⟨_, ⟨hcomma, h⟩⟩
    exact ⟨(_, _), _, _, rfl, hcomma, h⟩
  · rintro ⟨⟨sign, e⟩, _, _, rfl, hcomma, h⟩
    exact ⟨e, .mk hcomma h⟩

lemma forms_entries : Forms entriesSyntax SpellsEntries := by
  refine (forms_both forms_entry (forms_each forms_next)).congr fun ls => ?_
  constructor
  · rintro ⟨_, ⟨h, hs⟩⟩
    exact ⟨(_, _), _, _, rfl, h, hs⟩
  · rintro ⟨⟨e, es⟩, _, _, rfl, h, hs⟩
    exact ⟨e :: es, .mk h hs⟩

lemma forms_block (left right : String) :
    Forms (blockSyntax left right) (SpellsBlock left right) := by
  refine (forms_both (forms_one left)
    (forms_both (forms_maybe forms_entries) (forms_one right))).congr fun ls => ?_
  constructor
  · rintro ⟨_, ⟨opening, closing, h⟩⟩
    exact ⟨(opening, _, closing), [_], _, rfl, rfl, _, _, rfl, h, rfl⟩
  · rintro ⟨⟨opening, es, closing⟩, _, _, rfl, rfl, _, _, rfl, h, rfl⟩
    exact ⟨_, .mk opening closing h⟩

lemma forms_parserName : Forms (char "colon" * char "word") SpellsParser := by
  refine (forms_both (forms_one "colon") (forms_one "word")).congr fun ls => ?_
  constructor
  · rintro ⟨_, ⟨sign, _⟩⟩
    exact ⟨(sign, _), [_], [_], rfl, rfl, rfl⟩
  · rintro ⟨⟨sign, name⟩, _, _, rfl, rfl, rfl⟩
    exact ⟨name, .mk sign name⟩

lemma forms_ending : Forms (char "code" + char "open_brace") SpellsEnding := by
  refine forms_either (forms_one "code") (forms_one "open_brace") SpellsEnding fun ls => ?_
  constructor
  · rintro ⟨_, ⟨t⟩ | ⟨sign⟩⟩
    · exact .inl ⟨t, rfl⟩
    · exact .inr ⟨sign, rfl⟩
  · rintro (⟨t, rfl⟩ | ⟨sign, rfl⟩)
    · exact ⟨_, .code t⟩
    · exact ⟨_, .opening sign⟩

lemma forms_header : Forms headerSyntax Spells := by
  have hparts : Forms headerSyntax SpellsParts :=
    forms_both (forms_one "word") <| forms_both (forms_each (forms_one "word")) <|
      forms_both (forms_maybe (forms_block "lparen" "rparen")) <|
      forms_both (forms_maybe (forms_block "lbracket" "rbracket")) <|
      forms_both (forms_maybe (forms_one "string")) <| forms_both (forms_maybe forms_parserName) <|
      forms_both (forms_maybe forms_ending) (forms_maybe (forms_one "comment"))
  refine hparts.congr fun ls => ?_
  simp only [spells_iff]
  constructor
  · rintro ⟨_, m, hm, -⟩
    exact ⟨m, hm⟩
  · rintro ⟨m, hm⟩
    exact ⟨ofParts m, m, hm, rfl⟩

/-! ## Words of an expression -/

/-- The letters of an expression. -/
def letters : RegularExpression String → List String
  | .zero => []
  | .epsilon => []
  | .char kind => [kind]
  | .plus r r' => letters r ++ letters r'
  | .comp r r' => letters r ++ letters r'
  | .star r => letters r

lemma mem_letters {r : RegularExpression String} {word : List String} (h : word ∈ r.matches')
    {kind : String} (hkind : kind ∈ word) : kind ∈ letters r := by
  induction r generalizing word with
  | zero => exact h.elim
  | epsilon =>
    obtain rfl : word = [] := h
    simp at hkind
  | char k =>
    obtain rfl : word = [k] := h
    exact hkind
  | plus r r' ih ih' =>
    rcases h with h | h
    · exact List.mem_append_left _ (ih h hkind)
    · exact List.mem_append_right _ (ih' h hkind)
  | comp r r' ih ih' =>
    obtain ⟨before, hbefore, after, hafter, rfl⟩ := Language.mem_mul.mp h
    rcases List.mem_append.mp hkind with hkind | hkind
    · exact List.mem_append_left _ (ih hbefore hkind)
    · exact List.mem_append_right _ (ih' hafter hkind)
  | star r ih =>
    obtain ⟨words, rfl, hwords⟩ := Language.mem_kstar.mp h
    obtain ⟨first, hfirst, hkind⟩ := List.mem_flatten.mp hkind
    exact ih (hwords first hfirst) hkind

/-- A kind that an expression does not use is not among those of what it forms. -/
lemma Forms.notMem {α : Type} {r : RegularExpression String} {spells : List Lexeme → α → Prop}
    (h : Forms r spells) {ls : List Lexeme} {a : α} (hs : spells ls a) (kind : String)
    (hkind : kind ∉ letters r) : kind ∉ ls.map Prod.fst :=
  fun hmem => hkind (mem_letters ((h ls).mp ⟨a, hs⟩) hmem)

/-- A header is one with an opening bracket exactly if there is a token of one. -/
lemma bracket_of_spells {ls : List Lexeme} {h : Header} (hs : Spells ls h) :
    h.bracket = true ↔ "open_brace" ∈ ls.map Prod.fst := by
  obtain ⟨hnames, hparams, hoptions, hlabel, hparser, hending, hcomment, -, -, he⟩ := hs
  have hn := (forms_each (forms_one "word")).notMem hnames "open_brace" (by decide)
  have hp := (forms_maybe (forms_block "lparen" "rparen")).notMem hparams "open_brace" (by decide)
  have ho := (forms_maybe (forms_block "lbracket" "rbracket")).notMem hoptions "open_brace"
    (by decide)
  have hl := (forms_maybe (forms_one "string")).notMem hlabel "open_brace" (by decide)
  have hs := (forms_maybe forms_parserName).notMem hparser "open_brace" (by decide)
  have hc := (forms_maybe (forms_one "comment")).notMem hcomment "open_brace" (by decide)
  simp only [List.map_cons, List.map_append, List.mem_cons, List.mem_append, hn, hp, ho, hl, hs, hc,
    false_or, or_false]
  cases hending with
  | absent =>
    obtain ⟨-, hbracket⟩ := Prod.mk.inj he
    simp [hbracket]
  | present hending =>
    obtain ⟨-, hbracket⟩ := Prod.mk.inj he
    cases hending with
    | code t => simp [hbracket]
    | opening sign => simp [hbracket]

/-! ## The entries of a block -/

lemma keys_insert (p : Params) (key value : Text) :
    (p.insert key value).keys = if key ∈ p.keys then p.keys else p.keys ++ [key] :=
  Params.keys_setEntry key value p.entries

lemma lookup_setEntry (key value other : Text) (entries : List (Text × Text)) :
    (Params.setEntry key value entries).lookup other =
      if other = key then some value else entries.lookup other := by
  induction entries with
  | nil =>
    by_cases ho : other = key
    · simp [Params.setEntry, ho]
    · simp [Params.setEntry, List.lookup_cons, beq_false_of_ne ho, ho]
  | cons e entries ih =>
    obtain ⟨k, v⟩ := e
    rw [Params.setEntry]
    by_cases hk : k = key
    · subst hk
      by_cases ho : other = k
      · simp [ho]
      · simp [ho, List.lookup_cons, beq_false_of_ne ho]
    · rw [if_neg hk, List.lookup_cons, ih, List.lookup_cons]
      by_cases ho : other = k
      · simp [ho, hk]
      · simp [beq_false_of_ne ho]

lemma ofEntries_concat (es : List Entry) (e : Entry) :
    ofEntries (es ++ [e]) = (ofEntries es).insert e.1 (e.2.getD Params.flagValue) := by
  rw [ofEntries, List.foldl_append, List.foldl_cons, List.foldl_nil, ← ofEntries]

/-- A key stands where it was written first. -/
lemma keys_ofEntries (es : List Entry) : (ofEntries es).keys = (es.map Prod.fst).eraseDups := by
  induction es using List.reverseRecOn with
  | nil => rfl
  | append_singleton es e ih =>
    rw [ofEntries_concat, keys_insert, ih, List.map_append, List.eraseDups_append]
    by_cases he : e.1 ∈ es.map Prod.fst
    · have hold : e.1 ∈ (es.map Prod.fst).eraseDups := List.mem_eraseDups.mpr he
      simp [hold, List.removeAll, he]
    · have hnew : e.1 ∉ (es.map Prod.fst).eraseDups := fun h => he (List.mem_eraseDups.mp h)
      simp [hnew, List.removeAll, he, List.eraseDups_cons]

/-- A key has the value that was written last, that of a flag if it is bare. -/
lemma get?_ofEntries (es : List Entry) (key : Text) :
    (ofEntries es).get? key = (es.reverse.lookup key).map (·.getD Params.flagValue) := by
  induction es using List.reverseRecOn with
  | nil => rfl
  | append_singleton es e ih =>
    obtain ⟨k, value⟩ := e
    rw [ofEntries_concat, List.reverse_append, List.reverse_singleton, List.singleton_append,
      List.lookup_cons, Params.get?, Params.insert, lookup_setEntry]
    by_cases hk : key = k
    · simp [hk]
    · simpa [hk, beq_false_of_ne hk, Params.get?] using ih

/-! ## Lines -/

/-- A line stands for a header exactly if the kinds of its tokens are in the documented syntax.  The
header is then the one that the tokens spell, which has an opening bracket if there is a token of
one.  Of the entries of a block the first place of a key counts, and its last value. -/
theorem parse_iff_syntax (line : Text) :
    ((∃ h, parse line = some h) ↔ ∃ tokens, lexer.visible line = .ok tokens ∧
      tokens.map Token.kind ∈ headerSyntax.matches') ∧
    (∀ h, parse line = some h ↔ ∃ tokens, lexer.visible line = .ok tokens ∧
      Spells (tokens.map Token.lexeme) h ∧
        (h.bracket = true ↔ "open_brace" ∈ tokens.map Token.kind)) ∧
    ∀ es, (ofEntries es).keys = (es.map Prod.fst).eraseDups ∧
      ∀ key, (ofEntries es).get? key = (es.reverse.lookup key).map (·.getD Params.flagValue) := by
  have hkinds : ∀ tokens : List Token,
      (tokens.map Token.lexeme).map Prod.fst = tokens.map Token.kind := fun tokens => by
    rw [List.map_map]
    rfl
  have hparse : ∀ h, parse line = some h ↔
      ∃ tokens, lexer.visible line = .ok tokens ∧ Spells (tokens.map Token.lexeme) h := by
    intro h
    rw [parse_eq_some_iff, visible_eq_lexemes]
    cases lexer.visible line with
    | error e => simp
    | ok tokens => simp
  refine ⟨?_, fun h => ?_, fun es => ⟨keys_ofEntries es, get?_ofEntries es⟩⟩
  · simp only [hparse]
    rw [exists_comm]
    refine exists_congr fun tokens => ?_
    rw [exists_and_left, forms_header, hkinds]
  · rw [hparse]
    refine exists_congr fun tokens => and_congr_right fun _ => ?_
    constructor
    · intro hs
      exact ⟨hs, by rw [bracket_of_spells hs, hkinds]⟩
    · exact And.left

end Header

end TaggedOutline
