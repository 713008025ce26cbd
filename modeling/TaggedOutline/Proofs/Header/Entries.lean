import TaggedOutline.Proofs.Header.Canonical
import TaggedOutline.Proofs.Header.Syntax

/-!
# Written lists of entries

Entries can be written in many ways: a value bare or quoted, blanks around the sign of equality, and
between entries blanks or a comma.  `WritesEntries` says which texts are some entries, rule by rule,
without lexemes.  `parse_written` is the main statement: a line with entries that are written in any
of these ways stands for a header whose parameters are the fold of the entries, each key once where
it appears first, with the value that is written last.
-/

namespace TaggedOutline

namespace Params

lemma eq_of_entries {p q : Params} (h : p.entries = q.entries) : p = q := by
  cases p
  cases q
  simpa using h

/-- Parameters are their keys with the values that are found for the keys. -/
lemma entries_eq_map {p : Params} {f : Text → Text}
    (h : ∀ key ∈ p.keys, p.get? key = some (f key)) :
    p.entries = p.keys.map fun key => (key, f key) := by
  have hmem : ∀ e ∈ p.entries, e = (e.1, f e.1) := by
    intro e he
    have hkey : e.1 ∈ p.keys := List.mem_map_of_mem he
    obtain ⟨before, behind, hentries, -⟩ := List.lookup_eq_some_iff.mp (h e.1 hkey)
    have he' : (e.1, f e.1) ∈ p.entries := by simp [hentries]
    exact List.inj_on_of_nodup_map p.nodup he he' rfl
  calc
    p.entries = p.entries.map id := (List.map_id p.entries).symm
    _ = p.entries.map fun e => (e.1, f e.1) := List.map_congr_left hmem
    _ = p.keys.map fun key => (key, f key) := by rw [keys, List.map_map, Function.comp_def]

end Params

namespace Header

/-! ## Ways to write entries -/

/-- Spaces and tabs, or nothing. -/
def IsBlanks (t : Text) : Prop := ∀ c ∈ t, Layout.isIndent c = true

instance (t : Text) : Decidable (IsBlanks t) :=
  decidable_of_iff (t.all Layout.isIndent = true) List.all_eq_true

/-- A text is a value: bare if it is a word, or quoted. -/
inductive WritesValue : Text → Text → Prop
  | bare {value : Text} (h : IsWord value) : WritesValue value value
  | quoted (value : Text) : WritesValue (quote value) value

/-- A text is an entry: a bare key, or a key with a value behind a sign of equality. -/
inductive WritesEntry : Text → Entry → Prop
  | bare {key : Text} (hkey : IsWord key) : WritesEntry key (key, none)
  | valued {key before behind t value : Text} (hkey : IsWord key) (hbefore : IsBlanks before)
      (hbehind : IsBlanks behind) (h : WritesValue t value) :
      WritesEntry (key ++ (before ++ '=' :: (behind ++ t))) (key, some value)

/-- What may stand between two entries: some blanks, or a comma with or without blanks around it. -/
inductive Separates : Text → Prop
  | blanks {gap : Text} (hgap : IsBlanks gap) (hne : gap ≠ []) : Separates gap
  | comma {before behind : Text} (hbefore : IsBlanks before) (hbehind : IsBlanks behind) :
      Separates (before ++ ',' :: behind)

/-- A text is some entries, at least one, with something between any two. -/
inductive WritesEntries : Text → List Entry → Prop
  | one {t : Text} {e : Entry} (h : WritesEntry t e) : WritesEntries t [e]
  | cons {t sep more : Text} {e : Entry} {es : List Entry} (h : WritesEntry t e)
      (hsep : Separates sep) (hs : WritesEntries more es) :
      WritesEntries (t ++ (sep ++ more)) (e :: es)

/-- A text is some entries between two brackets. -/
inductive WritesBlock (opening closing : Char) : Text → List Entry → Prop
  | mk {before t behind : Text} {es : List Entry} (hbefore : IsBlanks before)
      (h : WritesEntries t es) (hbehind : IsBlanks behind) :
      WritesBlock opening closing (opening :: (before ++ (t ++ (behind ++ [closing])))) es

/-- A text is some names, each behind a blank. -/
inductive WritesNames : Text → List Text → Prop
  | nil : WritesNames [] []
  | cons {gap name more : Text} {names : List Text} (hgap : IsBlanks gap) (hne : gap ≠ [])
      (hname : IsWord name) (hs : WritesNames more names) :
      WritesNames (gap ++ (name ++ more)) (name :: names)

/-! ## What entries amount to -/

/-- The value that is written last for a key; a bare key has that of a flag. -/
def lastValue (es : List Entry) (key : Text) : Text :=
  (es.reverse.lookup key).join.getD Params.flagValue

/-- Each key once, where it appears first, with the value that is written last. -/
def lastValues (es : List Entry) : Params where
  entries := (es.map Prod.fst).eraseDups.map fun key => (key, lastValue es key)
  nodup := by
    have hkeys : (es.map Prod.fst).eraseDups.Nodup := keys_ofEntries es ▸ (ofEntries es).nodup
    simpa [List.map_map, Function.comp_def] using hkeys

/-- The entries of a line are folded to the last values of their keys. -/
lemma ofEntries_eq_lastValues (es : List Entry) : ofEntries es = lastValues es := by
  apply Params.eq_of_entries
  have hvalue : ∀ key ∈ (ofEntries es).keys, (ofEntries es).get? key = some (lastValue es key) := by
    intro key hkey
    rw [keys_ofEntries, List.mem_eraseDups] at hkey
    rw [get?_ofEntries, lastValue]
    cases hlookup : es.reverse.lookup key with
    | none =>
      obtain ⟨e, he, rfl⟩ := List.mem_map.mp hkey
      have hne := List.lookup_eq_none_iff.mp hlookup e (List.mem_reverse.mpr he)
      simp at hne
    | some value => rfl
  rw [Params.entries_eq_map hvalue, keys_ofEntries]
  rfl

lemma entryAt?_lastValues (es : List Entry) (i : Nat) :
    (lastValues es).entryAt? i = if i = 0 then none else
      (es.map Prod.fst).eraseDups[i - 1]?.map fun key => (key, lastValue es key) := by
  cases i with
  | zero => rfl
  | succ i => simp [Params.entryAt?, lastValues]

/-! ## Blanks and ends of words -/

/-- A text does not go on with a word that stands before it. -/
def EndsWord (t : Text) : Prop := ∀ c ∈ t.head?, isWordChar c = false

lemma endsWord_cons {c : Char} (hc : isWordChar c = false) (t : Text) : EndsWord (c :: t) := by
  rintro _ ⟨⟩
  exact hc

lemma not_word_of_indent {c : Char} (hc : Layout.isIndent c = true) : isWordChar c = false := by
  cases hword : isWordChar c with
  | false => rfl
  | true => cases hc.symm.trans (not_indent_of_word hword)

lemma IsBlanks.endsWord {gap t : Text} (h : IsBlanks gap) (ht : EndsWord t) :
    EndsWord (gap ++ t) := by
  cases gap with
  | nil => exact ht
  | cons c gap => exact endsWord_cons (not_word_of_indent (h c List.mem_cons_self)) _

lemma IsBlanks.endsWord_of_ne_nil {gap : Text} (h : IsBlanks gap) (hne : gap ≠ []) (t : Text) :
    EndsWord (gap ++ t) := by
  obtain ⟨c, gap, rfl⟩ := List.exists_cons_of_ne_nil hne
  exact endsWord_cons (not_word_of_indent (h c List.mem_cons_self)) _

lemma Separates.endsWord {sep : Text} (h : Separates sep) (t : Text) : EndsWord (sep ++ t) := by
  cases h with
  | blanks hgap hne => exact hgap.endsWord_of_ne_nil hne t
  | comma hbefore hbehind =>
    rw [List.append_assoc]
    exact hbefore.endsWord (endsWord_cons (by decide) _)

/-- Blanks are no lexemes. -/
lemma Lexed.blanks {gap t : Text} {ls : List Lexeme} (h : Lexed t ls) (hgap : IsBlanks gap) :
    Lexed (gap ++ t) ls := by
  induction gap with
  | nil => exact h
  | cons c gap ih =>
    have hc : Layout.isIndent c = true := hgap c List.mem_cons_self
    exact .space hc (ih fun d hd => hgap d (List.mem_cons_of_mem c hd))

/-! ## The lexemes of written entries -/

lemma WritesValue.exists_lexed {t value : Text} (h : WritesValue t value) (sign : Text) :
    ∃ l, Lexed t [l] ∧ SpellsValue [("equals", sign), l] value := by
  cases h with
  | bare h => exact ⟨_, .of_isWord h, .word sign t⟩
  | quoted => exact ⟨_, lexed_quote value, .quoted sign value⟩

lemma WritesEntry.exists_lexed {t : Text} {e : Entry} (h : WritesEntry t e) :
    ∃ ls, Lexed t ls ∧ SpellsEntry ls e := by
  cases h with
  | bare hkey => exact ⟨_, .of_isWord hkey, .mk t .absent⟩
  | @valued key before behind t value hkey hbefore hbehind h =>
    obtain ⟨l, hlexed, hspells⟩ := h.exists_lexed ['=']
    have hsign : Lexed ('=' :: (behind ++ t)) [("equals", ['=']), l] :=
      .mark (by decide) (hlexed.blanks hbehind)
    have hall := (Lexed.of_isWord hkey).append (by simp) (hsign.blanks hbefore)
      (hbefore.endsWord (endsWord_cons (by decide) _))
    exact ⟨_, hall, .mk key (.present hspells)⟩

/-- What stands between two entries is a comma or nothing. -/
lemma Separates.exists_lexed {sep : Text} (h : Separates sep) :
    ∃ comma sign, SpellsMaybe (SpellsOne "comma") comma sign ∧
      ∀ t ls, Lexed t ls → Lexed (sep ++ t) (comma ++ ls) := by
  cases h with
  | blanks hgap hne => exact ⟨[], none, .absent, fun t ls ht => ht.blanks hgap⟩
  | @comma before behind hbefore hbehind =>
    refine ⟨[("comma", [','])], some [','], .present rfl, fun t ls ht => ?_⟩
    have hcomma : Lexed (',' :: (behind ++ t)) (("comma", [',']) :: ls) :=
      .mark (by decide) (ht.blanks hbehind)
    rw [List.append_assoc]
    exact hcomma.blanks hbefore

lemma WritesEntries.exists_lexed {t : Text} {es : List Entry} (h : WritesEntries t es) :
    ∃ ls, Lexed t ls ∧ SpellsEntries ls es := by
  induction h with
  | one h =>
    obtain ⟨ls, hlexed, hspells⟩ := h.exists_lexed
    exact ⟨ls ++ [], by rwa [List.append_nil], .mk hspells .nil⟩
  | @cons t sep more e es h hsep _ ih =>
    obtain ⟨ls, hlexed, hspells⟩ := h.exists_lexed
    obtain ⟨comma, sign, hcomma, hbehind⟩ := hsep.exists_lexed
    obtain ⟨rest, hrest, hentries⟩ := ih
    have hkinds := kinds_of_inner (inner_entry _ _ hspells)
    have hall := hlexed.append (fun l hl => (hkinds l hl).2) (hbehind _ _ hrest)
      (hsep.endsWord more)
    cases hentries with
    | mk hfirst hmore =>
      refine ⟨_, hall, ?_⟩
      rw [← List.append_assoc comma]
      exact .mk hspells (.cons (.mk hcomma hfirst) hmore)

lemma WritesBlock.exists_lexed {opening closing : Char} {left right : String} {t : Text}
    {es : List Entry} (h : WritesBlock opening closing t es)
    (hopening : marks.lookup opening = some left) (hclosing : marks.lookup closing = some right) :
    ∃ ls, Lexed t ls ∧ SpellsBlock left right ls (lastValues es) := by
  obtain ⟨hbefore, h, hbehind⟩ := h
  obtain ⟨ls, hlexed, hspells⟩ := h.exists_lexed
  have hclose : Lexed [closing] [(right, [closing])] := .mark hclosing .nil
  have hkinds := kinds_of_inner (inner_entries _ _ hspells)
  have hinner := hlexed.append (fun l hl => (hkinds l hl).2) (hclose.blanks hbehind)
    (hbehind.endsWord (endsWord_cons (not_word_of_lookup hclosing) []))
  have hblock : SpellsBlock left right ((left, [opening]) :: ls ++ [(right, [closing])])
      (ofEntries es) := .mk _ _ (.present hspells)
  rw [ofEntries_eq_lastValues] at hblock
  exact ⟨_, .mark hopening (hinner.blanks hbefore), hblock⟩

lemma WritesNames.exists_lexed {t : Text} {names : List Text} (h : WritesNames t names) :
    ∃ ls, SpellsEach (SpellsOne "word") ls names ∧ ∀ rest ms, Lexed rest ms → EndsWord rest →
      Lexed (t ++ rest) (ls ++ ms) ∧ EndsWord (t ++ rest) := by
  induction h with
  | nil => exact ⟨[], .nil, fun rest ms hrest hends => ⟨hrest, hends⟩⟩
  | @cons gap name more names hgap hne hname _ ih =>
    obtain ⟨ls, hspells, hmore⟩ := ih
    refine ⟨[("word", name)] ++ ls, .cons rfl hspells, fun rest ms hrest hends => ?_⟩
    obtain ⟨hlexed, hstop⟩ := hmore rest ms hrest hends
    have hfirst := (Lexed.of_isWord hname).append (by simp) hlexed hstop
    rw [List.append_assoc, List.append_assoc, List.append_assoc]
    exact ⟨hfirst.blanks hgap, hgap.endsWord_of_ne_nil hne _⟩

/-! ## Lines -/

/-- A line with written entries stands for a header with the fold of the entries: each key is there
once, in the order of the first appearances, with the value that is written last, that of a flag if
it is bare there.  The entry at a place is found by counting from one, and there is none at zero. -/
theorem parse_written {tag written gap params gap' options : Text} {names : List Text}
    {es es' : List Entry} (htag : IsWord tag) (hnames : WritesNames written names)
    (hgap : IsBlanks gap) (hparams : WritesBlock '(' ')' params es) (hgap' : IsBlanks gap')
    (hoptions : WritesBlock '[' ']' options es') :
    parse (tag ++ (written ++ (gap ++ (params ++ (gap' ++ options))))) =
      some { tag, names, params := lastValues es, options := lastValues es' } ∧
    ∀ p ∈ [es, es'], ∀ i, (lastValues p).entryAt? i = if i = 0 then none else
      (p.map Prod.fst).eraseDups[i - 1]?.map fun key => (key, lastValue p key) := by
  refine ⟨?_, fun p _ i => entryAt?_lastValues p i⟩
  obtain ⟨ns, hnames, hbefore⟩ := hnames.exists_lexed
  have hround : ∃ ls, Lexed params ls ∧ SpellsBlock "lparen" "rparen" ls (lastValues es) :=
    hparams.exists_lexed (by decide) (by decide)
  have hsquare : ∃ ls, Lexed options ls ∧ SpellsBlock "lbracket" "rbracket" ls (lastValues es') :=
    hoptions.exists_lexed (by decide) (by decide)
  obtain ⟨ps, hparamsLexed, hparamsSpells⟩ := hround
  obtain ⟨os, hoptionsLexed, hoptionsSpells⟩ := hsquare
  have hstop : EndsWord options := by
    cases hoptions
    exact endsWord_cons (by decide) _
  have hstop' : EndsWord (params ++ (gap' ++ options)) := by
    cases hparams
    exact endsWord_cons (by decide) _
  have hkinds := kinds_of_inner (inner_block (by decide) (by decide) _ _ hparamsSpells)
  have hblocks := hparamsLexed.append (fun l hl => (hkinds l hl).2) (hoptionsLexed.blanks hgap')
    (hgap'.endsWord hstop)
  obtain ⟨hrest, hends⟩ := hbefore _ _ (hblocks.blanks hgap) (hgap.endsWord hstop')
  have hline := (Lexed.of_isWord htag).append (by simp) hrest hends
  rw [parse_eq_some_iff]
  refine ⟨_, lexemes_eq_some_iff.mpr hline, ?_⟩
  rw [← List.append_nil os]
  exact .mk (h := { tag, names, params := lastValues es, options := lastValues es' }) hnames
    (.present hparamsSpells) (.present hoptionsSpells) .absent .absent .absent .absent rfl rfl rfl

/-- The line `n x (a = b , c d="" a)[c]`, with the key `a` twice. -/
theorem parse_written_repeated_key :
    parse ("n x (a = b , c d=\"\" a)[c]".toList) = some
      { tag := ['n'], names := [['x']],
        params := lastValues [(['a'], some ['b']), (['c'], none), (['d'], some []), (['a'], none)],
        options := lastValues [(['c'], none)] } ∧
    (lastValues [(['a'], some ['b']), (['c'], none), (['d'], some []), (['a'], none)]).entries =
      [(['a'], "yes".toList), (['c'], "yes".toList), (['d'], [])] := by
  have hspace : IsBlanks [' '] := by decide
  have hnone : IsBlanks [] := by decide
  have ha : IsWord ['a'] := by decide
  have hb : IsWord ['b'] := by decide
  have hc : IsWord ['c'] := by decide
  have hd : IsWord ['d'] := by decide
  have hn : IsWord ['n'] := by decide
  have hx : IsWord ['x'] := by decide
  have hfirst : WritesEntry ("a = b".toList) (['a'], some ['b']) :=
    .valued ha hspace hspace (.bare hb)
  have hquoted : WritesEntry ("d=\"\"".toList) (['d'], some []) :=
    .valued hd hnone hnone (.quoted [])
  have hblanks : Separates [' '] := .blanks hspace (by simp)
  have hcomma : Separates ([' '] ++ ',' :: [' ']) := .comma hspace hspace
  have hentries : WritesEntries ("a = b , c d=\"\" a".toList)
      [(['a'], some ['b']), (['c'], none), (['d'], some []), (['a'], none)] :=
    .cons hfirst hcomma (.cons (.bare hc) hblanks (.cons hquoted hblanks (.one (.bare ha))))
  have hnames : WritesNames ([' '] ++ (['x'] ++ [])) [['x']] :=
    .cons hspace (by simp) hx .nil
  have hoptions : WritesEntries ['c'] [(['c'], none)] := .one (.bare hc)
  exact ⟨(parse_written hn hnames hspace (.mk hnone hentries hnone) hnone
    (.mk hnone hoptions hnone)).1, by decide⟩

end Header

end TaggedOutline
