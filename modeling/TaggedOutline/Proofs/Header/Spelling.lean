import TaggedOutline.Proofs.Header.Grammar
import TaggedOutline.Proofs.Header.Lexemes

/-!
# The spelling of header lines

`Spells` says which lexemes a header may be written with, part by part and without a grammar.
`parse_eq_some_iff` is the main statement: a line stands for a header exactly if its lexemes spell
the header.
-/

namespace TaggedOutline

namespace Header

open Reading

/-! ## Spellings -/

/-- An entry: a key, with a value or without. -/
abbrev Entry := Text × Option Text

/-- The value of an entry, behind its sign. -/
inductive SpellsValue : List Lexeme → Text → Prop
  | word (sign value : Text) : SpellsValue [("equals", sign), ("word", value)] value
  | quoted (sign value : Text) : SpellsValue [("equals", sign), ("string", value)] value

/-- A key with or without a value. -/
inductive SpellsEntry : List Lexeme → Entry → Prop
  | mk {ls : List Lexeme} {value : Option Text} (key : Text)
      (h : SpellsMaybe SpellsValue ls value) :
      SpellsEntry (("word", key) :: ls) (key, value)

/-- An entry behind another one, with a comma between them or without. -/
inductive SpellsNext : List Lexeme → Entry → Prop
  | mk {comma ls : List Lexeme} {sign : Option Text} {e : Entry}
      (hcomma : SpellsMaybe (SpellsOne "comma") comma sign) (h : SpellsEntry ls e) :
      SpellsNext (comma ++ ls) e

/-- At least one entry. -/
inductive SpellsEntries : List Lexeme → List Entry → Prop
  | mk {ls more : List Lexeme} {e : Entry} {es : List Entry} (h : SpellsEntry ls e)
      (hs : SpellsEach SpellsNext more es) : SpellsEntries (ls ++ more) (e :: es)

/-- The parameters that come of entries; a bare key is a flag. -/
def ofEntries (es : List Entry) : Params :=
  es.foldl (fun p e => p.insert e.1 (e.2.getD Params.flagValue)) .empty

/-- A list of entries between two brackets. -/
inductive SpellsBlock (left right : String) : List Lexeme → Params → Prop
  | mk {ls : List Lexeme} {es : Option (List Entry)} (opening closing : Text)
      (h : SpellsMaybe SpellsEntries ls es) :
      SpellsBlock left right ((left, opening) :: ls ++ [(right, closing)]) (ofEntries (es.getD []))

/-- The name of a sublanguage behind a colon. -/
inductive SpellsParser : List Lexeme → Text → Prop
  | mk (sign name : Text) : SpellsParser [("colon", sign), ("word", name)] name

/-- How a header ends: with code, or with an opening bracket. -/
inductive SpellsEnding : List Lexeme → Option Text × Bool → Prop
  | code (t : Text) : SpellsEnding [("code", t)] (some t, false)
  | opening (sign : Text) : SpellsEnding [("open_brace", sign)] (none, true)

/-- A whole header. -/
inductive Spells : List Lexeme → Header → Prop
  | mk {names params options label parser ending comment : List Lexeme} {h : Header}
      {params? options? : Option Params} {ending? : Option (Option Text × Bool)}
      (hnames : SpellsEach (SpellsOne "word") names h.names)
      (hparams : SpellsMaybe (SpellsBlock "lparen" "rparen") params params?)
      (hoptions : SpellsMaybe (SpellsBlock "lbracket" "rbracket") options options?)
      (hlabel : SpellsMaybe (SpellsOne "string") label h.label)
      (hparser : SpellsMaybe SpellsParser parser h.parser)
      (hending : SpellsMaybe SpellsEnding ending ending?)
      (hcomment : SpellsMaybe (SpellsOne "comment") comment h.comment)
      (hp : h.params = params?.getD .empty) (ho : h.options = options?.getD .empty)
      (he : (h.inlineCode, h.bracket) = ending?.getD (none, false)) :
      Spells (("word", h.tag) ::
        (names ++ (params ++ (options ++ (label ++ (parser ++ (ending ++ comment))))))) h

/-! ## Looking up results -/

section Find

variable (name r : String) (t : ParseTree) (ts : List ParseTree) (token : Token)

@[simp] lemma find?_empty : ParseTree.find? name .empty = none := rfl

@[simp] lemma find?_token : ParseTree.find? name (.token token) = none := rfl

@[simp] lemma find?_rule :
    ParseTree.find? name (.rule r t) = if r = name then some (.rule r t) else t.find? name := rfl

@[simp] lemma find?_list : ParseTree.find? name (.list ts) = ParseTree.findIn? name ts := rfl

@[simp] lemma findIn?_nil : ParseTree.findIn? name [] = none := rfl

@[simp] lemma findIn?_cons :
    ParseTree.findIn? name (t :: ts) = (t.find? name).or (ParseTree.findIn? name ts) := by
  rw [ParseTree.findIn?]
  cases t.find? name <;> rfl

@[simp] lemma findAll_empty : ParseTree.findAll name .empty = [] := rfl

@[simp] lemma findAll_token : ParseTree.findAll name (.token token) = [] := rfl

@[simp] lemma findAll_rule :
    ParseTree.findAll name (.rule r t) = if r = name then [.rule r t] else t.findAll name := rfl

@[simp] lemma findAll_list :
    ParseTree.findAll name (.list ts) = ParseTree.findAllIn name ts := rfl

@[simp] lemma findAllIn_nil : ParseTree.findAllIn name [] = [] := rfl

@[simp] lemma findAllIn_cons : ParseTree.findAllIn name (t :: ts) =
    t.findAll name ++ ParseTree.findAllIn name ts := rfl

end Find

/-- A tree has results of no other rules than some. -/
def Only (names : List String) (v : ParseTree) : Prop := ∀ name, name ∉ names → v.find? name = none

/-! ## What the rules give -/

/-- The names of the rules that an entry uses. -/
def entryNames : List String := ["entry", "key", "value"]

lemma begins_value : Begins ["equals"] SpellsValue := by
  rintro _ _ (⟨sign, value⟩ | ⟨sign, value⟩) <;> exact ⟨_, rfl, by simp⟩

lemma begins_entry : Begins ["word"] SpellsEntry := by
  rintro _ _ ⟨key, -⟩
  exact ⟨_, rfl, by simp⟩

/-- The tree of a value behind its sign. -/
def TellsValue (v : ParseTree) (value : Text) : Prop :=
  ∃ sign token, v = .list [.token sign, .rule "value" (.token token)] ∧ token.text = value

lemma begins_either : Begins ["word", "string"]
    (fun ls t => SpellsOne "word" ls t ∨ SpellsOne "string" ls t) := by
  rintro _ t (rfl | rfl)
  · exact ⟨_, rfl, by simp⟩
  · exact ⟨_, rfl, by simp⟩

lemma gives_value : Gives SpellsValue TellsValue []
    (seq [token "equals", named "value" (choice [token "word", token "string"])]) := by
  have hvalue := ((gives_token "word").choice (gives_token "string") (begins_one _) (begins_one _)
    (by simp)).named (by rintro v t ⟨token, rfl, -⟩; rfl) "value"
  have hset := ((gives_token "equals").cons_begins hvalue.last begins_either (by simp)).seq
  refine hset.map Prod.snd ?_ ?_
  · intro ls value
    constructor
    · rintro (⟨sign, value⟩ | ⟨sign, value⟩)
      · exact ⟨(sign, value), ⟨[_], [_], rfl, rfl, .inl rfl⟩, rfl⟩
      · exact ⟨(sign, value), ⟨[_], [_], rfl, rfl, .inr rfl⟩, rfl⟩
    · rintro ⟨⟨sign, value⟩, ⟨_, _, rfl, rfl, rfl | rfl⟩, rfl⟩
      · exact .word sign value
      · exact .quoted sign value
  · rintro _ ⟨sign, value⟩ ⟨_, rfl, v, _, rfl, ⟨s, rfl, -⟩, _, rfl, _, rfl, t, rfl, ht⟩
    exact ⟨s, t, rfl, ht⟩

/-- The result of the rule of entries. -/
structure TellsEntry (v : ParseTree) (e : Entry) : Prop where
  nonempty : v.isEmpty = false
  all : v.findAll "entry" = [v]
  key : v.textOf? "key" = some e.1
  value : v.textOf? "value" = e.2
  only : Only entryNames v

lemma tellsEntry {value? : ParseTree} {e : Entry} {t : Token} (ht : t.text = e.1)
    (h : TellsMaybe TellsValue value? e.2) :
    TellsEntry (.rule "entry" (.list [.rule "key" (.token t), value?])) e := by
  obtain ⟨_, value⟩ := e
  obtain rfl := ht
  cases value with
  | none =>
    obtain rfl := h
    refine ⟨rfl, rfl, rfl, rfl, ?_⟩
    intro name hname
    simp only [entryNames, List.mem_cons, List.not_mem_nil, or_false, not_or] at hname
    simp [eq_comm, hname]
  | some value =>
    obtain ⟨s, t', rfl, rfl⟩ := h
    refine ⟨rfl, rfl, rfl, rfl, ?_⟩
    intro name hname
    simp only [entryNames, List.mem_cons, List.not_mem_nil, or_false, not_or] at hname
    simp [eq_comm, hname]

lemma gives_entry : Gives SpellsEntry TellsEntry ["equals"] entryReading := by
  have hkey := (gives_token "word").named (by rintro v t ⟨token, rfl, -⟩; rfl) "key"
  have hparts := hkey.cons_leads (gives_value.optional begins_value).last
    (leads_maybe begins_value) (by simp)
  refine (hparts.seq.named ?_ "entry").map id ?_ ?_
  · rintro _ ⟨key, value⟩ ⟨_, rfl, _, _, rfl, ⟨_, rfl, t, rfl, ht⟩, v, rfl, hv⟩
    rfl
  · intro ls e
    constructor
    · rintro ⟨key, h⟩
      exact ⟨(key, _), ⟨[("word", key)], _, rfl, rfl, h⟩, rfl⟩
    · rintro ⟨⟨key, value⟩, ⟨_, _, rfl, rfl, h⟩, rfl⟩
      exact .mk key h
  · rintro _ ⟨key, value⟩ ⟨_, rfl, _, rfl, _, _, rfl, ⟨_, rfl, t, rfl, ht⟩, v, rfl, hv⟩
    exact tellsEntry (e := (key, value)) ht hv

lemma begins_next : Begins ["comma", "word"] SpellsNext := by
  rintro _ e ⟨hcomma, h⟩
  obtain ⟨l, hl, hkind⟩ := begins_entry _ _ h
  cases hcomma with
  | absent => exact ⟨l, hl, List.mem_cons_of_mem _ hkind⟩
  | present hcomma =>
    obtain rfl := hcomma
    exact ⟨_, rfl, by simp⟩

/-- A tree with one entry. -/
structure TellsNext (v : ParseTree) (e : Entry) : Prop where
  all : ∃ w, v.findAll "entry" = [w] ∧ TellsEntry w e
  only : Only entryNames v

lemma gives_next :
    Gives SpellsNext TellsNext ["equals"] (seq [optional (token "comma"), entryReading]) := by
  have hparts := ((gives_token "comma").optional (begins_one _)).cons_begins gives_entry.last
    begins_entry (by simp)
  refine hparts.seq.map Prod.snd ?_ ?_
  · intro ls e
    constructor
    · rintro ⟨hcomma, h⟩
      exact ⟨(_, e), ⟨_, _, rfl, hcomma, h⟩, rfl⟩
    · rintro ⟨⟨sign, e⟩, ⟨_, _, rfl, hcomma, h⟩, rfl⟩
      exact .mk hcomma h
  · rintro _ ⟨sign, e⟩ ⟨_, rfl, comma, _, rfl, hcomma, v, rfl, hv⟩
    have hnone : (∀ name, comma.find? name = none) ∧ comma.findAll "entry" = [] := by
      cases sign with
      | none =>
        obtain rfl := hcomma
        exact ⟨fun _ => rfl, rfl⟩
      | some sign =>
        obtain ⟨t, rfl, -⟩ := hcomma
        exact ⟨fun _ => rfl, rfl⟩
    refine ⟨⟨v, by simp [hnone.2, hv.all], hv⟩, fun name hname => ?_⟩
    simp [hnone.1, hv.only name hname]

/-- The names of the rules that a list of entries uses. -/
def listNames : List String := "entries" :: entryNames

/-- A tree with entries. -/
structure TellsEntries (v : ParseTree) (es : List Entry) : Prop where
  nonempty : v.isEmpty = false
  all : List.Forall₂ TellsEntry (v.findAll "entry") es
  only : Only listNames v

lemma findAllIn_of_tellsNext {vs : List ParseTree} {es : List Entry}
    (h : List.Forall₂ TellsNext vs es) :
    List.Forall₂ TellsEntry (ParseTree.findAllIn "entry" vs) es ∧
      ∀ name, name ∉ entryNames → ParseTree.findIn? name vs = none := by
  induction h with
  | nil => exact ⟨.nil, fun _ _ => rfl⟩
  | cons hv _ ih =>
    obtain ⟨w, hw, hentry⟩ := hv.all
    refine ⟨?_, fun name hname => ?_⟩
    · rw [findAllIn_cons, hw]
      exact .cons hentry ih.1
    · simp [hv.only name hname, ih.2 name hname]

lemma begins_entries : Begins ["word"] SpellsEntries := by
  rintro _ _ ⟨h, -⟩
  obtain ⟨key, -⟩ := h
  exact ⟨_, rfl, by simp⟩

lemma gives_entries : Gives SpellsEntries TellsEntries ["equals", "comma", "word", "equals"]
    entriesReading := by
  have hmore := gives_next.many begins_next (by simp)
  have hparts := gives_entry.cons_leads hmore.last (leads_each begins_next) (by simp)
  have htells : ∀ v (m : Entry × List Entry),
      TellsNamed "entries"
        (TellsList (TellsBoth TellsEntry (TellsLast (TellsEach TellsNext)))) v m →
        TellsEntries v (m.1 :: m.2) := by
    rintro _ ⟨e, es⟩ ⟨_, rfl, _, rfl, v, _, rfl, hv, _, rfl, vs, rfl, hvs⟩
    obtain ⟨hall, honly⟩ := findAllIn_of_tellsNext hvs
    refine ⟨by simp [ParseTree.isEmpty, ParseTree.areEmpty, hv.nonempty], ?_, fun name hname => ?_⟩
    · simpa [hv.all] using And.intro hv hall
    · simp only [listNames, List.mem_cons, not_or] at hname
      simp [eq_comm, hname.1, hv.only name hname.2, honly name hname.2]
  refine (hparts.seq.named ?_ "entries").map (fun m => m.1 :: m.2) ?_ htells
  · rintro _ ⟨e, es⟩ ⟨_, rfl, v, _, rfl, hv, -⟩
    simp [ParseTree.isEmpty, ParseTree.areEmpty, hv.nonempty]
  · intro ls es
    constructor
    · rintro ⟨h, hs⟩
      exact ⟨(_, _), ⟨_, _, rfl, h, hs⟩, rfl⟩
    · rintro ⟨⟨e, es⟩, ⟨_, _, rfl, h, hs⟩, rfl⟩
      exact .mk h hs

/-- A tree with a list between brackets. -/
structure TellsBlock (name : String) (v : ParseTree) (p : Params) : Prop where
  found : v.find? name = some v
  decoded : decodeEntries v = p
  only : Only (name :: listNames) v

lemma decodeEntries_eq {v : ParseTree} {es : List Entry}
    (h : List.Forall₂ TellsEntry (v.findAll "entry") es) : decodeEntries v = ofEntries es := by
  rw [decodeEntries, ofEntries]
  generalize Params.empty = p
  generalize v.findAll "entry" = vs at h
  induction h generalizing p with
  | nil => rfl
  | @cons v e vs es hv _ ih =>
    rw [List.foldl_cons, List.foldl_cons, hv.key, hv.value, ih]
    obtain ⟨key, value⟩ := e
    cases value <;> rfl

lemma gives_block (name left right : String) (hname : name ∉ listNames)
    (hright : right ∉ ["word", "equals", "comma"]) :
    Gives (SpellsBlock left right) (TellsBlock name) [] (blockReading name left right) := by
  have hkinds : ∀ kind ∈ [right], kind ∉ ["word"] ++ ["equals", "comma", "word", "equals"] := by
    simp only [List.mem_cons, List.not_mem_nil, or_false, not_or] at hright
    simp [hright]
  have hparts := (gives_token left).cons_free
    ((gives_entries.optional begins_entries).cons_begins (gives_token right).last
      (begins_one right) hkinds)
  refine (hparts.seq.named ?_ name).map (fun m => ofEntries (m.2.1.getD [])) ?_ ?_
  · rintro _ _ ⟨_, rfl, _, _, rfl, ⟨t, rfl, -⟩, -⟩
    rfl
  · intro ls p
    constructor
    · rintro ⟨opening, closing, h⟩
      exact ⟨(opening, _, closing), ⟨[_], _, rfl, rfl, _, _, rfl, h, rfl⟩, rfl⟩
    · rintro ⟨⟨opening, es, closing⟩, ⟨_, _, rfl, rfl, ls, _, rfl, h, rfl⟩, rfl⟩
      exact .mk opening closing h
  · rintro _ ⟨opening, es, closing⟩
      ⟨_, rfl, _, rfl, _, _, rfl, ⟨s, rfl, -⟩, v, _, rfl, hv, _, rfl, t, rfl, -⟩
    have hlist : List.Forall₂ TellsEntry (v.findAll "entry") (es.getD []) ∧ Only listNames v := by
      cases es with
      | none =>
        obtain rfl := hv
        exact ⟨.nil, fun _ _ => rfl⟩
      | some es => exact ⟨hv.all, hv.only⟩
    have hne : name ≠ "entry" := fun he => hname (by simp [he, listNames, entryNames])
    refine ⟨by simp, decodeEntries_eq (by simpa [hne] using hlist.1), fun other hother => ?_⟩
    simp only [List.mem_cons, not_or] at hother
    simp [Ne.symm hother.1, hlist.2 other hother.2]

/-- A tree whose result of a rule has a text. -/
structure TellsText (rule : String) (names : List String) (v : ParseTree) (t : Text) : Prop where
  nonempty : v.isEmpty = false
  text : v.textOf? rule = some t
  only : Only names v

lemma gives_text (name kind : String) :
    Gives (SpellsOne kind) (TellsText name [name]) [] (named name (token kind)) := by
  refine ((gives_token kind).named (by rintro v t ⟨token, rfl, -⟩; rfl) name).map id (by simp) ?_
  rintro _ t ⟨_, rfl, token, rfl, ht⟩
  refine ⟨rfl, ?_, fun other hother => ?_⟩
  · simp [ParseTree.textOf?, ParseTree.text?, ParseTree.texts, ParseTree.tokens, ht]
  · simp only [List.mem_singleton] at hother
    simp [Ne.symm hother]

lemma gives_parserName : Gives SpellsParser (TellsText "parser_name" ["parser", "parser_name"]) []
    (named "parser" (seq [token "colon", named "parser_name" (token "word")])) := by
  have hparts := (gives_token "colon").cons_free (gives_text "parser_name" "word").last
  refine (hparts.seq.named ?_ "parser").map Prod.snd ?_ ?_
  · rintro _ _ ⟨_, rfl, _, _, rfl, ⟨t, rfl, -⟩, -⟩
    rfl
  · intro ls name
    constructor
    · rintro ⟨sign, name⟩
      exact ⟨(sign, name), ⟨[_], [_], rfl, rfl, rfl⟩, rfl⟩
    · rintro ⟨⟨sign, name⟩, ⟨_, _, rfl, rfl, rfl⟩, rfl⟩
      exact .mk sign name
  · rintro _ ⟨sign, name⟩ ⟨_, rfl, _, rfl, _, _, rfl, ⟨s, rfl, -⟩, v, rfl, hv⟩
    refine ⟨rfl, ?_, fun other hother => ?_⟩
    · simpa [ParseTree.textOf?] using hv.text
    · simp only [List.mem_cons, List.not_mem_nil, or_false, not_or] at hother
      simp [Ne.symm hother.1, hv.only other (by simpa using hother.2)]

/-- A tree that ends a header. -/
structure TellsEnding (v : ParseTree) (m : Option Text × Bool) : Prop where
  code : v.textOf? "code" = m.1
  bracket : (v.find? "open").isSome = m.2
  only : Only ["code", "open"] v

lemma gives_ending : Gives SpellsEnding TellsEnding []
    (choice [named "code" (token "code"), named "open" (token "open_brace")]) := by
  have htoken : ∀ name kind, Gives (SpellsOne kind) (TellsNamed name TellsOne) []
      (named name (token kind)) := fun name kind =>
    (gives_token kind).named (by rintro v t ⟨token, rfl, -⟩; rfl) name
  have hcode : Gives (fun ls m => ∃ t, SpellsOne "code" ls t ∧ m = (some t, false)) TellsEnding []
      (named "code" (token "code")) := by
    refine (htoken "code" "code").map (fun t => (some t, false)) (by simp [eq_comm]) ?_
    rintro _ t ⟨_, rfl, token, rfl, rfl⟩
    refine ⟨rfl, rfl, fun other hother => ?_⟩
    simp only [List.mem_cons, List.not_mem_nil, or_false, not_or] at hother
    simp [Ne.symm hother.1]
  have hopen : Gives (fun ls m => ∃ t, SpellsOne "open_brace" ls t ∧ m = (none, true))
      TellsEnding [] (named "open" (token "open_brace")) := by
    refine (htoken "open" "open_brace").map (fun _ => (none, true)) (by simp [eq_comm]) ?_
    rintro _ t ⟨_, rfl, token, rfl, rfl⟩
    refine ⟨rfl, rfl, fun other hother => ?_⟩
    simp only [List.mem_cons, List.not_mem_nil, or_false, not_or] at hother
    simp [Ne.symm hother.2]
  have hbegins : Begins ["code"]
      (fun ls (m : Option Text × Bool) => ∃ t, SpellsOne "code" ls t ∧ m = (some t, false)) := by
    rintro _ _ ⟨t, rfl, -⟩
    exact ⟨_, rfl, by simp⟩
  have hbegins' : Begins ["open_brace"]
      (fun ls (m : Option Text × Bool) => ∃ t, SpellsOne "open_brace" ls t ∧ m = (none, true)) := by
    rintro _ _ ⟨t, rfl, -⟩
    exact ⟨_, rfl, by simp⟩
  refine (hcode.choice hopen hbegins hbegins' (by simp)).map id ?_ fun _ _ h => h
  intro ls m
  constructor
  · rintro (⟨t⟩ | ⟨t⟩)
    · exact ⟨_, .inl ⟨t, rfl, rfl⟩, rfl⟩
    · exact ⟨_, .inr ⟨t, rfl, rfl⟩, rfl⟩
  · rintro ⟨_, ⟨t, rfl, rfl⟩ | ⟨t, rfl, rfl⟩, rfl⟩
    · exact .code t
    · exact .opening t

/-- A tree with further names. -/
structure TellsNames (v : ParseTree) (names : List Text) : Prop where
  texts : ((v.find? "names").map ParseTree.texts).getD [] = names
  only : Only ["names"] v

lemma tokensOf_of_tellsOne {vs : List ParseTree} {names : List Text}
    (h : List.Forall₂ TellsOne vs names) :
    (ParseTree.tokensOf vs).map Token.text = names ∧ ParseTree.areEmpty vs = names.isEmpty ∧
      ∀ name, ParseTree.findIn? name vs = none := by
  induction h with
  | nil => exact ⟨rfl, rfl, fun _ => rfl⟩
  | cons hv _ ih =>
    obtain ⟨token, rfl, rfl⟩ := hv
    refine ⟨?_, rfl, fun name => ?_⟩
    · simp [ParseTree.tokensOf, ParseTree.tokens, ih.1]
    · simp [ih.2.2 name]

lemma gives_names : Gives (SpellsEach (SpellsOne "word")) TellsNames ["word"]
    (named "names" (many (token "word"))) := by
  refine (((gives_token "word").many (begins_one _) (by simp)).maybe_named "names").map id
    (by simp) ?_
  rintro _ names ⟨_, ⟨vs, rfl, hvs⟩, rfl⟩
  obtain ⟨htexts, hempty, hnone⟩ := tokensOf_of_tellsOne hvs
  simp only [ParseTree.isEmpty, hempty, id_eq]
  cases names with
  | nil => exact ⟨rfl, fun _ _ => rfl⟩
  | cons name names =>
    refine ⟨?_, fun other hother => ?_⟩
    · simp [ParseTree.texts, ParseTree.tokens, htexts]
    · simp only [List.mem_singleton] at hother
      simp [Ne.symm hother, hnone]

/-! ## Whole lines -/

/-- The values of the parts of a header, in their order. -/
abbrev Parts :=
  Text × List Text × Option Params × Option Params × Option Text × Option Text ×
    Option (Option Text × Bool) × Option Text

/-- The header with some parts. -/
def ofParts : Parts → Header
  | (tag, names, params, options, label, parser, ending, comment) =>
    { tag, names, params := params.getD .empty, options := options.getD .empty, label, parser
      inlineCode := (ending.getD (none, false)).1
      bracket := (ending.getD (none, false)).2
      comment }

/-- The spelling of the parts of a header. -/
abbrev SpellsParts : List Lexeme → Parts → Prop :=
  SpellsBoth (SpellsOne "word") <| SpellsBoth (SpellsEach (SpellsOne "word")) <|
    SpellsBoth (SpellsMaybe (SpellsBlock "lparen" "rparen")) <|
    SpellsBoth (SpellsMaybe (SpellsBlock "lbracket" "rbracket")) <|
    SpellsBoth (SpellsMaybe (SpellsOne "string")) <| SpellsBoth (SpellsMaybe SpellsParser) <|
    SpellsBoth (SpellsMaybe SpellsEnding) (SpellsMaybe (SpellsOne "comment"))

/-- The trees of the parts of a header. -/
abbrev TellsParts : List ParseTree → Parts → Prop :=
  TellsBoth (TellsText "tag" ["tag"]) <| TellsBoth TellsNames <|
    TellsBoth (TellsMaybe (TellsBlock "params")) <| TellsBoth (TellsMaybe (TellsBlock "options")) <|
    TellsBoth (TellsMaybe (TellsText "label" ["label"])) <|
    TellsBoth (TellsMaybe (TellsText "parser_name" ["parser", "parser_name"])) <|
    TellsBoth (TellsMaybe TellsEnding) <| TellsLast (TellsMaybe (TellsText "comment" ["comment"]))

lemma spells_iff {ls : List Lexeme} {h : Header} :
    Spells ls h ↔ ∃ m, SpellsParts ls m ∧ ofParts m = h := by
  constructor
  · rintro ⟨hnames, hparams, hoptions, hlabel, hparser, hending, hcomment, hp, ho, he⟩
    refine ⟨(h.tag, h.names, _, _, h.label, h.parser, _, h.comment), ⟨[_], _, rfl, rfl, _, _, rfl,
      hnames, _, _, rfl, hparams, _, _, rfl, hoptions, _, _, rfl, hlabel, _, _, rfl, hparser, _, _,
      rfl, hending, hcomment⟩, ?_⟩
    simp only [ofParts, ← hp, ← ho, ← he]
  · rintro ⟨⟨tag, names, params, options, label, parser, ending, comment⟩, ⟨_, _, rfl, rfl, _, _,
      rfl, hnames, _, _, rfl, hparams, _, _, rfl, hoptions, _, _, rfl, hlabel, _, _, rfl, hparser,
      _, _, rfl, hending, hcomment⟩, rfl⟩
    have hspells := Spells.mk (h := ofParts (tag, names, params, options, label, parser, ending,
      comment)) hnames hparams hoptions hlabel hparser hending hcomment rfl rfl rfl
    exact hspells

lemma begins_block (left right : String) : Begins [left] (SpellsBlock left right) := by
  rintro _ _ ⟨opening, closing, -⟩
  exact ⟨_, rfl, by simp⟩

lemma begins_parserName : Begins ["colon"] SpellsParser := by
  rintro _ _ ⟨sign, name⟩
  exact ⟨_, rfl, by simp⟩

lemma begins_ending : Begins ["code", "open_brace"] SpellsEnding := by
  rintro _ _ (⟨t⟩ | ⟨sign⟩)
  · exact ⟨_, rfl, by simp⟩
  · exact ⟨_, rfl, by simp⟩

/-- The readings of the parts of a line. -/
def partReadings : List Reading :=
  [named "tag" (token "word"), named "names" (many (token "word")),
    optional (blockReading "params" "lparen" "rparen"),
    optional (blockReading "options" "lbracket" "rbracket"),
    optional (named "label" (token "string")),
    optional (named "parser" (seq [token "colon", named "parser_name" (token "word")])),
    optional (choice [named "code" (token "code"), named "open" (token "open_brace")]),
    optional (named "comment" (token "comment"))]

lemma gives_parts : ∃ stops, GivesAll SpellsParts TellsParts stops partReadings := by
  have hcomment := ((gives_text "comment" "comment").optional (begins_one _)).last
  have lcomment := leads_maybe (begins_one "comment")
  have hending := (gives_ending.optional begins_ending).cons_leads hcomment lcomment (by simp)
  have lending := leads_both (leads_maybe begins_ending) lcomment
  have hparser := (gives_parserName.optional begins_parserName).cons_leads hending lending (by simp)
  have lparser := leads_both (leads_maybe begins_parserName) lending
  have hlabel := ((gives_text "label" "string").optional (begins_one _)).cons_leads hparser lparser
    (by simp)
  have llabel := leads_both (leads_maybe (begins_one "string")) lparser
  have hoptions := ((gives_block "options" "lbracket" "rbracket"
    (by simp [listNames, entryNames]) (by simp)).optional (begins_block _ _)).cons_leads hlabel
      llabel (by simp)
  have loptions := leads_both (leads_maybe (begins_block "lbracket" "rbracket")) llabel
  have hparams := ((gives_block "params" "lparen" "rparen"
    (by simp [listNames, entryNames]) (by simp)).optional (begins_block _ _)).cons_leads hoptions
      loptions (by simp)
  have lparams := leads_both (leads_maybe (begins_block "lparen" "rparen")) loptions
  have hnames := gives_names.cons_leads hparams lparams (by simp)
  exact ⟨_, (gives_text "tag" "word").cons_free hnames⟩

lemma only_maybe {α : Type} {tells : ParseTree → α → Prop} {names : List String}
    (h : ∀ v a, tells v a → Only names v) {v : ParseTree} {a : Option α}
    (hv : TellsMaybe tells v a) : Only names v := by
  cases a with
  | none =>
    obtain rfl := hv
    exact fun _ _ => rfl
  | some a => exact h v a hv

lemma textOf?_maybe {rule : String} {names : List String} {v : ParseTree} {t : Option Text}
    (h : TellsMaybe (TellsText rule names) v t) : (v.find? rule).bind ParseTree.text? = t := by
  cases t with
  | none =>
    obtain rfl := h
    rfl
  | some t => exact h.text

lemma decodeEntries_maybe {name : String} {v : ParseTree} {p : Option Params}
    (h : TellsMaybe (TellsBlock name) v p) :
    ((v.find? name).map decodeEntries).getD .empty = p.getD .empty := by
  cases p with
  | none =>
    obtain rfl := h
    rfl
  | some p =>
    rw [h.found, Option.map_some, h.decoded]

lemma ending_maybe {v : ParseTree} {m : Option (Option Text × Bool)}
    (h : TellsMaybe TellsEnding v m) :
    (v.find? "code").bind ParseTree.text? = (m.getD (none, false)).1 ∧
      (v.find? "open").isSome = (m.getD (none, false)).2 := by
  cases m with
  | none =>
    obtain rfl := h
    exact ⟨rfl, rfl⟩
  | some m => exact ⟨h.code, h.bracket⟩

lemma decode_parts {vs : List ParseTree} {m : Parts} (h : TellsParts vs m) :
    decode (.rule "header" (.list (vs ++ [.empty]))) = some (ofParts m) := by
  obtain ⟨tag, names, params, options, label, parser, ending, comment⟩ := m
  obtain ⟨v₁, _, rfl, htag, v₂, _, rfl, hnames, v₃, _, rfl, hparams, v₄, _, rfl, hoptions, v₅, _,
    rfl, hlabel, v₆, _, rfl, hparser, v₇, _, rfl, hending, v₈, rfl, hcomment⟩ := h
  have htag' := htag.text
  obtain ⟨hcode, hopen⟩ := ending_maybe hending
  -- Each part is looked up past the parts before it, which have no result of its name.
  have o₁ := htag.only
  have o₂ := hnames.only
  have o₃ := only_maybe (fun _ _ h => TellsBlock.only h) hparams
  have o₄ := only_maybe (fun _ _ h => TellsBlock.only h) hoptions
  have o₅ := only_maybe (fun _ _ h => TellsText.only h) hlabel
  have o₆ := only_maybe (fun _ _ h => TellsText.only h) hparser
  have o₇ := only_maybe (fun _ _ h => TellsEnding.only h) hending
  have o₈ := only_maybe (fun _ _ h => TellsText.only h) hcomment
  simp only [Only, listNames, entryNames, List.mem_cons, List.not_mem_nil, or_false, not_or] at *
  simp only [ParseTree.textOf?] at htag'
  simp [decode, ParseTree.textOf?, ofParts, hnames.texts, decodeEntries_maybe hparams,
    decodeEntries_maybe hoptions, textOf?_maybe hlabel, textOf?_maybe hparser,
    textOf?_maybe hcomment, *]

lemma isEmpty_parts {vs : List ParseTree} {m : Parts} (h : TellsParts vs m) :
    (ParseTree.list (vs ++ [.empty])).isEmpty = false := by
  obtain ⟨v, vs, rfl, htag, -⟩ := h
  simp [ParseTree.isEmpty, ParseTree.areEmpty, htag.nonempty]

/-- The tokens of a line have a tree with a header exactly if they spell the header. -/
lemma decode_line_iff {tokens : List Token} {h : Header} :
    (grammar.parse { tokens }).bind decode = some h ↔ Spells (tokens.map Token.lexeme) h := by
  obtain ⟨stops, hparts⟩ := gives_parts
  have hline : lineReading = seq (partReadings ++ [finish]) := rfl
  rw [parse_grammar, hline, spells_iff]
  exact hparts.decode_iff (fun _ _ => isEmpty_parts) fun _ _ => decode_parts

/-- A line stands for a header exactly if its lexemes spell the header. -/
theorem parse_eq_some_iff {t : Text} {h : Header} :
    parse t = some h ↔ ∃ ls, lexemes t = some ls ∧ Spells ls h := by
  rw [parse, Sublanguage.parse, Sublanguage.parseTree, visible_eq_lexemes]
  change Option.bind _ decode = some h ↔ _
  dsimp only [line, id]
  cases lexer.visible t with
  | error e => simp
  | ok tokens => simp [decode_line_iff]

end Header

end TaggedOutline
