import TaggedOutline.Proofs.Header.Spelling
import TaggedOutline.Proofs.Locator.Grammar

/-!
# The spelling of paths

`SpellsPath` says which lexemes the steps of a path may be written with, without a grammar.
`decode_path_iff` is the main statement: the grammar reads steps off tokens exactly if the lexemes
of the tokens spell the steps.  What stands between square brackets begins with a word in all three
forms; the form is known by the sign behind it.
-/

namespace TaggedOutline

namespace Locator

open Reading

/-! ## Spellings -/

/-- The kinds of tokens that a value may be. -/
def valueKinds : List String := ["word", "string"]

/-- The kinds of tokens that may stand between steps. -/
def markKinds : List String := ["dot", "slash"]

/-- A step, with the lexemes that it is written with. -/
inductive SpellsStep : List Lexeme → WrittenStep → Prop
  | plain (tag : Text) : SpellsStep [("word", tag)] (.plain tag)
  | name {kind : String} (hkind : kind ∈ valueKinds) (tag opening name closing : Text) :
      SpellsStep [("word", tag), ("lbracket", opening), (kind, name), ("rbracket", closing)]
        (.name tag name)
  | attrEq {kind : String} (hkind : kind ∈ valueKinds) (tag opening key sign value closing : Text) :
      SpellsStep [("word", tag), ("lbracket", opening), ("word", key), ("equals", sign),
        (kind, value), ("rbracket", closing)] (.attrEq tag key value)
  | attrMatch {kind : String} (hkind : kind ∈ valueKinds)
      (tag opening key sign pattern closing : Text) :
      SpellsStep [("word", tag), ("lbracket", opening), ("word", key), ("match_op", sign),
        (kind, pattern), ("rbracket", closing)] (.attrMatch tag key pattern)
  | nth (tag opening index closing : Text) :
      SpellsStep [("word", tag), ("lparen", opening), ("word", index), ("rparen", closing)]
        (.nth tag index)

/-- A step behind a mark. -/
inductive SpellsNext : List Lexeme → WrittenStep → Prop
  | mk {ls : List Lexeme} {w : WrittenStep} {kind : String} (hkind : kind ∈ markKinds)
      (mark : Text) (h : SpellsStep ls w) : SpellsNext ((kind, mark) :: ls) w

/-- The steps of a path. -/
inductive SpellsPath : List Lexeme → List WrittenStep → Prop
  | mk {ls more : List Lexeme} {w : WrittenStep} {ws : List WrittenStep} (h : SpellsStep ls w)
      (hs : SpellsEach SpellsNext more ws) : SpellsPath (ls ++ more) (w :: ws)

/-! ## Values -/

/-- A value: one lexeme of two kinds. -/
def SpellsValue (ls : List Lexeme) (t : Text) : Prop :=
  SpellsOne "word" ls t ∨ SpellsOne "string" ls t

lemma spellsValue_iff {ls : List Lexeme} {t : Text} :
    SpellsValue ls t ↔ ∃ kind ∈ valueKinds, ls = [(kind, t)] := by
  simp [SpellsValue, SpellsOne, valueKinds]

lemma gives_word (name : String) :
    Gives (SpellsOne "word") (TellsNamed name TellsOne) [] (named name (token "word")) :=
  (gives_token "word").named (by rintro v t ⟨token, rfl, -⟩; rfl) name

lemma gives_value (name : String) :
    Gives SpellsValue (TellsNamed name TellsOne) [] (valueReading name) :=
  ((gives_token "word").choice (gives_token "string") (begins_one _) (begins_one _)
    (by simp)).named (by rintro v t ⟨token, rfl, -⟩; rfl) name

/-! ## Conditions -/

/-- What stands between square brackets, and the step that it makes of a tag. -/
inductive SpellsAttr (sign : String) (write : Text → Text → Text → WrittenStep) :
    List Lexeme → (Text → WrittenStep) → Prop
  | mk {kind : String} (hkind : kind ∈ valueKinds) (key mark value : Text) :
      SpellsAttr sign write [("word", key), (sign, mark), (kind, value)]
        fun tag => write tag key value

/-- A tree between square brackets makes a step of a tag. -/
def TellsCondition (v : ParseTree) (write : Text → WrittenStep) : Prop :=
  ∀ tag opening closing : Token, decodeStep (.rule "step" (.list [.rule "tag" (.token tag),
    .rule "filter" (.list [.token opening, v, .token closing])])) = some (write tag.text)

lemma gives_attr (name sign : String) (write : Text → Text → Text → WrittenStep)
    (htells : ∀ key mark value : Token, TellsCondition (.rule name (.list [.rule "key" (.token key),
      .token mark, .rule "value" (.token value)])) fun tag => write tag key.text value.text) :
    Gives (SpellsAttr sign write) TellsCondition [] (attrReading name sign) := by
  have hparts :=
    (gives_word "key").cons_free ((gives_token sign).cons_free (gives_value "value").last)
  refine (hparts.seq.named ?_ name).map (fun m tag => write tag m.1 m.2.2) ?_ ?_
  · rintro _ _ ⟨_, rfl, _, _, rfl, ⟨_, rfl, t, rfl, -⟩, -⟩
    rfl
  · intro ls step
    constructor
    · rintro ⟨hkind, key, mark, value⟩
      exact ⟨(key, mark, value), ⟨[_], _, rfl, rfl, [_], _, rfl, rfl,
        spellsValue_iff.mpr ⟨_, hkind, rfl⟩⟩, rfl⟩
    · rintro ⟨⟨key, mark, value⟩, ⟨_, _, rfl, rfl, _, _, rfl, rfl, hvalue⟩, rfl⟩
      obtain ⟨kind, hkind, rfl⟩ := spellsValue_iff.mp hvalue
      exact .mk hkind key mark value
  · rintro _ ⟨key, mark, value⟩ ⟨_, rfl, _, rfl, _, _, rfl, ⟨_, rfl, k, rfl, rfl⟩, _, _, rfl,
      ⟨m, rfl, -⟩, _, rfl, _, rfl, t, rfl, rfl⟩
    exact htells k m t

/-- A bare value between square brackets. -/
inductive SpellsName : List Lexeme → (Text → WrittenStep) → Prop
  | mk {kind : String} (hkind : kind ∈ valueKinds) (name : Text) :
      SpellsName [(kind, name)] fun tag => .name tag name

lemma gives_name : Gives SpellsName TellsCondition [] (valueReading "name") := by
  refine (gives_value "name").map (fun name tag => .name tag name) ?_ ?_
  · intro ls step
    constructor
    · rintro ⟨hkind, name⟩
      exact ⟨name, spellsValue_iff.mpr ⟨_, hkind, rfl⟩, rfl⟩
    · rintro ⟨name, hname, rfl⟩
      obtain ⟨kind, hkind, rfl⟩ := spellsValue_iff.mp hname
      exact .mk hkind name
  · rintro _ _ ⟨_, rfl, t, rfl, rfl⟩ tag opening closing
    simp [decodeStep, ParseTree.textOf?, ParseTree.text?, ParseTree.texts, ParseTree.tokens]

/-- The signs between a key and a value. -/
def signKinds : List String := ["match_op", "equals"]

/-- A condition in one of its three forms. -/
def SpellsCondition (ls : List Lexeme) (write : Text → WrittenStep) : Prop :=
  SpellsAttr "match_op" .attrMatch ls write ∨ SpellsAttr "equals" .attrEq ls write ∨
    SpellsName ls write

/-- A condition on an attribute is not read where its sign is not the second token. -/
lemma attrReading_eq_none {name sign : String} {write : Text → Text → Text → WrittenStep}
    (h : Gives (SpellsAttr sign write) TellsCondition [] (attrReading name sign)) {ts : List Token}
    (hts : ∀ first second rest, ts.map Token.lexeme = first :: second :: rest → second.1 ≠ sign) :
    attrReading name sign ts = none := by
  refine h.eq_none_of_forall ?_
  rintro _ rest _ hused ⟨hkind, key, mark, value⟩
  exact hts _ _ _ hused rfl

lemma second_of_spellsName {used rest : List Token} {write : Text → WrittenStep}
    (h : SpellsName (used.map Token.lexeme) write) (hrest : Avoids signKinds rest)
    {first second : Lexeme} {more : List Lexeme}
    (hts : (used ++ rest).map Token.lexeme = first :: second :: more) : second.1 ∉ signKinds := by
  rw [List.map_append] at hts
  generalize used.map Token.lexeme = ls at h hts
  obtain ⟨hkind, name⟩ := h
  obtain ⟨-, hrests⟩ := List.cons.inj hts
  obtain ⟨t, ts, rfl, rfl, -⟩ := List.map_eq_cons_iff.mp hrests
  exact hrest t rfl

lemma second_of_spellsAttr {sign : String} {write : Text → Text → Text → WrittenStep}
    {used rest : List Token} {step : Text → WrittenStep}
    (h : SpellsAttr sign write (used.map Token.lexeme) step) {first second : Lexeme}
    {more : List Lexeme} (hts : (used ++ rest).map Token.lexeme = first :: second :: more) :
    second.1 = sign := by
  rw [List.map_append] at hts
  generalize used.map Token.lexeme = ls at h hts
  obtain ⟨hkind, key, mark, value⟩ := h
  obtain ⟨-, hrests⟩ := List.cons.inj hts
  obtain ⟨rfl, -⟩ := List.cons.inj hrests
  rfl

lemma gives_condition : Gives SpellsCondition TellsCondition signKinds conditionReading := by
  have hmatch : Gives (SpellsAttr "match_op" .attrMatch) TellsCondition []
      (attrReading "attr_match" "match_op") :=
    gives_attr _ _ _ fun key mark value tag opening closing => by
      simp [decodeStep, ParseTree.textOf?, ParseTree.text?, ParseTree.texts, ParseTree.tokens]
  have heq :
      Gives (SpellsAttr "equals" .attrEq) TellsCondition [] (attrReading "attr_eq" "equals") :=
    gives_attr _ _ _ fun key mark value tag opening closing => by
      simp [decodeStep, ParseTree.textOf?, ParseTree.text?, ParseTree.texts, ParseTree.tokens]
  have hname := (gives_name.mono (List.nil_subset signKinds)).choice_singleton
  have hrest := heq.choice_cons hname fun used rest write hs hrest => attrReading_eq_none heq
    fun first second more hts hsecond =>
      second_of_spellsName hs hrest hts (by simp [hsecond, signKinds])
  refine hmatch.choice_cons hrest fun used rest write hs hrest => attrReading_eq_none hmatch
    fun first second more hts hsecond => ?_
  rcases hs with hs | hs
  · exact absurd ((second_of_spellsAttr hs hts).symm.trans hsecond) (by decide)
  · exact second_of_spellsName hs hrest hts (by simp [hsecond, signKinds])

/-! ## Selectors -/

/-- A tree behind a tag makes a step of it. -/
def TellsSelector (v : ParseTree) (write : Text → WrittenStep) : Prop :=
  ∀ tag : Token, decodeStep (.rule "step" (.list [.rule "tag" (.token tag), v])) =
    some (write tag.text)

/-- A condition with its brackets. -/
inductive SpellsFilter : List Lexeme → (Text → WrittenStep) → Prop
  | mk {ls : List Lexeme} {write : Text → WrittenStep} (h : SpellsCondition ls write)
      (opening closing : Text) :
      SpellsFilter (("lbracket", opening) :: ls ++ [("rbracket", closing)]) write

/-- A place with its brackets. -/
inductive SpellsPosition : List Lexeme → (Text → WrittenStep) → Prop
  | mk (opening index closing : Text) :
      SpellsPosition [("lparen", opening), ("word", index), ("rparen", closing)]
        fun tag => .nth tag index

lemma begins_filter : Begins ["lbracket"] SpellsFilter := by
  rintro _ _ ⟨h, opening, closing⟩
  exact ⟨_, rfl, by simp⟩

lemma begins_position : Begins ["lparen"] SpellsPosition := by
  rintro _ _ ⟨opening, index, closing⟩
  exact ⟨_, rfl, by simp⟩

lemma gives_filter : Gives SpellsFilter TellsSelector [] filterReading := by
  have hparts := (gives_token "lbracket").cons_free (gives_condition.cons_begins
    (gives_token "rbracket").last (begins_one "rbracket") (by simp [signKinds]))
  refine (hparts.seq.named ?_ "filter").map (fun m => m.2.1) ?_ ?_
  · rintro _ _ ⟨_, rfl, _, _, rfl, ⟨t, rfl, -⟩, -⟩
    rfl
  · intro ls write
    constructor
    · rintro ⟨h, opening, closing⟩
      exact ⟨(opening, _, closing), ⟨[_], _, rfl, rfl, _, _, rfl, h, rfl⟩, rfl⟩
    · rintro ⟨⟨opening, write, closing⟩, ⟨_, _, rfl, rfl, ls, _, rfl, h, rfl⟩, rfl⟩
      exact .mk h opening closing
  · rintro _ ⟨opening, write, closing⟩ ⟨_, rfl, _, rfl, _, _, rfl, ⟨l, rfl, -⟩, v, _, rfl, hv, _,
      rfl, r, rfl, -⟩ tag
    exact hv tag l r

lemma gives_position : Gives SpellsPosition TellsSelector [] positionReading := by
  have hparts := (gives_token "lparen").cons_free
    ((gives_word "index").cons_free (gives_token "rparen").last)
  refine (hparts.seq.named ?_ "position").map (fun m tag => .nth tag m.2.1) ?_ ?_
  · rintro _ _ ⟨_, rfl, _, _, rfl, ⟨t, rfl, -⟩, -⟩
    rfl
  · intro ls write
    constructor
    · rintro ⟨opening, index, closing⟩
      exact ⟨(opening, index, closing), ⟨[_], _, rfl, rfl, [_], _, rfl, rfl, rfl⟩, rfl⟩
    · rintro ⟨⟨opening, index, closing⟩, ⟨_, _, rfl, rfl, _, _, rfl, rfl, rfl⟩, rfl⟩
      exact .mk opening index closing
  · rintro _ ⟨opening, index, closing⟩ ⟨_, rfl, _, rfl, _, _, rfl, ⟨l, rfl, -⟩, _, _, rfl,
      ⟨_, rfl, t, rfl, rfl⟩, _, rfl, r, rfl, -⟩ tag
    simp [decodeStep, ParseTree.textOf?, ParseTree.text?, ParseTree.texts, ParseTree.tokens]

/-! ## Steps -/

/-- The result of the rule of steps. -/
structure TellsStep (v : ParseTree) (w : WrittenStep) : Prop where
  nonempty : v.isEmpty = false
  all : v.findAll "step" = [v]
  decoded : decodeStep v = some w

lemma spellsStep_iff {ls : List Lexeme} {w : WrittenStep} : SpellsStep ls w ↔
    ∃ m : Text × Option (Text → WrittenStep), SpellsBoth (SpellsOne "word")
      (SpellsMaybe fun ls write => SpellsFilter ls write ∨ SpellsPosition ls write) ls m ∧
        m.2.getD .plain m.1 = w := by
  constructor
  · rintro (tag | ⟨hkind, tag, opening, name, closing⟩ |
      ⟨hkind, tag, opening, key, sign, value, closing⟩ |
      ⟨hkind, tag, opening, key, sign, pattern, closing⟩ | ⟨tag, opening, index, closing⟩)
    · exact ⟨(tag, none), ⟨[_], [], rfl, rfl, .absent⟩, rfl⟩
    · exact ⟨(tag, some _), ⟨[_], _, rfl, rfl, .present (.inl (.mk (.inr (.inr
        (.mk hkind name))) opening closing))⟩, rfl⟩
    · exact ⟨(tag, some _), ⟨[_], _, rfl, rfl, .present (.inl (.mk (.inr (.inl
        (.mk hkind key sign value))) opening closing))⟩, rfl⟩
    · exact ⟨(tag, some _), ⟨[_], _, rfl, rfl, .present (.inl (.mk (.inl
        (.mk hkind key sign pattern)) opening closing))⟩, rfl⟩
    · exact ⟨(tag, some _), ⟨[_], _, rfl, rfl, .present (.inr (.mk opening index closing))⟩, rfl⟩
  · rintro ⟨⟨tag, write⟩, ⟨_, _, rfl, rfl, h⟩, rfl⟩
    rcases h with _ | ⟨⟨hmatch | heq | hname, opening, closing⟩ | ⟨opening, index, closing⟩⟩
    · exact .plain tag
    · obtain ⟨hkind, key, sign, pattern⟩ := hmatch
      exact .attrMatch hkind tag opening key sign pattern closing
    · obtain ⟨hkind, key, sign, value⟩ := heq
      exact .attrEq hkind tag opening key sign value closing
    · obtain ⟨hkind, name⟩ := hname
      exact .name hkind tag opening name closing
    · exact .nth tag opening index closing

/-- The kinds of tokens that a selector begins with. -/
def bracketKinds : List String := ["lbracket", "lparen"]

lemma gives_step : Gives SpellsStep TellsStep bracketKinds stepReading := by
  have hselector := gives_filter.choice gives_position begins_filter begins_position (by simp)
  have hbegins : Begins bracketKinds fun ls write =>
      SpellsFilter ls write ∨ SpellsPosition ls write := by
    rintro ls write (h | h)
    · obtain ⟨l, hl, hkind⟩ := begins_filter ls write h
      exact ⟨l, hl, List.mem_cons.mpr (.inl (List.mem_singleton.mp hkind))⟩
    · obtain ⟨l, hl, hkind⟩ := begins_position ls write h
      exact ⟨l, hl, List.mem_cons_of_mem _ hkind⟩
  have hparts := (gives_word "tag").cons_free (hselector.optional hbegins).last
  refine (hparts.seq.named ?_ "step").map (fun m => m.2.getD .plain m.1) ?_ ?_
  · rintro _ _ ⟨_, rfl, _, _, rfl, ⟨_, rfl, t, rfl, -⟩, -⟩
    rfl
  · intro ls w
    exact spellsStep_iff
  · rintro _ ⟨tag, write⟩ ⟨_, rfl, _, rfl, _, _, rfl, ⟨_, rfl, t, rfl, rfl⟩, v, rfl, hv⟩
    refine ⟨rfl, rfl, ?_⟩
    cases write with
    | none =>
      obtain rfl := hv
      rfl
    | some write => exact hv t

/-! ## Paths -/

/-- A tree with one step. -/
def TellsNext (v : ParseTree) (w : WrittenStep) : Prop :=
  ∃ step, v.findAll "step" = [step] ∧ decodeStep step = some w

lemma begins_next : Begins markKinds SpellsNext := by
  rintro _ _ ⟨hkind, mark, -⟩
  exact ⟨_, rfl, hkind⟩

lemma gives_next : Gives SpellsNext TellsNext bracketKinds nextReading := by
  have hmark := (gives_token "dot").choice (gives_token "slash") (begins_one _) (begins_one _)
    (by simp)
  refine (hmark.cons_free gives_step.last).seq.map Prod.snd ?_ ?_
  · intro ls w
    constructor
    · rintro ⟨hkind, mark, h⟩
      refine ⟨(mark, w), ⟨[_], _, rfl, ?_, h⟩, rfl⟩
      rcases List.mem_pair.mp hkind with rfl | rfl
      · exact .inl rfl
      · exact .inr rfl
    · rintro ⟨⟨mark, w⟩, ⟨_, _, rfl, rfl | rfl, h⟩, rfl⟩
      · exact .mk (by simp [markKinds]) mark h
      · exact .mk (by simp [markKinds]) mark h
  · rintro _ ⟨mark, w⟩ ⟨_, rfl, _, _, rfl, ⟨m, rfl, -⟩, v, rfl, hv⟩
    exact ⟨v, by simp [hv.all], hv.decoded⟩

lemma decodeStep_of_tellsNext {vs : List ParseTree} {ws : List WrittenStep}
    (h : List.Forall₂ TellsNext vs ws) :
    (ParseTree.findAllIn "step" vs).mapM decodeStep = some ws := by
  induction h with
  | nil => rfl
  | cons hv _ ih =>
    obtain ⟨step, hstep, hdecoded⟩ := hv
    rw [Header.findAllIn_cons, hstep, List.singleton_append, List.mapM_cons, hdecoded, ih]
    rfl

/-- The trees of a path, before its end. -/
abbrev TellsSteps : List ParseTree → WrittenStep × List WrittenStep → Prop :=
  TellsBoth TellsStep (TellsLast (TellsEach TellsNext))

lemma gives_steps : GivesAll (SpellsBoth SpellsStep (SpellsEach SpellsNext)) TellsSteps
    (bracketKinds ++ (markKinds ++ bracketKinds)) [stepReading, many nextReading] :=
  gives_step.cons_leads (gives_next.many begins_next (by simp [markKinds, bracketKinds])).last
    (leads_each begins_next) (by simp [markKinds, bracketKinds])

lemma spellsPath_iff {ls : List Lexeme} {ws : List WrittenStep} : SpellsPath ls ws ↔
    ∃ m, SpellsBoth SpellsStep (SpellsEach SpellsNext) ls m ∧ m.1 :: m.2 = ws := by
  constructor
  · rintro ⟨h, hs⟩
    exact ⟨(_, _), ⟨_, _, rfl, h, hs⟩, rfl⟩
  · rintro ⟨⟨w, ws⟩, ⟨_, _, rfl, h, hs⟩, rfl⟩
    exact .mk h hs

lemma decode_steps {vs : List ParseTree} {m : WrittenStep × List WrittenStep}
    (h : TellsSteps vs m) :
    path.decode (.rule "path" (.list (vs ++ [.empty]))) = some (m.1 :: m.2) := by
  obtain ⟨v, _, rfl, hv, _, rfl, vs, rfl, hvs⟩ := h
  have hrest := decodeStep_of_tellsNext hvs
  simp [path, hv.all, hv.decoded, hrest, List.mapM_cons]

lemma isEmpty_steps {vs : List ParseTree} {m : WrittenStep × List WrittenStep}
    (h : TellsSteps vs m) : (ParseTree.list (vs ++ [.empty])).isEmpty = false := by
  obtain ⟨v, vs, rfl, hv, -⟩ := h
  simp [ParseTree.isEmpty, ParseTree.areEmpty, hv.nonempty]

/-- The grammar reads steps off tokens exactly if their lexemes spell the steps. -/
theorem decode_path_iff {tokens : List Token} {ws : List WrittenStep} :
    (grammar.parse { tokens }).bind path.decode = some ws ↔
      SpellsPath (tokens.map Token.lexeme) ws := by
  have hpath : pathReading = seq ([stepReading, many nextReading] ++ [finish]) := rfl
  rw [parse_grammar, hpath, spellsPath_iff]
  exact gives_steps.decode_iff (fun _ _ => isEmpty_steps) fun _ _ => decode_steps

end Locator

end TaggedOutline
