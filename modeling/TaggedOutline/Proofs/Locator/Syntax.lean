import TaggedOutline.Proofs.Header.Syntax
import TaggedOutline.Proofs.Locator.Spelling

/-!
# What the locator compiler accepts

`pathSyntax` is the syntax of paths as a regular expression over the kinds of tokens.  The compiler
accepts exactly the paths of that syntax whose patterns and places mean something, and the steps are
those that are written.  Which patterns mean something is up to the reader that it is given.  Any
other path is refused for one reason: its characters, else its form, else the first step from the
left that means nothing (`compile_iff_syntax`).
-/

namespace TaggedOutline

namespace Locator

open Header (maybe Forms forms_one forms_both forms_maybe forms_each forms_either)
open RegularExpression (char)

/-! ## The documented syntax -/

/-- A value: a bare word or a quoted one. -/
def valueSyntax : RegularExpression String := char "word" + char "string"

/-- A condition on an attribute. -/
def attrSyntax (sign : String) : RegularExpression String :=
  char "word" * (char sign * valueSyntax)

/-- What stands between square brackets. -/
def conditionSyntax : RegularExpression String :=
  attrSyntax "match_op" + (attrSyntax "equals" + valueSyntax)

/-- A step: a tag, perhaps with a condition or a place. -/
def stepSyntax : RegularExpression String :=
  char "word" * maybe (char "lbracket" * (conditionSyntax * char "rbracket") +
    char "lparen" * (char "word" * char "rparen"))

/-- A path. -/
def pathSyntax : RegularExpression String :=
  stepSyntax * ((char "dot" + char "slash") * stepSyntax).star

/-! ## The kinds of what is spelled -/

lemma forms_value : Forms valueSyntax SpellsValue :=
  forms_either (forms_one "word") (forms_one "string") SpellsValue fun _ => exists_or

lemma forms_attr (sign : String) (write : Text → Text → Text → WrittenStep) :
    Forms (attrSyntax sign) (SpellsAttr sign write) := by
  refine (forms_both (forms_one "word")
    (forms_both (forms_one sign) forms_value)).congr fun ls => ?_
  constructor
  · rintro ⟨_, ⟨hkind, key, mark, value⟩⟩
    exact ⟨(key, mark, value), [_], _, rfl, rfl, [_], _, rfl, rfl,
      spellsValue_iff.mpr ⟨_, hkind, rfl⟩⟩
  · rintro ⟨⟨key, mark, value⟩, _, _, rfl, rfl, _, _, rfl, rfl, hvalue⟩
    obtain ⟨kind, hkind, rfl⟩ := spellsValue_iff.mp hvalue
    exact ⟨_, .mk hkind key mark value⟩

lemma forms_name : Forms valueSyntax SpellsName := by
  refine forms_value.congr fun ls => ?_
  constructor
  · rintro ⟨_, ⟨hkind, name⟩⟩
    exact ⟨name, spellsValue_iff.mpr ⟨_, hkind, rfl⟩⟩
  · rintro ⟨name, hname⟩
    obtain ⟨kind, hkind, rfl⟩ := spellsValue_iff.mp hname
    exact ⟨_, .mk hkind name⟩

lemma forms_condition : Forms conditionSyntax SpellsCondition := by
  have hrest := forms_either (forms_attr "equals" .attrEq) forms_name
    (fun ls write => SpellsAttr "equals" .attrEq ls write ∨ SpellsName ls write) fun _ => exists_or
  exact forms_either (forms_attr "match_op" .attrMatch) hrest SpellsCondition fun _ => exists_or

lemma forms_filter :
    Forms (char "lbracket" * (conditionSyntax * char "rbracket")) SpellsFilter := by
  refine (forms_both (forms_one "lbracket")
    (forms_both forms_condition (forms_one "rbracket"))).congr fun ls => ?_
  constructor
  · rintro ⟨_, ⟨h, opening, closing⟩⟩
    exact ⟨(opening, _, closing), [_], _, rfl, rfl, _, _, rfl, h, rfl⟩
  · rintro ⟨⟨opening, write, closing⟩, _, _, rfl, rfl, _, _, rfl, h, rfl⟩
    exact ⟨write, .mk h opening closing⟩

lemma forms_position :
    Forms (char "lparen" * (char "word" * char "rparen")) SpellsPosition := by
  refine (forms_both (forms_one "lparen")
    (forms_both (forms_one "word") (forms_one "rparen"))).congr fun ls => ?_
  constructor
  · rintro ⟨_, ⟨opening, index, closing⟩⟩
    exact ⟨(opening, index, closing), [_], _, rfl, rfl, [_], _, rfl, rfl, rfl⟩
  · rintro ⟨⟨opening, index, closing⟩, _, _, rfl, rfl, _, _, rfl, rfl, rfl⟩
    exact ⟨_, .mk opening index closing⟩

lemma forms_step : Forms stepSyntax SpellsStep := by
  have hselector := forms_either forms_filter forms_position
    (fun ls write => SpellsFilter ls write ∨ SpellsPosition ls write) fun _ => exists_or
  refine (forms_both (forms_one "word") (forms_maybe hselector)).congr fun ls => ?_
  simp only [spellsStep_iff]
  constructor
  · rintro ⟨_, m, hm, -⟩
    exact ⟨m, hm⟩
  · rintro ⟨m, hm⟩
    exact ⟨_, m, hm, rfl⟩

lemma forms_next : Forms ((char "dot" + char "slash") * stepSyntax) SpellsNext := by
  have hmark := forms_either (forms_one "dot") (forms_one "slash")
    (fun ls t => SpellsOne "dot" ls t ∨ SpellsOne "slash" ls t) fun _ => exists_or
  refine (forms_both hmark forms_step).congr fun ls => ?_
  constructor
  · rintro ⟨_, ⟨hkind, mark, h⟩⟩
    refine ⟨(mark, _), [_], _, rfl, ?_, h⟩
    rcases List.mem_pair.mp hkind with rfl | rfl
    · exact .inl rfl
    · exact .inr rfl
  · rintro ⟨⟨mark, w⟩, _, _, rfl, rfl | rfl, h⟩
    · exact ⟨w, .mk (by simp [markKinds]) mark h⟩
    · exact ⟨w, .mk (by simp [markKinds]) mark h⟩

lemma forms_path : Forms pathSyntax SpellsPath := by
  refine (forms_both forms_step (forms_each forms_next)).congr fun ls => ?_
  constructor
  · rintro ⟨_, ⟨h, hs⟩⟩
    exact ⟨(_, _), _, _, rfl, h, hs⟩
  · rintro ⟨⟨w, ws⟩, _, _, rfl, h, hs⟩
    exact ⟨w :: ws, .mk h hs⟩

/-! ## The meaning of written steps -/

section Meaning

/-! What a pattern means is up to the reader of patterns. -/

variable (read : Matcher.Reader)

/-- The step that a written step means. -/
inductive Means : WrittenStep → Step → Prop
  | plain (tag : Text) : Means (.plain tag) ⟨tag, .any⟩
  | name (tag name : Text) : Means (.name tag name) ⟨tag, .name name⟩
  | attrEq (tag key value : Text) : Means (.attrEq tag key value) ⟨tag, .attrEq key value⟩
  | attrMatch {source : Text} {pattern : Matcher} (h : read source = some pattern)
      (tag key : Text) : Means (.attrMatch tag key source) ⟨tag, .attrMatch key source pattern⟩
  | nth {index : Text} {place : Nat} (h : Text.nat? 64 index = some place) (hpos : 1 ≤ place)
      (tag : Text) : Means (.nth tag index) ⟨tag, .nth place⟩

/-- Why a written step of a path means nothing. -/
inductive Offends (path : Text) : WrittenStep → LocatorError → Prop
  | pattern {source : Text} (h : read source = none) (tag key : Text) :
      Offends path (.attrMatch tag key source) (.badPattern source)
  | zero {index : Text} (h : Text.nat? 64 index = some 0) (tag : Text) :
      Offends path (.nth tag index) (.zeroIndex path)
  | index {index : Text} (h : Text.nat? 64 index = none) (tag : Text) :
      Offends path (.nth tag index) (.syntaxError path)

variable {read}

lemma Means.compile_eq {w : WrittenStep} {step : Step} (h : Means read w step) (path : Text) :
    w.compile read path = .ok step := by
  cases h with
  | plain tag => rfl
  | name tag name => rfl
  | attrEq tag key value => rfl
  | attrMatch h tag key => rw [WrittenStep.compile, h]
  | @nth index place h hpos tag =>
    obtain ⟨place, rfl⟩ := Nat.exists_eq_add_of_le' hpos
    rw [WrittenStep.compile, h]
    rfl

lemma Offends.compile_eq {path : Text} {w : WrittenStep} {e : LocatorError}
    (h : Offends read path w e) : w.compile read path = .error e := by
  cases h with
  | pattern h tag key => rw [WrittenStep.compile, h]
  | zero h tag =>
    rw [WrittenStep.compile, h]
    rfl
  | index h tag => rw [WrittenStep.compile, h]

/-- A written step means something or there is a reason why it does not. -/
lemma means_or_offends (read : Matcher.Reader) (path : Text) (w : WrittenStep) :
    (∃ step, Means read w step) ∨ ∃ e, Offends read path w e := by
  cases w with
  | plain tag => exact .inl ⟨_, .plain tag⟩
  | name tag name => exact .inl ⟨_, .name tag name⟩
  | attrEq tag key value => exact .inl ⟨_, .attrEq tag key value⟩
  | attrMatch tag key source =>
    rcases h : read source with - | pattern
    · exact .inr ⟨_, .pattern h tag key⟩
    · exact .inl ⟨_, .attrMatch h tag key⟩
  | nth tag index =>
    rcases h : Text.nat? 64 index with - | _ | place
    · exact .inr ⟨_, .index h tag⟩
    · exact .inr ⟨_, .zero h tag⟩
    · exact .inl ⟨_, .nth h (Nat.succ_pos place) tag⟩

lemma WrittenStep.compile_eq_ok_iff {path : Text} {w : WrittenStep} {step : Step} :
    w.compile read path = .ok step ↔ Means read w step := by
  refine ⟨fun h => ?_, fun h => h.compile_eq path⟩
  rcases means_or_offends read path w with ⟨step', hmeans⟩ | ⟨e, hoffends⟩
  · obtain rfl := Except.ok.inj (h.symm.trans (hmeans.compile_eq path))
    exact hmeans
  · cases h.symm.trans hoffends.compile_eq

lemma WrittenStep.compile_eq_error_iff {path : Text} {w : WrittenStep} {e : LocatorError} :
    w.compile read path = .error e ↔ Offends read path w e := by
  refine ⟨fun h => ?_, Offends.compile_eq⟩
  rcases means_or_offends read path w with ⟨step, hmeans⟩ | ⟨e', hoffends⟩
  · cases h.symm.trans (hmeans.compile_eq path)
  · obtain rfl := Except.error.inj (h.symm.trans hoffends.compile_eq)
    exact hoffends

end Meaning

/-! ## Written steps in their order -/

section MapM

variable {α β ε : Type} {f : α → Except ε β}

lemma mapM_cons_of_ok {a : α} {b : β} (h : f a = .ok b) (as : List α) :
    (a :: as).mapM f = (as.mapM f).map (b :: ·) := by
  rw [List.mapM_cons, h]
  cases as.mapM f <;> rfl

lemma mapM_cons_of_error {a : α} {e : ε} (h : f a = .error e) (as : List α) :
    (a :: as).mapM f = .error e := by
  rw [List.mapM_cons, h]
  rfl

lemma mapM_eq_ok_iff {as : List α} {bs : List β} :
    as.mapM f = .ok bs ↔ List.Forall₂ (fun a b => f a = .ok b) as bs := by
  induction as generalizing bs with
  | nil =>
    rw [List.mapM_nil, List.forall₂_nil_left_iff]
    exact ⟨fun h => (Except.ok.inj h).symm, fun h => congrArg Except.ok h.symm⟩
  | cons a as ih =>
    rw [List.forall₂_cons_left_iff]
    rcases hf : f a with e | b
    · rw [mapM_cons_of_error hf]
      simp
    · rw [mapM_cons_of_ok hf]
      rcases hrest : as.mapM f with e | cs
      · simp [← ih, hrest, Except.map]
      · simp [← ih, hrest, Except.map, eq_comm]

/-- What stops a list of steps is the first one from the left that fails. -/
lemma mapM_eq_error_iff {as : List α} {e : ε} :
    as.mapM f = .error e ↔ ∃ before a after, as = before ++ a :: after ∧
      (∀ a' ∈ before, ∃ b, f a' = .ok b) ∧ f a = .error e := by
  induction as with
  | nil =>
    rw [List.mapM_nil]
    constructor
    · rintro ⟨⟩
    · rintro ⟨before, a, after, has, -⟩
      cases before <;> cases has
  | cons a as ih =>
    rcases hf : f a with e' | b
    · rw [mapM_cons_of_error hf]
      constructor
      · rintro ⟨⟩
        exact ⟨[], a, as, rfl, by simp, hf⟩
      · rintro ⟨before, a', after, has, hbefore, ha'⟩
        rcases before with - | ⟨c, before⟩
        · obtain ⟨rfl, -⟩ := List.cons.inj has
          rw [Except.error.inj (hf.symm.trans ha')]
        · obtain ⟨rfl, -⟩ := List.cons.inj has
          obtain ⟨b, hb⟩ := hbefore a List.mem_cons_self
          cases hf.symm.trans hb
    · have hrest : (a :: as).mapM f = .error e ↔ as.mapM f = .error e := by
        rw [mapM_cons_of_ok hf]
        cases as.mapM f <;> simp [Except.map]
      rw [hrest, ih]
      constructor
      · rintro ⟨before, a', after, rfl, hbefore, ha'⟩
        exact ⟨a :: before, a', after, rfl, List.forall_mem_cons.mpr ⟨⟨b, hf⟩, hbefore⟩, ha'⟩
      · rintro ⟨before, a', after, has, hbefore, ha'⟩
        rcases before with - | ⟨c, before⟩
        · obtain ⟨rfl, -⟩ := List.cons.inj has
          cases hf.symm.trans ha'
        · obtain ⟨rfl, rfl⟩ := List.cons.inj has
          exact ⟨before, a', after, rfl, (List.forall_mem_cons.mp hbefore).2, ha'⟩

end MapM

/-! ## The compiler -/

lemma exists_spellsPath_iff {tokens : List Token} :
    (∃ written, SpellsPath (tokens.map Token.lexeme) written) ↔
      tokens.map Token.kind ∈ pathSyntax.matches' := by
  rw [forms_path, List.map_map]
  rfl

/-- Lexemes spell the steps of at most one path. -/
lemma spellsPath_unique {tokens : List Token} {written written' : List WrittenStep}
    (h : SpellsPath (tokens.map Token.lexeme) written)
    (h' : SpellsPath (tokens.map Token.lexeme) written') : written = written' :=
  Option.some.inj ((decode_path_iff.mpr h).symm.trans (decode_path_iff.mpr h'))

section Compile

variable {read : Matcher.Reader} {source : Text} {tokens : List Token}

lemma compile_of_error {e : LexError} (h : lexer.visible source = .error e) :
    compile read source = .error (.lexError e) := by
  rw [compile, h]
  rfl

lemma compile_of_spells {written : List WrittenStep} (h : lexer.visible source = .ok tokens)
    (hs : SpellsPath (tokens.map Token.lexeme) written) :
    compile read source = (written.mapM (WrittenStep.compile read source)).map fun steps =>
      { source, steps } := by
  rw [compile, h]
  simp only [Except.mapError, bind, Except.bind, decode_path_iff.mpr hs]
  cases written.mapM (WrittenStep.compile read source) <;> rfl

lemma compile_of_not_spells (h : lexer.visible source = .ok tokens)
    (hs : ¬∃ written, SpellsPath (tokens.map Token.lexeme) written) :
    compile read source = .error (.syntaxError source) := by
  have hnone : (grammar.parse { tokens }).bind path.decode = none :=
    Option.eq_none_iff_forall_ne_some.mpr fun written hw => hs ⟨written, decode_path_iff.mp hw⟩
  rw [compile, h]
  simp only [Except.mapError, bind, Except.bind, hnone]
  rfl

lemma compile_eq_ok_iff_of_spells {written : List WrittenStep} {locator : Locator}
    (h : lexer.visible source = .ok tokens) (hs : SpellsPath (tokens.map Token.lexeme) written) :
    compile read source = .ok locator ↔
      List.Forall₂ (Means read) written locator.steps ∧ locator.source = source := by
  have hmeans : ∀ steps, written.mapM (WrittenStep.compile read source) = .ok steps ↔
      List.Forall₂ (Means read) written steps := fun steps => by
    simp only [mapM_eq_ok_iff, WrittenStep.compile_eq_ok_iff]
  obtain ⟨source', steps⟩ := locator
  rw [compile_of_spells h hs, ← hmeans]
  cases written.mapM (WrittenStep.compile read source) <;> simp [Except.map, and_comm, eq_comm]

lemma compile_eq_error_iff_of_spells {written : List WrittenStep} {e : LocatorError}
    (h : lexer.visible source = .ok tokens) (hs : SpellsPath (tokens.map Token.lexeme) written) :
    compile read source = .error e ↔ ∃ before w after, written = before ++ w :: after ∧
      (∀ w' ∈ before, ∃ step, Means read w' step) ∧ Offends read source w e := by
  have hoffends : written.mapM (WrittenStep.compile read source) = .error e ↔ _ := mapM_eq_error_iff
  simp only [WrittenStep.compile_eq_ok_iff, WrittenStep.compile_eq_error_iff] at hoffends
  rw [compile_of_spells h hs, ← hoffends]
  cases written.mapM (WrittenStep.compile read source) <;> simp [Except.map]

end Compile

/-- Why a path is refused. -/
inductive Refuses (read : Matcher.Reader) (source : Text) : LocatorError → Prop
  /-- Its characters are no tokens. -/
  | lex {e : LexError} (h : lexer.visible source = .error e) : Refuses read source (.lexError e)
  /-- Its tokens do not have the form of a path. -/
  | form {tokens : List Token} (h : lexer.visible source = .ok tokens)
      (hform : tokens.map Token.kind ∉ pathSyntax.matches') :
      Refuses read source (.syntaxError source)
  /-- It has a step that means nothing, and the steps before it do. -/
  | step {tokens : List Token} {before after : List WrittenStep} {w : WrittenStep}
      {e : LocatorError} (h : lexer.visible source = .ok tokens)
      (hs : SpellsPath (tokens.map Token.lexeme) (before ++ w :: after))
      (hbefore : ∀ w' ∈ before, ∃ step, Means read w' step) (hoffends : Offends read source w e) :
      Refuses read source e

/-- Whatever reads the patterns, the compiler accepts exactly the paths of the documented syntax
whose patterns and places mean something.  The tokens of such a path spell its steps in only one
way, and the compiled steps are what these mean, in their order.  Every other path is refused, for
its characters, else for its form, else for its first step that means nothing. -/
theorem compile_iff_syntax (read : Matcher.Reader) (source : Text) :
    (∀ tokens : List Token, tokens.map Token.kind ∈ pathSyntax.matches' ↔
      ∃! written, SpellsPath (tokens.map Token.lexeme) written) ∧
    (∀ locator, compile read source = .ok locator ↔ ∃ tokens written,
      lexer.visible source = .ok tokens ∧ SpellsPath (tokens.map Token.lexeme) written ∧
        List.Forall₂ (Means read) written locator.steps ∧ locator.source = source) ∧
    ∀ e, compile read source = .error e ↔ Refuses read source e := by
  refine ⟨fun tokens => ?_, fun locator => ?_, fun e => ?_⟩
  · rw [← exists_spellsPath_iff]
    constructor
    · rintro ⟨written, hs⟩
      exact ⟨written, hs, fun written' hs' => spellsPath_unique hs' hs⟩
    · rintro ⟨written, hs, -⟩
      exact ⟨written, hs⟩
  · constructor
    · intro h
      rcases hlex : lexer.visible source with e | tokens
      · cases (compile_of_error hlex).symm.trans h
      · by_cases hs : ∃ written, SpellsPath (tokens.map Token.lexeme) written
        · obtain ⟨written, hs⟩ := hs
          exact ⟨tokens, written, rfl, hs, (compile_eq_ok_iff_of_spells hlex hs).mp h⟩
        · cases (compile_of_not_spells hlex hs).symm.trans h
    · rintro ⟨tokens, written, hlex, hs, hmeans⟩
      exact (compile_eq_ok_iff_of_spells hlex hs).mpr hmeans
  · constructor
    · intro h
      rcases hlex : lexer.visible source with e' | tokens
      · obtain rfl := Except.error.inj ((compile_of_error hlex).symm.trans h)
        exact .lex hlex
      · by_cases hs : ∃ written, SpellsPath (tokens.map Token.lexeme) written
        · obtain ⟨written, hs⟩ := hs
          obtain ⟨before, w, after, rfl, hbefore, hoffends⟩ :=
            (compile_eq_error_iff_of_spells hlex hs).mp h
          exact .step hlex hs hbefore hoffends
        · obtain rfl := Except.error.inj ((compile_of_not_spells hlex hs).symm.trans h)
          exact .form hlex fun hform => hs (exists_spellsPath_iff.mpr hform)
    · rintro (hlex | ⟨hlex, hform⟩ | ⟨hlex, hs, hbefore, hoffends⟩)
      · exact compile_of_error hlex
      · exact compile_of_not_spells hlex fun hs => hform (exists_spellsPath_iff.mp hs)
      · exact (compile_eq_error_iff_of_spells hlex hs).mpr
          ⟨_, _, _, rfl, hbefore, hoffends⟩

end Locator

end TaggedOutline
