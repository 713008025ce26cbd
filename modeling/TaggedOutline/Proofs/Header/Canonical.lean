import TaggedOutline.Proofs.Header.Bracket
import TaggedOutline.Proofs.Outline

/-!
# The written form of headers

A header that was read is written in one fixed form.  `parse_headerLine` says that this form stands
for the same header, `description_reads_back` that this holds of whatever text a header was read
from, and `seemsOpen_headerLine` that the scan of a body takes the written line for the head of a
bracket only if it takes the line that was read for one.
-/

namespace TaggedOutline

namespace Header

/-! ## Quoted texts -/

lemma unescape_cons {c : Char} (h : c ≠ '\\') (t : Text) :
    unescape (c :: t) = c :: unescape t := by
  rw [unescape.eq_def]
  split <;> simp_all

/-- Any text can be quoted. -/
lemma unescape_escape (t : Text) : unescape (escape t) = t := by
  induction t with
  | nil => rfl
  | cons c t ih =>
    rw [escape, List.flatMap_cons]
    change unescape (escapeChar c ++ escape t) = _
    unfold escapeChar
    split
    · simp [unescape, ih]
    · simp [unescape, ih]
    · simp [unescape, ih]
    · simp [unescape, ih]
    · rename_i hback _ _
      rw [List.singleton_append, unescape_cons hback, ih]

lemma isQuoted_escape (t : Text) : IsQuoted (escape t) := by
  induction t with
  | nil => exact .nil
  | cons c t ih =>
    rw [escape, List.flatMap_cons]
    change IsQuoted (escapeChar c ++ escape t)
    unfold escapeChar
    split
    · exact .escape (by decide) ih
    · exact .escape (by decide) ih
    · exact .escape (by decide) ih
    · exact .escape (by decide) ih
    · rename_i hquote hback _ _
      exact .plain hquote hback ih

lemma feed_notMem_escape (t : Text) : '\n' ∉ escape t := by
  rw [escape, List.mem_flatMap]
  rintro ⟨c, -, hc⟩
  unfold escapeChar at hc
  split at hc
  · simp at hc
  · simp at hc
  · simp at hc
  · simp at hc
  · rename_i hfeed _
    exact hfeed (List.mem_singleton.mp hc).symm

lemma lexed_quote (t : Text) : Lexed (quote t) [("string", t)] := by
  have h := Lexed.quoted (isQuoted_escape t) .nil
  rwa [unescape_escape] at h

/-! ## Code without blanks at its ends -/

lemma IsCode.trimStart {t : Text} (h : IsCode false t) : IsCode false (Text.trimStart t) := by
  generalize hdeep : false = deep at h
  induction h with
  | nil => exact .nil
  | @plain deep c t hc h ih =>
    subst hdeep
    rw [Text.trimStart]
    by_cases hb : Text.isBlank c = true
    · rw [List.dropWhile_cons_of_pos hb]
      exact ih rfl
    · rw [List.dropWhile_cons_of_neg hb]
      exact .plain hc h
  | enter h =>
    rw [Text.trimStart, List.dropWhile_cons_of_neg (by decide)]
    exact .enter h
  | leave => simp at hdeep

lemma IsCode.trimEnd {deep : Bool} {t : Text} (h : IsCode deep t) :
    IsCode deep (Text.trimEnd t) := by
  induction h with
  | nil => exact .nil
  | @plain deep c t hc _ ih =>
    rw [Text.trimEnd_cons]
    split
    · rename_i hempty
      simp only [Bool.and_eq_true, List.isEmpty_iff] at hempty
      exact hempty.1 ▸ ih
    · exact .plain hc ih
  | enter _ ih =>
    have hb : Text.isBlank '\x7b' = false := by decide
    rw [Text.trimEnd_cons, hb, Bool.and_false]
    exact .enter ih
  | leave _ ih =>
    have hb : Text.isBlank '\x7d' = false := by decide
    rw [Text.trimEnd_cons, hb, Bool.and_false]
    exact .leave ih

@[simp] lemma trim_trim (t : Text) : Text.trim (Text.trim t) = Text.trim t := by
  have hstart : Text.trimStart (Text.trimStart t) = Text.trimStart t :=
    List.dropWhile_idempotent _ t
  calc Text.trim (Text.trim t) = Text.trim (Text.trimStart t) := Text.trim_trimEnd _
    _ = Text.trimEnd (Text.trimStart (Text.trimStart t)) := rfl
    _ = Text.trim t := by rw [hstart]; rfl

lemma mem_of_mem_trim {c : Char} {t : Text} (h : c ∈ Text.trim t) : c ∈ t :=
  (List.dropWhile_suffix _).subset ((Text.trimEnd_isPrefix _).subset h)

lemma IsCode.trim {t : Text} (h : IsCode false t) : IsCode false (Text.trim t) :=
  h.trimStart.trimEnd

/-! ## What lexemes say -/

/-- A lexeme as a text can have it. -/
inductive IsFit : Lexeme → Prop
  | word {c : Char} {w : Text} (hw : ∀ d ∈ c :: w, isWordChar d = true) : IsFit ("word", c :: w)
  | quoted (t : Text) : IsFit ("string", t)
  | mark {c : Char} {kind : String} (hc : marks.lookup c = some kind) : IsFit (kind, [c])
  | code {raw : Text} (hraw : IsCode false raw) : IsFit ("code", Text.trim raw)
  | opening : IsFit ("open_brace", ['\x7b'])
  | comment {raw : Text} (hraw : '\n' ∉ raw) : IsFit ("comment", Text.trim raw)

lemma Lexed.fit {t : Text} {ls : List Lexeme} (h : Lexed t ls) : ∀ l ∈ ls, IsFit l := by
  induction h with
  | nil => simp
  | space _ _ ih => exact ih
  | word hw _ _ ih => exact List.forall_mem_cons.mpr ⟨.word hw, ih⟩
  | quoted _ _ ih => exact List.forall_mem_cons.mpr ⟨.quoted _, ih⟩
  | mark hc _ ih => exact List.forall_mem_cons.mpr ⟨.mark hc, ih⟩
  | code hraw _ ih => exact List.forall_mem_cons.mpr ⟨.code hraw, ih⟩
  | opening _ _ ih => exact List.forall_mem_cons.mpr ⟨.opening, ih⟩
  | comment hraw => exact List.forall_mem_cons.mpr ⟨.comment hraw, by simp⟩

/-- The code in one line is one line. -/
lemma Lexed.feed_notMem_code {t : Text} {ls : List Lexeme} (h : Lexed t ls) (hfeed : '\n' ∉ t) :
    ∀ code, ("code", code) ∈ ls → '\n' ∉ code := by
  induction h with
  | nil => simp
  | space _ _ ih | opening _ _ ih => simpa using ih fun hm => hfeed (List.mem_cons_of_mem _ hm)
  | word _ _ _ ih => simpa using ih fun hm => hfeed (List.mem_append_right _ hm)
  | quoted _ _ ih => simpa using ih fun hm => hfeed (by simp [hm])
  | mark hc _ ih =>
    intro code hcode
    rcases List.mem_cons.mp hcode with he | hcode
    · exact absurd (kind_of_mark hc) (by simp [← (Prod.mk.inj he).1])
    · exact ih (fun hm => hfeed (List.mem_cons_of_mem _ hm)) code hcode
  | code _ _ ih =>
    intro code hcode
    rcases List.mem_cons.mp hcode with he | hcode
    · obtain rfl := (Prod.mk.inj he).2
      exact fun hm => hfeed (by simp [mem_of_mem_trim hm])
    · exact ih (fun hm => hfeed (by simp [hm])) code hcode
  | comment => simp

/-- A text that can be written as a word. -/
def IsWord (t : Text) : Prop := t ≠ [] ∧ ∀ c ∈ t, isWordChar c = true

instance (t : Text) : Decidable (IsWord t) :=
  decidable_of_iff (t ≠ [] ∧ t.all isWordChar = true) (by rw [IsWord, List.all_eq_true])

lemma IsFit.isWord {t : Text} (h : IsFit ("word", t)) : IsWord t := by
  generalize hl : ("word", t) = l at h
  cases h with
  | word hw =>
    obtain rfl : t = _ := (Prod.mk.inj hl).2
    exact ⟨by simp, hw⟩
  | mark hc => exact absurd (kind_of_mark hc) (by simp [← (Prod.mk.inj hl).1])
  | quoted | code | opening | comment => simp at hl

lemma IsFit.exists_code {t : Text} (h : IsFit ("code", t)) :
    ∃ raw, IsCode false raw ∧ t = Text.trim raw := by
  generalize hl : ("code", t) = l at h
  cases h with
  | code hraw => exact ⟨_, hraw, (Prod.mk.inj hl).2⟩
  | mark hc => exact absurd (kind_of_mark hc) (by simp [← (Prod.mk.inj hl).1])
  | word | quoted | opening | comment => simp at hl

lemma IsFit.exists_comment {t : Text} (h : IsFit ("comment", t)) :
    ∃ raw, '\n' ∉ raw ∧ t = Text.trim raw := by
  generalize hl : ("comment", t) = l at h
  cases h with
  | comment hraw => exact ⟨_, hraw, (Prod.mk.inj hl).2⟩
  | mark hc => exact absurd (kind_of_mark hc) (by simp [← (Prod.mk.inj hl).1])
  | word | quoted | code | opening => simp at hl

/-- What the parts of a header that was read are. -/
structure IsWritable (h : Header) : Prop where
  tag : IsWord h.tag
  names : ∀ name ∈ h.names, IsWord name
  params : ∀ key ∈ h.params.keys, IsWord key
  options : ∀ key ∈ h.options.keys, IsWord key
  parser : ∀ name ∈ h.parser, IsWord name
  code : ∀ code ∈ h.inlineCode, ∃ raw, IsCode false raw ∧ code = Text.trim raw
  comment : ∀ comment ∈ h.comment, ∃ raw, '\n' ∉ raw ∧ comment = Text.trim raw

/-- What the parts of a header that was read in one line are. -/
structure IsReadable (h : Header) : Prop extends IsWritable h where
  feed_notMem_code : ∀ code ∈ h.inlineCode, '\n' ∉ code

lemma mem_keys_insert {p : Params} {key value k : Text} (h : k ∈ (p.insert key value).keys) :
    k ∈ p.keys ∨ k = key := by
  rw [Params.keys, Params.insert, Params.keys_setEntry] at h
  split at h
  · exact .inl h
  · exact (List.mem_append.mp h).imp_right List.mem_singleton.mp

lemma exists_of_mem_keys {es : List Entry} {k : Text} (h : k ∈ (ofEntries es).keys) :
    ∃ e ∈ es, e.1 = k := by
  have hgo : ∀ (es : List Entry) (p : Params),
      k ∈ (es.foldl (fun p e => p.insert e.1 (e.2.getD Params.flagValue)) p).keys →
        k ∈ p.keys ∨ ∃ e ∈ es, e.1 = k := by
    intro es
    induction es with
    | nil => exact fun p h => .inl h
    | cons e es ih =>
      intro p hp
      rcases ih _ hp with hp | ⟨e', he', hk⟩
      · rcases mem_keys_insert hp with hp | hp
        · exact .inl hp
        · exact .inr ⟨e, List.mem_cons_self, hp.symm⟩
      · exact .inr ⟨e', List.mem_cons_of_mem _ he', hk⟩
  rcases hgo es .empty h with hp | he
  · simp [Params.keys, Params.empty] at hp
  · exact he

/-! ## The lexemes of the parts -/

section Mem

lemma mem_of_entry {ls : List Lexeme} {e : Entry} (h : SpellsEntry ls e) :
    ("word", e.1) ∈ ls := by
  cases h
  exact List.mem_cons_self

lemma mem_of_each {α : Type} {spells : List Lexeme → α → Prop} {f : α → Lexeme}
    (hmem : ∀ ls a, spells ls a → f a ∈ ls) {ls : List Lexeme} {as : List α}
    (h : SpellsEach spells ls as) : ∀ a ∈ as, f a ∈ ls := by
  induction h with
  | nil => simp
  | cons h _ ih =>
    intro a ha
    rcases List.mem_cons.mp ha with rfl | ha
    · exact List.mem_append_left _ (hmem _ _ h)
    · exact List.mem_append_right _ (ih a ha)

lemma mem_of_next {ls : List Lexeme} {e : Entry} (h : SpellsNext ls e) : ("word", e.1) ∈ ls := by
  cases h with
  | mk _ h => exact List.mem_append_right _ (mem_of_entry h)

lemma mem_of_block {left right : String} {ls : List Lexeme} {p : Option Params}
    (h : SpellsMaybe (SpellsBlock left right) ls p) :
    ∀ key ∈ (p.getD .empty).keys, ("word", key) ∈ ls := by
  intro key hkey
  cases h with
  | absent => simp [Params.keys, Params.empty] at hkey
  | present h =>
    cases h with
    | mk opening closing h =>
      obtain ⟨e, he, rfl⟩ := exists_of_mem_keys hkey
      cases h with
      | absent => simp at he
      | present h =>
        cases h with
        | mk hfirst hmore =>
          refine List.mem_append_left _ (List.mem_cons_of_mem _ ?_)
          rcases List.mem_cons.mp he with rfl | he
          · exact List.mem_append_left _ (mem_of_entry hfirst)
          · exact List.mem_append_right _ (mem_of_each (f := fun e => ("word", e.1))
              (fun _ _ => mem_of_next) hmore e he)

lemma mem_of_maybe {α : Type} {spells : List Lexeme → α → Prop} {f : α → Lexeme}
    (hmem : ∀ ls a, spells ls a → f a ∈ ls) {ls : List Lexeme} {a? : Option α}
    (h : SpellsMaybe spells ls a?) : ∀ a ∈ a?, f a ∈ ls := by
  rintro a rfl
  exact hmem ls a (spellsMaybe_some.mp h)

lemma mem_of_ending {ls : List Lexeme} {ending : Option (Option Text × Bool)}
    (h : SpellsMaybe SpellsEnding ls ending) :
    ∀ code ∈ (ending.getD (none, false)).1, ("code", code) ∈ ls := by
  intro code hcode
  cases h with
  | absent => simp at hcode
  | present h =>
    cases h with
    | opening sign => simp at hcode
    | code t =>
      obtain rfl : t = code := by simpa using hcode
      exact List.mem_cons_self

end Mem

lemma isWritable_of_parse {t : Text} {h : Header} (hparse : parse t = some h) :
    IsWritable h := by
  obtain ⟨ls, hls, hspells⟩ := parse_eq_some_iff.mp hparse
  have hfit := (lexemes_eq_some_iff.mp hls).fit
  obtain @⟨names, params, options, label, parser, ending, comment, h, _, _, _, hnames, hparams,
    hoptions, hlabel, hparser, hending, hcomment, hp, ho, he⟩ := hspells
  simp only [List.mem_cons, List.mem_append] at hfit
  have hone : ∀ kind ls t, SpellsOne kind ls t → (kind, t) ∈ ls := by
    rintro kind _ t rfl
    exact List.mem_cons_self
  refine ⟨?_, ?_, ?_, ?_, ?_, ?_, ?_⟩
  · exact (hfit _ (.inl rfl)).isWord
  · intro name hname
    have hmem := mem_of_each (f := fun name => ("word", name)) (hone "word") hnames name hname
    exact (hfit _ (.inr (.inl hmem))).isWord
  · intro key hkey
    have hmem := mem_of_block hparams key (hp ▸ hkey)
    exact (hfit _ (.inr (.inr (.inl hmem)))).isWord
  · intro key hkey
    have hmem := mem_of_block hoptions key (ho ▸ hkey)
    exact (hfit _ (.inr (.inr (.inr (.inl hmem))))).isWord
  · intro name hname
    have hmem := mem_of_maybe (f := fun name => ("word", name))
      (by rintro _ _ ⟨sign, name⟩; simp) hparser name hname
    exact (hfit _ (.inr (.inr (.inr (.inr (.inr (.inl hmem))))))).isWord
  · intro code hcode
    have hmem := mem_of_ending hending code (he ▸ hcode)
    exact (hfit _ (.inr (.inr (.inr (.inr (.inr (.inr (.inl hmem)))))))).exists_code
  · intro c hc
    have hmem := mem_of_maybe (f := fun t => ("comment", t)) (hone "comment") hcomment c hc
    exact (hfit _ (.inr (.inr (.inr (.inr (.inr (.inr (.inr hmem)))))))).exists_comment

lemma isReadable_of_parse {t : Text} (hfeed : '\n' ∉ t) {h : Header} (hparse : parse t = some h) :
    IsReadable h := by
  refine ⟨isWritable_of_parse hparse, fun code hcode => ?_⟩
  obtain ⟨ls, hls, hspells⟩ := parse_eq_some_iff.mp hparse
  have hlexed := lexemes_eq_some_iff.mp hls
  obtain @⟨_, _, _, _, _, _, _, h, _, _, _, _, _, _, _, _, hending, _, _, _, he⟩ := hspells
  have hmem := mem_of_ending hending code (he ▸ hcode)
  exact hlexed.feed_notMem_code hfeed code (by simp [hmem])

/-! ## Entries -/

lemma join_cons (sep p : Text) (ps : List Text) :
    Text.join sep (p :: ps) = p ++ ps.flatMap (sep ++ ·) := by
  induction ps generalizing p with
  | nil => simp [Text.join, List.intercalate]
  | cons q ps ih =>
    have hstep : Text.join sep (p :: q :: ps) = p ++ sep ++ Text.join sep (q :: ps) := by
      simp [Text.join, List.intercalate]
    rw [hstep, ih, List.flatMap_cons]
    simp

lemma Lexed.of_isWord {t : Text} (h : IsWord t) : Lexed t [("word", t)] := by
  obtain ⟨hne, hw⟩ := h
  cases t with
  | nil => contradiction
  | cons c w => simpa using Lexed.word hw (by simp) .nil

/-- The lexemes of the value of an entry as it is written. -/
def valueLexemes (value : Text) : List Lexeme :=
  if value == Params.flagValue then []
  else if Spec.isBareValue value then [("equals", ['=']), ("word", value)]
  else [("equals", ['=']), ("string", value)]

/-- The lexemes of an entry as it is written. -/
def entryLexemes (e : Text × Text) : List Lexeme := ("word", e.1) :: valueLexemes e.2

/-- An entry as it is read; a flag has no value. -/
def readEntry (e : Text × Text) : Entry :=
  (e.1, if e.2 == Params.flagValue then none else some e.2)

lemma isWord_of_isBareValue {t : Text} (h : Spec.isBareValue t = true) : IsWord t := by
  have hstops : Spec.valueStops = stops := rfl
  simp only [Spec.isBareValue, Bool.and_eq_true, Bool.not_eq_true', List.all_eq_true] at h
  refine ⟨by rintro rfl; simp at h, fun c hc => ?_⟩
  simpa [isWordChar, hstops] using h.2 c hc

lemma lexed_entry {e : Text × Text} (h : IsWord e.1) :
    Lexed (Spec.writeEntry e) (entryLexemes e) := by
  obtain ⟨key, value⟩ := e
  have hkey : Lexed key [("word", key)] := .of_isWord h
  have hvalue : ∀ {t : Text} {l : Lexeme}, Lexed t [l] →
      Lexed (key ++ '=' :: t) [("word", key), ("equals", ['=']), l] := fun {t l} ht =>
    hkey.append (by simp) (.mark (by decide) ht) (by rintro _ ⟨⟩; decide)
  simp only [Spec.writeEntry, entryLexemes, valueLexemes]
  split
  · exact hkey
  · split
    · rename_i hbare
      exact hvalue (.of_isWord (isWord_of_isBareValue hbare))
    · exact hvalue (lexed_quote value)

lemma inner_entryLexemes (e : Text × Text) : ∀ l ∈ entryLexemes e, IsInner l := by
  simp only [entryLexemes, valueLexemes]
  split
  · simp [IsInner]
  · split <;> simp [IsInner]

lemma spells_entry (e : Text × Text) : SpellsEntry (entryLexemes e) (readEntry e) := by
  obtain ⟨key, value⟩ := e
  refine .mk key ?_
  simp only [valueLexemes]
  split
  · exact .absent
  · split
    · exact .present (.word ['='] value)
    · exact .present (.quoted ['='] value)

/-- The lexemes of further entries as they are written. -/
def moreLexemes (es : List (Text × Text)) : List Lexeme :=
  es.flatMap fun e => ("comma", [',']) :: entryLexemes e

lemma inner_moreLexemes (es : List (Text × Text)) : ∀ l ∈ moreLexemes es, IsInner l := by
  intro l hl
  obtain ⟨e, -, hl⟩ := List.mem_flatMap.mp hl
  rcases List.mem_cons.mp hl with rfl | hl
  · simp [IsInner]
  · exact inner_entryLexemes e l hl

lemma lexed_more {es : List (Text × Text)} (h : ∀ e ∈ es, IsWord e.1) :
    Lexed ((es.map Spec.writeEntry).flatMap ([',', ' '] ++ ·)) (moreLexemes es) ∧
      ∀ c ∈ ((es.map Spec.writeEntry).flatMap ([',', ' '] ++ ·)).head?, isWordChar c = false := by
  induction es with
  | nil => exact ⟨.nil, by simp⟩
  | cons e es ih =>
    obtain ⟨hlexed, hhead⟩ := ih fun e' he' => h e' (List.mem_cons_of_mem _ he')
    have hentry := (lexed_entry (h e List.mem_cons_self)).append
      (fun l hl => (kinds_of_inner (inner_entryLexemes e) l hl).2) hlexed hhead
    exact ⟨.mark (by decide) (.space rfl hentry), by rintro _ ⟨⟩; decide⟩

lemma spells_more (es : List (Text × Text)) :
    SpellsEach SpellsNext (moreLexemes es) (es.map readEntry) := by
  induction es with
  | nil => exact .nil
  | cons e es ih =>
    exact .cons (.mk (.present (a := [',']) rfl) (spells_entry e)) ih

lemma setEntry_of_notMem {key : Text} {done : List (Text × Text)}
    (h : key ∉ done.map Prod.fst) (value : Text) :
    Params.setEntry key value done = done ++ [(key, value)] := by
  induction done with
  | nil => rfl
  | cons e done ih =>
    simp only [List.map_cons, List.mem_cons, not_or] at h
    rw [Params.setEntry, if_neg (Ne.symm h.1), ih h.2]
    rfl

lemma getD_readEntry (e : Text × Text) : (readEntry e).2.getD Params.flagValue = e.2 := by
  simp only [readEntry]
  split
  · rename_i he
    exact (eq_of_beq he).symm
  · rfl

/-- Keys that are set in order, each once, are put one behind the other. -/
lemma entries_foldl_readEntry {es done : List (Text × Text)} {q : Params}
    (hq : q.entries = done) (hnodup : ((done ++ es).map Prod.fst).Nodup) :
    ((es.map readEntry).foldl (fun p e => p.insert e.1 (e.2.getD Params.flagValue)) q).entries =
      done ++ es := by
  induction es generalizing done q with
  | nil => simpa using hq
  | cons e es ih =>
    have hkey : e.1 ∉ done.map Prod.fst := by
      intro hm
      rw [List.map_append, List.nodup_append] at hnodup
      exact hnodup.2.2 e.1 hm e.1 (by simp) rfl
    have hinsert : (q.insert e.1 e.2).entries = done ++ [e] := by
      show Params.setEntry e.1 e.2 q.entries = _
      rw [hq]
      exact setEntry_of_notMem hkey e.2
    rw [List.map_cons, List.foldl_cons, getD_readEntry]
    have hrest := ih hinsert (by simpa using hnodup)
    simpa [readEntry] using hrest

/-- Parameters are read back from their entries. -/
lemma ofEntries_readEntry (p : Params) : ofEntries (p.entries.map readEntry) = p := by
  have hall : (ofEntries (p.entries.map readEntry)).entries = p.entries :=
    entries_foldl_readEntry (q := .empty) rfl p.nodup
  obtain ⟨entries, hnodup⟩ := p
  generalize ofEntries (entries.map readEntry) = q at hall
  obtain ⟨entries', hnodup'⟩ := q
  obtain rfl : entries' = entries := hall
  rfl

/-! ## Lists of entries -/

/-- The lexemes of a list of entries as it is written; an empty list is left out. -/
def blockLexemes (left right : String) (opening closing : Char) : List (Text × Text) → List Lexeme
  | [] => []
  | e :: es =>
    (left, [opening]) :: (entryLexemes e ++ moreLexemes es) ++ [(right, [closing])]

/-- A list of entries as it is written. -/
def blockParts (opening closing : Char) (es : List (Text × Text)) : List Text :=
  if es.isEmpty then [] else [opening :: Spec.writeEntries es ++ [closing]]

lemma lexed_block {left right : String} {opening closing : Char}
    (hopening : marks.lookup opening = some left) (hclosing : marks.lookup closing = some right)
    (e : Text × Text) {es : List (Text × Text)} (h : ∀ e' ∈ e :: es, IsWord e'.1) :
    Lexed (opening :: Spec.writeEntries (e :: es) ++ [closing])
      (blockLexemes left right opening closing (e :: es)) := by
  obtain ⟨hmore, hhead⟩ := lexed_more fun e' he' => h e' (List.mem_cons_of_mem _ he')
  have hfirst := lexed_entry (h e List.mem_cons_self)
  have hentries : Lexed (Spec.writeEntries (e :: es)) (entryLexemes e ++ moreLexemes es) := by
    rw [Spec.writeEntries, List.map_cons, join_cons]
    exact hfirst.append (fun l hl => (kinds_of_inner (inner_entryLexemes e) l hl).2) hmore hhead
  have hkinds : ∀ l ∈ entryLexemes e ++ moreLexemes es, l.1 ≠ "open_brace" ∧ l.1 ≠ "comment" := by
    intro l hl
    rcases List.mem_append.mp hl with hl | hl
    · exact (kinds_of_inner (inner_entryLexemes e) l hl).2
    · exact (kinds_of_inner (inner_moreLexemes es) l hl).2
  refine .mark hopening (hentries.append hkinds (.mark hclosing .nil) ?_)
  rintro _ ⟨⟩
  exact not_word_of_lookup hclosing

lemma spells_block (left right : String) (opening closing : Char) (p : Params) :
    ∃ q, SpellsMaybe (SpellsBlock left right)
      (blockLexemes left right opening closing p.entries) q ∧ q.getD .empty = p := by
  have hread := ofEntries_readEntry p
  cases hp : p.entries with
  | nil =>
    rw [hp] at hread
    exact ⟨none, .absent, hread⟩
  | cons e es =>
    rw [hp] at hread
    exact ⟨_, .present (.mk [opening] [closing] (.present (.mk (spells_entry e) (spells_more es)))),
      hread⟩

/-! ## Parts of a line -/

/-- Parts, each behind a space, are cut into some lexemes. -/
def Spaced (ps : List Text) (ls : List Lexeme) : Prop := Lexed (ps.flatMap ([' '] ++ ·)) ls

lemma Spaced.append {ps qs : List Text} {ls ms : List Lexeme} (h : Spaced ps ls)
    (hls : ∀ l ∈ ls, l.1 ≠ "open_brace" ∧ l.1 ≠ "comment") (h' : Spaced qs ms) :
    Spaced (ps ++ qs) (ls ++ ms) := by
  rw [Spaced, List.flatMap_append]
  refine Lexed.append h hls h' ?_
  cases qs with
  | nil => simp
  | cons q qs =>
    rintro _ ⟨⟩
    decide

lemma spaced_single {p : Text} {ls : List Lexeme} (h : Lexed p ls) : Spaced [p] ls := by
  have hspace : Lexed (' ' :: p) ls := .space rfl h
  simpa [Spaced] using hspace

lemma spaced_words {names : List Text} (h : ∀ name ∈ names, IsWord name) :
    Spaced names (names.map fun name => ("word", name)) := by
  induction names with
  | nil => exact .nil
  | cons name names ih =>
    have hfirst := spaced_single (Lexed.of_isWord (h name List.mem_cons_self))
    exact hfirst.append (by simp) (ih fun n hn => h n (List.mem_cons_of_mem _ hn))

lemma spaced_block {left right : String} {opening closing : Char}
    (hopening : marks.lookup opening = some left) (hclosing : marks.lookup closing = some right)
    {es : List (Text × Text)} (h : ∀ e ∈ es, IsWord e.1) :
    Spaced (blockParts opening closing es) (blockLexemes left right opening closing es) := by
  cases es with
  | nil => exact .nil
  | cons e es => exact spaced_single (lexed_block hopening hclosing e h)

lemma spaced_maybe {α : Type} {o : Option α} {f : α → Text} {g : α → List Lexeme}
    (h : ∀ a ∈ o, Lexed (f a) (g a)) : Spaced (o.map f).toList (o.elim [] g) := by
  cases o with
  | none => exact .nil
  | some a => exact spaced_single (h a rfl)

/-! ## Whole lines -/

/-- A description says what a header says. -/
structure Describes (s : Spec) (h : Header) : Prop where
  header : s.header = none
  tag : (if s.suppressed then '!' :: s.tag else s.tag) = h.tag
  names : s.name.toList ++ s.aliases = h.names
  params : s.params = h.params.entries
  options : s.options = h.options.entries
  label : s.label = h.label
  parser : s.parser = h.parser
  inlineCode : s.inlineCode = h.inlineCode
  comment : s.comment = h.comment

/-- The parts of a header line behind the tag and before the code. -/
def innerParts (h : Header) : List Text :=
  h.names ++ blockParts '(' ')' h.params.entries ++ blockParts '[' ']' h.options.entries ++
    (h.label.map quote).toList ++ (h.parser.map fun p => ':' :: p).toList

/-- The code of a header line, behind a space. -/
def codeText (h : Header) : Text :=
  h.inlineCode.elim [] fun c => ' ' :: '\x7b' :: c ++ ['\x7d']

/-- The comment of a header line, behind a space. -/
def commentText (h : Header) : Text := h.comment.elim [] fun c => ' ' :: '#' :: ' ' :: c

/-- The lexemes of a header line before the code. -/
def innerLexemes (h : Header) : List Lexeme :=
  ("word", h.tag) :: ((h.names.map fun name => ("word", name)) ++
    (blockLexemes "lparen" "rparen" '(' ')' h.params.entries ++
      (blockLexemes "lbracket" "rbracket" '[' ']' h.options.entries ++
        (h.label.elim [] (fun t => [("string", t)]) ++
          h.parser.elim [] fun p => [("colon", [':']), ("word", p)]))))

lemma headerLine_eq {s : Spec} {h : Header} (hs : Describes s h) :
    s.headerLine {} =
      h.tag ++ (innerParts h).flatMap ([' '] ++ ·) ++ (codeText h ++ commentText h) := by
  have htag : (if s.suppressed then ({} : Settings).layout.suppressMarker ++ s.tag else s.tag) =
      h.tag := hs.tag
  have hcode : (h.inlineCode.map fun c => '\x7b' :: c ++ ['\x7d']).toList.flatMap ([' '] ++ ·) =
      codeText h := by
    cases hc : h.inlineCode <;> simp [codeText, hc]
  have hcomment : (h.comment.map fun c => '#' :: ' ' :: c).toList.flatMap ([' '] ++ ·) =
      commentText h := by
    cases hc : h.comment <;> simp [commentText, hc]
  rw [Spec.headerLine, hs.header, Option.getD_none, Spec.headerParts, htag, hs.params, hs.options,
    hs.label, hs.parser, hs.inlineCode, hs.comment, List.append_assoc [h.tag], hs.names]
  simp only [List.append_assoc]
  rw [List.singleton_append, List.cons_append, join_cons]
  simp only [innerParts, blockParts, List.flatMap_append, hcode, hcomment, List.append_assoc]
  rfl

lemma inner_blockLexemes {left right : String} {opening closing : Char}
    (hleft : left ∉ ["code", "open_brace", "comment"])
    (hright : right ∉ ["code", "open_brace", "comment"]) (es : List (Text × Text)) :
    ∀ l ∈ blockLexemes left right opening closing es, IsInner l := by
  cases es with
  | nil => simp [blockLexemes]
  | cons e es =>
    intro l hl
    simp only [blockLexemes, List.cons_append, List.mem_cons, List.mem_append, List.not_mem_nil,
      or_false] at hl
    rcases hl with rfl | (hl | hl) | rfl
    · exact hleft
    · exact inner_entryLexemes e l hl
    · exact inner_moreLexemes es l hl
    · exact hright

lemma inner_innerLexemes (h : Header) : ∀ l ∈ innerLexemes h, IsInner l := by
  intro l hl
  simp only [innerLexemes, List.mem_cons, List.mem_append, List.mem_map] at hl
  rcases hl with rfl | ⟨name, -, rfl⟩ | hl | hl | hl | hl
  · simp [IsInner]
  · simp [IsInner]
  · exact inner_blockLexemes (by simp) (by simp) _ l hl
  · exact inner_blockLexemes (by simp) (by simp) _ l hl
  · cases hlabel : h.label with
    | none => simp [hlabel] at hl
    | some t =>
      obtain rfl : l = ("string", t) := by simpa [hlabel] using hl
      simp [IsInner]
  · cases hparser : h.parser with
    | none => simp [hparser] at hl
    | some p =>
      have hl' : l = ("colon", [':']) ∨ l = ("word", p) := by simpa [hparser] using hl
      rcases hl' with rfl | rfl <;> simp [IsInner]

/-- A written header line before the code is cut into its lexemes. -/
lemma lexed_inner {h : Header} (hr : IsWritable h) :
    Lexed (h.tag ++ (innerParts h).flatMap ([' '] ++ ·)) (innerLexemes h) := by
  have hkinds {ls : List Lexeme} (hsub : ∀ l ∈ ls, l ∈ innerLexemes h) :
      ∀ l ∈ ls, l.1 ≠ "open_brace" ∧ l.1 ≠ "comment" :=
    fun l hl => (kinds_of_inner (inner_innerLexemes h) l (hsub l hl)).2
  have hnames := spaced_words hr.names
  have hparams : Spaced _ (blockLexemes "lparen" "rparen" '(' ')' h.params.entries) :=
    spaced_block (by decide) (by decide)
      fun e he => hr.params e.1 (List.mem_map_of_mem (f := Prod.fst) he)
  have hoptions : Spaced _ (blockLexemes "lbracket" "rbracket" '[' ']' h.options.entries) :=
    spaced_block (by decide) (by decide)
      fun e he => hr.options e.1 (List.mem_map_of_mem (f := Prod.fst) he)
  have hlabel : Spaced (h.label.map quote).toList _ := spaced_maybe fun t _ => lexed_quote t
  have hparser : Spaced (h.parser.map fun p => ':' :: p).toList
      (h.parser.elim [] fun p => [("colon", [':']), ("word", p)]) :=
    spaced_maybe fun p hp => .mark (by decide) (.of_isWord (hr.parser p hp))
  have hparts : Spaced (innerParts h) (innerLexemes h).tail := by
    simp only [innerParts, List.append_assoc]
    refine hnames.append (hkinds ?_) (hparams.append (hkinds ?_) (hoptions.append (hkinds ?_)
      (hlabel.append (hkinds ?_) hparser)))
    all_goals
      intro l hl
      simp only [innerLexemes, List.mem_cons, List.mem_append, hl, true_or, or_true]
  refine (Lexed.of_isWord hr.tag).append (by simp) hparts ?_
  cases innerParts h with
  | nil => simp
  | cons p ps =>
    rintro _ ⟨⟩
    decide

/-- The lexemes of the code of a written header line. -/
def codeLexemes (h : Header) : List Lexeme := h.inlineCode.elim [] fun c => [("code", c)]

/-- The lexemes of the comment of a written header line. -/
def commentLexemes (h : Header) : List Lexeme := h.comment.elim [] fun c => [("comment", c)]

lemma spells_commentLexemes (h : Header) :
    SpellsMaybe (SpellsOne "comment") (commentLexemes h) h.comment :=
  spellsMaybe_elim (spellsOne "comment") h.comment

lemma lexed_commentText {h : Header} (hr : IsWritable h) :
    Lexed (commentText h) (commentLexemes h) := by
  unfold commentText commentLexemes
  cases hc : h.comment with
  | none => exact .nil
  | some c =>
    obtain ⟨raw, hraw, rfl⟩ := hr.comment c hc
    have hfeed : '\n' ∉ ' ' :: Text.trim raw := by
      simpa using fun hm => hraw (mem_of_mem_trim hm)
    have hlexed : Lexed ('#' :: ' ' :: Text.trim raw)
        [("comment", Text.trim (' ' :: Text.trim raw))] := .comment hfeed
    have htrim : Text.trim (' ' :: Text.trim raw) = Text.trim raw := trim_trim raw
    rw [htrim] at hlexed
    exact .space rfl hlexed

lemma lexed_end {h : Header} (hr : IsWritable h) :
    Lexed (codeText h ++ commentText h) (codeLexemes h ++ commentLexemes h) := by
  unfold codeText codeLexemes
  cases hc : h.inlineCode with
  | none => exact lexed_commentText hr
  | some c =>
    obtain ⟨raw, hraw, rfl⟩ := hr.code c hc
    have hcode := Lexed.code hraw.trim (lexed_commentText hr)
    rw [trim_trim] at hcode
    simpa using Lexed.space (c := ' ') rfl hcode

/-- A written header line is cut into its lexemes. -/
lemma lexed_headerLine {s : Spec} {h : Header} (hs : Describes s h) (hr : IsWritable h) :
    Lexed (s.headerLine {}) (innerLexemes h ++ (codeLexemes h ++ commentLexemes h)) := by
  rw [headerLine_eq hs]
  refine (lexed_inner hr).append (fun l hl => (kinds_of_inner (inner_innerLexemes h) l hl).2)
    (lexed_end hr) ?_
  unfold codeText commentText
  cases h.inlineCode with
  | some c =>
    rintro _ ⟨⟩
    decide
  | none =>
    cases h.comment with
    | none => simp
    | some c =>
      rintro _ ⟨⟩
      decide

/-- The lexemes of a written header line spell the header without its bracket. -/
lemma spells_headerLine (h : Header) :
    Spells (innerLexemes h ++ (codeLexemes h ++ commentLexemes h)) { h with bracket := false } := by
  obtain ⟨params, hparams, hp⟩ := spells_block "lparen" "rparen" '(' ')' h.params
  obtain ⟨options, hoptions, ho⟩ := spells_block "lbracket" "rbracket" '[' ']' h.options
  have hnames : SpellsEach (SpellsOne "word") (h.names.map fun name => ("word", name)) h.names := by
    induction h.names with
    | nil => exact .nil
    | cons name names ih => exact .cons (spellsOne "word" name) ih
  have hlabel : SpellsMaybe (SpellsOne "string") (h.label.elim [] fun t => [("string", t)])
      h.label := spellsMaybe_elim (spellsOne "string") h.label
  have hparser : SpellsMaybe SpellsParser
      (h.parser.elim [] fun p => [("colon", [':']), ("word", p)]) h.parser :=
    spellsMaybe_elim (fun p => .mk [':'] p) h.parser
  have hcomment := spells_commentLexemes h
  have hending : SpellsMaybe SpellsEnding (codeLexemes h)
      (h.inlineCode.map fun c => (some c, false)) := by
    unfold codeLexemes
    cases h.inlineCode with
    | none => exact .absent
    | some c => exact .present (.code c)
  have he : (h.inlineCode, false) =
      (h.inlineCode.map fun c => (some c, false)).getD (none, false) := by
    cases h.inlineCode <;> rfl
  have hall := Spells.mk (h := { h with bracket := false }) hnames hparams hoptions hlabel hparser
    hending hcomment hp.symm ho.symm he
  simpa [innerLexemes] using hall

/-- A written header line stands for the header without its bracket. -/
theorem parse_headerLine {s : Spec} {h : Header} (hs : Describes s h) (hr : IsWritable h) :
    parse (s.headerLine {}) = some { h with bracket := false } :=
  parse_eq_some_iff.mpr
    ⟨_, lexemes_eq_some_iff.mpr (lexed_headerLine hs hr), spells_headerLine h⟩

/-- The description of an element of which nothing is known but a header; a bracket is no part of
the header line. -/
def description (h : Header) : Spec where
  tag := h.tag
  name := h.names.head?
  aliases := h.names.tail
  params := h.params.entries
  options := h.options.entries
  label := h.label
  parser := h.parser
  inlineCode := h.inlineCode
  comment := h.comment

lemma names_eq (h : Header) : h.names.head?.toList ++ h.names.tail = h.names := by
  cases h.names <;> rfl

lemma describes_description (h : Header) : Describes h.description h where
  header := rfl
  tag := rfl
  names := names_eq h
  params := rfl
  options := rfl
  label := rfl
  parser := rfl
  inlineCode := rfl
  comment := rfl

/-- The settings count in a header line for the marker of a suppressed element only. -/
lemma headerLine_of_not_suppressed {s : Spec} (hs : s.suppressed = false) (st : Settings) :
    s.headerLine st = s.headerLine {} := by
  simp only [Spec.headerLine, Spec.headerParts, hs, Bool.false_eq_true, if_false]

/-- A header that was read can be written, whatever the text it was read from: the written line is
read as the same header without its bracket, and what is read of it is written in the same way. -/
theorem description_reads_back {line : Text} {h : Header} (hparse : parse line = some h)
    (st : Settings) :
    parse (h.description.headerLine st) = some { h with bracket := false } ∧
      ∀ h', parse (h.description.headerLine st) = some h' →
        h'.description.headerLine st = h.description.headerLine st := by
  have hagain : parse (h.description.headerLine st) = some { h with bracket := false } := by
    rw [headerLine_of_not_suppressed rfl st]
    exact parse_headerLine (describes_description h) (isWritable_of_parse hparse)
  refine ⟨hagain, fun h' hparse' => ?_⟩
  obtain rfl : { h with bracket := false } = h' := Option.some.inj (hagain.symm.trans hparse')
  rfl

/-- A key that is set again, a value that needs quotes, a flag, and code over two lines. -/
theorem description_reads_back_in_sample :
    let line := "a (k=\"#\" yes, k=v, e=\"\") \x7b x \x7by\n\x7d \x7d #  c ".toList
    ∃ h, parse line = some h ∧
      h.description.headerLine {} =
        "a (k=v, yes, e=\"\") \x7bx \x7by\n\x7d\x7d # c".toList ∧
      parse (h.description.headerLine {}) = some { h with bracket := false } := by
  intro line
  have hwritten : (parse line).map (fun h => h.description.headerLine {}) =
      some "a (k=v, yes, e=\"\") \x7bx \x7by\n\x7d\x7d # c".toList := by
    decide +kernel
  obtain ⟨h, hparse, hline⟩ := Option.map_eq_some_iff.mp hwritten
  exact ⟨h, hparse, hline, (description_reads_back hparse {}).1⟩

/-! ## Descriptions of headers -/

lemma rawTag_of_parse {t : Text} {h : Header} (hparse : parse t = some h)
    (hhead : ∀ c ∈ t.head?, Layout.isIndent c = false) : Node.rawTag t = h.tag := by
  obtain ⟨c, w, rest, htag, hw, rfl, hrest⟩ := exists_tag_of_parse hparse hhead
  change (c :: w ++ rest).takeWhile isWordChar = _
  rw [takeWhile_run hw hrest, htag]

/-- A marker that was split off stands before the tag. -/
lemma splitMarker_eq {marker raw tag : Text} {suppressed : Bool}
    (h : splitMarker marker raw = (tag, suppressed)) :
    (if suppressed then marker ++ tag else tag) = raw := by
  rw [splitMarker] at h
  split at h
  · obtain ⟨rfl, rfl⟩ := Prod.mk.inj h
    rfl
  · split at h
    · next c rest hprefix =>
      obtain ⟨rfl, rfl⟩ := Prod.mk.inj h
      exact List.append_eq_of_isPrefixOf?_eq_some hprefix
    · obtain ⟨rfl, rfl⟩ := Prod.mk.inj h
      rfl

/-- The description of a header that was read. -/
lemma describes_ofHeader {t : Text} {h : Header} (hparse : parse t = some h)
    (hhead : ∀ c ∈ t.head?, Layout.isIndent c = false) (bracket : Bool) :
    Describes (Spec.ofHeader {} t bracket) h := by
  have htag := splitMarker_eq (Eq.refl (splitMarker ['!'] (Node.rawTag t)))
  rw [rawTag_of_parse hparse hhead] at htag
  unfold Spec.ofHeader Spec.withHeader
  simp only [rawTag_of_parse hparse hhead, hparse]
  exact ⟨rfl, htag, names_eq h, rfl, rfl, rfl, rfl, rfl, rfl⟩

/-- A header that cannot be read is kept. -/
lemma header_ofHeader {t : Text} (hparse : parse t = none) (bracket : Bool) :
    (Spec.ofHeader {} t bracket).header = some t ∧
      (Spec.ofHeader {} t bracket).hasBracket = bracket := by
  unfold Spec.ofHeader Spec.withHeader
  simp only [hparse]
  exact ⟨trivial, Bool.and_true bracket⟩

lemma hasBracket_ofHeader {t : Text} {h : Header} (hparse : parse t = some h) (bracket : Bool) :
    (Spec.ofHeader {} t bracket).hasBracket =
      ((bracket || h.bracket) && h.inlineCode.isNone) := by
  unfold Spec.ofHeader Spec.withHeader Spec.hasBracket
  simp only [hparse]

/-- Two lines that stand for one header have one description. -/
lemma ofHeader_congr {t t' : Text} {h : Header} (hparse : parse t = some h)
    (hparse' : parse t' = some h) (hhead : ∀ c ∈ t.head?, Layout.isIndent c = false)
    (hhead' : ∀ c ∈ t'.head?, Layout.isIndent c = false) (bracket : Bool) :
    Spec.ofHeader {} t bracket = Spec.ofHeader {} t' bracket := by
  unfold Spec.ofHeader Spec.withHeader
  simp only [rawTag_of_parse hparse hhead, rawTag_of_parse hparse' hhead', hparse, hparse']

/-! ## Lines without feeds -/

lemma feed_notMem_of_isWord {t : Text} (h : IsWord t) : '\n' ∉ t := fun hm => by
  have hnot : isWordChar '\n' = false := by decide
  simp [h.2 _ hm] at hnot

lemma feed_notMem_quote (t : Text) : '\n' ∉ quote t := by
  simp [quote, feed_notMem_escape]

lemma feed_notMem_writeEntry {e : Text × Text} (h : IsWord e.1) :
    '\n' ∉ Spec.writeEntry e := by
  obtain ⟨key, value⟩ := e
  have hkey := feed_notMem_of_isWord h
  simp only [Spec.writeEntry]
  split
  · exact hkey
  · split
    · rename_i hbare
      simp [hkey, feed_notMem_of_isWord (isWord_of_isBareValue hbare)]
    · simp [hkey, feed_notMem_quote]

lemma feed_notMem_blockParts {opening closing : Char} (hopening : '\n' ≠ opening)
    (hclosing : '\n' ≠ closing) {es : List (Text × Text)} (h : ∀ e ∈ es, IsWord e.1) :
    ∀ p ∈ blockParts opening closing es, '\n' ∉ p := by
  unfold blockParts
  split
  · simp
  · intro p hp
    obtain rfl := List.mem_singleton.mp hp
    have hentries : '\n' ∉ Spec.writeEntries es := by
      cases es with
      | nil => simp [Spec.writeEntries, Text.join, List.intercalate]
      | cons e es =>
        have hfirst := feed_notMem_writeEntry (h e List.mem_cons_self)
        have hmore : ∀ a b, (a, b) ∈ es → '\n' ∉ Spec.writeEntry (a, b) := fun a b he =>
          feed_notMem_writeEntry (h (a, b) (List.mem_cons_of_mem _ he))
        rw [Spec.writeEntries, List.map_cons, join_cons]
        simpa [hfirst, List.mem_flatMap] using hmore
    simp [hopening, hclosing, hentries]

lemma feed_notMem_headerLine {s : Spec} {h : Header} (hs : Describes s h) (hr : IsReadable h) :
    '\n' ∉ s.headerLine {} := by
  have hparts : ∀ p ∈ innerParts h, '\n' ∉ p := by
    intro p hp
    simp only [innerParts, List.mem_append] at hp
    rcases hp with (((hp | hp) | hp) | hp) | hp
    · exact feed_notMem_of_isWord (hr.names p hp)
    · exact feed_notMem_blockParts (by decide) (by decide)
        (fun e he => hr.params e.1 (List.mem_map_of_mem (f := Prod.fst) he)) p hp
    · exact feed_notMem_blockParts (by decide) (by decide)
        (fun e he => hr.options e.1 (List.mem_map_of_mem (f := Prod.fst) he)) p hp
    · obtain ⟨t, -, rfl⟩ := Option.map_eq_some_iff.mp (Option.mem_toList.mp hp)
      exact feed_notMem_quote t
    · obtain ⟨name, hname, rfl⟩ := Option.map_eq_some_iff.mp (Option.mem_toList.mp hp)
      simpa using feed_notMem_of_isWord (hr.parser name hname)
  have hcode : '\n' ∉ codeText h := by
    unfold codeText
    cases hc : h.inlineCode with
    | none => simp
    | some c => simpa using hr.feed_notMem_code c hc
  have hcomment : '\n' ∉ commentText h := by
    unfold commentText
    cases hc : h.comment with
    | none => simp
    | some c =>
      obtain ⟨raw, hraw, rfl⟩ := hr.comment c hc
      simpa using fun hm => hraw (mem_of_mem_trim hm)
  rw [headerLine_eq hs]
  simp only [List.mem_append, List.mem_flatMap, not_or, not_exists, not_and]
  exact ⟨⟨feed_notMem_of_isWord hr.tag, fun p hp => ⟨by simp, hparts p hp⟩⟩, hcode, hcomment⟩

/-! ## The scan of written lines -/

lemma lastSeen_blank {c : Char} (hc : Text.isBlank c = true) (quoted escaped : Bool) (t : Text) :
    lastSeen quoted escaped (c :: t) = lastSeen quoted false t := by
  have hne : ∀ d, Text.isBlank d = false → (c == d) = false := by
    intro d hd
    rw [beq_eq_false_iff_ne]
    rintro rfl
    simp [hc] at hd
  have hsign := hne '#' (by decide)
  have hquote := hne '"' (by decide)
  have hback := hne '\\' (by decide)
  have hafter : afterChar quoted escaped c = (quoted, false) := by
    cases escaped <;> simp [afterChar, hquote, hback]
  rw [lastSeen_cons (by simp [hsign]), hafter, if_pos hc, Option.or_none]

lemma lastSeen_blanks {blanks : Text} (h : ∀ c ∈ blanks, Text.isBlank c = true) (quoted : Bool)
    (t : Text) : lastSeen quoted false (blanks ++ t) = lastSeen quoted false t := by
  induction blanks with
  | nil => rfl
  | cons c blanks ih =>
    rw [List.cons_append, lastSeen_blank (h c List.mem_cons_self),
      ih fun d hd => h d (List.mem_cons_of_mem _ hd)]

lemma lastSeen_trim (quoted : Bool) (t : Text) :
    lastSeen quoted false (Text.trim t) = lastSeen quoted false t := by
  rw [Text.trim, lastSeen_trimEnd, Text.trimStart]
  conv_rhs => rw [← List.takeWhile_append_dropWhile (p := Text.isBlank) (l := t)]
  exact (lastSeen_blanks (fun c hc => List.mem_takeWhile_imp hc) quoted _).symm

/-- Blanks before the end of code do not matter. -/
lemma lastSeen_closing {blanks : Text} (h : ∀ c ∈ blanks, Text.isBlank c = true)
    (quoted escaped : Bool) (t : Text) :
    lastSeen quoted escaped (blanks ++ '\x7d' :: t) = lastSeen quoted escaped ('\x7d' :: t) := by
  have hclosing (escaped : Bool) : lastSeen quoted escaped ('\x7d' :: t) =
      (lastSeen quoted false t).or (some '\x7d') := by
    have hafter : afterChar quoted escaped '\x7d' = (quoted, false) := by
      cases escaped <;> simp [afterChar]
    rw [lastSeen_cons (by simp), hafter, if_neg (by decide)]
  cases blanks with
  | nil => rfl
  | cons c blanks =>
    rw [List.cons_append, lastSeen_blank (h c List.mem_cons_self),
      lastSeen_blanks fun d hd => h d (List.mem_cons_of_mem _ hd), hclosing, hclosing]

/-- A number sign hides what is behind it, except in quotes. -/
lemma lastSeen_hidden {blanks : Text} (h : ∀ c ∈ blanks, Text.isBlank c = true)
    {quoted escaped : Bool} (hstate : escaped = true → quoted = true) (t : Text) :
    lastSeen quoted escaped (blanks ++ '#' :: t) =
      if quoted then (lastSeen true false t).or (some '#') else none := by
  have hsign {escaped : Bool} (hstate : escaped = true → quoted = true) :
      lastSeen quoted escaped ('#' :: t) =
        if quoted then (lastSeen true false t).or (some '#') else none := by
    cases hquoted : quoted with
    | false =>
      obtain rfl : escaped = false := by
        cases escaped with
        | false => rfl
        | true => simp [hstate rfl] at hquoted
      exact lastSeen_sign t
    | true =>
      have hafter : afterChar true escaped '#' = (true, false) := by
        cases escaped <;> simp [afterChar]
      rw [lastSeen_cons (by simp), hafter, if_neg (by decide), if_pos rfl]
  cases blanks with
  | nil => exact hsign hstate
  | cons c blanks =>
    rw [List.cons_append, lastSeen_blank (h c List.mem_cons_self),
      lastSeen_blanks fun d hd => h d (List.mem_cons_of_mem _ hd)]
    exact hsign (by simp)

/-- What the scan sees last depends on the end of a line alone, in every state that it can reach. -/
lemma lastSeen_congr {t t' : Text}
    (h : ∀ quoted escaped, (escaped = true → quoted = true) →
      lastSeen quoted escaped t = lastSeen quoted escaped t')
    (before : Text) {quoted escaped : Bool} (hstate : escaped = true → quoted = true) :
    lastSeen quoted escaped (before ++ t) = lastSeen quoted escaped (before ++ t') := by
  induction before generalizing quoted escaped with
  | nil => exact h quoted escaped hstate
  | cons c before ih =>
    cases hsign : !escaped && !quoted && c == '#' with
    | true =>
      simp only [Bool.and_eq_true, Bool.not_eq_true', beq_iff_eq] at hsign
      obtain ⟨⟨rfl, rfl⟩, rfl⟩ := hsign
      rw [List.cons_append, List.cons_append, lastSeen_sign, lastSeen_sign]
    | false =>
      rw [List.cons_append, List.cons_append, lastSeen_cons hsign, lastSeen_cons hsign,
        ih (afterChar_state quoted escaped c)]

/-- Before code the scan sees no bracket. -/
lemma Lexed.lastSeen_append {x : Text} {inner : List Lexeme} (hx : Lexed x inner)
    (hinner : ∀ l ∈ inner, IsInner l) {sp : Text} (hsp : ∀ c ∈ sp, Layout.isIndent c = true)
    (t : Text) :
    lastSeen false false (x ++ (sp ++ '\x7b' :: t)) = lastSeen false false ('\x7b' :: t) := by
  have hbrace := cutComment_cons (c := '\x7b') (by decide) (by decide) t
  have hcut := hx.cutComment_append (fun l hl =>
    ⟨(kinds_of_inner hinner l hl).1, (kinds_of_inner hinner l hl).2.2⟩) (sp ++ '\x7b' :: t)
  rw [cutComment_indent hsp, hbrace] at hcut
  have hlast (before s : Text) :
      (Text.trimEnd (before ++ '\x7b' :: s)).getLast? = ('\x7b' :: Text.trimEnd s).getLast? := by
    rw [Text.trimEnd_append_cons _ (by decide), List.getLast?_append, List.getLast?_cons]
    rfl
  rw [lastSeen, lastSeen]
  change (Text.trimEnd (cutComment _).1).getLast? = (Text.trimEnd (cutComment _).1).getLast?
  rw [hcut, hbrace]
  change (Text.trimEnd (x ++ (sp ++ '\x7b' :: (cutComment t).1))).getLast? = _
  rw [← List.append_assoc, hlast, ← hlast [] (cutComment t).1]
  rfl

/-- A comment hides as much where it was read as where it is written. -/
lemma lastSeen_commentText {h : Header} {z : Text} {ls : List Lexeme} (hz : Lexed z ls)
    (hs : SpellsMaybe (SpellsOne "comment") ls h.comment) {quoted escaped : Bool}
    (hstate : escaped = true → quoted = true) :
    lastSeen quoted escaped z = lastSeen quoted escaped (commentText h) := by
  unfold commentText
  generalize h.comment = comment at hs
  cases hs with
  | absent =>
    have hblank : Text.trimEnd z = [] := by
      simpa using Text.trimEnd_append_of_blank (t := [])
        fun c hc => Layout.isBlank_of_isIndent (hz.all_indent c hc)
    rw [← lastSeen_trimEnd, hblank]
    rfl
  | @present _ c hs =>
    obtain rfl := hs
    obtain ⟨sp, rest, rfl, hsp, hrest, hhead⟩ := hz.split_indent
    obtain ⟨raw, rfl, -, rfl⟩ := hrest.comment_inv hhead
    have hwritten : lastSeen true false (' ' :: Text.trim raw) = lastSeen true false raw := by
      rw [lastSeen_blank (by decide), lastSeen_trim]
    rw [lastSeen_hidden (fun c hc => Layout.isBlank_of_isIndent (hsp c hc)) hstate]
    show _ = lastSeen quoted escaped ([' '] ++ '#' :: ' ' :: Text.trim raw)
    rw [lastSeen_hidden (by simp [Text.isBlank]) hstate, hwritten]

/-- The scan takes a written header line for the head of a bracket only if the header has code and
the line that was read is taken for one. -/
theorem seemsOpen_headerLine {t : Text} {h : Header} (hparse : parse t = some h) {s : Spec}
    (hs : Describes s h) (hr : IsWritable h) :
    seemsOpen (s.headerLine {}) = (seemsOpen t && h.inlineCode.isSome) := by
  cases hcode : h.inlineCode with
  | none =>
    rw [seemsOpen_eq_false (parse_headerLine hs hr) hcode rfl, Option.isSome_none, Bool.and_false]
  | some code =>
    obtain ⟨ls, hls, hspells⟩ := parse_eq_some_iff.mp hparse
    obtain ⟨inner, ending, comment, ending?, rfl, hinner, -, hending, he, hcomment, -⟩ :=
      hspells.split
    obtain ⟨x, y, rfl, hx, hy⟩ := (lexemes_eq_some_iff.mp hls).split
    rw [hcode] at he
    cases hending with
    | absent => simp at he
    | present hending =>
      cases hending with
      | opening sign => simp at he
      | code text =>
        obtain rfl : code = text := by simpa using (Prod.mk.inj he).1
        obtain ⟨sp, rest, rfl, hsp, hrest, hhead⟩ := hy.split_indent
        obtain ⟨raw, z, rfl, rfl, hz⟩ := hrest.code_inv hhead
        have hcomment' (quoted escaped : Bool) (hstate : escaped = true → quoted = true) :
            lastSeen quoted escaped ('\x7d' :: z) =
              lastSeen quoted escaped ('\x7d' :: commentText h) :=
          lastSeen_congr (fun _ _ => lastSeen_commentText hz hcomment) ['\x7d'] hstate
        have hcode' : lastSeen false false (raw ++ '\x7d' :: z) =
            lastSeen false false (Text.trim raw ++ '\x7d' :: commentText h) := by
          obtain ⟨trail, htrail, hraw⟩ := Text.exists_append_trimEnd (Text.trimStart raw)
          calc lastSeen false false (raw ++ '\x7d' :: z)
              = lastSeen false false (Text.trimStart raw ++ '\x7d' :: z) := by
                conv_lhs => rw [← List.takeWhile_append_dropWhile (p := Text.isBlank) (l := raw)]
                rw [List.append_assoc]
                exact lastSeen_blanks (fun c hc => List.mem_takeWhile_imp hc) false _
            _ = lastSeen false false (Text.trim raw ++ (trail ++ '\x7d' :: z)) := by
                rw [← List.append_assoc]
                exact congrArg (fun s => lastSeen false false (s ++ '\x7d' :: z)) hraw
            _ = lastSeen false false (Text.trim raw ++ '\x7d' :: z) :=
                lastSeen_congr (fun q e _ => lastSeen_closing htrail q e z) _ (by simp)
            _ = lastSeen false false (Text.trim raw ++ '\x7d' :: commentText h) :=
                lastSeen_congr hcomment' _ (by simp)
        have hopening (s : Text) : lastSeen false false ('\x7b' :: s) =
            (lastSeen false false s).or (some '\x7b') := lastSeen_cons rfl s
        have hread := hx.lastSeen_append hinner hsp (raw ++ '\x7d' :: z)
        have hspace : ∀ c ∈ [' '], Layout.isIndent c = true := by simp [Layout.isIndent]
        have hwritten := (lexed_inner hr).lastSeen_append (inner_innerLexemes h) hspace
          (Text.trim raw ++ '\x7d' :: commentText h)
        have hline : s.headerLine {} = h.tag ++ (innerParts h).flatMap ([' '] ++ ·) ++
            ([' '] ++ '\x7b' :: (Text.trim raw ++ '\x7d' :: commentText h)) := by
          rw [headerLine_eq hs]
          simp [codeText, hcode]
        rw [hline, seemsOpen, hwritten, seemsOpen, List.cons_append, hread, hopening, hopening,
          hcode', Option.isSome_some, Bool.and_true]

/-! ## Rows of written header lines -/

open Body (bracketHeader? isStray)

/-- A row that is the head of an element without a bracket, with the description of its header. -/
structure Heads (r : Row) (s : Spec) : Prop where
  indent : r.indent = 0
  clean : r.Clean
  stray : isStray {} r = false
  plain : bracketHeader? {} r.line = none
  spec : Spec.ofHeader {} r.content false = s

lemma ofText_of_bare {t : Text} (h : ∀ c ∈ t.head?, Layout.isIndent c = false) :
    (Row.ofText 4 t).indent = 0 := by
  have htake : t.takeWhile Layout.isIndent = [] := takeWhile_run (w := []) (by simp) h
  rw [Row.ofText]
  simp [htake, Layout.columns]

lemma ofText_content {r : Row} (h : r.Clean) : Row.ofText 4 r.content = ⟨0, r.content⟩ :=
  Row.ofText_text 4 h.content

/-- A written header line is bare of indentation. -/
lemma bare_headerLine {s : Spec} {h : Header} (hs : Describes s h) (hr : IsWritable h) :
    ∀ c ∈ (s.headerLine {}).head?, Layout.isIndent c = false := by
  obtain ⟨hne, hw⟩ := hr.tag
  rw [headerLine_eq hs]
  cases htag : h.tag with
  | nil => exact absurd htag hne
  | cons c w =>
    rintro _ ⟨⟩
    exact not_indent_of_word (hw c (htag ▸ List.mem_cons_self))

/-- The header of an element without a bracket is written as the head of such an element. -/
lemma heads_openingLine {r : Row} (hclean : r.Clean) (hstray : isStray {} r = false)
    (hplain : bracketHeader? {} r.line = none) :
    (Spec.ofHeader {} r.content false).hasBracket = false ∧
      '\n' ∉ (Spec.ofHeader {} r.content false).openingLine {} ∧
      Heads (Row.ofText 4 ((Spec.ofHeader {} r.content false).openingLine {}))
        (Spec.ofHeader {} r.content false) := by
  have hflush : bracketHeader? {} (⟨0, r.content⟩ : Row).line = none :=
    (Body.bracketHeader?_congr {} rfl).trans hplain
  cases hparse : parse r.content with
  -- what is no header is written as it stands
  | none =>
    obtain ⟨hheader, hbracket⟩ := header_ofHeader hparse false
    have hline : (Spec.ofHeader {} r.content false).openingLine {} = r.content := by
      rw [Spec.openingLine, hbracket, Spec.headerLine, hheader]
      rfl
    rw [hline, ofText_content hclean]
    exact ⟨hbracket, hclean.noFeed, rfl, hclean.content, hstray, hflush, rfl⟩
  | some h =>
    have hsays := describes_ofHeader hparse hclean.bare false
    have hr := isReadable_of_parse hclean.noFeed hparse
    have hw := hr.toIsWritable
    have hseems : seemsOpen r.content = false := by
      rw [← isSome_bracketHeader? hclean.noFeed hparse, ofText_content hclean, hflush]
      rfl
    -- a header with a bracket would have opened one
    have hnot : h.bracket = false := by
      cases hbracket : h.bracket with
      | false => rfl
      | true =>
        obtain ⟨header, hheader, -⟩ := exists_header_of_opening hclean.noFeed hparse hbracket
        rw [ofText_content hclean, hflush] at hheader
        simp at hheader
    have hbracket : (Spec.ofHeader {} r.content false).hasBracket = false := by
      rw [hasBracket_ofHeader hparse, hnot]
      rfl
    have hline : (Spec.ofHeader {} r.content false).openingLine {} =
        (Spec.ofHeader {} r.content false).headerLine {} := by
      rw [Spec.openingLine, hbracket]
      rfl
    have hwritten := parse_headerLine hsays hw
    have hsame : { h with bracket := false } = h := by
      cases h
      simp_all
    rw [hsame] at hwritten
    have hfeed := feed_notMem_headerLine hsays hr
    have hopen := isSome_bracketHeader? hfeed hwritten
    rw [seemsOpen_headerLine hparse hsays hw, hseems] at hopen
    rw [hline]
    exact ⟨hbracket, hfeed, ofText_of_bare (bare_headerLine hsays hw), Row.clean_ofText 4 hfeed,
      (not_stray_of_parse hfeed hwritten).2, by simpa using hopen,
      ofHeader_congr (parse_content hwritten) hparse (Row.clean_ofText 4 hfeed).bare hclean.bare
        false⟩

end Header

end TaggedOutline
