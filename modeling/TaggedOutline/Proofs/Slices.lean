import Mathlib.Data.Nat.PSub
import TaggedOutline.Pattern.Reader
import TaggedOutline.Proofs.Locator.Lexemes
import TaggedOutline.Proofs.Tiling

/-!
# Slices

The lexers of the library cut lists, where nothing can go wrong.  A program that holds its text in
bytes goes by offsets, and an offset may be too large, may be in the middle of a character, or may
come before the place it is counted from.  `Checked` readings go by offsets and have no result where
one of them is wrong.

What a rule of the header lexer or of the path lexer matches is as long as its transform takes for
granted, and is delimited as the transform takes for granted (`LexRule.Delimits`).  So the checked
reading of every text has a result, and it is that of the lexer (`Lexer.tokensFrom_zero`).
-/

namespace TaggedOutline

/-- A computation with offsets and places, which has no result where one of them is out of range. -/
abbrev Checked : Type → Type := Option

/-! ## Texts -/

namespace Text

/-- The parts of a text before and behind a byte offset, which has to be between two characters. -/
def cutAt : Text → Nat → Checked (Text × Text)
  | t, 0 => some ([], t)
  | [], _ + 1 => none
  | c :: t, n + 1 => do
    let left ← (n + 1).psub c.utf8Size
    let (before, behind) ← cutAt t left
    return (c :: before, behind)

/-- The part of a text from one byte offset to another one that is not smaller. -/
def slice (t : Text) (start stop : Nat) : Checked Text := do
  let (_, behind) ← t.cutAt start
  let size ← stop.psub start
  let (cut, _) ← behind.cutAt size
  return cut

/-- The part of a text from a byte offset on. -/
def sliceFrom (t : Text) (start : Nat) : Checked Text := t.slice start t.byteSize

/-- The part of a text from its second byte to its last one. -/
def inner (t : Text) : Checked Text := do
  let stop ← t.byteSize.ppred
  t.slice 1 stop

variable {t before behind w : Text} {n start stop : Nat}

lemma cutAt_eq_some_iff :
    t.cutAt n = some (before, behind) ↔ t = before ++ behind ∧ n = byteSize before := by
  induction t, n using cutAt.induct generalizing before with
  | case1 t =>
    rw [cutAt, Option.some.injEq, Prod.mk.injEq]
    constructor
    · rintro ⟨rfl, rfl⟩
      exact ⟨rfl, rfl⟩
    · rintro ⟨rfl, hsize⟩
      obtain rfl : before = [] := by_contra fun hne => (byteSize_pos hne).ne hsize
      exact ⟨rfl, rfl⟩
  | case2 n =>
    simp only [cutAt, reduceCtorEq, false_iff, not_and]
    intro hnil hsize
    rw [(List.append_eq_nil_iff.mp hnil.symm).1] at hsize
    cases hsize
  | case3 c t n ih =>
    simp only [cutAt, Option.bind_eq_bind, Option.bind_eq_some_iff, Nat.psub_eq_some, Prod.exists,
      Option.pure_def, Option.some.injEq, Prod.mk.injEq]
    constructor
    · rintro ⟨left, hleft, before', _, hcut, rfl, rfl⟩
      obtain ⟨rfl, rfl⟩ := ih left |>.mp hcut
      exact ⟨rfl, by rw [byteSize_cons]; omega⟩
    · rintro ⟨ht, hsize⟩
      cases before with
      | nil => cases hsize
      | cons d before =>
        obtain ⟨rfl, rfl⟩ := List.cons.inj ht
        rw [byteSize_cons] at hsize
        exact ⟨byteSize before, by omega, before, behind, ih _ |>.mpr ⟨rfl, rfl⟩, rfl, rfl⟩

lemma slice_eq_some_iff :
    t.slice start stop = some w ↔ ∃ before behind, t = before ++ (w ++ behind) ∧
      start = byteSize before ∧ stop = start + byteSize w := by
  simp only [slice, Option.bind_eq_bind, Option.bind_eq_some_iff, Nat.psub_eq_some, Prod.exists,
    Option.pure_def, Option.some.injEq, cutAt_eq_some_iff]
  constructor
  · rintro ⟨before, _, ⟨rfl, rfl⟩, size, hsize, _, behind, ⟨rfl, rfl⟩, rfl⟩
    exact ⟨before, behind, rfl, rfl, by omega⟩
  · rintro ⟨before, behind, rfl, rfl, rfl⟩
    exact ⟨before, _, ⟨rfl, rfl⟩, _, Nat.add_comm .., w, behind, ⟨rfl, rfl⟩, rfl⟩

lemma sliceFrom_append (before t : Text) :
    (before ++ t).sliceFrom (byteSize before) = some t :=
  slice_eq_some_iff.mpr ⟨before, [], by rw [List.append_nil], rfl, byteSize_append ..⟩

lemma slice_zero_append (piece rest : Text) :
    (piece ++ rest).slice 0 (byteSize piece) = some piece :=
  slice_eq_some_iff.mpr ⟨[], rest, rfl, rfl, (Nat.zero_add _).symm⟩

/-- A text of two characters at least, the first and the last of which are the given ones. -/
structure IsBetween (first last : Char) (t : Text) : Prop where
  two_le_byteSize : 2 ≤ byteSize t
  head?_eq : t.head? = some first
  getLast?_eq : t.getLast? = some last

variable {first last : Char}

lemma isBetween (first last : Char) (w : Text) :
    IsBetween first last (first :: (w ++ [last])) where
  two_le_byteSize := by
    have := first.utf8Size_pos
    have := last.utf8Size_pos
    simp only [byteSize_cons, byteSize_append, byteSize_nil]
    omega
  head?_eq := rfl
  getLast?_eq := by rw [← List.cons_append, List.getLast?_concat]

/-- Between two characters of one byte each, the slice without the first and the last byte is the
text without the two characters. -/
lemma IsBetween.inner_eq (h : IsBetween first last t) (hfirst : first.utf8Size = 1)
    (hlast : last.utf8Size = 1) : t.inner = some (Header.dropEnds t) := by
  obtain ⟨w, rfl⟩ : ∃ w, t = first :: (w ++ [last]) := by
    obtain ⟨rest, rfl⟩ := List.head?_eq_some_iff.mp h.head?_eq
    rcases List.eq_nil_or_concat rest with rfl | ⟨w, d, rfl⟩
    · have htwo := h.two_le_byteSize
      rw [byteSize_cons, hfirst, byteSize_nil] at htwo
      omega
    · have hd := h.getLast?_eq
      rw [List.concat_eq_append, ← List.cons_append, List.getLast?_concat] at hd
      exact ⟨w, by rw [Option.some.inj hd, List.concat_eq_append]⟩
  have hsize : byteSize (first :: (w ++ [last])) = 1 + byteSize w + 1 := by
    simp only [byteSize_cons, byteSize_append, byteSize_nil, hfirst, hlast]
    omega
  have hslice : slice (first :: (w ++ [last])) 1 (1 + byteSize w) = some w :=
    slice_eq_some_iff.mpr ⟨[first], [last], rfl, by simp [hfirst], rfl⟩
  rw [inner, hsize, Nat.ppred_succ, Option.bind_eq_bind, Option.bind_some, hslice]
  simp [Header.dropEnds]

lemma sliceFrom_one_cons (hfirst : first.utf8Size = 1) (w : Text) :
    sliceFrom (first :: w) 1 = some w := by
  have hslice := sliceFrom_append [first] w
  rwa [byteSize_cons, hfirst, byteSize_nil] at hslice

end Text

/-! ## Rules -/

namespace Pattern

lemma step_eq_some_iff {kind : Char → Bool} {t rest : Text} :
    step kind t = some rest ↔ ∃ c, kind c = true ∧ t = c :: rest := by
  cases t <;> simp [step, and_comm]

end Pattern

namespace LexRule

open Header (after? codeRule commentRule isLineChar)

/-- The size in bytes of a match of a rule at the head of a text, if it is not empty. -/
def matchSize? (r : LexRule) (t : Text) : Option Nat :=
  ((r.pattern.find t).map Cursor.offset).filter (0 < ·)

/-- What becomes of the text of a token, by slices of it. -/
def transformChecked (r : LexRule) (t : Text) : Checked Text :=
  if r.name = "string" then t.inner.map Header.unescape
  else if r.name = "code" then t.inner.map Text.trim
  else if r.name = "comment" then (t.sliceFrom 1).map Text.trim
  else some t

/-- A text has the delimiters that the transform of a rule takes off. -/
structure Delimits (r : LexRule) (piece : Text) : Prop where
  string : r.name = "string" → piece.IsBetween '"' '"' ∧ piece.inner = some (Header.dropEnds piece)
  code : r.name = "code" →
    piece.IsBetween '\x7b' '\x7d' ∧ piece.inner = some (Header.dropEnds piece)
  comment : r.name = "comment" → piece.head? = some '#' ∧ piece.sliceFrom 1 = some piece.tail
  transform : r.transformChecked piece = some (r.transform piece)

variable {r : LexRule} {t piece rest : Text}

lemma matchSize?_eq (r : LexRule) (t : Text) :
    r.matchSize? t =
      (r.rest? t).map fun rest => Text.byteSize (t.take (t.length - rest.val.length)) := by
  rw [matchSize?, rest?]
  rcases hfind : r.pattern.find t with - | c
  · rfl
  · obtain ⟨piece, ht, hoffset⟩ := r.pattern.follows _ _ hfind
    replace ht : t = piece ++ c.after := ht
    replace hoffset : c.offset = Text.byteSize piece := hoffset.trans (Nat.zero_add _)
    have hlength := congrArg List.length ht
    rw [List.length_append] at hlength
    simp only [Option.map_some, Option.filter_some, hoffset, decide_eq_true_eq]
    by_cases hpiece : piece = []
    · rw [hpiece, List.length_nil, Nat.zero_add] at hlength
      rw [dif_neg hlength.le.not_gt, hpiece]
      rfl
    · have := List.length_pos_of_ne_nil hpiece
      rw [if_pos (Text.byteSize_pos hpiece), dif_pos (by omega), Option.map_some,
        Text.take_length_sub ht]

/-! ### What the rules match -/

lemma delimits_of_plain (hname : r.name ∉ ["string", "code", "comment"])
    (htransform : r.transform = id) (piece : Text) : r.Delimits piece := by
  simp only [List.mem_cons, List.not_mem_nil, or_false, not_or] at hname
  obtain ⟨hstring, hcode, hcomment⟩ := hname
  refine ⟨fun h => absurd h hstring, fun h => absurd h hcode, fun h => absurd h hcomment, ?_⟩
  rw [transformChecked, if_neg hstring, if_neg hcode, if_neg hcomment, htransform, id]

/-- What begins with a character and goes on to another one that closes it is between the two. -/
lemma isBetween_of_step {first last : Char} {close : Text → Option Text}
    (hclose : ∀ {t rest}, close t = some rest → ∃ raw, t = raw ++ last :: rest)
    (h : (Pattern.step (fun c => decide (c = first)) (piece ++ rest)).bind close = some rest) :
    piece.IsBetween first last := by
  obtain ⟨t, hstep, ht⟩ := Option.bind_eq_some_iff.mp h
  obtain ⟨c, hc, hpiece⟩ := Pattern.step_eq_some_iff.mp hstep
  obtain ⟨raw, rfl⟩ := hclose ht
  obtain rfl : piece = first :: (raw ++ [last]) := by
    refine (List.append_left_inj rest).mp (hpiece.trans ?_)
    simp [of_decide_eq_true hc]
  exact Text.isBetween ..

lemma isBetween_of_after?_quoted (h : after? .quoted (piece ++ rest) = some rest) :
    piece.IsBetween '"' '"' := by
  rw [Header.after?_quoted] at h
  refine isBetween_of_step (fun hclose => ?_) h
  obtain ⟨raw, -, ht⟩ := Header.closeQuote_eq_some_iff.mp hclose
  exact ⟨raw, ht⟩

lemma isBetween_of_after?_code (h : after? codeRule (piece ++ rest) = some rest) :
    piece.IsBetween '\x7b' '\x7d' := by
  rw [Header.after?_code] at h
  refine isBetween_of_step (fun hclose => ?_) h
  obtain ⟨raw, -, ht⟩ := Header.closeCode_eq_some_iff.mp hclose
  exact ⟨raw, ht⟩

lemma eq_cons_of_after?_comment (h : after? commentRule (piece ++ rest) = some rest) :
    ∃ w, piece = '#' :: w := by
  rw [Header.after?_comment] at h
  obtain ⟨t, hstep, hrest⟩ := Option.map_eq_some_iff.mp h
  obtain ⟨c, hc, hpiece⟩ := Pattern.step_eq_some_iff.mp hstep
  refine ⟨t.takeWhile isLineChar, (List.append_left_inj rest).mp (hpiece.trans ?_)⟩
  rw [← hrest, List.cons_append, List.takeWhile_append_dropWhile, of_decide_eq_true hc]

lemma delimits_quoted (h : after? .quoted (piece ++ rest) = some rest) :
    quoted.Delimits piece := by
  have hbetween := isBetween_of_after?_quoted h
  have hinner := hbetween.inner_eq rfl rfl
  refine ⟨fun _ => ⟨hbetween, hinner⟩, by simp [quoted], by simp [quoted], ?_⟩
  rw [transformChecked, if_pos (by decide), hinner]
  rfl

lemma delimits_code (h : after? codeRule (piece ++ rest) = some rest) :
    codeRule.Delimits piece := by
  have hbetween := isBetween_of_after?_code h
  have hinner := hbetween.inner_eq rfl rfl
  refine ⟨by simp [codeRule], fun _ => ⟨hbetween, hinner⟩, by simp [codeRule], ?_⟩
  rw [transformChecked, if_neg (by decide), if_pos (by decide), hinner]
  rfl

lemma delimits_comment (h : after? commentRule (piece ++ rest) = some rest) :
    commentRule.Delimits piece := by
  obtain ⟨w, rfl⟩ := eq_cons_of_after?_comment h
  have hslice : Text.sliceFrom ('#' :: w) 1 = some w := Text.sliceFrom_one_cons rfl w
  refine ⟨by simp [commentRule], by simp [commentRule], fun _ => ⟨rfl, hslice⟩, ?_⟩
  rw [transformChecked, if_neg (by decide), if_neg (by decide), if_pos (by decide), hslice]
  rfl

end LexRule

/-! ## Lexers -/

namespace Lexer

open Header (after?)

/-- Whatever a rule of the lexer matches has the delimiters that its transform takes off. -/
def Delimits (lx : Lexer) : Prop :=
  ∀ r ∈ lx.rules, ∀ piece rest, after? r (piece ++ rest) = some rest → r.Delimits piece

/-- The token at a byte offset of a text, or the error if there is none. -/
def tokenAt (lx : Lexer) (source : Text) (place : Nat) : Checked (Except LexError Token) := do
  let rest ← source.sliceFrom place
  match lx.rules.findSome? fun r => (r.matchSize? rest).map fun size => (r, size) with
  | some (r, size) =>
    let cut ← rest.slice 0 size
    let text ← r.transformChecked cut
    return .ok { kind := r.name, text, start := place, stop := place + size
                 silent := r.silent, structural := r.structural }
  | none =>
    let size := Text.byteSize (rest.takeWhile lx.inWord)
    if size = 0 then
      let rest ← source.sliceFrom place
      return .error ⟨place, rest.take 16⟩
    else
      let cut ← rest.slice 0 size
      return .ok { kind := "word", text := cut, start := place, stop := place + size }

/-- The tokens of a text from a byte offset on, and the error that ends the cutting early.  A token
that takes nothing would come again and again. -/
def tokensFrom (lx : Lexer) (source : Text) (place : Nat) :
    Checked (List Token × Option LexError) :=
  if place < source.byteSize then do
    match ← lx.tokenAt source place with
    | .error e => return ([], some e)
    | .ok token =>
      if place < token.stop then
        let (tokens, error) ← lx.tokensFrom source token.stop
        return (token :: tokens, error)
      else none
  else some ([], none)
termination_by source.byteSize - place

/-- The tokens of a text that a grammar sees. -/
def visibleChecked (lx : Lexer) (source : Text) : Checked (Except LexError (List Token)) := do
  match ← lx.tokensFrom source 0 with
  | (tokens, none) => return .ok (tokens.filter fun token => !token.silent)
  | (_, some e) => return .error e

variable {lx : Lexer}

lemma findSome?_matchSize? (lx : Lexer) (t : Text) :
    (lx.rules.findSome? fun r => (r.matchSize? t).map fun size => (r, size)) =
      (lx.rules.findSome? fun r => (r.rest? t).map fun rest => (r, rest)).map
        fun found => (found.1, Text.byteSize (t.take (t.length - found.2.val.length))) := by
  rw [List.map_findSome?]
  congr 1
  funext r
  rw [Function.comp_apply, LexRule.matchSize?_eq, Option.map_map, Option.map_map]
  rfl

/-- The token at an offset is the next one of the text that begins there. -/
lemma tokenAt_append (h : lx.Delimits) (before t : Text) :
    lx.tokenAt (before ++ t) before.byteSize =
      some (match lx.next? before.byteSize t with
        | some (token, _) => .ok token
        | none => .error ⟨before.byteSize, t.take 16⟩) := by
  simp only [tokenAt, Text.sliceFrom_append, Option.bind_eq_bind, Option.bind_some,
    findSome?_matchSize?, next?]
  rcases hfound : lx.rules.findSome? fun r => (r.rest? t).map fun rest => (r, rest) with
    - | ⟨r, rest⟩
  · have ht : t.takeWhile lx.inWord ++ t.dropWhile lx.inWord = t := List.takeWhile_append_dropWhile
    have hlength := congrArg List.length ht
    rw [List.length_append] at hlength
    simp only [hfound, Option.map_none]
    by_cases hword : t.takeWhile lx.inWord = []
    · rw [hword, List.length_nil, Nat.zero_add] at hlength
      rw [hword, if_pos Text.byteSize_nil, dif_neg hlength.ge.not_gt]
      rfl
    · have hslice := Text.slice_zero_append (t.takeWhile lx.inWord) (t.dropWhile lx.inWord)
      rw [ht] at hslice
      have := List.length_pos_of_ne_nil hword
      rw [if_neg (Text.byteSize_pos hword).ne', hslice, Text.take_length_sub ht.symm,
        dif_pos (by omega)]
      rfl
  · obtain ⟨r', hr, hrest⟩ := List.exists_of_findSome?_eq_some hfound
    obtain ⟨rest', hrest', heq⟩ := Option.map_eq_some_iff.mp hrest
    obtain ⟨rfl, rfl⟩ := Prod.mk.inj heq
    obtain ⟨piece, -, ht, -⟩ := LexRule.exists_of_rest? hrest'
    have hslice := Text.slice_zero_append piece rest'.val
    have htransform := (h r' hr piece rest'.val (by rw [after?, ← ht, hrest']; rfl)).transform
    rw [← ht] at hslice
    simp only [hfound, Option.map_some, Text.take_length_sub ht, hslice, Option.bind_some,
      htransform]
    rfl

/-- The tokens from an offset on are those of the text that begins there. -/
lemma tokensFrom_append (h : lx.Delimits) (before t : Text) :
    lx.tokensFrom (before ++ t) before.byteSize = some (lx.scanFrom before.byteSize t) := by
  induction hn : t.length using Nat.strong_induction_on generalizing before t with
  | _ n ih =>
    subst hn
    rw [tokensFrom, scanFrom, Text.byteSize_append]
    by_cases ht : t = []
    · simp [ht]
    · have hpos := Text.byteSize_pos ht
      rw [if_pos (by omega), if_neg (by simpa using ht), tokenAt_append h]
      rcases hnext : lx.next? before.byteSize t with - | ⟨token, rest⟩
      · rfl
      · obtain ⟨piece, hpiece, hne, hcuts⟩ := exists_cuts_of_next? hnext
        have hstop : token.stop = (before ++ piece).byteSize := by
          rw [hcuts.stop_eq, Text.byteSize_append]
        have hlt : before.byteSize < token.stop := by
          have := Text.byteSize_pos hne
          rw [hcuts.stop_eq]
          omega
        have hrest := ih rest.val.length rest.property (before ++ piece) rest.val rfl
        rw [List.append_assoc, ← hpiece, ← hstop] at hrest
        simp only [Option.bind_eq_bind, Option.bind_some, if_pos hlt, hrest]
        rfl

theorem tokensFrom_zero (h : lx.Delimits) (t : Text) : lx.tokensFrom t 0 = some (lx.scan t) :=
  tokensFrom_append h [] t

lemma visibleChecked_eq (h : lx.Delimits) (t : Text) :
    lx.visibleChecked t = some (lx.visible t) := by
  rw [visibleChecked, tokensFrom_zero h, visible]
  rcases lx.scan t with ⟨tokens, - | e⟩ <;> rfl

end Lexer

/-! ## Header lines and paths -/

section Lexers

open LexRule

variable {r : LexRule} {piece rest : Text}

lemma delimits_mark {marks : List (Char × String)} {m : Char × String} (hm : m ∈ marks)
    (hnames : ∀ m ∈ marks, m.2 ∉ ["string", "code", "comment"]) (piece : Text) :
    (mark m.2 [m.1]).Delimits piece :=
  delimits_of_plain (hnames m hm) rfl piece

lemma Header.delimits_lexer : Header.lexer.Delimits := by
  intro r hr piece rest hrest
  rw [rules_lexer, firstRules, List.mem_append, List.mem_map] at hr
  rcases hr with hr | ⟨m, hm, rfl⟩
  · simp only [List.mem_cons, List.not_mem_nil, or_false] at hr
    rcases hr with rfl | rfl | rfl | rfl | rfl
    · exact delimits_of_plain (by decide) rfl piece
    · exact delimits_quoted hrest
    · exact delimits_code hrest
    · exact delimits_of_plain (by decide) rfl piece
    · exact delimits_comment hrest
  · exact delimits_mark hm (by decide) piece

lemma Locator.delimits_lexer : Locator.lexer.Delimits := by
  intro r hr piece rest hrest
  rw [rules_lexer, firstRules, List.mem_append, List.mem_map] at hr
  rcases hr with hr | ⟨m, hm, rfl⟩
  · simp only [List.mem_cons, List.not_mem_nil, or_false] at hr
    rcases hr with rfl | rfl | rfl
    · exact delimits_of_plain (by decide) rfl piece
    · exact delimits_quoted hrest
    · exact delimits_of_plain (by decide) rfl piece
  · exact delimits_mark hm (by decide) piece

/-- The patterns of the header lexer as they are written. -/
def Header.forms : List String :=
  ["[ \\t]+", "\"(?:[^\"\\\\]|\\\\.)*\"", "\\\x7b(?:[^\x7b\x7d]|\\\x7b[^\x7b\x7d]*\\\x7d)*\\\x7d",
    "\\\x7b", "#.*", "\\(", "\\)", "\\[", "\\]", ",", "=", ":"]

/-- The patterns of the path lexer as they are written. -/
def Locator.forms : List String :=
  ["[ \\t]+", "\"(?:[^\"\\\\]|\\\\.)*\"", "=~", "=", "\\[", "\\]", "\\(", "\\)", "\\.", "/"]

/-- What the reader of patterns makes of written forms, by the patterns that they are read as. -/
lemma LexRule.map_patternOf?_reader {forms : List String} (patterns : List Pattern)
    (h : forms.map (fun form => Pattern.ofText? ("^(?:".toList ++ form.toList ++ [')'])) =
      patterns.map some) :
    forms.map (patternOf? Pattern.reader ·.toList) = patterns.map fun p => some p.matcher := by
  have hmap := congrArg (List.map (Option.map Pattern.matcher)) h
  rwa [List.map_map, List.map_map] at hmap

lemma Header.patternOf?_forms :
    Header.forms.map (patternOf? Pattern.reader ·.toList) =
      Header.lexer.rules.map fun r => some r.pattern := by
  let patterns : List Pattern := [spacePattern, quotedPattern, codePattern, .char '\x7b',
    commentPattern] ++ "()[],=:".toList.map Pattern.char
  refine (map_patternOf?_reader (patterns.map Pattern.anchored) ?_).trans rfl
  decide +kernel

lemma Locator.patternOf?_forms :
    Locator.forms.map (patternOf? Pattern.reader ·.toList) =
      Locator.lexer.rules.map fun r => some r.pattern := by
  let patterns : List Pattern := [spacePattern, quotedPattern, .inOrder ("=~".toList.map .char)] ++
    "=[]()./".toList.map Pattern.char
  refine (map_patternOf?_reader (patterns.map Pattern.anchored) ?_).trans rfl
  decide +kernel

end Lexers

/-! ## Sublanguages -/

namespace Sublanguage

variable {α : Type}

/-- The meaning of a text. -/
def parseChecked (l : Sublanguage α) (t : Text) : Checked (Option α) := do
  match ← l.lexer.visibleChecked (l.normalize t) with
  | .ok tokens => return (l.grammar.parse { tokens }).bind l.decode
  | .error _ => return none

lemma parseChecked_eq {l : Sublanguage α} (h : l.lexer.Delimits) (t : Text) :
    l.parseChecked t = some (l.parse t) := by
  rw [parseChecked, Lexer.visibleChecked_eq h, parse, parseTree]
  rcases l.lexer.visible (l.normalize t) with e | tokens <;> rfl

end Sublanguage

end TaggedOutline
