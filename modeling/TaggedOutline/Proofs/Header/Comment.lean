import TaggedOutline.Proofs.Header.Bracket
import TaggedOutline.Proofs.Tiling

/-!
# Where a comment begins

The comment of a header line is looked for in two ways: by a scan that knows only quotes and the
backslashes between them, and by the lexer, for which it is a token like any other.  Where the
lexer finds no code both give the same place (`commentOffset_of_scan`).  Code is different, as the
scan does not know it; see `bracket_agrees_iff`.
-/

namespace TaggedOutline

namespace Header

/-! ## Tokens as lexemes -/

/-- A piece is a line by itself, with a lexeme of its kind. -/
lemma IsPiece.exists_lexed {t rest : Text} {piece : Option Lexeme} (h : IsPiece t piece rest) :
    ∃ w ls, t = w ++ rest ∧ Lexed w ls ∧ ls.map Prod.fst = piece.toList.map Prod.fst ∧
      ∀ c ∈ w.head?, Layout.isIndent c = piece.isNone := by
  have hhead : ∀ {c : Char} {w : Text} {b : Bool}, Layout.isIndent c = b →
      ∀ d ∈ (c :: w).head?, Layout.isIndent d = b := by
    rintro c w b hc _ ⟨⟩
    exact hc
  cases h with
  | @spaces c sp _ hsp =>
    exact ⟨c :: sp, [], rfl, by simpa using Lexed.nil.spaces hsp, rfl,
      hhead (hsp c List.mem_cons_self)⟩
  | quoted hraw => exact ⟨_, _, by simp, .quoted hraw .nil, rfl, hhead rfl⟩
  | code hraw => exact ⟨_, _, by simp, .code hraw .nil, rfl, hhead rfl⟩
  | opening => exact ⟨_, _, rfl, .opening rfl .nil, rfl, hhead rfl⟩
  | comment hraw =>
    exact ⟨_, _, rfl, .comment (feed_notMem_of_lineChars hraw), rfl, hhead rfl⟩
  | mark hc => exact ⟨_, _, rfl, .mark hc .nil, rfl, hhead (ne_of_lookup hc).1⟩
  | word hw =>
    exact ⟨_, _, by simp, .word hw (by simp) .nil, rfl,
      hhead (not_indent_of_word (hw _ List.mem_cons_self))⟩

section NextToken

variable {offset : Nat} {t : Text} {token : Token}
  {left : { rest : Text // rest.length < t.length }}

/-- The next token of a line is cut from a line by itself, with a lexeme of its kind. -/
lemma exists_lexed_of_next? (h : lexer.next? offset t = some (token, left)) :
    ∃ w ls, t = w ++ left.val ∧ token.start = offset ∧ token.stop = offset + Text.byteSize w ∧
      Lexed w ls ∧ ls.map Prod.fst = (seen [token]).map Prod.fst ∧
        ∀ c ∈ w.head?, Layout.isIndent c = token.silent := by
  obtain ⟨w, hw, -, hcuts⟩ := Lexer.exists_cuts_of_next? h
  have hnext := next?_lexer offset t
  rcases hpiece : firstPiece t with - | ⟨piece, rest⟩
  · rw [hpiece] at hnext
    cases h.symm.trans hnext
  · rw [hpiece] at hnext
    obtain ⟨token', hlt, hnext, hsilent, hlexeme⟩ := hnext
    obtain ⟨rfl, rfl⟩ : token = token' ∧ left = ⟨rest, hlt⟩ := by
      simpa using h.symm.trans hnext
    obtain ⟨w', ls, hw', hlexed, hkinds, hhead⟩ := (isPiece_of_firstPiece hpiece).exists_lexed
    obtain rfl : w' = w := List.append_cancel_right (hw'.symm.trans hw)
    have hseen : piece.toList = seen [token] := by
      cases piece with
      | none => simp [seen, hsilent]
      | some l => simp [seen, hsilent, hlexeme l rfl]
    exact ⟨w', ls, hw', hcuts.start_eq, hcuts.stop_eq, hlexed, hseen ▸ hkinds, hsilent ▸ hhead⟩

/-- Comments are seen. -/
lemma silent_of_comment (h : lexer.next? offset t = some (token, left))
    (hkind : token.kind = "comment") : token.silent = false := by
  obtain ⟨w, -, -, hcuts⟩ := Lexer.exists_cuts_of_next? h
  have hall : ∀ r ∈ lexer.rules, r.name = "comment" → r.silent = false := by decide
  cases hcuts with
  | rule hr => exact hall _ hr hkind
  | word => rfl

/-- A comment begins with the number sign and takes the rest of the line. -/
lemma exists_of_next?_comment (h : lexer.next? offset t = some (token, left))
    (hkind : token.kind = "comment") :
    ∃ raw, t = '#' :: raw ∧ left.val = raw.dropWhile isLineChar := by
  have hsilent := silent_of_comment h hkind
  obtain ⟨w, ls, hw, -, -, hlexed, hkinds, hhead⟩ := exists_lexed_of_next? h
  rw [hsilent] at hhead
  obtain ⟨text, rfl⟩ : ∃ text, ls = [("comment", text)] := by
    simp only [seen, hsilent, Bool.not_false, List.filter_cons_of_pos, List.filter_nil,
      List.map_singleton, List.map_eq_singleton_iff, Token.lexeme, hkind] at hkinds
    obtain ⟨⟨kind, text⟩, rfl, rfl⟩ := hkinds
    exact ⟨text, rfl⟩
  obtain ⟨raw, rfl, -, -⟩ := hlexed.comment_inv hhead
  obtain ⟨rest, hlt⟩ := left
  obtain rfl : t = '#' :: (raw ++ rest) := hw
  have hnext := next?_lexer offset ('#' :: (raw ++ rest))
  rw [firstPiece, if_neg (by decide), if_neg (by decide), if_neg (by decide), if_pos rfl] at hnext
  obtain ⟨_, _, hnext, -⟩ := hnext
  have heq := congrArg (Option.map fun p => p.2.val) (h.symm.trans hnext)
  exact ⟨raw ++ rest, rfl, Option.some.inj heq⟩

/-- The scan for the comment goes past every other token but code. -/
lemma commentOffset_of_next? (h : lexer.next? offset t = some (token, left))
    (hcode : token.kind ≠ "code") (hcomment : token.kind ≠ "comment") :
    offset + commentOffset t = token.stop + commentOffset left.val := by
  obtain ⟨w, ls, hw, -, hstop, hlexed, hkinds, -⟩ := exists_lexed_of_next? h
  have hls : ∀ l ∈ ls, l.1 ≠ "code" ∧ l.1 ≠ "comment" := by
    intro l hl
    have hmem := List.mem_map_of_mem (f := Prod.fst) hl
    rw [hkinds] at hmem
    obtain ⟨m, hm, hkind⟩ := List.mem_map.mp hmem
    obtain ⟨k, hk, rfl⟩ := List.mem_map.mp hm
    obtain rfl := List.mem_singleton.mp (List.mem_filter.mp hk).1
    exact ⟨hkind ▸ hcode, hkind ▸ hcomment⟩
  have hcut := hlexed.cutComment_append hls left.val
  rw [← hw] at hcut
  rw [hstop, commentOffset, commentOffset, hcut, Text.byteSize_append, Nat.add_assoc]

end NextToken

/-! ## The comment among the tokens -/

lemma scanFrom_nil (offset : Nat) : lexer.scanFrom offset [] = ([], none) := by
  rw [Lexer.scanFrom]
  rfl

/-- The tokens of a line that is read to its end are the next one and those of what it leaves. -/
lemma exists_of_scanFrom {offset : Nat} {t : Text} {tokens : List Token} (ht : t ≠ [])
    (h : lexer.scanFrom offset t = (tokens, none)) :
    ∃ token left more, lexer.next? offset t = some (token, left) ∧
      lexer.scanFrom token.stop left.val = (more, none) ∧ tokens = token :: more := by
  rw [Lexer.scanFrom, if_neg (by simpa using ht)] at h
  split at h
  · cases (Prod.mk.inj h).2
  · next token left hnext =>
    obtain ⟨rfl, herror⟩ := Prod.mk.inj h
    exact ⟨token, left, _, hnext, Prod.ext rfl herror, rfl⟩

/-- The scan for the comment of a line that begins at byte `offset` stops where the lexer has its
comment, and goes on to the end if it has none. -/
lemma commentOffset_of_scanFrom {offset : Nat} {t : Text} {tokens : List Token}
    (h : lexer.scanFrom offset t = (tokens, none)) (hcode : ∀ k ∈ tokens, k.kind ≠ "code") :
    (∀ k ∈ tokens, k.kind = "comment" → k.start = offset + commentOffset t) ∧
    ((∀ k ∈ tokens, k.kind ≠ "comment") → commentOffset t = Text.byteSize t) := by
  induction hn : t.length using Nat.strong_induction_on generalizing offset t tokens with
  | _ n ih =>
    subst hn
    by_cases ht : t = []
    · subst ht
      obtain ⟨rfl, -⟩ := Prod.mk.inj ((scanFrom_nil offset).symm.trans h)
      exact ⟨fun _ hk => absurd hk List.not_mem_nil, fun _ => rfl⟩
    obtain ⟨token, left, more, hnext, hmore, rfl⟩ := exists_of_scanFrom ht h
    obtain ⟨hcode, hcodes⟩ := List.forall_mem_cons.mp hcode
    obtain ⟨w, ls, hw, hstart, hstop, -⟩ := exists_lexed_of_next? hnext
    by_cases hkind : token.kind = "comment"
    · obtain ⟨raw, rfl, hleft⟩ := exists_of_next?_comment hnext hkind
      -- nothing is left of a line behind its comment
      have hlexemes := scanFrom_eq_lexemes offset ('#' :: raw)
      rw [h] at hlexemes
      have hfeed : '\n' ∉ raw := feed_notMem_of_comment hlexemes
      have hend : left.val = [] := by
        rw [hleft, List.dropWhile_eq_nil_iff]
        exact fun c hc => bne_iff_ne.mpr fun heq => hfeed (heq ▸ hc)
      rw [hend, scanFrom_nil] at hmore
      obtain ⟨rfl, -⟩ := Prod.mk.inj hmore
      have hzero : commentOffset ('#' :: raw) = 0 := by
        rw [commentOffset, cutComment_comment]
        rfl
      refine ⟨fun k hk _ => ?_, fun hall => absurd hkind (hall token List.mem_cons_self)⟩
      obtain rfl := List.mem_singleton.mp hk
      rw [hzero, hstart, Nat.add_zero]
    · obtain ⟨hstarts, hnone⟩ := ih _ left.property hmore hcodes rfl
      have hoffset := commentOffset_of_next? hnext hcode hkind
      refine ⟨fun k hk hk' => ?_, fun hall => ?_⟩
      · rcases List.mem_cons.mp hk with rfl | hk
        · exact absurd hk' hkind
        · rw [hoffset, hstarts k hk hk']
      · have hsize := congrArg Text.byteSize hw
        rw [Text.byteSize_append] at hsize
        have hrest := hnone fun k hk => hall k (List.mem_cons_of_mem _ hk)
        omega

/-- Of a line that the lexer cuts into tokens without an error, and without code among them, the
scan for the comment gives the place where the comment begins, and the size of the line if there is
none. -/
theorem commentOffset_of_scan {t : Text} {tokens : List Token}
    (h : lexer.scan t = (tokens, none)) (hcode : ∀ k ∈ tokens, k.kind ≠ "code") :
    (∀ k ∈ tokens, k.kind = "comment" → commentOffset t = k.start) ∧
    ((∀ k ∈ tokens, k.kind ≠ "comment") → commentOffset t = Text.byteSize t) := by
  obtain ⟨hstarts, hnone⟩ := commentOffset_of_scanFrom (show lexer.scanFrom 0 t = _ from h) hcode
  refine ⟨fun k hk hkind => ?_, hnone⟩
  rw [hstarts k hk hkind, Nat.zero_add]

/-- A line with number signs and braces in a quoted string, a brace that is not closed, a backslash
that is a word, and a comment with a quote. -/
def signsSample : Text := "a\\ \"é # \\\" \x7b\" \x7b \\ # b \" #".toList

theorem commentOffset_of_scan_in_sample :
    let tokens := (lexer.scan signsSample).1
    lexer.scan signsSample = (tokens, none) ∧ (∀ k ∈ tokens, k.kind ≠ "code") ∧
      commentOffset signsSample = 19 := by
  intro tokens
  have hscan : lexer.scan signsSample = (tokens, none) := by decide +kernel
  have hcode : ∀ k ∈ tokens, k.kind ≠ "code" := by decide +kernel
  obtain ⟨k, hk, hkind, hstart⟩ : ∃ k ∈ tokens, k.kind = "comment" ∧ k.start = 19 := by
    decide +kernel
  exact ⟨hscan, hcode, ((commentOffset_of_scan hscan hcode).1 k hk hkind).trans hstart⟩

end Header

end TaggedOutline
