import Mathlib.Tactic.Lemma
import TaggedOutline.Document.Json.Lexeme
import TaggedOutline.Document.Json.Printer

/-!
# Lexemes of written JSON

The lexemes of a value that is written as JSON are its own (`lexemes_print`), whatever its level and
the characters in its texts.  Numbers are left out: a written number is read back only up to the
precision that it is kept with.
-/

namespace TaggedOutline

namespace Document

/-- A value without numbers whose maps have texts for keys. -/
inductive Value.IsPlain : Value → Prop
  | null : IsPlain .null
  | bool (b : Bool) : IsPlain (.bool b)
  | text (t : Text) : IsPlain (.text t)
  | list {items : List Value} (hitems : ∀ v ∈ items, IsPlain v) : IsPlain (.list items)
  | map {entries : List (Value × Value)} (hkeys : ∀ e ∈ entries, ∃ key, e.1 = .text key)
      (hvalues : ∀ e ∈ entries, IsPlain e.2) : IsPlain (.map entries)

namespace Json

/-! ## Strings -/

/-- The characters behind an opening quote write a text, and something follows the closing quote. -/
def Closes (written t rest : Text) : Prop :=
  ∃ ps, pieces written = (ps, .ok rest) ∧ decode (.ok rest) ps = .ok t

namespace Closes

variable {written t rest : Text}

lemma quote (rest : Text) : Closes ('"' :: rest) [] rest := ⟨[], rfl, rfl⟩

lemma char (h : Closes written t rest) {c : Char} {start : Text}
    (hstart : ∀ ps ending, pieces written = (ps, ending) →
      pieces (start ++ written) = (.char c :: ps, ending)) :
    Closes (start ++ written) (c :: t) rest := by
  obtain ⟨ps, hpieces, hdecode⟩ := h
  refine ⟨.char c :: ps, hstart _ _ hpieces, ?_⟩
  rw [decode, hdecode]
  rfl

/-- A character that is written as the unit with its number. -/
lemma unit (h : Closes written t rest) {x : Char} {a b c d : Char}
    (hunit : unit? a b c d = some x.toNat) (hlow : x.toNat < 0xD800) :
    Closes ('\\' :: 'u' :: a :: b :: c :: d :: written) (x :: t) rest := by
  obtain ⟨ps, hpieces, hdecode⟩ := h
  have hleading : isLeading x.toNat = false := by
    simp only [isLeading, Bool.and_eq_false_iff, decide_eq_false_iff_not]
    omega
  have htrailing : isTrailing x.toNat = false := by
    simp only [isTrailing, Bool.and_eq_false_iff, decide_eq_false_iff_not]
    omega
  refine ⟨.unit x.toNat :: ps, by simp only [pieces, hunit, hpieces], ?_⟩
  rw [decode.eq_def]
  simp only [hleading, htrailing, hdecode, Bool.false_eq_true, if_false, Char.ofNat_toNat]
  rfl

/-- A control character is written as the unit with its number. -/
lemma control_eq : ∀ n < 0x20,
    (if n < 0x10 then "\\u000".toList ++ Text.hex n else "\\u00".toList ++ Text.hex n) =
        ['\\', 'u', '0', '0', Nat.digitChar (n / 16), Nat.digitChar (n % 16)] ∧
      unit? '0' '0' (Nat.digitChar (n / 16)) (Nat.digitChar (n % 16)) = some n := by
  decide +kernel

/-- A character with a short escape. -/
lemma pieces_escaped {e c : Char} (he : escaped? e = some c) {ps : List Piece}
    {ending : Except Fault Text} (h : pieces written = (ps, ending)) :
    pieces ('\\' :: e :: written) = (.char c :: ps, ending) := by
  have hunit : e ≠ 'u' := by
    rintro rfl
    cases he
  simp [pieces, hunit, he, h]

/-- A character that stands for itself. -/
lemma pieces_plain {c : Char} (hquote : c ≠ '"') (hescape : c ≠ '\\') (hlow : ¬c.toNat < 0x20)
    {ps : List Piece} {ending : Except Fault Text} (h : pieces written = (ps, ending)) :
    pieces (c :: written) = (.char c :: ps, ending) := by
  simp [pieces, hescape, hlow, h]

/-- Whatever a character is written as, it is read back from that. -/
lemma cons (h : Closes written t rest) (c : Char) :
    Closes (escapeChar c ++ written) (c :: t) rest := by
  have hshort : ∀ e x, escaped? e = some x → Closes (['\\', e] ++ written) (x :: t) rest :=
    fun e x he => h.char fun ps ending => pieces_escaped he
  -- the seven characters with short escapes, then the others by their numbers
  unfold escapeChar
  split
  · exact hshort _ _ rfl
  · exact hshort _ _ rfl
  · exact hshort _ _ rfl
  · exact hshort _ _ rfl
  · exact hshort _ _ rfl
  · exact hshort _ _ rfl
  · exact hshort _ _ rfl
  · next hquote hescape _ _ _ _ _ =>
    by_cases hlow : c.toNat < 0x20
    · obtain ⟨hwritten, hunit⟩ := control_eq c.toNat hlow
      rw [if_pos hlow, hwritten]
      exact h.unit hunit (by omega)
    · rw [if_neg (by omega), if_neg hlow]
      exact h.char fun ps ending => pieces_plain hquote hescape hlow

/-- A text that is written in quotes. -/
lemma escaped (t rest : Text) : Closes (t.flatMap escapeChar ++ '"' :: rest) t rest := by
  induction t with
  | nil => exact quote rest
  | cons c t ih =>
    rw [List.flatMap_cons, List.append_assoc]
    exact ih.cons c

lemma cutString (h : Closes written t rest) : cutString written = (.string (.ok t), rest) := by
  obtain ⟨ps, hpieces, hdecode⟩ := h
  simp only [Json.cutString, hpieces, hdecode]

end Closes

/-! ## Texts and their lexemes -/

/-- A text is cut into lexemes, with any bound that its length fits in. -/
def Cuts (t : Text) (ls : List Lexeme) : Prop := ∀ n, t.length ≤ n → lexemesWithin n t = ls

namespace Cuts

variable {t rest : Text} {ls : List Lexeme}

lemma lexemes_eq (h : Cuts t ls) : lexemes t = ls := h _ (Nat.le_refl _)

lemma nil : Cuts [] [] := fun n _ => by cases n <;> rfl

lemma space {c : Char} (hc : isSpace c = true) (h : Cuts t ls) : Cuts (c :: t) ls := by
  intro n hn
  cases n with
  | zero => simp at hn
  | succ n =>
    rw [← h (n + 1) (by simp at hn; omega), lexemesWithin, lexemesWithin,
      List.dropWhile_cons_of_pos hc]

lemma newLine (h : Cuts t ls) (level : Nat) : Cuts (newLine level ++ t) ls := by
  have hspaces : ∀ n, Cuts (List.replicate n ' ' ++ t) ls := by
    intro n
    induction n with
    | zero => exact h
    | succ n ih => exact ih.space rfl
  exact (hspaces _).space rfl

/-- What stands at the head of a text is its first lexeme. -/
lemma cons {c : Char} {l : Lexeme} (hc : isSpace c = false) (hcut : cutLexeme c t = (l, rest))
    (hle : rest.length ≤ t.length) (h : Cuts rest ls) : Cuts (c :: t) (l :: ls) := by
  intro n hn
  cases n with
  | zero => simp at hn
  | succ n =>
    rw [lexemesWithin, List.dropWhile_cons_of_neg (by simp [hc])]
    simp only [hcut]
    rw [h n (by simp at hn; omega)]

lemma mark (h : Cuts t ls) {c : Char} (hc : c ∈ ['[', ']', '\x7b', '\x7d', ',', ':']) :
    Cuts (c :: t) (.mark c :: ls) := by
  have hspace : (['[', ']', '\x7b', '\x7d', ',', ':'].all fun d => !isSpace d) = true := rfl
  have hc' : isSpace c = false := by simpa using List.all_eq_true.mp hspace c hc
  exact .cons hc' (if_pos (List.contains_iff_mem.mpr hc)) (Nat.le_refl _) h

lemma string (h : Cuts rest ls) (t : Text) :
    Cuts (string t ++ rest) (.string (.ok t) :: ls) := by
  have hcut : cutLexeme '"' (t.flatMap escapeChar ++ '"' :: rest) = (.string (.ok t), rest) :=
    (Closes.escaped t rest).cutString
  rw [Json.string, List.append_assoc]
  exact .cons rfl hcut (by simp; omega) h

lemma null (h : Cuts t ls) : Cuts ("null".toList ++ t) (.null :: ls) :=
  .cons rfl rfl (by simp; omega) h

lemma bool (h : Cuts t ls) (b : Bool) : Cuts ((toString b).toList ++ t) (.bool b :: ls) := by
  cases b <;> exact .cons rfl rfl (by simp; omega) h

end Cuts

/-! ## Values and their lexemes -/

/-- Groups of lexemes with a comma in front of each but the first of a list. -/
def spread : Bool → List (List Lexeme) → List Lexeme
  | _, [] => []
  | true, group :: groups => group ++ spread false groups
  | false, group :: groups => .mark ',' :: group ++ spread false groups

mutual

/-- The lexemes of a value as it is written. -/
def tokens : Value → List Lexeme
  | .null => [.null]
  | .bool b => [.bool b]
  | .whole n => [.number (.whole n) true]
  | .real x => [.number (.real x) true]
  | .text t => [.string (.ok t)]
  | .list items => .mark '[' :: spread true (itemTokens items) ++ [.mark ']']
  | .map entries => .mark '\x7b' :: spread true (entryTokens entries) ++ [.mark '\x7d']

/-- The lexemes of each item of a list. -/
def itemTokens : List Value → List (List Lexeme)
  | [] => []
  | v :: items => tokens v :: itemTokens items

/-- The lexemes of each entry of a map. -/
def entryTokens : List (Value × Value) → List (List Lexeme)
  | [] => []
  | (key, v) :: entries => (tokens key ++ .mark ':' :: tokens v) :: entryTokens entries

end

lemma itemTokens_eq (items : List Value) : itemTokens items = items.map tokens := by
  induction items with
  | nil => rfl
  | cons v items ih => rw [itemTokens, ih, List.map_cons]

lemma entryTokens_eq (entries : List (Value × Value)) :
    entryTokens entries = entries.map fun e => tokens e.1 ++ .mark ':' :: tokens e.2 := by
  induction entries with
  | nil => rfl
  | cons e entries ih => rw [entryTokens, ih, List.map_cons]

lemma tokens_list_append (items : List Value) (ls : List Lexeme) :
    tokens (.list items) ++ ls =
      .mark '[' :: (spread true (itemTokens items) ++ .mark ']' :: ls) := by
  simp [tokens]

lemma tokens_map_append (entries : List (Value × Value)) (ls : List Lexeme) :
    tokens (.map entries) ++ ls =
      .mark '\x7b' :: (spread true (entryTokens entries) ++ .mark '\x7d' :: ls) := by
  simp [tokens]

/-- What is written for a value is cut into its lexemes, at any level. -/
def IsCut (v : Value) : Prop :=
  ∀ level t ls, Cuts t ls → Cuts (write level v ++ t) (tokens v ++ ls)

lemma cuts_writeItems {items : List Value} (hitems : ∀ v ∈ items, IsCut v) {t : Text}
    {ls : List Lexeme} (h : Cuts t ls) (level : Nat) :
    Cuts (writeItems level items ++ t) (spread false (itemTokens items) ++ ls) := by
  induction items with
  | nil => exact h
  | cons v items ih =>
    obtain ⟨hv, hitems⟩ := List.forall_mem_cons.mp hitems
    have hv := (hv level _ _ (ih hitems)).newLine level |>.mark (c := ',') (by decide)
    simpa [writeItems, itemTokens, spread] using hv

lemma cuts_writeEntry {key v : Value} (hkey : IsCut key) (hv : IsCut v) {t : Text}
    {ls : List Lexeme} (h : Cuts t ls) (level : Nat) :
    Cuts (writeEntry level (key, v) ++ t) (tokens key ++ .mark ':' :: tokens v ++ ls) := by
  have hv := (hv level _ _ h).space (c := ' ') rfl |>.mark (c := ':') (by decide)
  simpa [writeEntry] using hkey level _ _ hv

lemma cuts_writeEntries {entries : List (Value × Value)}
    (hkeys : ∀ e ∈ entries, IsCut e.1) (hvalues : ∀ e ∈ entries, IsCut e.2) {t : Text}
    {ls : List Lexeme} (h : Cuts t ls) (level : Nat) :
    Cuts (writeEntries level entries ++ t) (spread false (entryTokens entries) ++ ls) := by
  induction entries with
  | nil => exact h
  | cons e entries ih =>
    obtain ⟨hkey, hkeys⟩ := List.forall_mem_cons.mp hkeys
    obtain ⟨hv, hvalues⟩ := List.forall_mem_cons.mp hvalues
    have he := (cuts_writeEntry hkey hv (ih hkeys hvalues) level).newLine level |>.mark
      (c := ',') (by decide)
    simpa [writeEntries, entryTokens, spread] using he

lemma isCut_text (t : Text) : IsCut (.text t) := fun _ _ _ h => h.string t

lemma isCut_list {items : List Value} (hitems : ∀ v ∈ items, IsCut v) : IsCut (.list items) := by
  intro level t ls h
  have hclose : Cuts (']' :: t) (.mark ']' :: ls) := h.mark (by decide)
  cases items with
  | nil => exact hclose.mark (by decide)
  | cons v items =>
    obtain ⟨hv, hitems⟩ := List.forall_mem_cons.mp hitems
    have hrest := cuts_writeItems hitems (hclose.newLine level) (level + 1)
    have hall := (hv (level + 1) _ _ hrest).newLine (level + 1) |>.mark (c := '[') (by decide)
    simpa [write, tokens, itemTokens, spread] using hall

lemma isCut_map {entries : List (Value × Value)} (hkeys : ∀ e ∈ entries, IsCut e.1)
    (hvalues : ∀ e ∈ entries, IsCut e.2) : IsCut (.map entries) := by
  intro level t ls h
  have hclose : Cuts ('\x7d' :: t) (.mark '\x7d' :: ls) := h.mark (by decide)
  cases entries with
  | nil => exact hclose.mark (by decide)
  | cons e entries =>
    obtain ⟨hkey, hkeys⟩ := List.forall_mem_cons.mp hkeys
    obtain ⟨hv, hvalues⟩ := List.forall_mem_cons.mp hvalues
    have hrest := cuts_writeEntries hkeys hvalues (hclose.newLine level) (level + 1)
    have hall := (cuts_writeEntry hkey hv hrest (level + 1)).newLine (level + 1) |>.mark
      (c := '\x7b') (by decide)
    simpa [write, tokens, entryTokens, spread] using hall

lemma isCut {v : Value} (hv : v.IsPlain) : IsCut v := by
  induction hv with
  | null => exact fun _ _ _ h => h.null
  | bool b => exact fun _ _ _ h => h.bool b
  | text t => exact isCut_text t
  | list _ ih => exact isCut_list ih
  | map hkeys _ ih =>
    refine isCut_map (fun e he => ?_) ih
    obtain ⟨key, hkey⟩ := hkeys e he
    exact hkey ▸ isCut_text key

/-- The lexemes of a document are those of the value that it is written for. -/
theorem lexemes_print {v : Value} (hv : v.IsPlain) : lexemes (print v) = tokens v := by
  have hcuts := isCut hv 0 _ _ .nil
  rw [List.append_nil, List.append_nil] at hcuts
  exact hcuts.lexemes_eq

end Json

end Document

end TaggedOutline
