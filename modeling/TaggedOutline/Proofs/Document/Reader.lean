import TaggedOutline.Document.Json.Reader
import TaggedOutline.Proofs.Document.Lexemes

/-!
# Reading written JSON

A record that is written as JSON is read back as it is (`read_print`), provided its fields have the
shapes that are looked for and its lists and maps nest no deeper than the reader follows them.

The proof goes from the inside to the outside: a reader *restores* a value if it takes just the
lexemes of the value away and returns it, whatever follows them.  Values of any kind, values of a
shape and at last the record are restored one after the other.
-/

namespace TaggedOutline

namespace Document

/-! ## How deep values nest -/

namespace Value

mutual

/-- How deep the lists and maps of a value nest.  Keys do not count, because they are texts. -/
def levels : Value → Nat
  | .list items => itemLevels items + 1
  | .map entries => entryLevels entries + 1
  | _ => 0

/-- How deep the items of a list nest. -/
def itemLevels : List Value → Nat
  | [] => 0
  | v :: items => max (levels v) (itemLevels items)

/-- How deep the entries of a map nest. -/
def entryLevels : List (Value × Value) → Nat
  | [] => 0
  | (_, v) :: entries => max (levels v) (entryLevels entries)

end

lemma levels_le_items {v : Value} {items : List Value} (h : v ∈ items) :
    v.levels ≤ itemLevels items := by
  induction items with
  | nil => cases h
  | cons w items ih =>
    rw [itemLevels]
    rcases List.mem_cons.mp h with rfl | h
    · exact Nat.le_max_left ..
    · exact Nat.le_trans (ih h) (Nat.le_max_right ..)

lemma entryLevels_eq (entries : List (Value × Value)) :
    entryLevels entries = itemLevels (entries.map Prod.snd) := by
  induction entries with
  | nil => rfl
  | cons e entries ih => rw [entryLevels, ih, List.map_cons, itemLevels]

/-- What follows a list far enough has a level left for its items. -/
lemma exists_levels_list {items : List Value} {n : Nat} (h : (list items).levels ≤ n) :
    ∃ m, n = m + 1 ∧ ∀ v ∈ items, v.levels ≤ m := by
  rw [levels] at h
  obtain ⟨m, rfl⟩ : ∃ m, n = m + 1 := ⟨n - 1, by omega⟩
  exact ⟨m, rfl, fun v hv => Nat.le_trans (levels_le_items hv) (Nat.le_of_succ_le_succ h)⟩

/-- What follows a map far enough has a level left for its values. -/
lemma exists_levels_map {entries : List (Value × Value)} {n : Nat}
    (h : (map entries).levels ≤ n) : ∃ m, n = m + 1 ∧ ∀ e ∈ entries, e.2.levels ≤ m := by
  rw [levels, entryLevels_eq] at h
  obtain ⟨m, hm, hvalues⟩ := exists_levels_list h
  exact ⟨m, hm, List.forall_mem_map.mp hvalues⟩

end Value

/-! ## What is looked for -/

/-- A value is of a shape, one that is no record itself. -/
inductive Shape.Fits : Shape → Value → Prop
  | text (t : Text) : Fits .text (.text t)
  | flag (b : Bool) : Fits .flag (.bool b)
  | optionalText (t : Text) : Fits .optionalText (.text t)
  | nothing : Fits .optionalText .null
  | pair (a b : Text) : Fits .pair (.list [.text a, .text b])
  | value {accept : Value → Bool} {v : Value} (hplain : v.IsPlain) (haccept : accept v = true) :
      Fits (.value accept) v
  | list {item : Shape} {items : List Value} (hitems : ∀ v ∈ items, Fits item v) :
      Fits (.list item) (.list items)

lemma Shape.Fits.isPlain {shape : Shape} {v : Value} (h : shape.Fits v) : v.IsPlain := by
  induction h with
  | text t => exact .text t
  | flag b => exact .bool b
  | optionalText t => exact .text t
  | nothing => exact .null
  | pair a b => exact .list (by simp [Value.IsPlain.text])
  | value hplain => exact hplain
  | list _ ih => exact .list ih

/-- The entries of a map are fields of a record, each of its shape. -/
def Record.AreFields (r : Record) (es : List (Value × Value)) : Prop :=
  ∀ e ∈ es, ∃ key shape, e.1 = .text key ∧ r.shape? key = some shape ∧ shape.Fits e.2

/-- The entries of a map make a record: none is there twice, and the needed one is there. -/
structure Record.Holds (r : Record) (es : List (Value × Value)) : Prop where
  fields : r.AreFields es
  nodup : (es.map Prod.fst).Nodup
  needed : .text r.needed ∈ es.map Prod.fst

lemma Record.AreFields.isPlain {r : Record} {es : List (Value × Value)} (h : r.AreFields es) :
    (Value.map es).IsPlain := by
  refine .map (fun e he => ?_) fun e he => ?_
  · obtain ⟨key, _, hkey, _⟩ := h e he
    exact ⟨key, hkey⟩
  · obtain ⟨_, _, _, _, hfits⟩ := h e he
    exact hfits.isPlain

namespace Json

/-! ## The heads of lexemes -/

lemma exists_tokens (v : Value) : ∃ l ls, tokens v = l :: ls ∧ l.isMark ']' = false := by
  cases v <;> exact ⟨_, _, rfl, rfl⟩

@[simp] lemma spread_nil (first : Bool) : spread first [] = [] := by cases first <;> rfl

lemma length_le_spread {groups : List (List Lexeme)} (h : ∀ group ∈ groups, group ≠ [])
    (first : Bool) : groups.length ≤ (spread first groups).length := by
  induction groups generalizing first with
  | nil => simp
  | cons group groups ih =>
    obtain ⟨hgroup, hgroups⟩ := List.forall_mem_cons.mp h
    have hpos := List.length_pos_iff.mpr hgroup
    have hle := ih hgroups false
    cases first <;> simp only [spread, List.length_cons, List.length_append] <;> omega

lemma length_le_items (items : List Value) :
    items.length ≤ (spread true (itemTokens items)).length := by
  rw [itemTokens_eq, ← List.length_map tokens]
  refine length_le_spread (List.forall_mem_map.mpr fun v _ => ?_) true
  obtain ⟨l, ls, h, -⟩ := exists_tokens v
  exact h ▸ List.cons_ne_nil l ls

lemma length_le_entries (entries : List (Value × Value)) :
    entries.length ≤ (spread true (entryTokens entries)).length := by
  rw [entryTokens_eq, ← List.length_map fun e => tokens e.1 ++ .mark ':' :: tokens e.2]
  exact length_le_spread (List.forall_mem_map.mpr fun _ _ => by simp) true

namespace Reader

variable {α β : Type} {ls rest rest' : List Lexeme}

/-! ## Runs of readers -/

/-- A reader takes lexemes from the front of these and returns a result. -/
def Returns (r : Reader α) (ls : List Lexeme) (a : α) (rest : List Lexeme) : Prop :=
  r.run ls = .ok (a, rest)

lemma Returns.bind {r : Reader α} {f : α → Reader β} {a : α} {b : β} (h : Returns r ls a rest)
    (hf : Returns (f a) rest b rest') : Returns (r >>= f) ls b rest' := by
  rw [Returns, StateT.run_bind, h]
  exact hf

lemma returns_pure (a : α) (ls : List Lexeme) : Returns (pure a) ls a ls := rfl

lemma Returns.map {r : Reader α} {a : α} (f : α → β) (h : Returns r ls a rest) :
    Returns (do return f (← r)) ls (f a) rest := h.bind (returns_pure _ _)

lemma returns_peek? (l : Lexeme) (ls : List Lexeme) :
    Returns peek? (l :: ls) (some l) (l :: ls) := rfl

lemma returns_take (l : Lexeme) (ls : List Lexeme) : Returns take (l :: ls) l ls := rfl

lemma returns_mark (c : Char) (ls : List Lexeme) : Returns (mark c) (.mark c :: ls) () ls := by
  refine (returns_take _ _).bind ?_
  rw [Lexeme.isMark, beq_self_eq_true, if_pos rfl]
  rfl

lemma returns_bound (ls : List Lexeme) : Returns bound ls (ls.length + 1) ls := rfl

/-! ## Lists and maps -/

lemma returns_moreItems_end (first : Bool) (ls : List Lexeme) :
    Returns (moreItems first) (.mark ']' :: ls) false (.mark ']' :: ls) := rfl

lemma returns_moreItems (first : Bool) (v : Value) (groups : List (List Lexeme))
    (ls : List Lexeme) :
    Returns (moreItems first) (spread first (tokens v :: groups) ++ ls) true
      (tokens v ++ (spread false groups ++ ls)) := by
  obtain ⟨l, rest, hv, hl⟩ := exists_tokens v
  cases first with
  | true =>
    rw [spread, hv, List.append_assoc]
    refine (returns_peek? l _).bind ?_
    simp only [hl]
    rfl
  | false =>
    rw [spread, hv, List.cons_append, List.cons_append, List.append_assoc]
    refine (returns_peek? (.mark ',') _).bind ?_
    refine Returns.bind (r := drop) rfl ((returns_peek? l _).bind ?_)
    simp only [hl]
    rfl

lemma returns_nextKey?_end (first : Bool) (ls : List Lexeme) :
    Returns (nextKey? first) (.mark '\x7d' :: ls) none (.mark '\x7d' :: ls) := rfl

lemma returns_nextKey? (first : Bool) (key : Text) (group : List Lexeme)
    (groups : List (List Lexeme)) (ls : List Lexeme) :
    Returns (nextKey? first) (spread first ((.string (.ok key) :: group) :: groups) ++ ls)
      (some key) (group ++ (spread false groups ++ ls)) := by
  cases first <;> rw [← List.append_assoc] <;> rfl

/-- A reader restores a value from its lexemes, whatever follows them. -/
def Restores (r : Reader Value) (v : Value) : Prop := ∀ ls, Returns r (tokens v ++ ls) v ls

lemma returns_items {item : Reader Value} {vs : List Value} (hvs : ∀ v ∈ vs, Restores item v)
    {n : Nat} (hn : vs.length < n) (first : Bool) (ls : List Lexeme) :
    Returns (items item n first) (spread first (itemTokens vs) ++ .mark ']' :: ls) vs ls := by
  induction vs generalizing n first with
  | nil =>
    obtain ⟨n, rfl⟩ := Nat.exists_eq_add_one_of_ne_zero (by omega : n ≠ 0)
    rw [itemTokens, spread_nil]
    exact (returns_moreItems_end first ls).bind rfl
  | cons v vs ih =>
    obtain ⟨n, rfl⟩ := Nat.exists_eq_add_one_of_ne_zero (by omega : n ≠ 0)
    obtain ⟨hv, hvs⟩ := List.forall_mem_cons.mp hvs
    refine (returns_moreItems first v (itemTokens vs) _).bind ((hv _).bind ?_)
    exact (ih hvs (by simp at hn; omega) false).map _

lemma returns_entries {entry : Text → Reader (Value × Value)} {es : List (Value × Value)}
    (hes : ∀ e ∈ es, ∃ key, e.1 = .text key ∧
      ∀ ls, Returns (entry key) (.mark ':' :: tokens e.2 ++ ls) e ls)
    {n : Nat} (hn : es.length < n) (first : Bool) (ls : List Lexeme) :
    Returns (entries entry n first) (spread first (entryTokens es) ++ .mark '\x7d' :: ls) es
      ls := by
  induction es generalizing n first with
  | nil =>
    obtain ⟨n, rfl⟩ := Nat.exists_eq_add_one_of_ne_zero (by omega : n ≠ 0)
    rw [entryTokens, spread_nil]
    exact (returns_nextKey?_end first ls).bind rfl
  | cons e es ih =>
    obtain ⟨n, rfl⟩ := Nat.exists_eq_add_one_of_ne_zero (by omega : n ≠ 0)
    obtain ⟨_, v⟩ := e
    obtain ⟨⟨key, rfl, he⟩, hmore⟩ := List.forall_mem_cons.mp hes
    refine (returns_nextKey? first key _ (entryTokens es) _).bind ((he _).bind ?_)
    exact (ih hmore (by simp at hn; omega) false).map _

/-! ## Values of any kind -/

/-- The items of a list are as many as the reader is ready for. -/
lemma returns_listItems {item : Reader Value} {vs : List Value}
    (hvs : ∀ v ∈ vs, Restores item v) (ls : List Lexeme) :
    Returns (do return Value.list (← items item (← bound) true))
      (spread true (itemTokens vs) ++ .mark ']' :: ls) (.list vs) ls := by
  have hle := length_le_items vs
  refine (returns_bound _).bind ((returns_items hvs ?_ true ls).map Value.list)
  rw [List.length_append]
  omega

lemma restores_list {value : Reader Value} {vs : List Value} (hvs : ∀ v ∈ vs, Restores value v) :
    Restores (valueWith (some value)) (.list vs) := by
  intro ls
  rw [tokens_list_append]
  exact (returns_take (.mark '[') _).bind (returns_listItems hvs ls)

lemma restores_map {value : Reader Value} {es : List (Value × Value)}
    (hkeys : ∀ e ∈ es, ∃ key, e.1 = .text key) (hvalues : ∀ e ∈ es, Restores value e.2) :
    Restores (valueWith (some value)) (.map es) := by
  intro ls
  have hle := length_le_entries es
  rw [tokens_map_append]
  refine (returns_take (.mark '\x7b') _).bind ((returns_bound _).bind ?_)
  refine (returns_entries (fun e he => ?_) ?_ true ls).map Value.map
  · obtain ⟨_, v⟩ := e
    obtain ⟨key, rfl⟩ := hkeys _ he
    refine ⟨key, rfl, fun ls => (returns_mark ':' _).bind ?_⟩
    exact (hvalues _ he ls).map (Value.text key, ·)
  · rw [List.length_append]
    omega

/-- A value is restored by the reader of values that follows its lists and maps deep enough. -/
lemma restores_anyValue {v : Value} (hv : v.IsPlain) {levels : Nat}
    (hlevels : v.levels ≤ levels) : Restores (anyValue levels) v := by
  induction hv generalizing levels with
  | null => cases levels <;> exact fun ls => rfl
  | bool b => cases levels <;> exact fun ls => rfl
  | text t => cases levels <;> exact fun ls => rfl
  | list _ ih =>
    obtain ⟨levels, rfl, hitems⟩ := Value.exists_levels_list hlevels
    exact restores_list fun v hv => ih v hv (hitems v hv)
  | map hkeys _ ih =>
    obtain ⟨levels, rfl, hvalues⟩ := Value.exists_levels_map hlevels
    exact restores_map hkeys fun e he => ih e he (hvalues e he)

/-! ## Values of a shape -/

lemma returns_openList {α : Type} {inside : Nat → Reader α} {levels : Nat} {a : α}
    (h : Returns (inside levels) ls a rest) :
    Returns (openList (levels + 1) inside) (.mark '[' :: ls) a rest :=
  (returns_take _ _).bind h

lemma restores_shaped {record : Nat → Reader Value} {shape : Shape} {v : Value}
    (h : shape.Fits v) {levels : Nat} (hlevels : v.levels ≤ levels) :
    Restores (shaped record levels shape) v := by
  induction h generalizing levels with
  | text t => exact fun ls => rfl
  | flag b => exact fun ls => rfl
  | optionalText t => exact fun ls => rfl
  | nothing => exact fun ls => rfl
  | pair a b =>
    obtain ⟨levels, rfl, -⟩ := Value.exists_levels_list hlevels
    exact fun ls => rfl
  | value hplain haccept =>
    intro ls
    rw [shaped]
    refine (restores_anyValue hplain hlevels ls).bind ?_
    rw [if_pos haccept]
    rfl
  | list _ ih =>
    obtain ⟨levels, rfl, hitems⟩ := Value.exists_levels_list hlevels
    intro ls
    rw [shaped, tokens_list_append]
    exact returns_openList (returns_listItems (fun v hv => ih v hv (hitems v hv)) ls)

/-! ## Records -/

lemma returns_namedFields {r : Record} {record : Nat → Reader Value} {levels : Nat}
    {es : List (Value × Value)} (hes : r.AreFields es) (hlevels : ∀ e ∈ es, e.2.levels ≤ levels)
    (hnodup : (es.map Prod.fst).Nodup) {seen : List Text}
    (hseen : ∀ key ∈ seen, .text key ∉ es.map Prod.fst) {n : Nat} (hn : es.length < n)
    (first : Bool) (ls : List Lexeme) :
    Returns (namedFields r (shaped record levels) n first seen)
      (spread first (entryTokens es) ++ .mark '\x7d' :: ls) es ls := by
  induction es generalizing n first seen with
  | nil =>
    obtain ⟨n, rfl⟩ := Nat.exists_eq_add_one_of_ne_zero (by omega : n ≠ 0)
    rw [entryTokens, spread_nil]
    exact (returns_nextKey?_end first ls).bind rfl
  | cons e es ih =>
    obtain ⟨n, rfl⟩ := Nat.exists_eq_add_one_of_ne_zero (by omega : n ≠ 0)
    obtain ⟨_, v⟩ := e
    obtain ⟨⟨key, shape, rfl, hshape, hfits⟩, hmore⟩ := List.forall_mem_cons.mp hes
    obtain ⟨hlevel, hlevels⟩ := List.forall_mem_cons.mp hlevels
    obtain ⟨hnew, hnodup⟩ := List.nodup_cons.mp hnodup
    have hfresh : seen.contains key = false := by
      rw [Bool.eq_false_iff]
      intro hin
      exact hseen key (List.contains_iff_mem.mp hin) List.mem_cons_self
    refine (returns_nextKey? first key _ (entryTokens es) _).bind ?_
    simp only [hshape, hfresh]
    refine (returns_mark ':' _).bind ((restores_shaped hfits hlevel _).bind ?_)
    refine (ih hmore hlevels hnodup (List.forall_mem_cons.mpr ⟨hnew, fun k hk hin => ?_⟩)
      (by simp at hn; omega) false).map _
    exact hseen k hk (List.mem_cons_of_mem _ hin)

lemma restores_record {r : Record} {es : List (Value × Value)} (h : r.Holds es)
    {levels : Nat} (hlevels : (Value.map es).levels ≤ levels) (depth : Nat) :
    Restores (recordWithin r (depth + 1) levels) (.map es) := by
  obtain ⟨levels, rfl, hvalues⟩ := Value.exists_levels_map hlevels
  have hneeded : es.any (·.1.isText r.needed) = true := by
    obtain ⟨e, he, hkey⟩ := List.mem_map.mp h.needed
    exact List.any_eq_true.mpr ⟨e, he, by simp [hkey, Value.isText]⟩
  have hle := length_le_entries es
  intro ls
  rw [tokens_map_append]
  refine (returns_take (.mark '\x7b') _).bind ((returns_bound _).bind ?_)
  refine (returns_namedFields h.fields hvalues h.nodup (by simp) ?_ true ls).bind ?_
  · rw [List.length_append]
    omega
  · rw [if_pos hneeded]
    rfl

end Reader

open Reader in
/-- A record is read back from what is written for it. -/
theorem read_print {r : Record} {es : List (Value × Value)} (h : r.Holds es)
    (hlevels : (Value.map es).levels ≤ maxLevels) : read r (print (.map es)) = .ok (.map es) := by
  have hread := restores_record h hlevels maxLevels []
  rw [List.append_nil, ← lexemes_print h.fields.isPlain] at hread
  rw [read]
  exact congrArg (· >>= _) hread

end Json

end Document

end TaggedOutline
