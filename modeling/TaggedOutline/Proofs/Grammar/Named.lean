import TaggedOutline.Proofs.Grammar.Tokens

/-!
# Named results

Whoever reads a parse tree looks up the result of a rule by its name and takes it that a result
which is found has a text.  It has: a rule whose match shows no token is left without a name, in
whatever way the match was made, so that every named result of a grammar is *solid*.

There are two walks over a tree, one to the first result of a rule and one to all of them.  What the
first walk finds is the head of what the second one finds (`ParseTree.find?_eq_head?`), and what the
second one finds is strewn over the tokens of the tree from left to right
(`ParseTree.strewn_findAll`).

Main statement: `named_of_recognize`, which says this of every rule of every grammar.
-/

namespace TaggedOutline

namespace ParseTree

/-! ## Solid trees -/

/-- A tree stands somewhere in another one. -/
inductive Within (v : ParseTree) : ParseTree → Prop
  | self : Within v v
  | item {u : ParseTree} {items : List ParseTree} (hitem : u ∈ items) (h : Within v u) :
      Within v (.list items)
  | inner {name : String} {u : ParseTree} (h : Within v u) : Within v (.rule name u)

/-- Every named result in a tree holds a token. -/
def IsSolid (v : ParseTree) : Prop :=
  ∀ name inner, Within (.rule name inner) v → inner.tokens ≠ []

section Solid

variable {u v w : ParseTree} {vs : List ParseTree}

lemma Within.trans (h : Within u v) (h' : Within v w) : Within u w := by
  induction h' with
  | self => exact h
  | item hitem _ ih => exact .item hitem ih
  | inner _ ih => exact .inner ih

lemma IsSolid.of_within (h : v.IsSolid) (hu : Within u v) : u.IsSolid :=
  fun name inner hinner => h name inner (hinner.trans hu)

lemma isSolid_empty : IsSolid .empty := by
  rintro name inner ⟨⟩

lemma isSolid_token (t : Token) : IsSolid (.token t) := by
  rintro name inner ⟨⟩

lemma isSolid_list_iff : IsSolid (.list vs) ↔ ∀ v ∈ vs, v.IsSolid := by
  constructor
  · intro h v hv
    exact h.of_within (.item hv .self)
  · intro h name inner hinner
    cases hinner with
    | item hitem hinner => exact h _ hitem name inner hinner

lemma IsSolid.rule (h : v.IsSolid) (hv : v.tokens ≠ []) (name : String) :
    IsSolid (.rule name v) := by
  intro name' inner hinner
  cases hinner with
  | self => exact hv
  | inner hinner => exact h name' inner hinner

end Solid

mutual

lemma isEmpty_of_tokens (v : ParseTree) (h : v.tokens = []) : v.isEmpty = true := by
  match v with
  | .empty => rfl
  | .token _ => cases h
  | .list items => exact areEmpty_of_tokensOf items h
  | .rule _ inner => exact isEmpty_of_tokens inner h

lemma areEmpty_of_tokensOf (vs : List ParseTree) (h : tokensOf vs = []) :
    areEmpty vs = true := by
  match vs with
  | [] => rfl
  | v :: vs =>
    obtain ⟨hv, hvs⟩ := List.append_eq_nil_iff.mp h
    rw [areEmpty, isEmpty_of_tokens v hv, areEmpty_of_tokensOf vs hvs, Bool.and_self]

end

/-! ## The two walks -/

mutual

/-- The walk to the first result of a rule comes to the head of what the walk to all of them
lists. -/
theorem find?_eq_head? (name : String) (v : ParseTree) :
    v.find? name = (v.findAll name).head? := by
  match v with
  | .empty => rfl
  | .token _ => rfl
  | .list items => exact findIn?_eq_head? name items
  | .rule r inner =>
    rw [find?, findAll]
    split
    · rfl
    · exact find?_eq_head? name inner

lemma findIn?_eq_head? (name : String) (vs : List ParseTree) :
    findIn? name vs = (findAllIn name vs).head? := by
  match vs with
  | [] => rfl
  | v :: vs =>
    rw [findIn?, findAllIn, find?_eq_head? name v, findIn?_eq_head? name vs, List.head?_append]
    cases (v.findAll name).head? <;> rfl

end

mutual

/-- What is found for a rule is a result of it that stands in the tree. -/
lemma within_of_mem_findAll {name : String} {e : ParseTree} (v : ParseTree)
    (h : e ∈ v.findAll name) : (∃ inner, e = .rule name inner) ∧ Within e v := by
  match v with
  | .empty => cases h
  | .token _ => cases h
  | .list items =>
    obtain ⟨hrule, u, hu, hwithin⟩ := within_of_mem_findAllIn items h
    exact ⟨hrule, .item hu hwithin⟩
  | .rule r inner =>
    rw [findAll] at h
    split at h
    · next hr =>
      obtain rfl := List.mem_singleton.mp h
      exact ⟨⟨inner, by rw [hr]⟩, .self⟩
    · obtain ⟨hrule, hwithin⟩ := within_of_mem_findAll inner h
      exact ⟨hrule, .inner hwithin⟩

lemma within_of_mem_findAllIn {name : String} {e : ParseTree} (vs : List ParseTree)
    (h : e ∈ findAllIn name vs) : (∃ inner, e = .rule name inner) ∧ ∃ v ∈ vs, Within e v := by
  match vs with
  | [] => cases h
  | v :: vs =>
    rcases List.mem_append.mp h with h | h
    · obtain ⟨hrule, hwithin⟩ := within_of_mem_findAll v h
      exact ⟨hrule, v, List.mem_cons_self, hwithin⟩
    · obtain ⟨hrule, u, hu, hwithin⟩ := within_of_mem_findAllIn vs h
      exact ⟨hrule, u, List.mem_cons_of_mem v hu, hwithin⟩

end

section Solid

variable {v e : ParseTree} {name : String}

lemma IsSolid.tokens_of_mem_findAll (h : v.IsSolid) (he : e ∈ v.findAll name) :
    e.tokens ≠ [] := by
  obtain ⟨⟨inner, rfl⟩, hwithin⟩ := within_of_mem_findAll v he
  exact h name inner hwithin

lemma isSome_text? (h : v.tokens ≠ []) : v.text?.isSome = true := by
  rw [text?, texts, List.isSome_head?]
  simpa using h

/-- In a solid tree the result of a rule is found exactly if it has a text. -/
lemma IsSolid.isSome_textOf? (h : v.IsSolid) (name : String) :
    (v.textOf? name).isSome = (v.find? name).isSome := by
  rw [textOf?]
  rcases hfind : v.find? name with - | e
  · rfl
  · have he : e ∈ v.findAll name := List.mem_of_head? ((find?_eq_head? name v).symm.trans hfind)
    exact isSome_text? (h.tokens_of_mem_findAll he)

end Solid

/-! ## Where results stand -/

/-- Trees stand one behind the other in a list of tokens, with other tokens before, between and
behind them. -/
inductive Strewn : List ParseTree → List Token → Prop
  | nil (all : List Token) : Strewn [] all
  | cons (before : List Token) (e : ParseTree) {es : List ParseTree} {all : List Token}
      (h : Strewn es all) : Strewn (e :: es) (before ++ (e.tokens ++ all))

section Strewn

variable {es es' : List ParseTree} {all all' : List Token}

lemma Strewn.append (h : Strewn es all) (h' : Strewn es' all') :
    Strewn (es ++ es') (all ++ all') := by
  induction h with
  | nil all =>
    cases h' with
    | nil => exact .nil _
    | cons before e h' =>
      rw [← List.append_assoc]
      exact .cons (all ++ before) e h'
  | cons before e _ ih =>
    rw [List.append_assoc, List.append_assoc]
    exact .cons before e ih

lemma strewn_singleton (e : ParseTree) : Strewn [e] e.tokens := by
  have h := Strewn.cons [] e (.nil [])
  rwa [List.nil_append, List.append_nil] at h

mutual

/-- What is found for a rule is strewn over the tokens of the tree. -/
theorem strewn_findAll (name : String) (v : ParseTree) : Strewn (v.findAll name) v.tokens := by
  match v with
  | .empty => exact .nil _
  | .token _ => exact .nil _
  | .list items => exact strewn_findAllIn name items
  | .rule r inner =>
    rw [findAll]
    split
    · exact strewn_singleton (.rule r inner)
    · exact strewn_findAll name inner

lemma strewn_findAllIn (name : String) (vs : List ParseTree) :
    Strewn (findAllIn name vs) (tokensOf vs) := by
  match vs with
  | [] => exact .nil _
  | v :: vs => exact (strewn_findAll name v).append (strewn_findAllIn name vs)

end

end Strewn

/-- Trees hold the tokens of runs of a list, up to those of silent kinds.  The runs lie between two
places, none of them is empty, and each ends before the next one begins. -/
def HoldRuns (silent : String → Prop) (tokens : List Token) (p n : Nat) (es : List ParseTree) :
    Prop :=
  ∃ runs : List (Nat × Nat), (∀ r ∈ runs, p ≤ r.1 ∧ r.1 < r.2 ∧ r.2 ≤ n) ∧
    (runs.Pairwise fun r r' => r.2 ≤ r'.1) ∧
    List.Forall₂ (fun e r => Keeps silent e.tokens (tokens.extract r.1 r.2)) es runs

end ParseTree

section Runs

variable {silent : String → Prop} {kept kept' all tokens : List Token} {p n : Nat}

namespace Keeps

lemma refl (all : List Token) : Keeps silent all all := by
  induction all with
  | nil => exact .nil
  | cons t all ih => exact .keep t ih

/-- What two lists keep together, each of them keeps of a part. -/
lemma exists_of_append (h : Keeps silent (kept ++ kept') all) :
    ∃ before behind, all = before ++ behind ∧ Keeps silent kept before ∧
      Keeps silent kept' behind := by
  generalize hboth : kept ++ kept' = both at h
  induction h generalizing kept with
  | nil =>
    obtain ⟨rfl, rfl⟩ := List.append_eq_nil_iff.mp hboth
    exact ⟨[], [], rfl, .nil, .nil⟩
  | @keep both all t h ih =>
    cases kept with
    | nil =>
      obtain rfl : kept' = t :: both := hboth
      exact ⟨[], t :: all, rfl, .nil, .keep t h⟩
    | cons t' kept =>
      obtain ⟨rfl, hrest⟩ := List.cons.inj hboth
      obtain ⟨before, behind, rfl, hbefore, hbehind⟩ := ih hrest
      exact ⟨t' :: before, behind, rfl, .keep t' hbefore, hbehind⟩
  | @leave both all t ht _ ih =>
    obtain ⟨before, behind, rfl, hbefore, hbehind⟩ := ih hboth
    exact ⟨t :: before, behind, rfl, .leave ht hbefore, hbehind⟩

/-- What two lists keep together of a run, they keep of two runs that meet. -/
lemma exists_of_append_extract (hle : p ≤ n)
    (h : Keeps silent (kept ++ kept') (tokens.extract p n)) :
    ∃ q, p ≤ q ∧ q ≤ n ∧ Keeps silent kept (tokens.extract p q) ∧
      Keeps silent kept' (tokens.extract q n) := by
  obtain ⟨before, behind, hsplit, hbefore, hbehind⟩ := h.exists_of_append
  rw [List.extract_eq_take_drop] at hsplit
  have hlength : before.length ≤ n - p := by
    have := congrArg List.length hsplit
    rw [List.length_take, List.length_append] at this
    omega
  refine ⟨p + before.length, Nat.le_add_right _ _, by omega, ?_, ?_⟩
  · have hfront := congrArg (List.take before.length) hsplit
    rw [List.take_take, min_eq_left hlength, List.take_left] at hfront
    rw [List.extract_eq_take_drop, Nat.add_sub_cancel_left, hfront]
    exact hbefore
  · have hback := congrArg (List.drop before.length) hsplit
    rw [List.drop_take, List.drop_drop, List.drop_left, Nat.sub_sub] at hback
    rw [List.extract_eq_take_drop, hback]
    exact hbehind

end Keeps

/-- Trees whose tokens are strewn over what is kept of a run hold runs within it. -/
lemma ParseTree.Strewn.holdRuns {es : List ParseTree} (h : Strewn es kept)
    (hes : ∀ e ∈ es, e.tokens ≠ []) (hle : p ≤ n)
    (hkeeps : Keeps silent kept (tokens.extract p n)) : HoldRuns silent tokens p n es := by
  induction h generalizing p with
  | nil => exact ⟨[], by simp, .nil, .nil⟩
  | cons before e _ ih =>
    obtain ⟨he, hes⟩ := List.forall_mem_cons.mp hes
    obtain ⟨q, hpq, hqn, -, hrest⟩ := hkeeps.exists_of_append_extract hle
    obtain ⟨m, hqm, hmn, hrun, hmore⟩ := hrest.exists_of_append_extract hqn
    obtain ⟨runs, hbounds, hordered, hruns⟩ := ih hes hmn hmore
    -- nothing could be kept of an empty run
    have hlt : q < m := by
      refine lt_of_le_of_ne hqm ?_
      rintro rfl
      rw [List.extract_eq_take_drop, Nat.sub_self, List.take_zero] at hrun
      exact he (List.sublist_nil.mp hrun.sublist)
    refine ⟨(q, m) :: runs, List.forall_mem_cons.mpr ⟨⟨hpq, hlt, hmn⟩, fun r hr => ?_⟩,
      .cons (fun r hr => (hbounds r hr).1) hordered, .cons hrun hruns⟩
    obtain ⟨hstart, hbound⟩ := hbounds r hr
    exact ⟨(hpq.trans hqm).trans hstart, hbound⟩

end Runs

namespace Grammar

open ParseTree

/-! ## What grammars recognize -/

lemma isSolid_nameResult {m : Match} (h : m.1.IsSolid) (name : String) :
    (nameResult name m).1.IsSolid := by
  rw [nameResult]
  split
  · exact isSolid_empty
  · next hm => exact h.rule (fun htokens => hm (isEmpty_of_tokens m.1 htokens)) name

section Kept

variable {tokens : List Token} {sep : Option String} {vis : Bool} {p a : Nat} {between : ParseTree}
  {m : Match}

lemma isSolid_takeIf {test : Token → Bool} (h : takeIf tokens p test = some m) :
    m.1.IsSolid := by
  obtain ⟨t, -, -, rfl⟩ := exists_of_takeIf h
  exact isSolid_token t

/-- What a list keeps of a gap is solid. -/
lemma isSolid_of_mem_keptGap (hgap : gap? tokens sep p = some (between, a)) :
    ∀ v ∈ keptGap vis between, v.IsSolid := by
  have hbetween : between.IsSolid := by
    cases sep with
    | none =>
      obtain ⟨rfl, -⟩ := Prod.mk.inj (Option.some.inj hgap)
      exact isSolid_empty
    | some kind => exact isSolid_takeIf hgap
  intro v hv
  rw [keptGap] at hv
  split at hv
  · obtain rfl := List.mem_singleton.mp hv
    exact hbetween
  · cases hv

lemma isKept_isSolid (tokens : List Token) :
    IsKept tokens (fun _ _ => True) fun _ m => m.1.IsSolid where
  take hm := isSolid_takeIf hm
  empty _ := isSolid_empty
  nil _ := isSolid_list_iff.mpr (by simp)
  cons h hs := isSolid_list_iff.mpr (List.forall_mem_cons.mpr ⟨h, isSolid_list_iff.mp hs⟩)
  gap _ hgap hs := isSolid_list_iff.mpr (List.forall_mem_append.mpr
    ⟨isSolid_of_mem_keptGap hgap, isSolid_list_iff.mp hs⟩)
  name name h := isSolid_nameResult h name

end Kept

lemma isSolid_of_recognize {g : Grammar} {name : String} {s rest : Stream} {value : ParseTree}
    (h : g.recognize name s = some (value, rest)) : value.IsSolid := by
  obtain ⟨body, -, -, hderives⟩ := exists_derives_of_recognize h
  exact hderives.keeps (isKept_isSolid s.tokens) (fun _ _ _ _ _ _ => trivial)
    (fun _ _ _ => trivial) trivial Seeds.hold_nil _ rfl

/-- Every named result in what a grammar recognizes holds a token.  So in all parts of it the result
of a rule is found exactly if it has a text; it is the first of all results of the rule; and these
hold runs of the tokens of the part that do not overlap, from left to right.  In the same way all
results of a rule hold runs of the tokens that were taken, up to separators that do not show. -/
theorem named_of_recognize (g : Grammar) {rule : String} {s rest : Stream} {value : ParseTree}
    (h : g.recognize rule s = some (value, rest)) :
    (∀ name inner, (ParseTree.rule name inner).Within value → inner.tokens ≠ []) ∧
    (∀ part : ParseTree, part.Within value → ∀ name,
      ((part.find? name).isSome ↔ (part.textOf? name).isSome) ∧
      part.find? name = (part.findAll name).head? ∧
      HoldRuns (fun _ => False) part.tokens 0 part.tokens.length (part.findAll name)) ∧
    ∀ name, HoldRuns g.Silences s.tokens s.position rest.position (value.findAll name) := by
  have hsolid := isSolid_of_recognize h
  obtain ⟨-, hle, -, -, hkeeps, -⟩ := tokens_of_recognize g h
  refine ⟨hsolid, fun part hpart name => ⟨?_, find?_eq_head? name part, ?_⟩, fun name => ?_⟩
  · rw [(hsolid.of_within hpart).isSome_textOf? name]
  · have hall : part.tokens.extract 0 part.tokens.length = part.tokens := by simp
    exact (strewn_findAll name part).holdRuns
      (fun _ => (hsolid.of_within hpart).tokens_of_mem_findAll) (Nat.zero_le _)
      (hall.symm ▸ .refl part.tokens)
  · exact (strewn_findAll name value).holdRuns (fun _ => hsolid.tokens_of_mem_findAll) hle hkeeps

/-- Lists of flags that nest to the left.  A flag may have a sign and may have values, where the
commas between values do not show. -/
def flags : Grammar where
  rules := [
    ("flags", .choice [.seq [.ref "flags", .ref "flag"], .ref "flag"]),
    ("flag", .seq [.ref "sign", .token "key", .optional (.ref "values")]),
    ("sign", .optional (.token "minus")),
    ("values", .list (.token "digits") (some "comma") false)]
  start := "flags"
  sound := by decide

/-- The tokens of `a1,2b`. -/
def flagTokens : List Token :=
  let token (kind : String) (c : Char) (start : Nat) : Token :=
    { kind, text := [c], start, stop := start + 1 }
  [token "key" 'a' 0, token "digits" '1' 1, token "comma" ',' 2, token "digits" '2' 3,
    token "key" 'b' 4]

/-- The rule of signs has matched twice, but there is no token of a sign to be found. -/
theorem named_of_flags :
    let s : Stream := { tokens := flagTokens }
    ∃ value, flags.recognize "flags" s = some (value, { s with position := 5 }) ∧
      (value.findAll "flag").map ParseTree.texts = [[['a'], ['1'], ['2']], [['b']]] ∧
      value.find? "sign" = none ∧ value.textOf? "values" = some ['1'] ∧
      (∀ name inner, (ParseTree.rule name inner).Within value → inner.tokens ≠ []) ∧
      (∀ name, ((value.find? name).isSome ↔ (value.textOf? name).isSome) ∧
        value.find? name = (value.findAll name).head?) ∧
      ∀ name, HoldRuns flags.Silences s.tokens 0 5 (value.findAll name) := by
  intro s
  have hrun : (flags.recognize "flags" s).map (fun m => (m.2,
      (m.1.findAll "flag").map ParseTree.texts, m.1.find? "sign", m.1.textOf? "values")) =
      some ({ s with position := 5 }, [[['a'], ['1'], ['2']], [['b']]], none, some ['1']) := by
    cbv
  obtain ⟨⟨value, rest⟩, h, hm⟩ := Option.map_eq_some_iff.mp hrun
  simp only [Prod.mk.injEq] at hm
  obtain ⟨rfl, hflags, hsign, hvalues⟩ := hm
  obtain ⟨hsolid, hparts, hruns⟩ := named_of_recognize flags h
  refine ⟨value, h, hflags, hsign, hvalues, hsolid, fun name => ?_, hruns⟩
  obtain ⟨hfound, hhead, -⟩ := hparts value .self name
  exact ⟨hfound, hhead⟩

end Grammar

end TaggedOutline
