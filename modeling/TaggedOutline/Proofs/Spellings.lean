import TaggedOutline.Proofs.Readings

/-!
# Spellings

A reading is described without reference to its order of trials by the lexemes it takes: `Gives`
says that a reading takes the tokens whose lexemes spell a value, and that its tree tells the value.
A spelling is a relation between lexemes and values.  There is one lemma for each kind of reading;
what makes a reading stop is a condition on the next token.
-/

namespace TaggedOutline

/-- What a grammar sees of a token: its kind and its text. -/
abbrev Lexeme := String × Text

/-- A token without its place. -/
def Token.lexeme (t : Token) : Lexeme := (t.kind, t.text)

open Reading

/-! ## Spellings -/

/-- One lexeme of a kind. -/
def SpellsOne (kind : String) (ls : List Lexeme) (t : Text) : Prop := ls = [(kind, t)]

lemma spellsOne (kind : String) (t : Text) : SpellsOne kind [(kind, t)] t := rfl

/-- Something that may be absent. -/
inductive SpellsMaybe {α : Type} (spells : List Lexeme → α → Prop) :
    List Lexeme → Option α → Prop
  | absent : SpellsMaybe spells [] none
  | present {ls : List Lexeme} {a : α} (h : spells ls a) : SpellsMaybe spells ls (some a)

/-- Things one after the other. -/
inductive SpellsEach {α : Type} (spells : List Lexeme → α → Prop) : List Lexeme → List α → Prop
  | nil : SpellsEach spells [] []
  | cons {ls more : List Lexeme} {a : α} {as : List α} (h : spells ls a)
      (hs : SpellsEach spells more as) : SpellsEach spells (ls ++ more) (a :: as)

@[simp] lemma spellsMaybe_none {α : Type} {spells : List Lexeme → α → Prop} {ls : List Lexeme} :
    SpellsMaybe spells ls none ↔ ls = [] := by
  constructor
  · rintro ⟨⟩
    rfl
  · rintro rfl
    exact .absent

@[simp] lemma spellsMaybe_some {α : Type} {spells : List Lexeme → α → Prop} {ls : List Lexeme}
    {a : α} : SpellsMaybe spells ls (some a) ↔ spells ls a := by
  constructor
  · rintro ⟨⟩
    assumption
  · exact .present

lemma spellsMaybe_elim {α : Type} {spells : List Lexeme → α → Prop} {f : α → List Lexeme}
    (h : ∀ a, spells (f a) a) (o : Option α) : SpellsMaybe spells (o.elim [] f) o := by
  cases o with
  | none => exact .absent
  | some a => exact .present (h a)

@[simp] lemma spellsEach_nil {α : Type} {spells : List Lexeme → α → Prop} {ls : List Lexeme} :
    SpellsEach spells ls [] ↔ ls = [] := by
  constructor
  · rintro ⟨⟩
    rfl
  · rintro rfl
    exact .nil

lemma spellsEach_cons {α : Type} {spells : List Lexeme → α → Prop} {ls : List Lexeme} {a : α}
    {as : List α} : SpellsEach spells ls (a :: as) ↔
      ∃ first more, ls = first ++ more ∧ spells first a ∧ SpellsEach spells more as := by
  constructor
  · rintro ⟨⟩
    exact ⟨_, _, rfl, by assumption, by assumption⟩
  · rintro ⟨first, more, rfl, h, hs⟩
    exact .cons h hs

/-! ## What readings give -/

/-- A spelling begins with a lexeme of some kinds. -/
def Begins {α : Type} (kinds : List String) (spells : List Lexeme → α → Prop) : Prop :=
  ∀ ls a, spells ls a → ∃ l ∈ ls.head?, l.1 ∈ kinds

/-- If there is a first lexeme, it is of some kinds. -/
def Leads (kinds : List String) (ls : List Lexeme) : Prop := ∀ l ∈ ls.head?, l.1 ∈ kinds

/-- If there is a first token, it is not of some kinds. -/
def Avoids (kinds : List String) (ts : List Token) : Prop := ∀ t ∈ ts.head?, t.kind ∉ kinds

/-- A reading takes the tokens whose lexemes spell a value, unless a token of some kinds is next,
and gives a tree that tells the value. -/
structure Gives {α : Type} (spells : List Lexeme → α → Prop) (tells : ParseTree → α → Prop)
    (stops : List String) (f : Reading) : Prop where
  sound : ∀ {ts v rest}, f ts = some (v, rest) →
    ∃ used a, ts = used ++ rest ∧ spells (used.map Token.lexeme) a ∧ tells v a
  complete : ∀ {used rest a}, spells (used.map Token.lexeme) a → Avoids stops rest →
    ∃ v, f (used ++ rest) = some (v, rest) ∧ tells v a

/-- Readings one after the other, whose spellings stand one after the other. -/
structure GivesAll {α : Type} (spells : List Lexeme → α → Prop) (tells : List ParseTree → α → Prop)
    (stops : List String) (fs : List Reading) : Prop where
  sound : ∀ {done ts v rest}, seqFrom done fs ts = some (v, rest) →
    ∃ used a vs, ts = used ++ rest ∧ spells (used.map Token.lexeme) a ∧
      v = .list (done.reverse ++ vs) ∧ tells vs a
  complete : ∀ {used rest a} (done), spells (used.map Token.lexeme) a → Avoids stops rest →
    ∃ vs, seqFrom done fs (used ++ rest) = some (.list (done.reverse ++ vs), rest) ∧ tells vs a

/-- A tree that is one token. -/
def TellsOne (v : ParseTree) (t : Text) : Prop := ∃ token, v = .token token ∧ token.text = t

/-- A tree that may be absent. -/
def TellsMaybe {α : Type} (tells : ParseTree → α → Prop) (v : ParseTree) : Option α → Prop
  | none => v = .empty
  | some a => tells v a

/-- A list of trees. -/
def TellsEach {α : Type} (tells : ParseTree → α → Prop) (v : ParseTree) (as : List α) : Prop :=
  ∃ vs, v = .list vs ∧ List.Forall₂ tells vs as

/-- A tree under a name. -/
def TellsNamed {α : Type} (name : String) (tells : ParseTree → α → Prop) (v : ParseTree) (a : α) :
    Prop := ∃ inner, v = .rule name inner ∧ tells inner a

/-- A tree with no other behind it. -/
def TellsLast {α : Type} (tells : ParseTree → α → Prop) (vs : List ParseTree) (a : α) : Prop :=
  ∃ v, vs = [v] ∧ tells v a

/-- Trees in a list. -/
def TellsList {α : Type} (tells : List ParseTree → α → Prop) (v : ParseTree) (a : α) : Prop :=
  ∃ vs, v = .list vs ∧ tells vs a

/-- One spelling behind another. -/
def SpellsBoth {α β : Type} (spells : List Lexeme → α → Prop) (behind : List Lexeme → β → Prop)
    (ls : List Lexeme) (m : α × β) : Prop :=
  ∃ before after, ls = before ++ after ∧ spells before m.1 ∧ behind after m.2

/-- One tree before others. -/
def TellsBoth {α β : Type} (tells : ParseTree → α → Prop) (behind : List ParseTree → β → Prop)
    (vs : List ParseTree) (m : α × β) : Prop :=
  ∃ v rest, vs = v :: rest ∧ tells v m.1 ∧ behind rest m.2

section Gives

variable {α β : Type} {spells : List Lexeme → α → Prop} {tells : ParseTree → α → Prop}
  {stops stops' kinds kinds' : List String} {f g : Reading} {fs : List Reading}

lemma Begins.leads (h : Begins kinds spells) {ls : List Lexeme} {a : α} (hs : spells ls a) :
    Leads kinds ls := by
  obtain ⟨l, hl, hkind⟩ := h ls a hs
  intro l' hl'
  exact Option.mem_unique hl' hl ▸ hkind

lemma leads_maybe (h : Begins kinds spells) (ls : List Lexeme) (a : Option α)
    (hs : SpellsMaybe spells ls a) : Leads kinds ls := by
  cases hs with
  | absent => simp [Leads]
  | present hs => exact h.leads hs

lemma leads_append {ls ls' : List Lexeme} (h : Leads kinds ls) (h' : Leads kinds' ls') :
    Leads (kinds ++ kinds') (ls ++ ls') := by
  cases ls with
  | nil => exact fun l hl => List.mem_append_right _ (h' l hl)
  | cons l ls => exact fun l' hl' => List.mem_append_left _ (h l' hl')

lemma leads_each (h : Begins kinds spells) (ls : List Lexeme) (as : List α)
    (hs : SpellsEach spells ls as) : Leads kinds ls := by
  induction hs with
  | nil => simp [Leads]
  | cons hs _ ih => exact fun l hl => by simpa using leads_append (h.leads hs) ih l hl

lemma leads_both {behind : List Lexeme → β → Prop} (h : ∀ ls a, spells ls a → Leads kinds ls)
    (h' : ∀ ls b, behind ls b → Leads kinds' ls) (ls : List Lexeme) (m : α × β)
    (hs : SpellsBoth spells behind ls m) : Leads (kinds ++ kinds') ls := by
  obtain ⟨before, after, rfl, hbefore, hafter⟩ := hs
  exact leads_append (h _ _ hbefore) (h' _ _ hafter)

lemma avoids_append {used rest : List Token} (h : Leads kinds (used.map Token.lexeme))
    (hkinds : ∀ kind ∈ kinds, kind ∉ stops) (hrest : Avoids stops rest) :
    Avoids stops (used ++ rest) := by
  cases used with
  | nil => exact hrest
  | cons t used =>
    rintro _ ⟨⟩
    exact hkinds _ (h t.lexeme rfl)

lemma avoids_left {ts : List Token} (h : Avoids (stops ++ stops') ts) : Avoids stops ts :=
  fun t ht hkind => h t ht (List.mem_append_left _ hkind)

lemma avoids_right {ts : List Token} (h : Avoids (stops ++ stops') ts) : Avoids stops' ts :=
  fun t ht hkind => h t ht (List.mem_append_right _ hkind)

lemma gives_token (kind : String) : Gives (SpellsOne kind) TellsOne [] (token kind) where
  sound {ts v rest} h := by
    cases ts with
    | nil => simp [token] at h
    | cons t ts =>
      simp only [token, Option.ite_none_right_eq_some, Option.some.injEq, Prod.mk.injEq] at h
      obtain ⟨rfl, rfl, rfl⟩ := h
      exact ⟨[t], t.text, rfl, rfl, t, rfl, rfl⟩
  complete {used rest a} h _ := by
    cases used with
    | nil => simp [SpellsOne] at h
    | cons t used =>
      simp only [SpellsOne, List.map_cons, Token.lexeme, List.cons.injEq, Prod.mk.injEq,
        List.map_eq_nil_iff] at h
      obtain ⟨⟨hkind, rfl⟩, rfl⟩ := h
      exact ⟨.token t, by simp [token, hkind], t, rfl, rfl⟩

lemma begins_one (kind : String) : Begins [kind] (SpellsOne kind) := by
  rintro _ t rfl
  exact ⟨(kind, t), rfl, by simp⟩

/-- Before tokens that do not begin with a spelling a reading has nothing to take. -/
lemma Gives.eq_none_of_forall (h : Gives spells tells stops f) {ts : List Token}
    (hts : ∀ used rest a, ts.map Token.lexeme = used ++ rest → ¬spells used a) : f ts = none := by
  cases hf : f ts with
  | none => rfl
  | some m =>
    obtain ⟨used, a, rfl, hs, -⟩ := h.sound hf
    exact absurd hs (hts _ _ a List.map_append)

/-- Before other tokens than those that a spelling begins with a reading has nothing to take. -/
lemma Gives.eq_none (h : Gives spells tells stops f) (hbegins : Begins kinds spells)
    {ts : List Token} (hts : Avoids kinds ts) : f ts = none := by
  refine h.eq_none_of_forall fun used rest a hused hs => ?_
  obtain ⟨l, hl, hkind⟩ := hbegins _ _ hs
  cases used with
  | nil => simp at hl
  | cons l' used =>
    obtain ⟨t, ts, rfl, rfl, -⟩ := List.map_eq_cons_iff.mp hused
    obtain rfl : t.lexeme = l := Option.some.inj hl
    exact hts t rfl hkind

/-- A reading also gives what can be computed from what it gives. -/
lemma Gives.map (h : Gives spells tells stops f) (φ : α → β) {spells' : List Lexeme → β → Prop}
    {tells' : ParseTree → β → Prop} (hspells : ∀ ls b, spells' ls b ↔ ∃ a, spells ls a ∧ φ a = b)
    (htells : ∀ v a, tells v a → tells' v (φ a)) : Gives spells' tells' stops f where
  sound hf := by
    obtain ⟨used, a, hts, hs, hv⟩ := h.sound hf
    exact ⟨used, φ a, hts, (hspells _ _).mpr ⟨a, hs, rfl⟩, htells _ _ hv⟩
  complete hs hrest := by
    obtain ⟨a, ha, rfl⟩ := (hspells _ _).mp hs
    obtain ⟨v, hf, hv⟩ := h.complete ha hrest
    exact ⟨v, hf, htells _ _ hv⟩

lemma Gives.optional (h : Gives spells tells stops f) (hbegins : Begins kinds spells) :
    Gives (SpellsMaybe spells) (TellsMaybe tells) (kinds ++ stops) (optional f) where
  sound {ts v rest} hf := by
    rcases Option.or_eq_some_iff.mp hf with hf | ⟨-, hnone⟩
    · obtain ⟨used, a, hts, hs, hv⟩ := h.sound hf
      exact ⟨used, some a, hts, .present hs, hv⟩
    · simp only [Option.some.injEq, Prod.mk.injEq] at hnone
      exact ⟨[], none, hnone.2, .absent, hnone.1.symm⟩
  complete {used rest a} hs hrest := by
    cases a with
    | none =>
      obtain rfl : used = [] := by simpa using hs
      refine ⟨.empty, ?_, rfl⟩
      rw [Reading.optional, List.nil_append, h.eq_none hbegins (avoids_left hrest), Option.none_or]
    | some a =>
      obtain ⟨v, hf, hv⟩ := h.complete (spellsMaybe_some.mp hs) (avoids_right hrest)
      exact ⟨v, by rw [Reading.optional, hf, Option.some_or], hv⟩

lemma Gives.mono (h : Gives spells tells stops f) (hstops : stops ⊆ stops') :
    Gives spells tells stops' f where
  sound := h.sound
  complete hs hrest := h.complete hs fun t ht hkind => hrest t ht (hstops hkind)

lemma Gives.choice_singleton (h : Gives spells tells stops f) :
    Gives spells tells stops (Reading.choice [f]) := by
  have hone : Reading.choice [f] = f := funext fun ts => Option.or_none
  rwa [hone]

/-- The alternatives behind the first one are there for what the first one does not take. -/
lemma Gives.choice_cons {spells' : List Lexeme → α → Prop} (hf : Gives spells tells stops f)
    (hfs : Gives spells' tells stops' (Reading.choice fs))
    (hfails : ∀ used rest a, spells' (used.map Token.lexeme) a → Avoids stops' rest →
      f (used ++ rest) = none) :
    Gives (fun ls a => spells ls a ∨ spells' ls a) tells (stops ++ stops')
      (Reading.choice (f :: fs)) where
  sound {ts v rest} h := by
    rcases Option.or_eq_some_iff.mp h with h | ⟨-, h⟩
    · obtain ⟨used, a, hts, hs, hv⟩ := hf.sound h
      exact ⟨used, a, hts, .inl hs, hv⟩
    · obtain ⟨used, a, hts, hs, hv⟩ := hfs.sound h
      exact ⟨used, a, hts, .inr hs, hv⟩
  complete {used rest a} hs hrest := by
    rcases hs with hs | hs
    · obtain ⟨v, h, hv⟩ := hf.complete hs (avoids_left hrest)
      exact ⟨v, by rw [Reading.choice, h, Option.some_or], hv⟩
    · obtain ⟨v, h, hv⟩ := hfs.complete hs (avoids_right hrest)
      refine ⟨v, ?_, hv⟩
      rw [Reading.choice, hfails used rest a hs (avoids_right hrest), Option.none_or, h]

/-- A choice between readings whose spellings begin differently. -/
lemma Gives.choice {spells' : List Lexeme → α → Prop}
    (hf : Gives spells tells stops f) (hg : Gives spells' tells stops' g)
    (hbegins : Begins kinds spells) (hbegins' : Begins kinds' spells')
    (hkinds : ∀ kind ∈ kinds', kind ∉ kinds) :
    Gives (fun ls a => spells ls a ∨ spells' ls a) tells (stops ++ stops')
      (Reading.choice [f, g]) := by
  refine hf.choice_cons hg.choice_singleton fun used rest a hs _ => hf.eq_none hbegins ?_
  obtain ⟨l, hl, hkind⟩ := hbegins' _ _ hs
  cases used with
  | nil => simp at hl
  | cons t used =>
    obtain rfl : t.lexeme = l := by simpa using hl
    rintro _ ⟨⟩
    exact hkinds _ hkind

lemma Gives.manyFrom (h : Gives spells tells stops f) (hbegins : Begins kinds spells)
    (hkinds : ∀ kind ∈ kinds, kind ∉ stops) :
    (∀ {done ts v rest}, manyFrom f done ts = some (v, rest) →
      ∃ used as vs, ts = used ++ rest ∧ SpellsEach spells (used.map Token.lexeme) as ∧
        v = .list (done.reverse ++ vs) ∧ List.Forall₂ tells vs as) ∧
    ∀ {used rest as} (done), SpellsEach spells (used.map Token.lexeme) as →
      Avoids (kinds ++ stops) rest →
      ∃ vs, manyFrom f done (used ++ rest) = some (.list (done.reverse ++ vs), rest) ∧
        List.Forall₂ tells vs as := by
  constructor
  · intro done ts
    induction hn : ts.length using Nat.strong_induction_on generalizing done ts with
    | _ n ih =>
      intro v rest hv
      rw [Reading.manyFrom] at hv
      have hend : some (ParseTree.list done.reverse, ts) = some (v, rest) →
          ∃ used as vs, ts = used ++ rest ∧ SpellsEach spells (used.map Token.lexeme) as ∧
            v = .list (done.reverse ++ vs) ∧ List.Forall₂ tells vs as := by
        rintro ⟨⟩
        exact ⟨[], [], [], rfl, .nil, by simp, .nil⟩
      split at hv
      · exact hend hv
      · rename_i value mid hmid
        split at hv
        · rename_i hlt
          obtain ⟨used, a, hts, hs, htells⟩ := h.sound hmid
          obtain ⟨more, as, vs, hmore, hspells, hlist, hall⟩ :=
            ih mid.length (hn ▸ hlt) rfl hv
          refine ⟨used ++ more, a :: as, value :: vs, ?_, ?_, ?_, .cons htells hall⟩
          · rw [hts, hmore, List.append_assoc]
          · rw [List.map_append]
            exact .cons hs hspells
          · simpa using hlist
        · exact hend hv
  · intro used rest as done hs hrest
    induction as generalizing used done with
    | nil =>
      obtain rfl : used = [] := by simpa using hs
      refine ⟨[], ?_, .nil⟩
      rw [Reading.manyFrom, List.nil_append, h.eq_none hbegins (avoids_left hrest)]
      simp
    | cons a as ih =>
      obtain ⟨first, more, hused, hfirst, hmore⟩ := spellsEach_cons.mp hs
      obtain ⟨used, behind, rfl, rfl, rfl⟩ := List.map_eq_append_iff.mp hused
      have havoids : Avoids stops (behind ++ rest) :=
        avoids_append (leads_each hbegins _ _ hmore) hkinds (avoids_right hrest)
      obtain ⟨v, hv, htells⟩ := h.complete hfirst havoids
      obtain ⟨vs, hvs, hall⟩ := ih (v :: done) hmore
      -- the round has taken a token, so the loop goes on behind it
      have hne : used ≠ [] := by
        rintro rfl
        obtain ⟨l, hl, -⟩ := hbegins _ _ hfirst
        simp at hl
      have hlt : (behind ++ rest).length < (used ++ (behind ++ rest)).length := by
        have := List.length_pos_iff.mpr hne
        simp only [List.length_append]
        omega
      refine ⟨v :: vs, ?_, .cons htells hall⟩
      rw [Reading.manyFrom, List.append_assoc, hv]
      simp only [hlt, if_true, hvs, List.reverse_cons, List.append_assoc, List.singleton_append]

lemma Gives.many (h : Gives spells tells stops f) (hbegins : Begins kinds spells)
    (hkinds : ∀ kind ∈ kinds, kind ∉ stops) :
    Gives (SpellsEach spells) (TellsEach tells) (kinds ++ stops) (many f) where
  sound hf := by
    obtain ⟨used, as, vs, hts, hs, hv, hall⟩ := (h.manyFrom hbegins hkinds).1 hf
    exact ⟨used, as, hts, hs, vs, hv, hall⟩
  complete hs hrest := by
    obtain ⟨vs, hf, hall⟩ := (h.manyFrom hbegins hkinds).2 [] hs hrest
    exact ⟨_, hf, vs, rfl, hall⟩

lemma Gives.maybe_named (h : Gives spells tells stops f) (name : String) :
    Gives spells (fun v a => ∃ inner, tells inner a ∧
      v = if inner.isEmpty then .empty else .rule name inner) stops (named name f) where
  sound hf := by
    obtain ⟨⟨v, rest⟩, hv, he⟩ := Option.map_eq_some_iff.mp hf
    obtain ⟨used, a, hts, hs, htells⟩ := h.sound hv
    obtain ⟨rfl, rfl⟩ := Prod.mk.inj he
    exact ⟨used, a, hts, hs, v, htells, rfl⟩
  complete hs hrest := by
    obtain ⟨v, hf, htells⟩ := h.complete hs hrest
    exact ⟨_, by rw [Reading.named, hf]; rfl, v, htells, rfl⟩

lemma Gives.named (h : Gives spells tells stops f)
    (hne : ∀ v a, tells v a → v.isEmpty = false) (name : String) :
    Gives spells (TellsNamed name tells) stops (named name f) := by
  refine (h.maybe_named name).map id (by simp) ?_
  rintro _ a ⟨inner, hinner, rfl⟩
  exact ⟨inner, by rw [hne inner a hinner]; rfl, hinner⟩

lemma Gives.last (h : Gives spells tells stops f) :
    GivesAll spells (TellsLast tells) stops [f] where
  sound {done ts v rest} hf := by
    obtain ⟨⟨value, left⟩, hvalue, he⟩ := Option.bind_eq_some_iff.mp hf
    obtain ⟨rfl, rfl⟩ : ParseTree.list (value :: done).reverse = v ∧ left = rest := by
      simpa [seqFrom] using he
    obtain ⟨used, a, hts, hs, hv⟩ := h.sound hvalue
    exact ⟨used, a, [value], hts, hs, by simp, value, rfl, hv⟩
  complete {used rest a} done hs hrest := by
    obtain ⟨v, hf, hv⟩ := h.complete hs hrest
    exact ⟨[v], by simp [seqFrom, hf], v, rfl, hv⟩

section Cons

variable {behind : List Lexeme → β → Prop} {tells' : List ParseTree → β → Prop}

lemma Gives.cons (h : Gives spells tells stops f) (hs : GivesAll behind tells' stops' fs)
    (hstops : stops' ⊆ kinds)
    (hnext : ∀ used rest b, behind (used.map Token.lexeme) b → Avoids kinds rest →
      Avoids stops (used ++ rest)) :
    GivesAll (SpellsBoth spells behind) (TellsBoth tells tells') kinds (f :: fs) where
  sound {done ts v rest} hf := by
    obtain ⟨⟨value, mid⟩, hvalue, hrest⟩ := Option.bind_eq_some_iff.mp hf
    obtain ⟨used, a, rfl, hspells, htells⟩ := h.sound hvalue
    obtain ⟨more, b, vs, rfl, hmore, hv, hall⟩ := hs.sound hrest
    refine ⟨used ++ more, (a, b), value :: vs, (List.append_assoc _ _ _).symm, ?_, ?_, ?_⟩
    · exact ⟨_, _, List.map_append, hspells, hmore⟩
    · simpa using hv
    · exact ⟨value, vs, rfl, htells, hall⟩
  complete {used rest m} done hm hrest := by
    obtain ⟨before, after, hused, hbefore, hafter⟩ := hm
    obtain ⟨used, more, rfl, rfl, rfl⟩ := List.map_eq_append_iff.mp hused
    obtain ⟨v, hv, htells⟩ := h.complete hbefore (hnext more rest _ hafter hrest)
    obtain ⟨vs, hvs, hall⟩ := hs.complete (v :: done) hafter
      fun t ht hkind => hrest t ht (hstops hkind)
    refine ⟨v :: vs, ?_, v, vs, rfl, htells, hall⟩
    rw [seqFrom, List.append_assoc, hv, Option.bind_some]
    simpa using hvs

/-- A reading that stops by itself. -/
lemma Gives.cons_free (h : Gives spells tells [] f) (hs : GivesAll behind tells' stops' fs) :
    GivesAll (SpellsBoth spells behind) (TellsBoth tells tells') stops' (f :: fs) :=
  h.cons hs (List.Subset.refl _) fun _ _ _ _ _ _ _ => List.not_mem_nil

/-- What stands behind may be absent. -/
lemma Gives.cons_leads (h : Gives spells tells stops f) (hs : GivesAll behind tells' stops' fs)
    (hleads : ∀ ls b, behind ls b → Leads kinds ls) (hkinds : ∀ kind ∈ kinds, kind ∉ stops) :
    GivesAll (SpellsBoth spells behind) (TellsBoth tells tells') (stops ++ stops') (f :: fs) :=
  h.cons hs (List.subset_append_right _ _) fun _ _ b hb hrest =>
    avoids_append (hleads _ b hb) hkinds (avoids_left hrest)

/-- What stands behind is there and keeps the reading from going on. -/
lemma Gives.cons_begins (h : Gives spells tells stops f) (hs : GivesAll behind tells' stops' fs)
    (hbegins : Begins kinds behind) (hkinds : ∀ kind ∈ kinds, kind ∉ stops) :
    GivesAll (SpellsBoth spells behind) (TellsBoth tells tells') stops' (f :: fs) := by
  refine h.cons hs (List.Subset.refl _) fun used rest b hb _ => ?_
  obtain ⟨l, hl, hkind⟩ := hbegins _ b hb
  cases used with
  | nil => simp at hl
  | cons t used =>
    obtain rfl : t.lexeme = l := by simpa using hl
    rintro _ ⟨⟩
    exact hkinds _ hkind

end Cons

lemma GivesAll.seq {tells : List ParseTree → α → Prop} (h : GivesAll spells tells stops fs) :
    Gives spells (TellsList tells) stops (seq fs) where
  sound hf := by
    obtain ⟨used, a, vs, hts, hs, hv, hall⟩ := h.sound hf
    exact ⟨used, a, hts, hs, vs, hv, hall⟩
  complete hs hrest := by
    obtain ⟨vs, hf, hall⟩ := h.complete [] hs hrest
    exact ⟨_, hf, vs, rfl, hall⟩

/-- At the end of a sequence nothing may be left. -/
lemma seqFrom_finish (done : List ParseTree) (ts : List Token) :
    seqFrom done (fs ++ [finish]) ts = (seqFrom done fs ts).bind fun m =>
      if m.2 = [] then some (.list (m.1.items ++ [.empty]), []) else none := by
  induction fs generalizing done ts with
  | nil =>
    cases ts <;> simp [seqFrom, finish, ParseTree.items]
  | cons f fs ih =>
    rw [List.cons_append, seqFrom, seqFrom, Option.bind_assoc]
    simp only [ih]

/-- Decoding everything that readings take, up to the end of the tokens, gives what is spelled. -/
lemma GivesAll.decode_iff {tells : List ParseTree → α → Prop} (h : GivesAll spells tells stops fs)
    {name : String} {decode : ParseTree → Option β} {φ : α → β}
    (hne : ∀ vs a, tells vs a → (ParseTree.list (vs ++ [.empty])).isEmpty = false)
    (hdecode : ∀ vs a, tells vs a → decode (.rule name (.list (vs ++ [.empty]))) = some (φ a))
    {tokens : List Token} {b : β} :
    ((Reading.named name (Reading.seq (fs ++ [finish])) tokens).map Prod.fst).bind decode = some b ↔
      ∃ a, spells (tokens.map Token.lexeme) a ∧ φ a = b := by
  simp only [Reading.named, Reading.seq, seqFrom_finish, Option.map_map]
  constructor
  · intro hd
    obtain ⟨v, hv, hd⟩ := Option.bind_eq_some_iff.mp hd
    obtain ⟨m, hm, rfl⟩ := Option.map_eq_some_iff.mp hv
    obtain ⟨⟨list, rest⟩, hlist, hm⟩ := Option.bind_eq_some_iff.mp hm
    obtain ⟨used, a, vs, rfl, hs, rfl, hvs⟩ := h.sound hlist
    simp only [Option.ite_none_right_eq_some, Option.some.injEq] at hm
    obtain ⟨rfl, rfl⟩ := hm
    refine ⟨a, by simpa using hs, ?_⟩
    simp only [List.reverse_nil, List.nil_append, ParseTree.items, Function.comp_apply,
      hne vs a hvs, Bool.false_eq_true, if_false, hdecode vs a hvs, Option.some.injEq] at hd
    exact hd
  · rintro ⟨a, hs, rfl⟩
    obtain ⟨vs, hlist, hvs⟩ := h.complete [] hs (show Avoids _ [] by simp [Avoids])
    rw [List.append_nil] at hlist
    simp only [hlist, Option.bind_some, if_true, Option.map_some, List.reverse_nil,
      List.nil_append, ParseTree.items, Function.comp_apply, hne vs a hvs, Bool.false_eq_true,
      if_false, hdecode vs a hvs]

end Gives

end TaggedOutline
