import TaggedOutline.Grammar.Recognize
import TaggedOutline.Proofs.Rows

/-!
# Readings

A grammar whose rules do not come back to themselves needs no seeds and no places: an expression of
it is a `Reading`, a function from the tokens that are left to a tree and the tokens left after it.
`Reads` says that running an expression is a reading.  There is one lemma for each kind of
expression, and `Reads.rule` for the call of a named rule, which has to be made with no seed for the
names that the rule uses.
-/

namespace TaggedOutline

/-- What is read of the tokens that are left: a tree and the tokens after it. -/
abbrev Reading := List Token → Option (ParseTree × List Token)

namespace Reading

/-- One token of a kind. -/
def token (kind : String) : Reading
  | [] => none
  | t :: ts => if t.kind = kind then some (.token t, ts) else none

/-- The end of the tokens. -/
def finish : Reading
  | [] => some (.empty, [])
  | _ :: _ => none

/-- Readings one after the other; `done` are the earlier trees, latest first. -/
def seqFrom (done : List ParseTree) : List Reading → Reading
  | [], ts => some (.list done.reverse, ts)
  | f :: fs, ts => (f ts).bind fun m => seqFrom (m.1 :: done) fs m.2

/-- Readings one after the other. -/
def seq (fs : List Reading) : Reading := seqFrom [] fs

/-- The first reading that reads something. -/
def choice : List Reading → Reading
  | [], _ => none
  | f :: fs, ts => (f ts).or (choice fs ts)

/-- A reading that may be left out. -/
def optional (f : Reading) : Reading := fun ts => (f ts).or (some (.empty, ts))

/-- A reading as often as it takes tokens; `done` are the earlier trees, latest first. -/
def manyFrom (f : Reading) (done : List ParseTree) (ts : List Token) :
    Option (ParseTree × List Token) :=
  match f ts with
  | none => some (.list done.reverse, ts)
  | some (value, rest) =>
    if rest.length < ts.length then manyFrom f (value :: done) rest
    else some (.list done.reverse, ts)
termination_by ts.length

/-- A reading as often as it takes tokens. -/
def many (f : Reading) : Reading := manyFrom f []

/-- A reading under a name; a tree without tokens stays nameless. -/
def named (name : String) (f : Reading) : Reading := fun ts =>
  (f ts).map fun m => (if m.1.isEmpty then .empty else .rule name m.1, m.2)

/-- A reading takes its tokens from the front. -/
def Takes (f : Reading) : Prop := ∀ ts value rest, f ts = some (value, rest) → rest <:+ ts

/-- A reading at a place of a list of tokens. -/
def matchAt (f : Reading) (tokens : List Token) (place : Nat) : Option Match :=
  (f (tokens.drop place)).map fun m => (m.1, tokens.length - m.2.length)

lemma takes_token (kind : String) : (token kind).Takes := by
  intro ts value rest h
  cases ts with
  | nil => simp [token] at h
  | cons t ts =>
    simp only [token, Option.ite_none_right_eq_some, Option.some.injEq, Prod.mk.injEq] at h
    exact h.2.2 ▸ List.suffix_cons t ts

lemma takes_finish : finish.Takes := by
  intro ts value rest h
  cases ts with
  | nil => simp_all [finish]
  | cons t ts => simp [finish] at h

lemma takes_seqFrom {fs : List Reading} (hfs : ∀ f ∈ fs, f.Takes) (done : List ParseTree) :
    (seqFrom done fs).Takes := by
  induction fs generalizing done with
  | nil =>
    intro ts value rest h
    simp only [seqFrom, Option.some.injEq, Prod.mk.injEq] at h
    exact h.2 ▸ List.suffix_rfl
  | cons f fs ih =>
    intro ts value rest h
    obtain ⟨⟨v, mid⟩, hf, hrest⟩ := Option.bind_eq_some_iff.mp h
    have hmid := hfs f List.mem_cons_self ts v mid hf
    exact (ih (fun g hg => hfs g (List.mem_cons_of_mem _ hg)) _ _ _ _ hrest).trans hmid

lemma takes_choice {fs : List Reading} (hfs : ∀ f ∈ fs, f.Takes) : (choice fs).Takes := by
  induction fs with
  | nil =>
    intro ts value rest h
    simp [choice] at h
  | cons f fs ih =>
    intro ts value rest h
    rcases Option.or_eq_some_iff.mp h with hf | ⟨-, hfs'⟩
    · exact hfs f List.mem_cons_self ts value rest hf
    · exact ih (fun g hg => hfs g (List.mem_cons_of_mem _ hg)) ts value rest hfs'

lemma Takes.optional {f : Reading} (hf : f.Takes) : (optional f).Takes := by
  intro ts value rest h
  rcases Option.or_eq_some_iff.mp h with hf' | ⟨-, hnone⟩
  · exact hf ts value rest hf'
  · simp only [Option.some.injEq, Prod.mk.injEq] at hnone
    exact hnone.2 ▸ List.suffix_rfl

lemma Takes.manyFrom {f : Reading} (hf : f.Takes) (done : List ParseTree) :
    Takes (Reading.manyFrom f done) := by
  intro ts
  induction hn : ts.length using Nat.strong_induction_on generalizing ts done with
  | _ n ih =>
    intro value rest h
    rw [Reading.manyFrom] at h
    split at h
    · simp only [Option.some.injEq, Prod.mk.injEq] at h
      exact h.2 ▸ List.suffix_rfl
    · rename_i v mid hmid
      split at h
      · rename_i hlt
        exact (ih mid.length (hn ▸ hlt) _ mid rfl value rest h).trans (hf ts v mid hmid)
      · simp only [Option.some.injEq, Prod.mk.injEq] at h
        exact h.2 ▸ List.suffix_rfl

lemma Takes.named {f : Reading} (hf : f.Takes) (name : String) : (named name f).Takes := by
  intro ts value rest h
  obtain ⟨⟨v, r⟩, hv, he⟩ := Option.map_eq_some_iff.mp h
  simp only [Prod.mk.injEq] at he
  exact he.2 ▸ hf ts v r hv

end Reading

/-! ## Runs -/

namespace Seeds

/-- No call of a name of a list is in progress. -/
def Fresh (names : List String) (seeds : Seeds) : Prop := ∀ entry ∈ seeds, entry.1.1 ∉ names

lemma get?_of_fresh {names : List String} {seeds : Seeds} (h : Fresh names seeds) {name : String}
    (hname : name ∈ names) (place : Nat) : seeds.get? (name, place) = none := by
  rw [get?, List.lookup_eq_none_iff]
  intro entry hentry
  have hne : (name, place) ≠ entry.1 := fun he => h entry hentry (he ▸ hname)
  simpa using hne

/-- A key that a store does not hold is not the key of its first entry. -/
lemma get?_cons_eq_none {key k : String × Nat} {old : Seed} {seeds : Seeds}
    (h : Seeds.get? ((k, old) :: seeds) key = none) : k ≠ key ∧ Seeds.get? seeds key = none := by
  rw [get?, List.lookup_cons] at h
  split at h
  · exact absurd h (Option.some_ne_none _)
  · exact ⟨fun e => by simp_all, h⟩

/-- A new key is put behind the others. -/
lemma put_of_get? {key : String × Nat} {seeds : Seeds} (h : seeds.get? key = none) (seed : Seed) :
    seeds.put key seed = seeds ++ [(key, seed)] := by
  induction seeds with
  | nil => rfl
  | cons entry seeds ih =>
    obtain ⟨k, old⟩ := entry
    obtain ⟨hk, hrest⟩ := get?_cons_eq_none h
    simp [put, hk, ih hrest]

lemma remove_append {key : String × Nat} {seeds : Seeds} (h : seeds.get? key = none)
    (seed : Seed) : Seeds.remove key (seeds ++ [(key, seed)]) = seeds := by
  induction seeds with
  | nil => simp [remove]
  | cons entry seeds ih =>
    obtain ⟨k, old⟩ := entry
    obtain ⟨hk, hrest⟩ := get?_cons_eq_none h
    simp [remove, hk, ih hrest]

lemma get?_append {key : String × Nat} {seeds : Seeds} (h : seeds.get? key = none)
    (seed : Seed) : Seeds.get? (seeds ++ [(key, seed)]) key = some seed := by
  rw [get?] at h
  simp [get?, List.lookup_append, h]

end Seeds

/-- Running an expression is a reading, at a depth that depends on the number of tokens and without
seeds for the names of a list. -/
structure Reads (rules : List NamedRule) (names : List String) (cost : Nat → Nat) (e : Expr)
    (f : Reading) : Prop where
  takes : f.Takes
  run : ∀ (tokens : List Token) (place : Nat) (seeds : Seeds) (depth : Nat),
    place ≤ tokens.length → seeds.Fresh names → cost tokens.length ≤ depth →
      (Grammar.run rules tokens depth e place).run seeds = some (f.matchAt tokens place, seeds)

namespace Reads

variable {rules : List NamedRule} {names : List String} {cost : Nat → Nat} {e : Expr} {f : Reading}

/-- The tokens left after a match are those from its place on. -/
lemma drop_of_matchAt (hf : f.Takes) {tokens : List Token} {place : Nat}
    (hplace : place ≤ tokens.length) {value : ParseTree} {next : Nat}
    (h : f.matchAt tokens place = some (value, next)) :
    f (tokens.drop place) = some (value, tokens.drop next) ∧ place ≤ next ∧
      next ≤ tokens.length := by
  obtain ⟨⟨v, rest⟩, hv, he⟩ := Option.map_eq_some_iff.mp h
  obtain ⟨rfl, rfl⟩ := Prod.mk.inj he
  have hsuffix := hf _ _ _ hv
  have hrest : tokens.drop (tokens.length - rest.length) = rest :=
    List.suffix_iff_eq_drop.mp (hsuffix.trans (List.drop_suffix _ _)) |>.symm
  have hlength : rest.length ≤ tokens.length - place := by
    simpa using hsuffix.length_le
  refine ⟨by rw [hv]; exact congrArg (fun r => some (v, r)) hrest.symm, ?_, Nat.sub_le _ _⟩
  show place ≤ tokens.length - rest.length
  omega

lemma mono (h : Reads rules names cost e f) {names' : List String} {cost' : Nat → Nat}
    (hnames : names ⊆ names') (hcost : ∀ n, cost n ≤ cost' n) : Reads rules names' cost' e f where
  takes := h.takes
  run tokens place seeds depth hplace hfresh hdepth :=
    h.run tokens place seeds depth hplace
      (fun entry hentry hm => hfresh entry hentry (hnames hm)) ((hcost _).trans hdepth)

lemma token (kind : String) : Reads rules [] (fun _ => 1) (.token kind) (Reading.token kind) where
  takes := Reading.takes_token kind
  run tokens place seeds depth _ _ hdepth := by
    obtain ⟨depth, rfl⟩ := Nat.exists_eq_add_of_le' hdepth
    rw [Grammar.run]
    show some (Grammar.takeIf tokens place _, seeds) = _
    rw [Reading.matchAt, Grammar.takeIf]
    by_cases hlt : place < tokens.length
    · have hrest : tokens.length - (tokens.length - (place + 1)) = place + 1 := by omega
      rw [List.drop_eq_getElem_cons hlt, List.getElem?_eq_getElem hlt]
      simp only [Reading.token, decide_eq_true_eq]
      split
      · simp [hrest]
      · rfl
    · rw [List.drop_eq_nil_of_le (by omega), List.getElem?_eq_none (by omega)]
      rfl

lemma finish : Reads rules [] (fun _ => 1) .finish Reading.finish where
  takes := Reading.takes_finish
  run tokens place seeds depth hplace _ hdepth := by
    obtain ⟨depth, rfl⟩ := Nat.exists_eq_add_of_le' hdepth
    rw [Grammar.run]
    show some (if tokens.length ≤ place then some (ParseTree.empty, place) else none, seeds) = _
    by_cases hlt : place < tokens.length
    · rw [if_neg (by omega), Reading.matchAt, List.drop_eq_getElem_cons hlt]
      rfl
    · obtain rfl : place = tokens.length := by omega
      rw [if_pos le_rfl, Reading.matchAt, List.drop_length]
      rfl

lemma takes_of_mem {parts : List Expr} {fs : List Reading}
    (h : List.Forall₂ (Reads rules names cost) parts fs) : ∀ f ∈ fs, f.Takes := by
  induction h with
  | nil => simp
  | cons hpart _ ih =>
    intro f hf
    rcases List.mem_cons.mp hf with rfl | hf
    · exact hpart.takes
    · exact ih f hf

/-- The parts of a sequence are read one after the other. -/
lemma run_parts {parts : List Expr} {fs : List Reading}
    (h : List.Forall₂ (Reads rules names cost) parts fs) {tokens : List Token} {seeds : Seeds}
    (hfresh : seeds.Fresh names) (done : List ParseTree) {place depth : Nat}
    (hplace : place ≤ tokens.length) (hdepth : cost tokens.length + parts.length + 1 ≤ depth) :
    (Grammar.runSeq rules tokens depth parts done place).run seeds =
      some ((Reading.seqFrom done fs).matchAt tokens place, seeds) := by
  induction h generalizing done place depth with
  | nil =>
    obtain ⟨depth, rfl⟩ := Nat.exists_eq_succ_of_ne_zero (n := depth) (by omega)
    have hrest : tokens.length - (tokens.length - place) = place := by omega
    rw [Grammar.runSeq]
    simp [Reading.matchAt, Reading.seqFrom, hrest]
  | @cons part f parts fs hpart _ ih =>
    obtain ⟨depth, rfl⟩ := Nat.exists_eq_succ_of_ne_zero (n := depth) (by omega)
    simp only [List.length_cons] at hdepth
    have hrun := hpart.run tokens place seeds depth hplace hfresh (by omega)
    rw [Grammar.runSeq]
    simp only [StateT.run_bind, hrun, Option.bind_eq_bind, Option.bind_some]
    cases hf : f.matchAt tokens place with
    | none =>
      have hnone : f (tokens.drop place) = none := by simpa [Reading.matchAt] using hf
      simp [Reading.matchAt, Reading.seqFrom, hnone]
    | some m =>
      obtain ⟨value, next⟩ := m
      obtain ⟨hvalue, -, hnext⟩ := drop_of_matchAt hpart.takes hplace hf
      have hrest : (Grammar.runSeq rules tokens depth parts (value :: done) next).run seeds = _ :=
        ih (value :: done) hnext (by omega)
      refine hrest.trans ?_
      simp [Reading.matchAt, Reading.seqFrom, hvalue]

lemma seq {parts : List Expr} {fs : List Reading}
    (h : List.Forall₂ (Reads rules names cost) parts fs) :
    Reads rules names (fun n => cost n + parts.length + 2) (.seq parts) (Reading.seq fs) where
  takes := Reading.takes_seqFrom (takes_of_mem h) []
  run tokens place seeds depth hplace hfresh hdepth := by
    obtain ⟨depth, rfl⟩ := Nat.exists_eq_succ_of_ne_zero (n := depth) (by omega)
    rw [Grammar.run]
    exact run_parts h hfresh [] hplace (by omega)

/-- The alternatives of a choice are tried one after the other. -/
lemma run_alternatives {parts : List Expr} {fs : List Reading}
    (h : List.Forall₂ (Reads rules names cost) parts fs) {tokens : List Token} {seeds : Seeds}
    (hfresh : seeds.Fresh names) {place depth : Nat} (hplace : place ≤ tokens.length)
    (hdepth : cost tokens.length + parts.length + 1 ≤ depth) :
    (Grammar.runChoice rules tokens depth parts place).run seeds =
      some ((Reading.choice fs).matchAt tokens place, seeds) := by
  induction h generalizing depth with
  | nil =>
    obtain ⟨depth, rfl⟩ := Nat.exists_eq_succ_of_ne_zero (n := depth) (by omega)
    rw [Grammar.runChoice]
    rfl
  | @cons part f parts fs hpart _ ih =>
    obtain ⟨depth, rfl⟩ := Nat.exists_eq_succ_of_ne_zero (n := depth) (by omega)
    simp only [List.length_cons] at hdepth
    have hrun := hpart.run tokens place seeds depth hplace hfresh (by omega)
    rw [Grammar.runChoice]
    simp only [StateT.run_bind, hrun, Option.bind_eq_bind, Option.bind_some]
    cases hf : f (tokens.drop place) with
    | none =>
      have hrest : (Grammar.runChoice rules tokens depth parts place).run seeds = _ :=
        ih (by omega)
      simp only [Reading.matchAt, hf, Option.map_none]
      refine hrest.trans ?_
      simp [Reading.matchAt, Reading.choice, hf]
    | some m => simp [Reading.matchAt, Reading.choice, hf]

lemma choice {parts : List Expr} {fs : List Reading}
    (h : List.Forall₂ (Reads rules names cost) parts fs) :
    Reads rules names (fun n => cost n + parts.length + 2) (.choice parts) (Reading.choice fs) where
  takes := Reading.takes_choice (takes_of_mem h)
  run tokens place seeds depth hplace hfresh hdepth := by
    obtain ⟨depth, rfl⟩ := Nat.exists_eq_succ_of_ne_zero (n := depth) (by omega)
    rw [Grammar.run]
    exact run_alternatives h hfresh hplace (by omega)

lemma optional (h : Reads rules names cost e f) :
    Reads rules names (fun n => cost n + 1) (.optional e) (Reading.optional f) where
  takes := h.takes.optional
  run tokens place seeds depth hplace hfresh hdepth := by
    obtain ⟨depth, rfl⟩ := Nat.exists_eq_succ_of_ne_zero (n := depth) (by omega)
    have hrun := h.run tokens place seeds depth hplace hfresh (by omega)
    have hrest : tokens.length - (tokens.length - place) = place := by omega
    rw [Grammar.run]
    simp only [StateT.run_bind, hrun, Option.bind_eq_bind, Option.bind_some]
    cases hf : f (tokens.drop place) with
    | none => simp [Reading.matchAt, Reading.optional, hf, hrest]
    | some m => simp [Reading.matchAt, Reading.optional, hf]

/-- A repetition goes on while its item takes tokens. -/
lemma run_rounds (h : Reads rules names cost e f) {tokens : List Token} {seeds : Seeds}
    (hfresh : seeds.Fresh names) (done : List ParseTree) {place depth : Nat}
    (hplace : place ≤ tokens.length)
    (hdepth : cost tokens.length + (tokens.length - place) + 1 ≤ depth) :
    (Grammar.runMany rules tokens depth e done place).run seeds =
      some (Reading.matchAt (Reading.manyFrom f done) tokens place, seeds) := by
  induction hn : tokens.length - place using Nat.strong_induction_on
    generalizing done place depth with
  | _ n ih =>
    obtain ⟨depth, rfl⟩ := Nat.exists_eq_succ_of_ne_zero (n := depth) (by omega)
    have hrun := h.run tokens place seeds depth hplace hfresh (by omega)
    have hback : tokens.length - (tokens.length - place) = place := by omega
    rw [Grammar.runMany]
    simp only [StateT.run_bind, hrun, Option.bind_eq_bind, Option.bind_some]
    cases hf : f.matchAt tokens place with
    | none =>
      have hnone : f (tokens.drop place) = none := by simpa [Reading.matchAt] using hf
      rw [Reading.matchAt, Reading.manyFrom, hnone]
      simp [hback]
    | some m =>
      obtain ⟨value, next⟩ := m
      obtain ⟨hvalue, hle, hnext⟩ := drop_of_matchAt h.takes hplace hf
      rw [Reading.matchAt, Reading.manyFrom, hvalue]
      by_cases hsame : next = place
      · simp [hsame, hback]
      · have hlt : tokens.length - next < tokens.length - place := by omega
        have hrest : (Grammar.runMany rules tokens depth e (value :: done) next).run seeds = _ :=
          ih _ (hn ▸ hlt) (value :: done) hnext (by omega) rfl
        simp only [hsame, if_false, List.length_drop, hlt, if_true]
        exact hrest

lemma many (h : Reads rules names cost e f) :
    Reads rules names (fun n => cost n + n + 2) (.many e) (Reading.many f) where
  takes := h.takes.manyFrom []
  run tokens place seeds depth hplace hfresh hdepth := by
    obtain ⟨depth, rfl⟩ := Nat.exists_eq_succ_of_ne_zero (n := depth) (by omega)
    rw [Grammar.run]
    exact run_rounds h hfresh [] hplace (by omega)

/-- The call of a rule that does not come back to itself. -/
lemma run_call {name : String} (h : Reads rules names cost e f) (hname : name ∉ names)
    {tokens : List Token} {seeds : Seeds} (hfresh : seeds.Fresh (name :: names)) {place depth : Nat}
    (hplace : place ≤ tokens.length) (hdepth : cost tokens.length + 1 ≤ depth) :
    (Grammar.runRule rules tokens depth name e place).run seeds =
      some ((Reading.named name f).matchAt tokens place, seeds) := by
  obtain ⟨depth, rfl⟩ := Nat.exists_eq_succ_of_ne_zero (n := depth) (by omega)
  have hnone := Seeds.get?_of_fresh hfresh List.mem_cons_self place
  let seed : Seed := {}
  have hfresh' : Seeds.Fresh names (seeds ++ [((name, place), seed)]) := by
    intro entry hentry hm
    rcases List.mem_append.mp hentry with hentry | hentry
    · exact hfresh entry hentry (List.mem_cons_of_mem _ hm)
    · rw [List.mem_singleton.mp hentry] at hm
      exact hname hm
  have hrun := h.run tokens place (seeds ++ [((name, place), seed)]) depth hplace hfresh' (by omega)
  have hput : seeds.put (name, place) {} = seeds ++ [((name, place), seed)] :=
    Seeds.put_of_get? hnone seed
  have hmet := Seeds.get?_append hnone seed
  have hremove := Seeds.remove_append hnone seed
  have hmodify : ∀ (change : Seeds → Seeds) (s : Seeds),
      (modify change : Run PUnit).run s = some ((), change s) := fun _ _ => rfl
  have hunmet : Option.any Seed.met (some seed) = false := rfl
  have hnamed : (f.matchAt tokens place).map (Grammar.nameResult name) =
      (Reading.named name f).matchAt tokens place := by
    simp only [Reading.matchAt, Reading.named, Option.map_map]
    refine congrArg (fun g => Option.map g _) (funext fun m => ?_)
    simp only [Function.comp_apply, Grammar.nameResult]
    split <;> rfl
  rw [Grammar.runRule]
  simp only [StateT.run_bind, StateT.run_get, Option.pure_def, Option.bind_eq_bind,
    Option.bind_some, hnone, hmodify, hput, hrun, hmet, hunmet, hnamed]
  cases (Reading.named name f).matchAt tokens place <;>
    simp only [StateT.run_bind, StateT.run_pure, Option.pure_def, Option.bind_eq_bind,
      Option.bind_some, hmodify, hremove]

theorem rule (h : Reads rules names cost e f) (name : String) (hbody : rules.lookup name = some e)
    (hname : name ∉ names) :
    Reads rules (name :: names) (fun n => cost n + 2) (.ref name) (Reading.named name f) where
  takes := h.takes.named name
  run tokens place seeds depth hplace hfresh hdepth := by
    obtain ⟨depth, rfl⟩ := Nat.exists_eq_succ_of_ne_zero (n := depth) (by omega)
    rw [Grammar.run]
    simp only [hbody]
    exact h.run_call hname hfresh hplace (by omega)

end Reads

/-- Parsing with a grammar is the reading of its start rule. -/
lemma Grammar.parse_of_reads {g : Grammar} {names : List String} {cost : Nat → Nat} {body : Expr}
    {f : Reading} (hbody : g.body? g.start = some body) (h : Reads g.rules names cost body f)
    (hname : g.start ∉ names) (tokens : List Token)
    (hdepth : cost tokens.length + 1 ≤ depthBound g.rules tokens) :
    g.parse { tokens } = ((Reading.named g.start f) tokens).map Prod.fst := by
  have hcall : (runRule g.rules tokens (depthBound g.rules tokens) g.start body 0).run [] = _ :=
    h.run_call hname (by simp [Seeds.Fresh]) (Nat.zero_le _) hdepth
  rw [parse, recognize, hbody]
  simp only [recognizeWith, hcall, Reading.matchAt, List.drop_zero]
  cases Reading.named g.start f tokens <;> rfl

end TaggedOutline
