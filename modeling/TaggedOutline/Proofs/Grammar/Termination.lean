import Mathlib.Algebra.GroupWithZero.Nat
import Mathlib.Algebra.Order.BigOperators.Group.List
import Mathlib.Algebra.Order.Group.Nat
import Mathlib.Data.Finset.Prod
import Mathlib.Order.Interval.Finset.Nat
import TaggedOutline.Proofs.Grammar.Kept

/-!
# Runs end

Nothing in an expression gets smaller when it refers to a rule, so a bound on the depth of a run
cannot come from expressions alone.  It comes from the calls in progress: a call for a rule and a
place that is in progress is answered by its seed, so calls nest at most as deep as there are rules
and places that are not in progress, `freeCalls`.  Within one call the depth is that of the
expression, times the rounds of its loops, each of which takes a token.

Main statement: `runs_end`, that `depthBound` is enough for every rule of a grammar, and that what a
run answers does not depend on the depth beyond it.
-/

namespace TaggedOutline

namespace Grammar

/-! ## Calls that are not in progress -/

/-- The calls of rules at the places from one to another. -/
def callKeys (rules : List NamedRule) (start limit : Nat) : Finset (String × Nat) :=
  (rules.map Prod.fst).toFinset ×ˢ Finset.Icc start limit

/-- The number of calls that are not in progress. -/
def freeCalls (keys : Finset (String × Nat)) (s : Seeds) : Nat :=
  (keys.filter fun key => s.get? key = none).card

section FreeCalls

variable {keys : Finset (String × Nat)} {s s' : Seeds} {key : String × Nat}

lemma freeCalls_congr (h : s.answers = s'.answers) : freeCalls keys s = freeCalls keys s' := by
  have hfilter : (keys.filter fun key => s.get? key = none) =
      keys.filter fun key => s'.get? key = none :=
    Finset.filter_congr fun key _ => Seeds.get?_eq_none_congr h key
  rw [freeCalls, freeCalls, hfilter]

lemma filter_put_subset (keys : Finset (String × Nat)) (s : Seeds) (key : String × Nat)
    (seed : Seed) : (keys.filter fun k => (s.put key seed).get? k = none) ⊆
      keys.filter fun k => s.get? k = none := by
  intro k hk
  obtain ⟨hmem, hnone⟩ := Finset.mem_filter.mp hk
  have hne : key ≠ k := by
    rintro rfl
    rw [Seeds.get?_put_self] at hnone
    exact Option.some_ne_none _ hnone
  rw [Seeds.get?_put_of_ne s hne] at hnone
  exact Finset.mem_filter.mpr ⟨hmem, hnone⟩

lemma freeCalls_put_le (seed : Seed) : freeCalls keys (s.put key seed) ≤ freeCalls keys s :=
  Finset.card_le_card (filter_put_subset keys s key seed)

/-- A call that begins is one less that can begin. -/
lemma freeCalls_put_lt (hkey : key ∈ keys) (hfree : s.get? key = none) (seed : Seed) :
    freeCalls keys (s.put key seed) < freeCalls keys s := by
  apply Finset.card_lt_card
  refine ⟨filter_put_subset keys s key seed, fun hsubset => ?_⟩
  have hmem := hsubset (Finset.mem_filter.mpr ⟨hkey, hfree⟩)
  have hnone := (Finset.mem_filter.mp hmem).2
  rw [Seeds.get?_put_self] at hnone
  exact Option.some_ne_none _ hnone

/-- There are at most as many as rules and places from the first on. -/
lemma freeCalls_le (rules : List NamedRule) (tokens : List Token) (p : Nat) (s : Seeds) :
    freeCalls (callKeys rules p (max tokens.length p)) s ≤
      rules.length * (tokens.length + 1) := by
  have hrules : (rules.map Prod.fst).toFinset.card ≤ rules.length := by
    simpa using List.toFinset_card_le (rules.map Prod.fst)
  have hplaces : max tokens.length p + 1 - p ≤ tokens.length + 1 := by omega
  calc freeCalls (callKeys rules p (max tokens.length p)) s
      ≤ (callKeys rules p (max tokens.length p)).card := Finset.card_filter_le _ _
    _ = (rules.map Prod.fst).toFinset.card * (max tokens.length p + 1 - p) := by
      rw [callKeys, Finset.card_product, Nat.card_Icc]
    _ ≤ rules.length * (tokens.length + 1) := Nat.mul_le_mul hrules hplaces

end FreeCalls

lemma mem_rules_of_lookup {rules : List NamedRule} {name : String} {body : Expr}
    (h : rules.lookup name = some body) : (name, body) ∈ rules := by
  induction rules with
  | nil => simp at h
  | cons rule rules ih =>
    obtain ⟨n, e⟩ := rule
    rw [List.lookup_cons] at h
    split at h
    · next hn =>
      obtain rfl := Option.some.inj h
      rw [eq_of_beq hn]
      exact List.mem_cons_self
    · exact List.mem_cons_of_mem _ (ih h)

/-! ## Within one call -/

lemma size_pos (e : Expr) : 0 < e.size := by
  cases e <;> simp [Expr.size]

/-- At a depth, with the answers of given seeds, every expression has a result at the places from
one to another, if the depth is enough for the expression itself and for the calls in it. -/
def Ends (rules : List NamedRule) (tokens : List Token) (start limit : Nat) (s₀ : Seeds)
    (cost depth : Nat) : Prop :=
  ∀ e p s, start ≤ p → p ≤ limit → s.answers = s₀.answers →
    e.size * (tokens.length + 3) + cost ≤ depth →
      ∃ r s₁, (run rules tokens depth e p).run s = some (r, s₁) ∧ s₁.answers = s₀.answers ∧
        ∀ m ∈ r, p ≤ m.2 ∧ m.2 ≤ limit

section Ends

variable {rules : List NamedRule} {tokens : List Token} {start limit cost depth d p : Nat}
  {s₀ s : Seeds}

lemma exists_runSeq (hrun : ∀ d < depth, Ends rules tokens start limit s₀ cost d) (hd : d ≤ depth)
    {parts : List Expr} (done : List ParseTree) (hstart : start ≤ p) (hlimit : p ≤ limit)
    (hs : s.answers = s₀.answers)
    (hcost : Expr.sizeOf parts * (tokens.length + 3) + 1 + cost ≤ d) :
    ∃ r s₁, (runSeq rules tokens d parts done p).run s = some (r, s₁) := by
  induction parts generalizing d done p s with
  | nil =>
    obtain ⟨d, rfl⟩ := Nat.exists_eq_succ_of_ne_zero (n := d) (by omega)
    exact ⟨_, _, by rw [runSeq]; rfl⟩
  | cons e parts ih =>
    obtain ⟨d, rfl⟩ := Nat.exists_eq_succ_of_ne_zero (n := d) (by omega)
    rw [Expr.sizeOf, Nat.add_mul, Nat.add_mul, Nat.one_mul] at hcost
    obtain ⟨m, s₁, hpart, hs₁, hm⟩ := hrun d hd e p s hstart hlimit hs (by omega)
    rw [runSeq]
    cases m with
    | none => exact ⟨none, s₁, run_bind_eq_some_iff.mpr ⟨_, _, hpart, rfl⟩⟩
    | some m =>
      obtain ⟨hle, hmax⟩ := hm m rfl
      obtain ⟨r, s₂, hrest⟩ := ih (Nat.le_of_succ_le hd) (m.1 :: done)
        (hstart.trans hle) hmax hs₁ (by omega)
      exact ⟨r, s₂, run_bind_eq_some_iff.mpr ⟨_, _, hpart, hrest⟩⟩

lemma exists_runChoice (hrun : ∀ d < depth, Ends rules tokens start limit s₀ cost d)
    (hd : d ≤ depth) {parts : List Expr} (hstart : start ≤ p) (hlimit : p ≤ limit)
    (hs : s.answers = s₀.answers)
    (hcost : Expr.sizeOf parts * (tokens.length + 3) + 1 + cost ≤ d) :
    ∃ r s₁, (runChoice rules tokens d parts p).run s = some (r, s₁) := by
  induction parts generalizing d s with
  | nil =>
    obtain ⟨d, rfl⟩ := Nat.exists_eq_succ_of_ne_zero (n := d) (by omega)
    exact ⟨_, _, by rw [runChoice]; rfl⟩
  | cons e parts ih =>
    obtain ⟨d, rfl⟩ := Nat.exists_eq_succ_of_ne_zero (n := d) (by omega)
    rw [Expr.sizeOf, Nat.add_mul, Nat.add_mul, Nat.one_mul] at hcost
    obtain ⟨m, s₁, hpart, hs₁, -⟩ := hrun d hd e p s hstart hlimit hs (by omega)
    rw [runChoice]
    cases m with
    | none =>
      obtain ⟨r, s₂, hrest⟩ := ih (Nat.le_of_succ_le hd) hs₁ (by omega)
      exact ⟨r, s₂, run_bind_eq_some_iff.mpr ⟨_, _, hpart, hrest⟩⟩
    | some m => exact ⟨some m, s₁, run_bind_eq_some_iff.mpr ⟨_, _, hpart, rfl⟩⟩

/-- A repetition has at most one round for each place, and one that ends it. -/
lemma exists_runMany (hrun : ∀ d < depth, Ends rules tokens start limit s₀ cost d)
    (hd : d ≤ depth) {item : Expr} (done : List ParseTree) (hstart : start ≤ p)
    (hlimit : p ≤ limit) (hs : s.answers = s₀.answers)
    (hcost : limit - p + 1 + item.size * (tokens.length + 3) + cost ≤ d) :
    ∃ r s₁, (runMany rules tokens d item done p).run s = some (r, s₁) := by
  induction d generalizing done p s with
  | zero => omega
  | succ d ih =>
    obtain ⟨m, s₁, hitem, hs₁, hm⟩ := hrun d hd item p s hstart hlimit hs (by omega)
    rw [runMany]
    cases m with
    | none => exact ⟨_, s₁, run_bind_eq_some_iff.mpr ⟨_, _, hitem, rfl⟩⟩
    | some m =>
      obtain ⟨v, q⟩ := m
      obtain ⟨hle, hmax⟩ : p ≤ q ∧ q ≤ limit := hm _ rfl
      by_cases hq : q = p
      · exact ⟨_, s₁, run_bind_eq_some_iff.mpr ⟨_, _, hitem, by simp only [hq, if_true]; rfl⟩⟩
      · obtain ⟨r, s₂, hrest⟩ := ih (Nat.le_of_succ_le hd) (v :: done)
          (hstart.trans hle) hmax hs₁ (by omega)
        refine ⟨r, s₂, run_bind_eq_some_iff.mpr ⟨_, _, hitem, ?_⟩⟩
        simp only [hq, if_false]
        exact hrest

lemma exists_runList (hrun : ∀ d < depth, Ends rules tokens start limit s₀ cost d)
    (hd : d ≤ depth) (htokens : tokens.length ≤ limit) {item : Expr} {sep : Option String}
    {vis : Bool} (done : List ParseTree) (hstart : start ≤ p) (hlimit : p ≤ limit)
    (hs : s.answers = s₀.answers)
    (hcost : limit - p + 1 + item.size * (tokens.length + 3) + cost ≤ d) :
    ∃ r s₁, (runList rules tokens d item sep vis done p).run s = some (r, s₁) := by
  induction d generalizing done p s with
  | zero => omega
  | succ d ih =>
    rw [runList_succ]
    cases hgap : gap? tokens sep p with
    | none => exact ⟨_, _, rfl⟩
    | some between =>
      obtain ⟨between, a⟩ := between
      obtain ⟨hpa, ha⟩ : p ≤ a ∧ a ≤ max tokens.length p := advances_gap hgap
      obtain ⟨m, s₁, hitem, hs₁, hm⟩ :=
        hrun d hd item a s (hstart.trans hpa) (by omega) hs (by omega)
      cases m with
      | none => exact ⟨_, s₁, run_bind_eq_some_iff.mpr ⟨_, _, hitem, rfl⟩⟩
      | some m =>
        obtain ⟨v, q⟩ := m
        obtain ⟨hle, hmax⟩ : a ≤ q ∧ q ≤ limit := hm _ rfl
        by_cases hq : q = p
        · exact ⟨_, s₁, run_bind_eq_some_iff.mpr ⟨_, _, hitem, by simp only [hq, if_true]; rfl⟩⟩
        · obtain ⟨r, s₂, hrest⟩ := ih (Nat.le_of_succ_le hd)
            (v :: (keptGap vis between ++ done)) (by omega) hmax hs₁ (by omega)
          refine ⟨r, s₂, run_bind_eq_some_iff.mpr ⟨_, _, hitem, ?_⟩⟩
          simp only [hq, if_false]
          exact hrest

/-- If the calls end, so do the expressions. -/
lemma ends_of_calls (hhold : s₀.Hold (Advances tokens)) (htokens : tokens.length ≤ limit)
    (hspan : limit ≤ start + tokens.length)
    (hcalls : ∀ name body p s d, rules.lookup name = some body → start ≤ p → p ≤ limit →
      s.answers = s₀.answers → cost ≤ d →
        ∃ r s₁, (runRule rules tokens d name body p).run s = some (r, s₁))
    (depth : Nat) : Ends rules tokens start limit s₀ cost depth := by
  induction depth using Nat.strong_induction_on with
  | _ depth hrun =>
    intro e p s hstart hlimit hs hcost
    have hexists : ∃ r s₁, (run rules tokens depth e p).run s = some (r, s₁) := by
      have hsize : tokens.length + 3 ≤ e.size * (tokens.length + 3) :=
        Nat.le_mul_of_pos_left _ (size_pos e)
      obtain ⟨depth, rfl⟩ := Nat.exists_eq_succ_of_ne_zero (n := depth) (by omega)
      -- the parts have smaller sizes, so the depth that is left is enough for each of them
      cases e with
      | token | literal | word | finish => exact ⟨_, _, by rw [run]; rfl⟩
      | seq parts =>
        rw [Expr.size, Nat.succ_mul] at hcost
        rw [run]
        exact exists_runSeq hrun (Nat.le_succ depth) [] hstart hlimit hs (by omega)
      | choice alternatives =>
        rw [Expr.size, Nat.succ_mul] at hcost
        rw [run]
        exact exists_runChoice hrun (Nat.le_succ depth) hstart hlimit hs (by omega)
      | many item =>
        rw [Expr.size, Nat.succ_mul] at hcost
        rw [run]
        exact exists_runMany hrun (Nat.le_succ depth) [] hstart hlimit hs (by omega)
      | optional item =>
        rw [Expr.size, Nat.succ_mul] at hcost
        rw [run]
        obtain ⟨m, s₁, hitem, -⟩ := hrun depth (Nat.lt_succ_self depth) item p s hstart hlimit hs
          (by omega)
        cases m with
        | none => exact ⟨_, s₁, run_bind_eq_some_iff.mpr ⟨_, _, hitem, rfl⟩⟩
        | some m => exact ⟨_, s₁, run_bind_eq_some_iff.mpr ⟨_, _, hitem, rfl⟩⟩
      | list item sep vis =>
        rw [Expr.size, Nat.succ_mul] at hcost
        rw [run]
        obtain ⟨m, s₁, hitem, hs₁, hm⟩ := hrun depth (Nat.lt_succ_self depth) item p s hstart hlimit
          hs (by omega)
        cases m with
        | none => exact ⟨_, s₁, run_bind_eq_some_iff.mpr ⟨_, _, hitem, rfl⟩⟩
        | some m =>
          obtain ⟨hle, hmax⟩ := hm m rfl
          obtain ⟨r, s₂, hrest⟩ : ∃ r s₂,
              (runList rules tokens depth item sep vis [m.1] m.2).run s₁ = some (r, s₂) :=
            exists_runList hrun (Nat.le_succ depth) htokens [m.1] (hstart.trans hle) hmax hs₁
              (by omega)
          exact ⟨r, s₂, run_bind_eq_some_iff.mpr ⟨_, _, hitem, hrest⟩⟩
      | ref name =>
        rw [run]
        cases hbody : rules.lookup name with
        | none => exact ⟨_, _, rfl⟩
        | some body => exact hcalls name body p s depth hbody hstart hlimit hs (by omega)
    obtain ⟨r, s₁, hr⟩ := hexists
    have hderives := isSound rules tokens depth e p s r s₁ hr
    refine ⟨r, s₁, hr, (show s₁.answers = s.answers from hderives.leaves).trans hs, ?_⟩
    intro m hm
    obtain ⟨hle, hmax⟩ := hderives.advances trivial (hhold.congr hs) m hm
    exact ⟨hle, by omega⟩

end Ends

/-! ## Calls -/

/-- The sizes of the rules together. -/
def totalSize (rules : List NamedRule) : Nat := (rules.map fun r => r.2.size).sum

lemma size_le_totalSize {rules : List NamedRule} {name : String} {body : Expr}
    (h : rules.lookup name = some body) : body.size ≤ totalSize rules :=
  List.le_sum_of_mem (List.mem_map_of_mem (f := fun r => r.2.size) (mem_rules_of_lookup h))

/-- The depth of one call without the calls in it. -/
def callDepth (rules : List NamedRule) (tokens : List Token) : Nat :=
  (totalSize rules + 1) * (tokens.length + 3)

section Calls

variable {rules : List NamedRule} {tokens : List Token} {start limit cost free d p : Nat}
  {s : Seeds} {name : String} {body : Expr}

/-- A match of a rule grows at most once for each place. -/
lemma exists_runGrowing (keys : Finset (String × Nat))
    (hends : ∀ s₀ depth, s₀.Hold (Advances tokens) → freeCalls keys s₀ ≤ free →
      Ends rules tokens start limit s₀ cost depth)
    (hstart : start ≤ p) (hlimit : p ≤ limit) {best : Match} (hbest : Advances tokens p best)
    (hhold : s.Hold (Advances tokens)) (hfree : freeCalls keys s ≤ free)
    (hcost : limit - best.2 + 1 + body.size * (tokens.length + 3) + cost ≤ d) :
    ∃ r s₁, (runGrowing rules tokens d name body p best).run s = some (r, s₁) := by
  induction d generalizing best s with
  | zero => omega
  | succ d ih =>
    have hput : (s.put (name, p) (growingSeed best)).Hold (Advances tokens) :=
      hhold.put (by rintro _ ⟨⟩; exact hbest)
    have hle : freeCalls keys (s.put (name, p) (growingSeed best)) ≤ free :=
      (freeCalls_put_le _).trans hfree
    obtain ⟨m, s₁, hbody, hs₁, hm⟩ := hends _ d hput hle body p _ hstart hlimit rfl (by omega)
    rw [runGrowing, run_modify_bind]
    cases m with
    | none => exact ⟨_, s₁, run_bind_eq_some_iff.mpr ⟨_, _, hbody, rfl⟩⟩
    | some m =>
      by_cases hlt : best.2 < m.2
      · obtain ⟨hpm, hmax⟩ := hm m rfl
        have hadvances : Advances tokens p m :=
          (isSound rules tokens d body p _ _ s₁ hbody).advances trivial hput m rfl
        obtain ⟨r, s₂, hrest⟩ := ih (hadvances.nameResult name) (hput.congr hs₁)
          ((freeCalls_congr hs₁).trans_le hle) (by rw [snd_nameResult]; omega)
        refine ⟨r, s₂, run_bind_eq_some_iff.mpr ⟨_, _, hbody, ?_⟩⟩
        simp only [hlt, if_true]
        exact hrest
      · refine ⟨some best, s₁, run_bind_eq_some_iff.mpr ⟨_, _, hbody, ?_⟩⟩
        simp only [hlt, if_false]
        rfl

/-- Calls end, each at the depth of one call for every call that is not in progress. -/
lemma exists_runRule (htokens : tokens.length ≤ limit) (hspan : limit ≤ start + tokens.length)
    (hhold : s.Hold (Advances tokens)) (hbody : rules.lookup name = some body)
    (hstart : start ≤ p) (hlimit : p ≤ limit)
    (hfree : freeCalls (callKeys rules start limit) s ≤ free)
    (hcost : free * callDepth rules tokens + 1 ≤ d) :
    ∃ r s₁, (runRule rules tokens d name body p).run s = some (r, s₁) := by
  induction free using Nat.strong_induction_on generalizing name body p s d with
  | _ free ih =>
    obtain ⟨d, rfl⟩ := Nat.exists_eq_succ_of_ne_zero (n := d) (by omega)
    cases hseed : s.get? (name, p) with
    | some seed => exact ⟨_, _, runRule_met hseed⟩
    | none =>
      set keys := callKeys rules start limit with hkeys
      have hkey : (name, p) ∈ keys := by
        have hname : name ∈ rules.map Prod.fst :=
          List.mem_map_of_mem (f := Prod.fst) (mem_rules_of_lookup hbody)
        simp [hkeys, callKeys, hstart, hlimit, List.mem_map.mp hname]
      have hlt : freeCalls keys (s.put (name, p) {}) < freeCalls keys s :=
        freeCalls_put_lt hkey hseed {}
      have hput : (s.put (name, p) {}).Hold (Advances tokens) := hhold.put (by simp)
      obtain ⟨free, rfl⟩ := Nat.exists_eq_succ_of_ne_zero (n := free) (by omega)
      have hends : ∀ s₀ depth, s₀.Hold (Advances tokens) → freeCalls keys s₀ ≤ free →
          Ends rules tokens start limit s₀ (free * callDepth rules tokens + 1) depth := by
        intro s₀ depth hhold₀ hfree₀
        refine ends_of_calls hhold₀ htokens hspan ?_ depth
        intro name body p s d hbody hstart hlimit hs hd
        exact ih free (Nat.lt_succ_self free) (hhold₀.congr hs) hbody hstart hlimit
          ((freeCalls_congr hs).trans_le hfree₀) hd
      -- the depth that is left is enough for the body and as many rounds as there are places
      have hdepth : limit - p + 1 + body.size * (tokens.length + 3) +
          (free * callDepth rules tokens + 1) ≤ d := by
        have hsize := Nat.mul_le_mul_right (tokens.length + 3) (size_le_totalSize hbody)
        have hcall : callDepth rules tokens =
            totalSize rules * (tokens.length + 3) + (tokens.length + 3) := Nat.succ_mul _ _
        rw [Nat.succ_mul] at hcost
        omega
      obtain ⟨m, s₁, hrun, hs₁, hm⟩ :=
        hends _ d hput (by omega) body p _ hstart hlimit rfl (by omega)
      by_cases hr : m = none ∨ isMet s₁ (name, p) = false
      · exact ⟨_, _, runRule_fresh hseed hrun hr⟩
      · obtain ⟨hm', hmet⟩ := not_or.mp hr
        obtain ⟨m, rfl⟩ := Option.ne_none_iff_exists'.mp hm'
        have hgrown : Advances tokens p (nameResult name m) :=
          (isSound rules tokens d body p _ _ s₁ hrun).advances trivial hput m rfl |>.nameResult name
        have hend : p ≤ (nameResult name m).2 := hgrown.1
        obtain ⟨r, s₂, hgrow⟩ : ∃ r s₂,
            (runGrowing rules tokens d name body p (nameResult name m)).run s₁ = some (r, s₂) :=
          exists_runGrowing keys hends hstart hlimit hgrown (hput.congr hs₁)
            (by rw [freeCalls_congr hs₁]; omega) (by omega)
        rw [Bool.not_eq_false] at hmet
        exact ⟨r, _, by rw [runRule_grown hseed hrun hmet, hgrow]; rfl⟩

end Calls

/-! ## The bound -/

section Bound

variable {rules : List NamedRule} {tokens : List Token}

lemma depthBound_eq (rules : List NamedRule) (tokens : List Token) :
    depthBound rules tokens = (rules.length * (tokens.length + 1) + 1) * (totalSize rules + 2) *
      (tokens.length + 4) := by
  have hfold : ∀ n, rules.foldl (fun n r => n + r.2.size) n = totalSize rules + n := by
    intro n
    induction rules generalizing n with
    | nil => simp [totalSize]
    | cons r rules ih =>
      rw [List.foldl_cons, ih, totalSize, totalSize, List.map_cons, List.sum_cons]
      omega
  rw [depthBound]
  simp only [hfold]

/-- The depth of all calls, one within the other. -/
def callsDepth (rules : List NamedRule) (tokens : List Token) : Nat :=
  rules.length * (tokens.length + 1) * callDepth rules tokens + 1

lemma callsDepth_le_depthBound (rules : List NamedRule) (tokens : List Token) :
    callsDepth rules tokens ≤ depthBound rules tokens := by
  set calls := rules.length * (tokens.length + 1)
  have hpos : 0 < callDepth rules tokens := Nat.mul_pos (Nat.succ_pos _) (Nat.succ_pos _)
  calc calls * callDepth rules tokens + 1
      ≤ (calls + 1) * callDepth rules tokens := by rw [Nat.succ_mul]; omega
    _ ≤ (calls + 1) * ((totalSize rules + 2) * (tokens.length + 4)) :=
        Nat.mul_le_mul_left _ (Nat.mul_le_mul (Nat.le_succ _) (Nat.le_succ _))
    _ = depthBound rules tokens := by rw [depthBound_eq, Nat.mul_assoc]

/-- Calls end if those in progress have matches that lie behind their places. -/
lemma exists_runRule_of_hold {name : String} {body : Expr}
    (hbody : rules.lookup name = some body) {s : Seeds} (hhold : s.Hold (Advances tokens))
    {p q d : Nat} (hstart : p ≤ q) (hlimit : q ≤ max tokens.length p)
    (hd : callsDepth rules tokens ≤ d) :
    ∃ r s₁, (runRule rules tokens d name body q).run s = some (r, s₁) :=
  exists_runRule (le_max_left _ _) (by omega) hhold hbody hstart hlimit
    (freeCalls_le rules tokens p s) hd

/-- Expressions end if the calls in progress have matches that lie behind their places. -/
lemma ends_of_hold {s : Seeds} (hhold : s.Hold (Advances tokens)) (p depth : Nat) :
    Ends rules tokens p (max tokens.length p) s (callsDepth rules tokens) depth := by
  refine ends_of_calls hhold (le_max_left _ _) (by omega) ?_ depth
  intro name body q s' d hbody hstart hlimit hs hd
  exact exists_runRule_of_hold hbody (hhold.congr hs) hstart hlimit hd

/-- What an expression answers at a place when no call is in progress: the result of every run that
is deep enough. -/
def Answers (rules : List NamedRule) (tokens : List Token) (e : Expr) (p : Nat)
    (r : Option Match) : Prop :=
  ∃ bound, ∀ depth, bound ≤ depth → (run rules tokens depth e p).run [] = some (r, [])

lemma Answers.unique {e : Expr} {p : Nat} {r r' : Option Match}
    (h : Answers rules tokens e p r) (h' : Answers rules tokens e p r') : r = r' := by
  obtain ⟨bound, hrun⟩ := h
  obtain ⟨bound', hrun'⟩ := h'
  have heq := (hrun (max bound bound') (le_max_left _ _)).symm.trans
    (hrun' (max bound bound') (le_max_right _ _))
  exact (Prod.mk.inj (Option.some.inj heq)).1

lemma answers_of_derives {e : Expr} {p : Nat} {r : Option Match} {s₁ : Seeds}
    (h : Derives rules tokens .seeded (.expr e) p [] r s₁) : Answers rules tokens e p r := by
  have hruns : ∀ depth, e.size * (tokens.length + 3) + callsDepth rules tokens ≤ depth →
      (run rules tokens depth e p).run [] = some (r, []) := by
    intro depth hdepth
    obtain ⟨r', s₂, hrun, -⟩ :=
      ends_of_hold Seeds.hold_nil p depth e p [] le_rfl (le_max_right _ _) rfl hdepth
    have hderives := isSound rules tokens depth e p [] r' s₂ hrun
    rw [hrun, (h.unique hderives).1, Seeds.eq_nil_of_answers hderives.leaves]
  exact ⟨_, hruns⟩

/-- Every call has an answer, whatever calls are in progress: the result of every run within the
bound. -/
lemma exists_derives_of_hold {name : String} {body : Expr}
    (hbody : rules.lookup name = some body) {s : Seeds} (hhold : s.Hold (Advances tokens))
    (p : Nat) :
    ∃ r s₁, Derives rules tokens .seeded (.rule name body) p s r s₁ ∧
      ∀ depth, depthBound rules tokens ≤ depth →
        (runRule rules tokens depth name body p).run s = some (r, s₁) := by
  have hrun : ∀ depth, depthBound rules tokens ≤ depth → ∃ r s₁,
      Derives rules tokens .seeded (.rule name body) p s r s₁ ∧
        (runRule rules tokens depth name body p).run s = some (r, s₁) := by
    intro depth hdepth
    obtain ⟨r, s₁, hrun⟩ := exists_runRule_of_hold hbody hhold le_rfl (le_max_right _ _)
      ((callsDepth_le_depthBound rules tokens).trans hdepth)
    exact ⟨r, s₁, derives_of_runRule (fun d _ => isSound rules tokens d) le_rfl hrun, hrun⟩
  obtain ⟨r, s₁, hr, -⟩ := hrun _ le_rfl
  refine ⟨r, s₁, hr, fun depth hdepth => ?_⟩
  obtain ⟨r', s₂, hr', hrun⟩ := hrun depth hdepth
  obtain ⟨rfl, rfl⟩ := hr.unique hr'
  exact hrun

/-- A call with none in progress has an answer and leaves none. -/
lemma exists_derives_rule {name : String} {body : Expr} (hbody : rules.lookup name = some body)
    (tokens : List Token) (p : Nat) :
    ∃ r, Derives rules tokens .seeded (.rule name body) p [] r [] ∧
      ∀ depth, depthBound rules tokens ≤ depth →
        (runRule rules tokens depth name body p).run [] = some (r, []) := by
  obtain ⟨r, s₁, hr, hrun⟩ := exists_derives_of_hold hbody (Seeds.hold_nil (P := Advances tokens)) p
  obtain rfl := hr.eq_nil
  exact ⟨r, hr, hrun⟩

lemma recognize_of_derives {g : Grammar} {name : String} {body : Expr}
    (hbody : g.body? name = some body) {s : Stream} {r : Option Match} {s₁ : Seeds}
    (h : Derives g.rules s.tokens .seeded (.rule name body) s.position [] r s₁) :
    g.recognize name s = r.map fun m => (m.1, { s with position := m.2 }) := by
  obtain ⟨r', hr', hrun⟩ := exists_derives_rule hbody s.tokens s.position
  obtain ⟨rfl, rfl⟩ := h.unique hr'
  rw [recognize, hbody]
  simp only [recognizeWith, hrun _ le_rfl]
  cases r <;> rfl

/-- What a grammar recognizes is the answer of a call. -/
lemma exists_derives_of_recognize {g : Grammar} {name : String} {s rest : Stream}
    {value : ParseTree} (h : g.recognize name s = some (value, rest)) :
    ∃ body, g.body? name = some body ∧ rest = { s with position := rest.position } ∧
      Derives g.rules s.tokens .seeded (.rule name body) s.position []
        (some (value, rest.position)) [] := by
  cases hbody : g.body? name with
  | none => simp [recognize, hbody] at h
  | some body =>
    obtain ⟨r, hr, -⟩ := exists_derives_rule hbody s.tokens s.position
    rw [recognize_of_derives hbody hr] at h
    obtain ⟨m, rfl, hm⟩ := Option.map_eq_some_iff.mp h
    obtain ⟨rfl, rfl⟩ := Prod.mk.inj hm
    exact ⟨body, rfl, rfl, hr⟩

/-- Every run of a rule of a grammar ends, however the rules refer to each other: the depth to which
it nests is bounded by the number of the rules, their sizes and the number of the tokens, and its
answer is the same at every greater depth. -/
theorem runs_end (g : Grammar) {name : String} {body : Expr} (hbody : g.body? name = some body)
    (s : Stream) :
    depthBound g.rules s.tokens = (g.rules.length * (s.tokens.length + 1) + 1) *
        ((g.rules.map fun r => r.2.size).sum + 2) * (s.tokens.length + 4) ∧
      ∃ r, (∀ depth, depthBound g.rules s.tokens ≤ depth →
          (runRule g.rules s.tokens depth name body s.position).run [] = some (r, [])) ∧
        g.recognize name s = r.map fun m => (m.1, { s with position := m.2 }) := by
  obtain ⟨r, hr, hrun⟩ := exists_derives_rule hbody s.tokens s.position
  exact ⟨depthBound_eq _ _, r, hrun, recognize_of_derives hbody hr⟩

/-- Sums that begin with themselves behind a sign that may be absent, through another rule, and with
loops over what may take nothing. -/
def tangledSums : Grammar where
  rules := [
    ("sum", .choice [
      .seq [.optional (.token "sign"), .ref "head", .token "plus",
        .many (.optional (.ref "number"))],
      .ref "number"]),
    ("head", .seq [.many (.many (.token "comma")), .ref "sum"]),
    ("number", .choice [.token "number", .list (.optional (.ref "head")) none false])]
  start := "sum"
  sound := by decide

theorem tangledSums_end :
    let s : Stream := { tokens := [{ kind := "number", text := ['1'], start := 0, stop := 1 }] }
    ∃ body, tangledSums.body? "sum" = some body ∧
      depthBound tangledSums.rules s.tokens =
        (tangledSums.rules.length * (s.tokens.length + 1) + 1) *
          ((tangledSums.rules.map fun r => r.2.size).sum + 2) * (s.tokens.length + 4) ∧
      ∃ r, (∀ depth, depthBound tangledSums.rules s.tokens ≤ depth →
          (runRule tangledSums.rules s.tokens depth "sum" body s.position).run [] = some (r, [])) ∧
        tangledSums.recognize "sum" s = r.map fun m => (m.1, { s with position := m.2 }) := by
  intro s
  have hbody : ∃ body, tangledSums.body? "sum" = some body := ⟨_, rfl⟩
  obtain ⟨body, hbody⟩ := hbody
  exact ⟨body, hbody, runs_end tangledSums hbody s⟩

end Bound

end Grammar

end TaggedOutline
