import Mathlib.Logic.Function.Basic
import TaggedOutline.Proofs.Grammar.Termination

/-!
# Calls one after the other

A grammar is used for many texts, and its rules keep the seeds of the calls in progress from one
call to the next.  `Tables` are all these seeds: for each source of tokens, known by a number, the
seeds of the calls over it.  A call works on the tables that the calls before it have left, and
`Grammar.callEach` is a whole session.  Nothing says that the tokens under a number stay the same: a
source that has gone may leave its number to another one.

Main statement: `seeds_restored`, that a call leaves the answers in all tables as they were, so that
in a session that starts with empty tables every call answers as if it were the first.
-/

namespace TaggedOutline

namespace Grammar

/-- The seeds of the calls in progress, for each source of tokens. -/
abbrev Tables := Nat → Seeds

/-- No call is in progress. -/
def noTables : Tables := fun _ => []

/-- The call of a rule on a stream over the tokens of a source. -/
structure Call where
  rule : String
  source : Nat
  stream : Stream

/-- Runs a rule on tables as they are, with calls in it at most `depth` deep. -/
def callWithin (g : Grammar) (depth : Nat) (c : Call) (tables : Tables) :
    Option (Option (ParseTree × Stream) × Tables) :=
  match g.body? c.rule with
  | none => some (none, tables)
  | some body =>
    ((runRule g.rules c.stream.tokens depth c.rule body c.stream.position).run
      (tables c.source)).map fun (found, seeds) =>
        (found.map fun m => (m.1, { c.stream with position := m.2 }),
          Function.update tables c.source seeds)

/-- Runs a rule on tables as they are. -/
def call (g : Grammar) (c : Call) : Tables → Option (Option (ParseTree × Stream) × Tables) :=
  g.callWithin (depthBound g.rules c.stream.tokens) c

/-- Runs calls one after the other. -/
def callEach (g : Grammar) :
    List Call → Tables → Option (List (Option (ParseTree × Stream)) × Tables)
  | [], tables => some ([], tables)
  | c :: calls, tables => do
    let (found, tables) ← g.call c tables
    let (more, tables) ← callEach g calls tables
    return (found :: more, tables)

section Sessions

variable {g : Grammar} {c : Call} {tables tables' : Tables} {depth : Nat}
  {found : Option (ParseTree × Stream)}

/-- A call that ends leaves the answers in all tables, whatever they are. -/
lemma answers_of_callWithin (h : g.callWithin depth c tables = some (found, tables'))
    (source : Nat) : (tables' source).answers = (tables source).answers := by
  rw [callWithin] at h
  split at h
  · obtain ⟨-, rfl⟩ := Prod.mk.inj (Option.some.inj h)
    rfl
  · obtain ⟨⟨r, seeds⟩, hrun, hresult⟩ := Option.map_eq_some_iff.mp h
    obtain ⟨-, rfl⟩ := Prod.mk.inj hresult
    by_cases hsource : source = c.source
    · subst hsource
      rw [Function.update_self]
      exact (derives_of_runRule (fun d _ => isSound g.rules _ d) le_rfl hrun).leaves
    · rw [Function.update_of_ne hsource]

/-- A call ends, at every depth from the bound on in the same way, if the calls in progress have
matches that lie behind their places. -/
lemma exists_callWithin (c : Call) (hhold : (tables c.source).Hold (Advances c.stream.tokens)) :
    ∃ found tables', ∀ depth, depthBound g.rules c.stream.tokens ≤ depth →
      g.callWithin depth c tables = some (found, tables') := by
  cases hbody : g.body? c.rule with
  | none => exact ⟨none, tables, fun depth _ => by rw [callWithin, hbody]⟩
  | some body =>
    obtain ⟨r, seeds, -, hrun⟩ := exists_derives_of_hold hbody hhold c.stream.position
    refine ⟨r.map fun m => (m.1, { c.stream with position := m.2 }),
      Function.update tables c.source seeds, fun depth hdepth => ?_⟩
    rw [callWithin, hbody]
    simp only [hrun depth hdepth, Option.map_some]

/-- Without calls in progress a call answers as a call by itself does, and leaves none. -/
lemma call_noTables (g : Grammar) (c : Call) :
    g.call c noTables = some (g.recognize c.rule c.stream, noTables) := by
  rw [call, callWithin]
  cases hbody : g.body? c.rule with
  | none => rw [recognize, hbody]
  | some body =>
    obtain ⟨r, hr, hrun⟩ := exists_derives_rule hbody c.stream.tokens c.stream.position
    have hnone : Function.update noTables c.source [] = noTables := Function.update_eq_self _ _
    have hstart : (runRule g.rules c.stream.tokens (depthBound g.rules c.stream.tokens) c.rule body
        c.stream.position).run (noTables c.source) = some (r, []) := hrun _ le_rfl
    rw [recognize_of_derives hbody hr]
    simp only [hstart, Option.map_some, hnone]

lemma callEach_noTables (g : Grammar) (calls : List Call) :
    g.callEach calls noTables =
      some (calls.map fun c => g.recognize c.rule c.stream, noTables) := by
  induction calls with
  | nil => rfl
  | cons c calls ih =>
    rw [callEach, call_noTables]
    simp only [Option.bind_eq_bind, Option.bind_some, ih]
    rfl

/-- A call leaves every table of seeds with the same keys and the same answers under them, whatever
calls are in progress, and it ends if their matches lie behind their places.  So a session ends
without calls in progress, and each call in it answers as on a grammar that was never used. -/
theorem seeds_restored (g : Grammar) :
    (∀ depth c tables found tables', g.callWithin depth c tables = some (found, tables') →
      ∀ source, (tables' source).answers = (tables source).answers) ∧
    (∀ c tables, (tables c.source).Hold (Advances c.stream.tokens) →
      ∃ found tables', ∀ depth, depthBound g.rules c.stream.tokens ≤ depth →
        g.callWithin depth c tables = some (found, tables')) ∧
    ∀ calls, g.callEach calls noTables =
      some (calls.map fun c => g.recognize c.rule c.stream, noTables) :=
  ⟨fun _ _ _ _ _ h => answers_of_callWithin h, fun c _ hhold => exists_callWithin c hhold,
    callEach_noTables g⟩

/-- A number is read while a sum at the same place has already matched it. -/
theorem seeds_restored_in_sum :
    let t : Token := { kind := "number", text := ['1'], start := 0, stop := 1 }
    let c : Call := { rule := "number", source := 0, stream := { tokens := [t] } }
    let tables : Tables := Function.update noTables 0 [(("sum", 0), growingSeed (.token t, 1))]
    (tables c.source).Hold (Advances c.stream.tokens) ∧
      ∃ found tables', tangledSums.call c tables = some (found, tables') ∧
        ∀ source, (tables' source).answers = (tables source).answers := by
  intro t c tables
  have hhold : (tables c.source).Hold (Advances c.stream.tokens) := by
    show Seeds.Hold _ [(("sum", 0), growingSeed (.token t, 1))]
    refine (Seeds.hold_cons _ _ _).mpr ⟨?_, Seeds.hold_nil⟩
    rintro m ⟨⟩
    exact ⟨Nat.zero_le 1, le_rfl⟩
  obtain ⟨hleft, hends, -⟩ := seeds_restored tangledSums
  obtain ⟨found, tables', hrun⟩ := hends c tables hhold
  exact ⟨hhold, found, tables', hrun _ le_rfl, hleft _ _ _ _ _ (hrun _ le_rfl)⟩

end Sessions

end Grammar

end TaggedOutline
