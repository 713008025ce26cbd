import TaggedOutline.Handler.Grammars
import TaggedOutline.Proofs.Dispatch
import TaggedOutline.Proofs.Ends

/-!
# Failures of hooks

A hook that fails gives back an error instead of a result.  `Setup.Answers` is a run from one moment
to another one with everything that hooks have given back on the way, in order.  If hooks are local,
each call is answered before the next one is made, and each node keeps the errors of its own hooks
behind what its header and its body have brought, in the order of the answers
(`Moment.Accounts`).

With quiet hooks a build also goes its way whatever they give back (`Setup.failures_leave_course`).
Whether it comes to an end is not for the hooks to say: a body grammar that gives back what it is
given keeps it going for ever (`Setup.echo_has_no_end`).
-/

namespace TaggedOutline

/-! ## Answers -/

/-- What a hook has given back: an error, or none. -/
structure Answer where
  occasion : Occasion
  id : NodeId
  error? : Option BuildError

/-- The call that is answered. -/
def Answer.call (a : Answer) : Occasion × NodeId := (a.occasion, a.id)

/-- The errors of the hooks of a node, in the order of the answers. -/
def Answer.errors (answers : List Answer) (id : NodeId) : List BuildError :=
  answers.filterMap fun a => if a.id = id then a.error? else none

/-- The error of a result. -/
def BuildError.ofResult? {α : Type} : Except BuildError α → Option BuildError
  | .ok _ => none
  | .error e => some e

/-- The call that a program has been run for. -/
def Purpose.call? {α : Type} : Purpose α → Option (Occasion × NodeId)
  | .payload id => some (.payload, id)
  | .register id => some (.register, id)
  | .post id => some (.post, id)
  | .client => none

/-- The answer to the call that a program has been run for. -/
def Purpose.answer? {α : Type} (purpose : Purpose α) (result : Except BuildError α) :
    Option Answer :=
  purpose.call?.map fun call => ⟨call.1, call.2, BuildError.ofResult? result⟩

/-- The answer that is given at a moment, if a hook ends with the next step. -/
def Moment.answer? (m : Moment) : Option Answer :=
  match m.work with
  | .program purpose (.done result) :: _ => purpose.answer? result
  | _ => none

/-- From one moment to a later one, with the answers that are given on the way. -/
inductive Setup.Answers (s : Setup) (m : Moment) : List Answer → Moment → Prop
  | none : Answers s m [] m
  | next {answers : List Answer} {m' m'' : Moment} (h : Answers s m answers m')
      (hnext : s.next? m' = some m'') : Answers s m (answers ++ m'.answer?.toList) m''

lemma Setup.exists_answers_of_reaches {s : Setup} {m m' : Moment} (h : s.Reaches m m') :
    ∃ answers, s.Answers m answers m' := by
  induction h with
  | refl => exact ⟨[], .none⟩
  | tail _ hnext ih =>
    obtain ⟨answers, hanswers⟩ := ih
    exact ⟨_, hanswers.next hnext⟩

/-! ## Every call is answered, and every error is kept -/

/-- The call that a piece of work will answer. -/
def Work.due? : Work → Option (Occasion × NodeId)
  | .program purpose _ => purpose.call?
  | _ => none

/-- The calls that work will answer. -/
def Work.dues (ws : List Work) : List (Occasion × NodeId) := ws.filterMap Work.due?

namespace Tree

variable {H : Type}

/-- The diagnostics of a node. -/
def diagnosticsOf? (t : Tree H) (id : NodeId) : Option (List Diagnostic) :=
  (t.node? id).map fun n => n.diagnostics

/-- Each node has the errors of its hooks behind other diagnostics. -/
def Reports (t : Tree H) (answers : List Answer) : Prop :=
  ∀ id ds, t.diagnosticsOf? id = some ds →
    ds = (ds.filter fun d => d.severity == .warning) ++
      (Answer.errors answers id).map BuildError.diagnostic

end Tree

/-- What the answers so far say of the calls and the diagnostics. -/
structure Moment.Accounts (m : Moment) (answers : List Answer) : Prop where
  /-- Only the first piece of work is to answer a call. -/
  alone : Work.dues m.work.tail = []
  calls : m.tree.calls = answers.map Answer.call ++ Work.dues m.work
  reports : m.tree.Reports answers

namespace Answer

lemma errors_append (answers answers' : List Answer) (id : NodeId) :
    errors (answers ++ answers') id = errors answers id ++ errors answers' id :=
  List.filterMap_append

/-- A node whose hooks have not been called has no errors. -/
lemma errors_eq_nil {H : Type} {t : Tree H} {answers : List Answer} {id : NodeId}
    (hcalls : t.calls = answers.map call) (hnone : t.callsOf id = []) : errors answers id = [] := by
  refine List.filterMap_eq_nil_iff.mpr fun a ha => if_neg fun hid => ?_
  have hmem : a.call ∈ t.calls := hcalls ▸ List.mem_map_of_mem ha
  have hnot := List.filterMap_eq_nil_iff.mp hnone a.call hmem
  cases (if_pos hid).symm.trans hnot

end Answer

namespace Work

@[simp] lemma dues_nil : dues [] = [] := rfl

@[simp] lemma dues_cons (w : Work) (ws : List Work) :
    dues (w :: ws) = w.due?.toList ++ dues ws := by
  rw [dues, List.filterMap_cons]
  cases w.due? <;> rfl

lemma dues_append (ws ws' : List Work) : dues (ws ++ ws') = dues ws ++ dues ws' :=
  List.filterMap_append

lemma dues_builds (ids : List NodeId) : dues (ids.map .build) = [] := by
  induction ids with
  | nil => rfl
  | cons id ids ih => exact ih

lemma dues_tail {ws : List Work} (h : dues ws = []) : dues ws.tail = [] :=
  List.filterMap_eq_nil_iff.mpr fun w hw =>
    List.filterMap_eq_nil_iff.mp h w (List.mem_of_mem_tail hw)

end Work

namespace Purpose

variable {α : Type} (purpose : Purpose α) (result : Except BuildError α)

lemma dues_close (t : Tree Handler) : Work.dues (purpose.close result t).1 = [] := by
  cases purpose <;> rfl

lemma calls_close (t : Tree Handler) : (purpose.close result t).2.calls = t.calls := by
  cases purpose with
  | payload id => rcases result with e | - | p <;> rfl
  | register id | post id => cases result <;> rfl
  | client => rfl

lemma map_call_answer? :
    (purpose.answer? result).toList.map Answer.call = purpose.call?.toList := by
  rw [answer?]
  cases purpose.call? <;> rfl

end Purpose

/-- After a step: what has been left waits, and what has come of the step is in order. -/
lemma Moment.Accounts.of_step (ws : List Work) {rest : List Work} {t : Tree Handler}
    {answers : List Answer}
    (hrest : Work.dues rest = []) (hws : Work.dues ws.tail = [])
    (hcalls : t.calls = answers.map Answer.call ++ Work.dues ws) (hreports : t.Reports answers) :
    (⟨ws ++ rest, t⟩ : Moment).Accounts answers := by
  refine ⟨?_, ?_, hreports⟩
  · cases ws with
    | nil => exact Work.dues_tail hrest
    | cons w ws =>
      change Work.dues (ws ++ rest) = []
      rw [Work.dues_append, hrest, List.append_nil]
      exact hws
  · rw [Work.dues_append, hrest, List.append_nil]
    exact hcalls

namespace Tree

variable {t t' : Tree Handler} {answers : List Answer} {id j : NodeId} {n : Node Handler}

lemma diagnosticsOf?_of_node? (hn : t.node? id = some n) :
    t.diagnosticsOf? id = some n.diagnostics := by
  rw [diagnosticsOf?, hn, Option.map_some]

lemma diagnosticsOf?_update {f : Node Handler → Node Handler}
    (h : ∀ n, (f n).diagnostics = n.diagnostics) :
    (t.update j f).diagnosticsOf? id = t.diagnosticsOf? id := map_node?_update h t j id

/-- To look for a handler leaves no diagnostic. -/
lemma Recalls.diagnosticsOf? (h : t.Recalls t') (id : NodeId) :
    t'.diagnosticsOf? id = t.diagnosticsOf? id := h.map_node? (fun _ _ => rfl) id

namespace Reports

lemma congr (h : t.Reports answers) (hsame : ∀ id, t'.diagnosticsOf? id = t.diagnosticsOf? id) :
    t'.Reports answers := fun id ds hds => h id ds ((hsame id).symm.trans hds)

/-- A hook ends with a result. -/
lemma concat_result (h : t.Reports answers) (occasion : Occasion) (id : NodeId) :
    t.Reports (answers ++ [⟨occasion, id, none⟩]) := by
  intro j ds hds
  have hnone : Answer.errors [⟨occasion, id, none⟩] j = [] := by simp [Answer.errors]
  rw [Answer.errors_append, hnone, List.append_nil]
  exact h j ds hds

/-- A hook ends with an error, and its node keeps it. -/
lemma concat_error (h : t.Reports answers) (occasion : Occasion) (id : NodeId) (e : BuildError) :
    (t.record id e).Reports (answers ++ [⟨occasion, id, some e⟩]) := by
  intro j ds hds
  rw [Answer.errors_append]
  by_cases hj : j = id
  · subst hj
    have hone : Answer.errors [⟨occasion, j, some e⟩] j = [e] := by simp [Answer.errors]
    obtain ⟨n', hn', rfl⟩ := Option.map_eq_some_iff.mp hds
    have hlt : j < t.size := (size_update t j _).symm ▸ lt_size_of_node? hn'
    obtain ⟨n, hn⟩ := exists_node?_of_lt hlt
    obtain rfl := Option.some.inj ((node?_update_self hn _).symm.trans hn')
    have hbefore := h j n.diagnostics (diagnosticsOf?_of_node? hn)
    have herror : (e.diagnostic.severity == .warning) = false := rfl
    rw [hone, List.map_append, ← List.append_assoc]
    refine congrArg (· ++ [e.diagnostic]) (hbefore.trans (congrArg (· ++ _) ?_))
    change _ = (n.diagnostics ++ [e.diagnostic]).filter _
    rw [List.filter_append, List.filter_singleton, herror]
    exact (List.append_nil _).symm
  · have hnone : Answer.errors [⟨occasion, id, some e⟩] j = [] := by
      simp [Answer.errors, Ne.symm hj]
    rw [hnone, List.append_nil]
    refine h j ds (Eq.trans ?_ hds)
    rw [diagnosticsOf?, diagnosticsOf?, record, annotate, edit, node?_update_of_ne hj]

/-- A program comes to its end. -/
lemma close {α : Type} (h : t.Reports answers) (purpose : Purpose α)
    (result : Except BuildError α) :
    (purpose.close result t).2.Reports (answers ++ (purpose.answer? result).toList) := by
  have hadvance : ∀ {t : Tree Handler} {answers : List Answer}, t.Reports answers →
      ∀ id state, (t.advance id state).Reports answers := fun h id state =>
    h.congr fun _ => diagnosticsOf?_update fun _ => rfl
  cases purpose with
  | payload id =>
    rcases result with e | - | p
    · exact hadvance (h.concat_error .payload id e) id _
    · exact hadvance (h.concat_result .payload id) id _
    · refine hadvance ?_ id _
      exact (h.concat_result .payload id).congr fun _ => diagnosticsOf?_update fun _ => by rfl
  | register id =>
    rcases result with e | -
    · exact hadvance (h.concat_error .register id e) id _
    · exact hadvance (h.concat_result .register id) id _
  | post id =>
    rcases result with e | -
    · exact hadvance (h.concat_error .post id e) id _
    · exact hadvance (h.concat_result .post id) id _
  | client => exact (List.append_nil answers).symm ▸ h

end Reports

end Tree

/-! ## Warnings -/

/-- The diagnostics are warnings. -/
def Fields.OnlyWarns (f : Fields) : Prop := ∀ d ∈ f.diagnostics, d.severity = .warning

lemma Fields.OnlyWarns.annotate {f : Fields} (h : f.OnlyWarns) {d : Diagnostic}
    (hd : d.severity = .warning) : (f.annotate d).OnlyWarns := by
  intro d' hd'
  rcases List.mem_append.mp hd' with hd' | hd'
  · exact h d' hd'
  · exact List.mem_singleton.mp hd' ▸ hd

lemma Fields.isLasting_onlyWarns : IsLasting OnlyWarns where
  applyHeader _ h := h
  annotate hd h := h.annotate hd
  expanded h := h

/-- A node is opened whose hooks have not been called, and new nodes come under it. -/
lemma Tree.Reports.opens {s : Setup} {t t' : Tree Handler} {id : NodeId} {n m : Node Handler}
    {seeds : List (Child (Node Handler))} {answers : List Answer} (h : t.Reports answers)
    (hopens : Opens s t t' id n m seeds) (hseeds : ∀ k ∈ newNodes seeds, k.diagnostics = [])
    (hm : m.toFields.OnlyWarns) (hid : Answer.errors answers id = [])
    (hnew : ∀ j, t.size ≤ j → Answer.errors answers j = []) : t'.Reports answers := by
  intro j ds hds
  obtain ⟨k, hk, rfl⟩ := Option.map_eq_some_iff.mp hds
  by_cases hj : j = id
  · subst hj
    obtain rfl := Option.some.inj (hopens.here.symm.trans hk)
    have hall : (m.diagnostics.filter fun d => d.severity == .warning) = m.diagnostics :=
      List.filter_eq_self.mpr fun d hd => beq_iff_eq.mpr (hm d hd)
    rw [hid, hall]
    exact (List.append_nil _).symm
  · rcases Nat.lt_or_ge j t.size with hlt | hge
    · obtain ⟨k₀, hk₀⟩ := exists_node?_of_lt hlt
      obtain ⟨k', hk', hremembers⟩ := hopens.others hj hk₀
      obtain rfl := Option.some.inj (hk'.symm.trans hk)
      rw [hremembers.congr (fun n => n.diagnostics) fun _ _ => rfl]
      exact h j _ (diagnosticsOf?_of_node? hk₀)
    · obtain ⟨i, rfl⟩ := Nat.exists_eq_add_of_le hge
      rw [hnew _ hge, hseeds k (List.mem_of_getElem? ((hopens.added i).symm.trans hk))]
      rfl

namespace Setup

open TaggedOutline.Tree

variable {s : Setup} {m m' : Moment} {answers : List Answer} {t : Tree Handler} {id : NodeId}

/-- The step in which a build begins. -/
lemma accounts_build {rest : List Work} (hm : (⟨.build id :: rest, t⟩ : Moment).IsRegular)
    (h : (⟨.build id :: rest, t⟩ : Moment).Accounts answers) :
    (⟨(s.perform (.build id) t).1 ++ rest, (s.perform (.build id) t).2⟩ : Moment).Accounts
      answers := by
  obtain ⟨hrest, hcalls, hreports⟩ := h
  replace hrest : Work.dues rest = [] := hrest
  replace hcalls : t.calls = answers.map Answer.call := by
    simpa [Work.due?, hrest] using hcalls
  have hsame : (⟨rest, t⟩ : Moment).Accounts answers :=
    .of_step [] hrest rfl (hcalls.trans (List.append_nil _).symm) hreports
  rw [perform]
  rcases hn : t.node? id with - | n
  · exact hsame
  · by_cases hstate : n.state = .unparsed
    · obtain ⟨handler, t', hresolve, hopens⟩ := s.opens_of_unparsed hm.isArena hn hstate
      simp only [hstate, if_true, hresolve]
      have hwaits := (hm.isStaged.idle_of_unparsed
        ((state?_of_node? hn).trans (congrArg some hstate))).2
      have hid : Answer.errors answers id = [] :=
        Answer.errors_eq_nil hcalls (congrArg Stage.calls hwaits)
      have hbefore : n.toFields.OnlyWarns := by
        intro d hd
        have hds := hreports id _ (diagnosticsOf?_of_node? hn)
        rw [hid, List.map_nil, List.append_nil] at hds
        rw [hds] at hd
        exact beq_iff_eq.mp (List.mem_filter.mp hd).2
      have hnew : ∀ j, t.size ≤ j → Answer.errors answers j = [] := by
        intro j hj
        have hnone := node?_eq_none hj
        have habsent := (hm.isStaged.idle_of_absent (congrArg (Option.map Node.state) hnone)).2
        exact Answer.errors_eq_nil hcalls (congrArg Stage.calls habsent)
      have hreports' : t'.Reports answers := hreports.opens hopens
        (fun k hk => (s.isSeed_of_mem_opened handler id n k hk).diagnostics)
        (s.lasting_opened handler Fields.isLasting_onlyWarns id n hbefore) hid hnew
      refine .of_step [_] hrest rfl ?_ hreports'
      rw [calls_log_call, calls_congr hopens.journal, hcalls]
      rfl
    · simp only [hstate, if_false]
      exact hsame

/-- The next step of a program. -/
lemma accounts_program {α : Type} {purpose : Purpose α} {hook : Hook α} {rest : List Work}
    (h : (⟨.program purpose hook :: rest, t⟩ : Moment).Accounts answers)
    (hlocal : (Work.program purpose hook).IsLocal s t) :
    (⟨(s.performHook purpose hook t).1 ++ rest, (s.performHook purpose hook t).2⟩ :
      Moment).Accounts
        (answers ++ (⟨.program purpose hook :: rest, t⟩ : Moment).answer?.toList) := by
  obtain ⟨hrest, hcalls, hreports⟩ := h
  replace hrest : Work.dues rest = [] := hrest
  replace hcalls : t.calls = answers.map Answer.call ++ purpose.call?.toList := by
    simpa [Work.due?, hrest] using hcalls
  obtain ⟨hallows, -⟩ := hlocal
  -- a program that does not end yet answers nothing
  have hgoes : ∀ (next : Hook α) {t' : Tree Handler}, t'.calls = t.calls →
      (∀ id, t'.diagnosticsOf? id = t.diagnosticsOf? id) →
        (⟨[.program purpose next] ++ rest, t'⟩ : Moment).Accounts (answers ++ []) := by
    intro next t' hsame hds
    rw [List.append_nil]
    refine .of_step _ hrest rfl ?_ (hreports.congr hds)
    rw [hsame, hcalls]
    simp [Work.due?]
  cases hook with
  | done result =>
    refine .of_step _ hrest (Work.dues_tail (purpose.dues_close result t)) ?_
      (hreports.close purpose result)
    rw [performHook, purpose.dues_close, purpose.calls_close, hcalls, List.map_append,
      List.append_nil]
    exact congrArg _ (purpose.map_call_answer? result).symm
  | look next => exact hgoes _ rfl fun _ => rfl
  | note line next => exact hgoes _ (calls_log_note t line) fun _ => rfl
  | override j tag k next => exact hgoes _ rfl fun _ => diagnosticsOf?_update fun _ => rfl
  | edit | build | insertText | insertSpec | setAction => cases purpose <;> exact False.elim hallows

/-- What is accounted for at a moment is accounted for at the next one. -/
lemma accounts_of_next? (hm : m.IsLocal s) (h : m.Accounts answers)
    (hnext : s.next? m = some m') : m'.Accounts (answers ++ m.answer?.toList) := by
  obtain ⟨w, rest, hwork, -, rfl⟩ := exists_of_next? hnext
  obtain ⟨work, t⟩ := m
  obtain rfl : work = w :: rest := hwork
  have hw := hm.work w List.mem_cons_self
  -- the other pieces of work make no answer and leave the diagnostics alone
  have hstep : ∀ {ws : List Work} {t' : Tree Handler}, w.due? = none → Work.dues ws.tail = [] →
      t'.calls = t.calls ++ Work.dues ws →
      (∀ id, t'.diagnosticsOf? id = t.diagnosticsOf? id) →
        (⟨ws ++ rest, t'⟩ : Moment).Accounts (answers ++ []) := by
    intro ws t' hnone hws hcalls hds
    obtain ⟨hrest, hbefore, hreports⟩ := h
    replace hrest : Work.dues rest = [] := hrest
    replace hbefore : t.calls = answers.map Answer.call := by
      simpa [hnone, hrest] using hbefore
    rw [List.append_nil]
    exact .of_step _ hrest hws (by rw [hcalls, hbefore]) (hreports.congr hds)
  cases w with
  | build id => exact (List.append_nil answers).symm ▸ accounts_build hm.isRegular h
  | program purpose hook => exact accounts_program h hw
  | children id =>
    have hnone : Work.dues ((t.childNodes id).map .build ++ [.register id]) = [] := by
      rw [Work.dues_append, Work.dues_builds]
      rfl
    rw [perform]
    refine hstep rfl (Work.dues_tail hnone) ?_ fun _ => rfl
    rw [hnone, List.append_nil]
  | register id =>
    have hadvance : ∀ (t : Tree Handler) state j,
        (t.advance id state).diagnosticsOf? j = t.diagnosticsOf? j := fun t state j =>
      diagnosticsOf?_update fun _ => rfl
    rw [perform]
    dsimp only
    split
    · refine hstep rfl rfl (List.append_nil _).symm fun j => ?_
      rw [hadvance, hadvance]
    · have hrecalls := s.registry.recalls_resolve (t.advance id .childrenBuilt) id
      refine hstep rfl rfl ?_ fun j => (hrecalls.diagnosticsOf? j).trans (hadvance t _ j)
      rw [calls_log_call, calls_congr hrecalls.journal]
      rfl
  | finish id =>
    have hrecalls := s.registry.recalls_resolve t id
    rw [perform]
    refine hstep rfl rfl ?_ fun j => hrecalls.diagnosticsOf? j
    rw [calls_log_call, calls_congr hrecalls.journal]
    rfl

/-- What is accounted for at a moment is accounted for at all later ones. -/
lemma accounts_of_answers (hlocal : s.IsLocal) (hm : m.IsLocal s)
    (h : m.Accounts []) (hanswers : s.Answers m answers m') :
    m'.IsLocal s ∧ m'.Accounts answers := by
  induction hanswers with
  | none => exact ⟨hm, h⟩
  | next _ hnext ih =>
    obtain ⟨hm', h'⟩ := ih
    exact ⟨isLocal_of_next? hlocal hm' hnext, accounts_of_next? hm' h' hnext⟩

end Setup

/-! ## Whole builds -/

namespace Subtree

/-- An arena gives back a subtree of it. -/
lemma IsIn.subtree? {H : Type} {t : Tree H} {s : Subtree H} (h : s.IsIn t) (harena : t.IsArena) :
    t.subtree? s.id = some s := by
  rw [← h.subtreeWithin (t.size + s.preorder.length) (Nat.le_add_left _ _)]
  exact harena.subtreeWithin_eq (Nat.le_add_left _ _) (by omega)

mutual

lemma traversal_bare : ∀ s : Subtree Handler, s.bare.traversal = s.traversal
  | ⟨id, _, children⟩ => by rw [bare, traversal, traversal, childTraversals_bare children]

lemma childTraversals_bare : ∀ children : List (Child (Subtree Handler)),
    childTraversals (bareChildren children) = childTraversals children
  | [] => rfl
  | child :: children => by
    rw [bareChildren, childTraversals, childTraversals, childTraversal_bare child,
      childTraversals_bare children]

lemma childTraversal_bare : ∀ child : Child (Subtree Handler),
    childTraversal (bareChild child) = childTraversal child
  | .text _ => rfl
  | .node s => traversal_bare s

end

end Subtree

namespace Setup

open TaggedOutline.Tree Subtree

variable {s : Setup} {t₀ t : Tree Handler} {depth : Nat}

lemma IsFresh.exists_root (h : s.IsFresh t₀) :
    ∃ n, n.IsSeed root false ∧ t₀ = { nodes := #[n] } := by
  cases h with
  | ofText text => exact ⟨_, ⟨rfl, rfl, rfl, rfl, rfl, rfl, rfl, rfl, rfl, rfl⟩, rfl⟩
  | ofSpec spec => exact ⟨_, .ofSpec root false spec, rfl⟩

lemma IsFresh.isSound (h : s.IsFresh t₀) (s' : Setup) : t₀.IsSound s' := by
  refine ⟨(isRegular_of_isFresh h).isArena, fun id n hn => ?_⟩
  obtain ⟨n₀, hseed, rfl⟩ := h.exists_root
  obtain rfl : id = 0 := Nat.lt_one_iff.mp (lt_size_of_node? hn)
  obtain rfl : n₀ = n := Option.some.inj hn
  rw [hseed.handler, hseed.overrides]
  exact ⟨fun _ h => (by cases h), fun _ h => absurd h List.not_mem_nil⟩

/-- Nothing has been done with a fresh tree. -/
lemma IsFresh.bare (h : s.IsFresh t₀) : t₀.bare = t₀ := by
  obtain ⟨n₀, hseed, rfl⟩ := h.exists_root
  simp [Tree.bare, bare_of_isSeed hseed]

/-- A build without hooks makes the calls of the traversal. -/
lemma calls_of_isIdle (hidle : s.IsIdle) {n : Node Handler} (hn : n.IsSeed root false)
    (hsound : Tree.IsSound s { nodes := #[n] })
    (h : s.build depth { nodes := #[n] } root = some t) :
    ∃ sub, t.subtree? root = some sub ∧ t.calls = sub.traversal := by
  obtain ⟨m, news, hraised⟩ := raised_of_build hidle depth hsound rfl hn.state
    (hasBegun_of_children_eq_nil _ hn.children) h
  have hisIn : (⟨root, m, news⟩ : Subtree Handler).IsIn t := by
    refine ⟨hraised.here, ?_, hraised.areIn⟩
    rw [hraised.children, hn.children, List.nil_append]
  exact ⟨_, hisIn.subtree? hraised.isSound.isArena, hraised.calls⟩

/-- A build with quiet hooks makes the calls of the traversal. -/
lemma calls_of_isQuiet (hquiet : s.IsQuiet) (hfresh : s.IsFresh t₀)
    (h : s.build depth t₀ root = some t) :
    (t.subtree? root).map Subtree.traversal = some t.calls := by
  have hbare := bare_build hquiet depth (hfresh.isSound s) root
  rw [hfresh.bare, h] at hbare
  have hsound := hfresh.isSound s.bare
  obtain ⟨n, hseed, rfl⟩ := hfresh.exists_root
  obtain ⟨sub, hsub, hcalls⟩ := calls_of_isIdle s.isIdle_bare hseed hsound hbare
  rw [subtree?_bare] at hsub
  obtain ⟨sub', hsub', rfl⟩ := Option.map_eq_some_iff.mp hsub
  rw [hsub', Option.map_some, ← calls_bare, hcalls, traversal_bare]

/-- A node has the diagnostics that its header and its body have brought, and then the errors of its
hooks in the order in which they have been given back. -/
lemma exists_answers (hquiet : s.IsQuiet) (hfresh : s.IsFresh t₀)
    (h : s.build depth t₀ root = some t) :
    ∃ answers, s.Answers ⟨[.build root], t₀⟩ answers ⟨[], t⟩ ∧ answers.map Answer.call = t.calls ∧
      t.Reports answers := by
  have hstart := isLocal_of_isFresh hfresh (s := s)
  have hsafe := isSafe_of_isLocal hquiet.isLocal hstart
  obtain ⟨answers, hanswers⟩ := exists_answers_of_reaches (does_of_build h [] hsafe)
  have hnone : (⟨[.build root], t₀⟩ : Moment).Accounts [] := by
    obtain ⟨n, hseed, rfl⟩ := hfresh.exists_root
    refine ⟨rfl, rfl, fun id ds hds => ?_⟩
    obtain ⟨k, hk, rfl⟩ := Option.map_eq_some_iff.mp hds
    obtain rfl : id = 0 := Nat.lt_one_iff.mp (lt_size_of_node? hk)
    obtain rfl : n = k := Option.some.inj hk
    rw [hseed.diagnostics]
    rfl
  obtain ⟨-, -, hcalls, hreports⟩ := accounts_of_answers hquiet.isLocal hstart hnone hanswers
  exact ⟨answers, hanswers, (hcalls.trans (List.append_nil _)).symm, hreports⟩

/-- Hooks that change nothing in the tree may fail wherever they like.  A build makes the calls of
the traversal and builds every node.  With other hooks, which may fail elsewhere or nowhere, it
comes to an end as well, with the same sketches.  Each call is answered once, and a node has what
the build without hooks leaves on it, nothing but warnings, and then one error for each of its
hooks that has failed, in the order of the calls.  The build comes to an end at all if grammars
give shorter bodies. -/
theorem failures_leave_course (s : Setup) (hquiet : s.IsQuiet) {t₀ : Tree Handler}
    (hfresh : s.IsFresh t₀) :
    (s.Shrinks → ∃ bound, ∀ depth, bound < depth → ∃ t, s.build depth t₀ root = some t) ∧
    ∀ depth t, s.build depth t₀ root = some t →
      (t.subtree? root).map Subtree.traversal = some t.calls ∧
      (∀ id n, t.node? id = some n → n.state = .built) ∧
      (∀ s' : Setup, s'.IsQuiet → s'.bare = s.bare →
        ∃ t', s'.build depth t₀ root = some t' ∧ ∀ id, t'.sketch? id = t.sketch? id) ∧
      ∃ answers t', s.Answers ⟨[.build root], t₀⟩ answers ⟨[], t⟩ ∧
        answers.map Answer.call = t.calls ∧ s.bare.build depth t₀ root = some t' ∧
        ∀ id n, t.node? id = some n → ∃ m, t'.node? id = some m ∧
          (∀ d ∈ m.diagnostics, d.severity = .warning) ∧
          n.diagnostics =
            m.diagnostics ++ (Answer.errors answers id).map BuildError.diagnostic := by
  refine ⟨fun hshrinks => exists_build_of_isFresh hquiet.isLocal hshrinks hfresh,
    fun depth t h => ?_⟩
  have hbare := bare_build hquiet depth (hfresh.isSound s) root
  rw [hfresh.bare, h, Option.map_some] at hbare
  refine ⟨calls_of_isQuiet hquiet hfresh h, fun id n hn => ?_, fun s' hquiet' heq => ?_, ?_⟩
  · have hsafe := isSafe_of_isLocal hquiet.isLocal (isLocal_of_isFresh hfresh)
    have hdone := congrArg Stage.state (done_of_build hfresh hsafe h hn)
    exact Option.some.inj ((state?_of_node? hn).symm.trans hdone)
  · have hbare' := bare_build hquiet' depth (hfresh.isSound s') root
    rw [hfresh.bare, heq, hbare] at hbare'
    obtain ⟨t', ht', hsame⟩ := Option.map_eq_some_iff.mp hbare'.symm
    exact ⟨t', ht', fun id => by rw [← sketch?_bare, hsame, sketch?_bare]⟩
  · obtain ⟨answers, hanswers, hcalls, hreports⟩ := exists_answers hquiet hfresh h
    refine ⟨answers, t.bare, hanswers, hcalls, hbare, fun id n hn =>
      ⟨n.bare, ?_, fun d hd => ?_, ?_⟩⟩
    · rw [node?_bare, hn, Option.map_some]
    · exact beq_iff_eq.mp (List.mem_filter.mp hd).2
    · exact hreports id _ (diagnosticsOf?_of_node? hn)

/-- A setup with one quiet handler. -/
lemma isQuiet_of_single {tag : Text} {h : Handler} (hquiet : h.IsQuiet) (hnone : h.beneath = []) :
    ({ registry := { handlers := [(tag, h)] } } : Setup).IsQuiet := by
  have hknown : ∀ k, ({ registry := { handlers := [(tag, h)] } } : Setup).Offers k →
      k = .generic ∨ k = h := by
    intro k hoffers
    induction hoffers with
    | generic => exact .inl rfl
    | handlers hmem => exact .inr (Prod.mk.inj (List.mem_singleton.mp hmem)).2
    | beneath hmem => exact absurd hmem List.not_mem_nil
    | inner _ hmem ih =>
      rcases ih with rfl | rfl
      · exact absurd hmem List.not_mem_nil
      · exact absurd (hnone ▸ hmem) List.not_mem_nil
    | installed _ hinstalls ih =>
      rcases ih with rfl | rfl
      · exact absurd hinstalls Handler.isIdle_generic.isQuiet.not_installs
      · exact absurd hinstalls hquiet.not_installs
  intro k hoffers
  rcases hknown k hoffers with rfl | rfl
  · exact Handler.isIdle_generic.isQuiet
  · exact hquiet

/-- A handler whose hooks fail, the last one only where the node stands under one of its kind. -/
def failing : Handler where
  name := "item".toList
  payload _ := .done (.error { message := "no payload".toList, code := "payload".toList })
  register _ _ := .note "seen".toList (.done (.error { message := "no place".toList }))
  post id := .look fun t =>
    if t.depth id < 2 then pure () else .done (.error { message := "too deep".toList })

/-- The same handler with hooks that do not fail. -/
def succeeding : Handler where
  name := "item".toList
  payload id := pure (some (.whole id))

/-- A document for these handlers; the body of the second element names a grammar that nobody
registered. -/
def failingSpec : Spec :=
  { tag := "root".toList, children := [.node { tag := "item".toList, children := [
    .node { tag := "item".toList, parser := some "nobody".toList, body := some "a".toList }] }] }

theorem failures_leave_course_of_failing :
    let s : Setup := { registry := { handlers := [("item".toList, failing)] } }
    let s' : Setup := { registry := { handlers := [("item".toList, succeeding)] } }
    ∃ t t', s.build 6 (ofSpec failingSpec) root = some t ∧
      s'.build 6 (ofSpec failingSpec) root = some t' ∧
      t.calls = [(.payload, 0), (.payload, 1), (.payload, 2), (.payload, 3), (.register, 3),
        (.post, 3), (.register, 2), (.post, 2), (.register, 1), (.post, 1), (.post, 0)] ∧
      (t.diagnosticsOf? 2).map (List.map Diagnostic.code) = some (["unknown-parser", "payload",
        "build-failed", "build-failed"].map (some ·.toList)) ∧
      (t.subtree? root).map Subtree.traversal = some t.calls ∧
      ∀ id, t'.sketch? id = t.sketch? id := by
  intro s s'
  have hquiet : s.IsQuiet := by
    refine isQuiet_of_single ⟨fun _ => trivial, fun _ _ => trivial, fun id t => ?_⟩ rfl
    dsimp only
    split <;> trivial
  have hquiet' : s'.IsQuiet :=
    isQuiet_of_single ⟨fun _ => trivial, fun _ _ => trivial, fun _ => trivial⟩ rfl
  have hview : (s.build 6 (ofSpec failingSpec) root).map (fun t =>
      (t.calls, (t.diagnosticsOf? 2).map (List.map Diagnostic.code))) =
        some ([(.payload, 0), (.payload, 1), (.payload, 2), (.payload, 3), (.register, 3),
          (.post, 3), (.register, 2), (.post, 2), (.register, 1), (.post, 1), (.post, 0)],
          some (["unknown-parser", "payload", "build-failed", "build-failed"].map
            (some ·.toList))) := by
    decide +kernel
  obtain ⟨t, ht, hview⟩ := Option.map_eq_some_iff.mp hview
  obtain ⟨hcalls, hcodes⟩ := Prod.mk.inj hview
  obtain ⟨htraversal, -, hother, -⟩ :=
    (failures_leave_course s hquiet (.ofSpec failingSpec)).2 6 t ht
  obtain ⟨t', ht', hsketch⟩ := hother s' hquiet' rfl
  exact ⟨t, t', ht, ht', hcalls, hcodes, htraversal, hsketch⟩

/-! ## A grammar that gives back its body -/

/-- Without handlers in the registry every node has the generic one. -/
lemma eq_generic_of_bodies {bodies : List (Text × BodyGrammar)} {h : Handler}
    (hoffers : ({ registry := { bodies } } : Setup).Offers h) : h = .generic := by
  induction hoffers with
  | generic => rfl
  | handlers hmem | beneath hmem => exact absurd hmem List.not_mem_nil
  | inner _ hmem ih => exact absurd (ih ▸ hmem) List.not_mem_nil
  | installed _ hinstalls ih =>
    exact absurd (ih ▸ hinstalls) Handler.isIdle_generic.isQuiet.not_installs

/-- The grammar of one word.  It makes an element of it that names the same grammar and has a word
as its body again. -/
def echo : BodyGrammar where
  lexer := {
    rules := [{
      name := "ws"
      pattern := (Pattern.plus true (.one (.named .blank))).atHead
      silent := true }]
    stops := [] }
  grammar := {
    rules := [("words", .seq [.ref "w", .finish]), ("w", .token "word")]
    start := "words"
    sound := by decide }
  decode := ItemReading.decode { rule := "w", lead := "a :echo #".toList, body := "x\n".toList }

/-- The setup with that grammar. -/
def echoing : Setup where
  registry := { bodies := [("echo".toList, echo)] }

def echoSource : Text := "a :echo\n    x\n".toList

/-- What is read of the source: the root, or an element whose grammar gives back its body. -/
def IsEcho (n : Node Handler) : Prop :=
  n.tag = echoing.settings.rootTag ∧ n.toFields = { body := .text echoSource } ∨
    ∃ header ∈ ["a :echo".toList, "a :echo #x".toList],
      n.toFields = { header := some header, body := .text "x\n".toList }

lemma isEcho_ofTag {header : Text} (hheader : header ∈ ["a :echo".toList, "a :echo #x".toList])
    (id : NodeId) : IsEcho (.ofTag {} id false header "x\n".toList false) := by
  refine .inr ⟨header, hheader, ?_⟩
  simp only [List.mem_cons, List.not_mem_nil, or_false] at hheader
  rcases hheader with rfl | rfl <;> rfl

lemma opened_echo {header : Text} (hheader : header ∈ ["a :echo".toList, "a :echo #x".toList])
    {n : Node Handler} (hn : n.toFields = { header := some header, body := .text "x\n".toList })
    (id : NodeId) : (echoing.opened .generic id n).1 =
      [.node (.ofTag {} id false "a :echo #x".toList "x\n".toList false)] := by
  have hreads : ∀ header ∈ ["a :echo".toList, "a :echo #x".toList],
      (Header.parse header).map (fun h => (h.parser, h.inlineCode)) =
        some (some "echo".toList, none) := by
    decide +kernel
  have hagain : echo.parse "x\n".toList =
      some [.tag "a :echo #x".toList "x\n".toList false] := by
    decide +kernel
  obtain ⟨h, hparse, hh⟩ := Option.map_eq_some_iff.mp (hreads header hheader)
  obtain ⟨hparser, hcode⟩ := Prod.mk.inj hh
  let f : Fields := Fields.applyHeader { header := some header, body := .text "x\n".toList } h
  have hdecoded : echoing.decoded .generic n.toFields = f := by
    have hline : (Handler.generic.line.getD echoing.registry.line).parse header = some h := hparse
    rw [decoded, hn]
    dsimp only
    rw [hline]
  have hitems : echoing.items .generic n.tag "x\n".toList f =
      (some [.tag "a :echo #x".toList "x\n".toList false], f) := by
    have hpolicy : echoing.policy .generic f = (.grammar echo, f) := by
      rw [policy, show f.parser = some "echo".toList from hparser]
      rfl
    rw [items, hpolicy]
    dsimp only
    rw [hagain]
  have hplain : ¬(f.suppressed || f.inlineCode.isSome) = true := by
    simp [f, Fields.applyHeader, hcode]
  have hbody : f.body = .text "x\n".toList := rfl
  rw [opened, hdecoded, expanded, if_neg hplain, hbody]
  dsimp only
  rw [hitems]
  rfl

/-- What is read becomes a child that is read in the same way. -/
lemma echoing_recurs : echoing.Recurs IsEcho := by
  intro h hoffers id n hn
  obtain rfl := eq_generic_of_bodies hoffers
  rcases hn with ⟨htag, hfields⟩ | ⟨header, hheader, hfields⟩
  · have hopened : (echoing.opened .generic id n).1 =
        [.node (.ofTag {} id false "a :echo".toList "x\n".toList false)] := by
      rw [opened, htag, hfields]
      rfl
    exact ⟨_, hopened ▸ List.mem_singleton_self _, isEcho_ofTag (.head _) id⟩
  · exact ⟨_, opened_echo hheader hfields id ▸ List.mem_singleton_self _,
      isEcho_ofTag (.tail _ (.head _)) id⟩

/-- A body grammar that gives back what it is given makes a child in every child, so a build without
any hook comes to no end. -/
theorem echo_has_no_end :
    echoing.IsQuiet ∧ ¬∃ depth t, echoing.buildText depth echoSource = some t := by
  have hidle : echoing.IsIdle := fun h hoffers =>
    eq_generic_of_bodies hoffers ▸ Handler.isIdle_generic
  refine ⟨hidle.isQuiet, fun ⟨depth, t, ht⟩ => ?_⟩
  have hsound : (echoing.ofText echoSource).IsSound echoing := (IsFresh.ofText echoSource).isSound _
  have hnone : echoing.build depth (echoing.ofText echoSource) root = none :=
    build_eq_none_of_recurs hidle echoing_recurs hsound rfl rfl
      (hasBegun_of_children_eq_nil _ rfl) (.inl ⟨rfl, rfl⟩) depth
  cases hnone.symm.trans ht

end Setup

end TaggedOutline
