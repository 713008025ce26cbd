import TaggedOutline.Proofs.Locator.Search
import TaggedOutline.Proofs.Preorder
import TaggedOutline.Proofs.Slices
import TaggedOutline.Proofs.Stages

/-!
# Searching in range

A search asks for nodes by their numbers and for children by their places, which a path counts from
one and a list from zero.  The checked search has no result where a number is not one of the tree,
where a place has nothing before it to count from, or where a walk does not come to its end.

The compiler refuses the place zero (`Locator.isCounted_of_compile`), and a linked tree has all
nodes that its lists of children name.  So the checked search has a result, and it is that of the
search (`Tree.IsLinked.findChecked_eq` and its companions).
-/

namespace TaggedOutline

/-! ## Lists -/

section Lists

variable {α β : Type} {l : List α}

lemma filterM_eq_some {f : α → Checked Bool} {p : α → Bool} (h : ∀ a ∈ l, f a = some (p a)) :
    l.filterM f = some (l.filter p) := by
  have haux : ∀ taken, l.filterAuxM f taken = some ((l.filter p).reverse ++ taken) := by
    induction l with
    | nil => exact fun taken => rfl
    | cons a l ih =>
      intro taken
      rw [List.filterAuxM, h a List.mem_cons_self, Option.bind_eq_bind, Option.bind_some,
        ih fun b hb => h b (List.mem_cons_of_mem a hb)]
      cases hp : p a <;> simp [hp]
  rw [List.filterM, haux, List.append_nil, Option.bind_eq_bind, Option.bind_some,
    List.reverse_reverse]
  rfl

lemma findSomeM?_eq_some {f : α → Checked (Option β)} {g : α → Option β}
    (h : ∀ a ∈ l, f a = some (g a)) : l.findSomeM? f = some (l.findSome? g) := by
  induction l with
  | nil => rfl
  | cons a l ih =>
    rw [List.findSomeM?_cons, List.findSome?_cons, h a List.mem_cons_self, Option.bind_eq_bind,
      Option.bind_some]
    cases g a with
    | none => exact ih fun b hb => h b (List.mem_cons_of_mem a hb)
    | some b => rfl

end Lists

/-! ## Paths -/

namespace Locator

/-- The locator that the tokens of a path stand for. -/
def ofLexed (read : Matcher.Reader) (source : Text) (lexed : Except LexError (List Token)) :
    Except LocatorError Locator := do
  let tokens ← lexed.mapError .lexError
  match (grammar.parse { tokens }).bind path.decode with
  | none => throw (.syntaxError source)
  | some written => return { source, steps := ← written.mapM (WrittenStep.compile read source) }

/-- Reads a path. -/
def compileChecked (read : Matcher.Reader) (source : Text) :
    Checked (Except LocatorError Locator) :=
  (lexer.visibleChecked source).map (ofLexed read source)

lemma compileChecked_eq (read : Matcher.Reader) (source : Text) :
    compileChecked read source = some (compile read source) := by
  rw [compileChecked, Lexer.visibleChecked_eq delimits_lexer]
  rfl

end Locator

namespace Tree

variable {H : Type} {t : Tree H} {id start : NodeId} {step : Step} {steps : List Step}

/-! ## The checked search -/

/-- The children of a node of the tree that are nodes. -/
def childNodesChecked (t : Tree H) (id : NodeId) : Checked (List NodeId) :=
  (t.node? id).map Node.childNodes

/-- The node that a node of the tree stands under, if it is not the root. -/
def parentChecked (t : Tree H) (id : NodeId) : Checked (Option NodeId) :=
  (t.node? id).map fun node => if node.parent = id then none else some node.parent

/-- Whether a step accepts a node of the tree, its place among its siblings apart. -/
def acceptsChecked (t : Tree H) (s : Step) (id : NodeId) : Checked Bool :=
  (t.node? id).map s.accepts

/-- The child of a node that a step selects. -/
def selectChecked (t : Tree H) (parent : NodeId) (s : Step) : Checked (Option NodeId) := do
  let children ← t.childNodesChecked parent
  let candidates ← children.filterM (t.acceptsChecked s)
  match s.selector with
  | .nth place => return candidates[← place.ppred]?
  | _ => return candidates.head?

/-- The node that steps lead to, child by child. -/
def descendChecked (t : Tree H) : NodeId → List Step → Checked (Option NodeId)
  | id, [] => some (some id)
  | id, step :: steps => do
    match ← t.selectChecked id step with
    | some child => t.descendChecked child steps
    | none => return none

/-- Whether a step stands for the node itself. -/
def anchorsChecked (t : Tree H) (s : Step) (id : NodeId) : Checked Bool :=
  if s.isPositional then some false else t.acceptsChecked s id

/-- The node that a path leads to. -/
def followChecked (t : Tree H) (start : NodeId) (l : Locator) : Checked (Option NodeId) :=
  match l.steps with
  | [] => some none
  | step :: steps => do
    let anchored ← t.anchorsChecked step start
    t.descendChecked start (if anchored then steps else step :: steps)

/-- A walk over waiting nodes and everything beneath them, which has to be done after a number of
nodes. -/
def walkChecked (t : Tree H) : Nat → List NodeId → Checked (List NodeId)
  | _, [] => some []
  | 0, _ :: _ => none
  | steps + 1, id :: waiting => do
    let children ← t.childNodesChecked id
    let further ← t.walkChecked steps (children ++ waiting)
    return id :: further

/-- The nodes beneath a node, each before what is beneath it. -/
def descendantsChecked (t : Tree H) (id : NodeId) : Checked (List NodeId) := do
  t.walkChecked t.size (← t.childNodesChecked id)

/-- Whether a step selects a node from the node it stands under. -/
def isSelectedChecked (t : Tree H) (s : Step) (id : NodeId) : Checked Bool :=
  if s.isPositional then do
    match ← t.parentChecked id with
    | some parent => return (← t.selectChecked parent s) == some id
    | none => return false
  else t.acceptsChecked s id

/-- The first node beneath a start from which the whole path leads somewhere. -/
def firstFromChecked (t : Tree H) (start : NodeId) (l : Locator) : Checked (Option NodeId) :=
  match l.steps with
  | [] => some none
  | step :: steps => do
    let beneath ← t.descendantsChecked start
    let candidates ← beneath.filterM (t.isSelectedChecked step)
    candidates.findSomeM? fun id => t.descendChecked id steps

/-- The node that a written path leads to; none if the path is no locator. -/
def findChecked (t : Tree H) (read : Matcher.Reader) (start : NodeId) (path : Text) :
    Checked (Option NodeId) := do
  match ← Locator.compileChecked read path with
  | .ok l => t.followChecked start l
  | .error _ => return none

/-- The first node beneath a start from which a written path leads somewhere. -/
def firstChecked (t : Tree H) (read : Matcher.Reader) (start : NodeId) (path : Text) :
    Checked (Option NodeId) := do
  match ← Locator.compileChecked read path with
  | .ok l => t.firstFromChecked start l
  | .error _ => return none

/-- The nodes beneath a start with a tag, or all of them. -/
def searchAllChecked (t : Tree H) (start : NodeId) (tag : Text) : Checked (List NodeId) := do
  (← t.descendantsChecked start).filterM fun id =>
    if tag == Step.anyTag then some true else (t.node? id).map (·.tag == tag)

/-! ## Nodes of the tree -/

lemma childNodesChecked_eq (hid : id < t.size) :
    t.childNodesChecked id = some (t.childNodes id) := by
  obtain ⟨n, hn⟩ := exists_node?_of_lt hid
  rw [childNodesChecked, childNodes, hn]
  rfl

lemma parentChecked_eq (hid : id < t.size) : t.parentChecked id = some (t.parent? id) := by
  obtain ⟨n, hn⟩ := exists_node?_of_lt hid
  rw [parentChecked, parent?, hn]
  rfl

lemma acceptsChecked_eq (hid : id < t.size) (s : Step) :
    t.acceptsChecked s id = some (t.accepts s id) := by
  obtain ⟨n, hn⟩ := exists_node?_of_lt hid
  rw [acceptsChecked, accepts, hn]
  rfl

lemma anchorsChecked_eq (hid : id < t.size) (s : Step) :
    t.anchorsChecked s id = some (t.anchors s id) := by
  rw [anchorsChecked, anchors, acceptsChecked_eq hid]
  cases s.isPositional <;> rfl

namespace IsLinked

variable (h : t.IsLinked)

include h

lemma lt_size_of_mem_childNodes {c : NodeId} (hc : c ∈ t.childNodes id) : c < t.size :=
  lt_size_of_parent? (h.mem_childNodes_iff.mp hc)

lemma lt_size_of_mem_descendants {d : NodeId} (hd : d ∈ t.descendants id) : d < t.size := by
  by_contra hle
  have hway := h.mem_descendants_iff.mp hd
  rw [ancestors_of_parent?_eq_none (parent?_eq_none_of_size_le (not_lt.mp hle))] at hway
  exact List.not_mem_nil hway

lemma selectChecked_eq (hid : id < t.size) (hstep : step.IsCounted) :
    t.selectChecked id step = some (t.select? id step) := by
  have hfilter := filterM_eq_some (l := t.childNodes id) (f := t.acceptsChecked step) fun c hc =>
    acceptsChecked_eq (h.lt_size_of_mem_childNodes hc) step
  rw [selectChecked, childNodesChecked_eq hid]
  simp only [Option.bind_eq_bind, Option.bind_some, hfilter, select?]
  cases hselector : step.selector with
  | nth place =>
    simp only [Nat.ppred_eq_pred (hstep place hselector), Option.bind_some]
    rfl
  | any | name | attrEq | attrMatch => rfl

lemma descendChecked_eq (hid : id < t.size) (hsteps : ∀ step ∈ steps, step.IsCounted) :
    t.descendChecked id steps = some (t.descend? id steps) := by
  induction steps generalizing id with
  | nil => rfl
  | cons step steps ih =>
    obtain ⟨hstep, hsteps⟩ := List.forall_mem_cons.mp hsteps
    rw [descendChecked, descend?, h.selectChecked_eq hid hstep]
    cases hchild : t.select? id step with
    | none => rfl
    | some child => exact ih (h.lt_size_of_mem_childNodes (mem_of_select? hchild).1) hsteps

lemma followChecked_eq {l : Locator} (hstart : start < t.size)
    (hl : ∀ step ∈ l.steps, step.IsCounted) :
    t.followChecked start l = some (t.follow? start l) := by
  unfold followChecked follow?
  cases hsteps : l.steps with
  | nil => rfl
  | cons step steps =>
    rw [hsteps] at hl
    simp only [anchorsChecked_eq hstart, Option.bind_eq_bind, Option.bind_some]
    refine h.descendChecked_eq hstart ?_
    split
    · exact (List.forall_mem_cons.mp hl).2
    · exact hl

/-- A walk over nodes of the tree that has steps enough comes to its end. -/
lemma walkChecked_eq {n : Nat} {waiting : List NodeId} (hwaiting : ∀ w ∈ waiting, w < t.size)
    (hsteps : (waiting.map fun w => (t.beneath w).card + 1).sum ≤ n) :
    t.walkChecked n waiting = some (t.walk n waiting) := by
  induction n generalizing waiting with
  | zero =>
    cases waiting with
    | nil => rfl
    | cons w waiting =>
      rw [List.map_cons, List.sum_cons] at hsteps
      omega
  | succ n ih =>
    cases waiting with
    | nil => rfl
    | cons w waiting =>
      obtain ⟨hw, hwaiting⟩ := List.forall_mem_cons.mp hwaiting
      have hlt : ∀ c ∈ t.childNodes w ++ waiting, c < t.size := fun c hc =>
        (List.mem_append.mp hc).elim h.lt_size_of_mem_childNodes (hwaiting c)
      have hfurther := ih hlt <| by
        rw [List.map_append, List.sum_append, h.sum_children]
        rw [List.map_cons, List.sum_cons] at hsteps
        omega
      rw [walkChecked, walk, childNodesChecked_eq hw, Option.bind_eq_bind, Option.bind_some,
        hfurther]
      rfl

lemma descendantsChecked_eq (hid : id < t.size) :
    t.descendantsChecked id = some (t.descendants id) := by
  rw [descendantsChecked, childNodesChecked_eq hid, Option.bind_eq_bind, Option.bind_some]
  refine h.walkChecked_eq (fun c hc => h.lt_size_of_mem_childNodes hc) ?_
  rw [h.sum_children]
  exact (Finset.card_filter_le _ _).trans (Finset.card_range _).le

lemma isSelectedChecked_eq (hid : id < t.size) (hstep : step.IsCounted) :
    t.isSelectedChecked step id = some (t.isSelected step id) := by
  unfold isSelectedChecked isSelected
  split
  · rw [parentChecked_eq hid]
    cases hparent : t.parent? id with
    | none => rfl
    | some parent =>
      have hlt := (h.lt_of_parent? hparent).trans hid
      simp only [Option.bind_eq_bind, Option.bind_some, h.selectChecked_eq hlt hstep]
      rfl
  · exact acceptsChecked_eq hid step

lemma firstFromChecked_eq {l : Locator} (hstart : start < t.size)
    (hl : ∀ step ∈ l.steps, step.IsCounted) :
    t.firstFromChecked start l = some (t.firstFrom? start l) := by
  unfold firstFromChecked firstFrom?
  cases hsteps : l.steps with
  | nil => rfl
  | cons step steps =>
    obtain ⟨hstep, hrest⟩ := List.forall_mem_cons.mp (hsteps ▸ hl)
    have hcandidates := filterM_eq_some (l := t.descendants start) (f := t.isSelectedChecked step)
      fun d hd => h.isSelectedChecked_eq (h.lt_size_of_mem_descendants hd) hstep
    simp only [h.descendantsChecked_eq hstart, hcandidates, Option.bind_eq_bind, Option.bind_some]
    exact findSomeM?_eq_some fun d hd =>
      h.descendChecked_eq (h.lt_size_of_mem_descendants (List.mem_filter.mp hd).1) hrest

theorem findChecked_eq (hstart : start < t.size) (read : Matcher.Reader) (path : Text) :
    t.findChecked read start path = some (t.find? read start path) := by
  rw [findChecked, find?, Locator.compileChecked_eq]
  cases hl : Locator.compile read path with
  | error e => rfl
  | ok l => exact h.followChecked_eq hstart (Locator.isCounted_of_compile hl)

lemma firstChecked_eq (hstart : start < t.size) (read : Matcher.Reader) (path : Text) :
    t.firstChecked read start path = some (t.first? read start path) := by
  rw [firstChecked, first?, Locator.compileChecked_eq]
  cases hl : Locator.compile read path with
  | error e => rfl
  | ok l => exact h.firstFromChecked_eq hstart (Locator.isCounted_of_compile hl)

lemma searchAllChecked_eq (hstart : start < t.size) (tag : Text) :
    t.searchAllChecked start tag = some (t.searchAll start tag) := by
  rw [searchAllChecked, h.descendantsChecked_eq hstart, Option.bind_eq_bind, Option.bind_some]
  refine filterM_eq_some fun d hd => ?_
  obtain ⟨n, hn⟩ := exists_node?_of_lt (h.lt_size_of_mem_descendants hd)
  rw [hn]
  cases tag == Step.anyTag <;> rfl

end IsLinked

end Tree

/-! ## Every reading -/

/-- No reading of a header line or of a path goes out of range, and no search.

The patterns of both lexers are read off their written forms.  A rule for strings, code or comments
matches a text only with the delimiters that its transform takes off, so that both lexers cut every
text at places between two characters of it.  A place that a path asks for is at least one.  In a
tree with which anything at all has been done, a search from one of its nodes asks for no node that
is not there, and its walk ends. -/
theorem readings_stay_in_range :
    (Header.forms.map (LexRule.patternOf? Pattern.reader ·.toList) =
      Header.lexer.rules.map fun r => some r.pattern) ∧
    (Locator.forms.map (LexRule.patternOf? Pattern.reader ·.toList) =
      Locator.lexer.rules.map fun r => some r.pattern) ∧
    (∀ lx ∈ [Header.lexer, Locator.lexer], lx.Delimits ∧
      ∀ source, lx.visibleChecked source = some (lx.visible source)) ∧
    (∀ line, Header.line.parseChecked line = some (Header.parse line)) ∧
    (∀ read path, Locator.compileChecked read path = some (Locator.compile read path) ∧
      ∀ l, Locator.compile read path = .ok l → ∀ step ∈ l.steps, step.IsCounted) ∧
    ∀ (s : Setup) (start m : Moment), s.IsStart start → s.ReachesFreely start m →
      ∀ id < m.tree.size, ∀ read text,
        m.tree.findChecked read id text = some (m.tree.find? read id text) ∧
        m.tree.firstChecked read id text = some (m.tree.first? read id text) ∧
        m.tree.searchAllChecked id text = some (m.tree.searchAll id text) := by
  refine ⟨Header.patternOf?_forms, Locator.patternOf?_forms, fun lx hlx => ?_, fun line => ?_,
    fun read path => ⟨Locator.compileChecked_eq read path, fun l => Locator.isCounted_of_compile⟩,
    ?_⟩
  · have hdelimits : lx.Delimits := by
      simp only [List.mem_cons, List.not_mem_nil, or_false] at hlx
      rcases hlx with rfl | rfl
      · exact Header.delimits_lexer
      · exact Locator.delimits_lexer
    exact ⟨hdelimits, Lexer.visibleChecked_eq hdelimits⟩
  · exact Sublanguage.parseChecked_eq Header.delimits_lexer line
  · intro s start m hstart h id hid read text
    have hlinked := Setup.isLinked_of_reachesFreely hstart h
    exact ⟨hlinked.findChecked_eq hid read text, hlinked.firstChecked_eq hid read text,
      hlinked.searchAllChecked_eq hid text⟩

/-- A header line with a string, code and a comment, a path with a place that is refused, and
searches in a tree that has grown. -/
theorem readings_stay_in_range_after_insertion :
    let line := "größe \"a\\\"ß\" \x7b \x7bü\x7d \x7d#€".toList
    let s : Setup := {}
    let start : Moment :=
      ⟨[.program .client Setup.addUnderFirst], s.ofText "a\n  b\n    c\ne\n".toList⟩
    let m := s.after 80 start
    (∃ h, Header.line.parseChecked line = some (some h) ∧ h.label = some "a\"ß".toList ∧
      h.inlineCode = some "\x7bü\x7d".toList ∧ h.comment = some "€".toList) ∧
    Locator.compileChecked Pattern.reader "a(0)".toList = some (.error (.zeroIndex "a(0)".toList)) ∧
    s.IsStart start ∧ s.ReachesFreely start m ∧ Tree.root < m.tree.size ∧
      m.tree.findChecked Pattern.reader Tree.root "a/*(2)".toList = some (some 5) ∧
      m.tree.firstChecked Pattern.reader Tree.root "b[tag=~\"^b$\"].c".toList = some (some 4) ∧
      m.tree.searchAllChecked Tree.root "*".toList = some [1, 3, 4, 5, 2] := by
  intro line s start m
  obtain ⟨-, -, -, hline, hpath, hsearch⟩ := readings_stay_in_range
  have hstart : s.IsStart start := .ofText _ _
  have hreaches : s.ReachesFreely start m := Setup.reachesFreely_of_reaches (s.reaches_after 80 _)
  have hroot : Tree.root < m.tree.size := by decide +kernel
  have hheader : (Header.parse line).map (fun h => (h.label, h.inlineCode, h.comment)) =
      some (some "a\"ß".toList, some "\x7bü\x7d".toList, some "€".toList) := by decide +kernel
  obtain ⟨h, hparse, hview⟩ := Option.map_eq_some_iff.mp hheader
  simp only [Prod.mk.injEq] at hview
  have hzero : Locator.compile Pattern.reader "a(0)".toList =
      .error (.zeroIndex "a(0)".toList) := by
    have herror : (Locator.compile Pattern.reader "a(0)".toList).map (fun _ => ()) =
        .error (.zeroIndex "a(0)".toList) := by decide +kernel
    cases hc : Locator.compile Pattern.reader "a(0)".toList <;> rw [hc] at herror <;> cases herror
    rfl
  refine ⟨⟨h, hparse ▸ hline line, hview⟩, hzero ▸ (hpath Pattern.reader "a(0)".toList).1, hstart,
    hreaches, hroot, ?_, ?_, ?_⟩
  · refine (hsearch s start m hstart hreaches _ hroot Pattern.reader _).1.trans (congrArg some ?_)
    decide +kernel
  · refine (hsearch s start m hstart hreaches _ hroot Pattern.reader _).2.1.trans (congrArg some ?_)
    decide +kernel
  · refine (hsearch s start m hstart hreaches _ hroot Pattern.reader _).2.2.trans (congrArg some ?_)
    decide +kernel

end TaggedOutline
