import TaggedOutline.Proofs.Deeper
import TaggedOutline.Proofs.Mirrored

/-!
# Inserted text

A text that is inserted under a node and a document of the same text are built in different ways.
The elements of the text stand under a node of a larger tree and outside the document, and they are
built one after the other; or they stand under a root that is built itself.  The steps of the builds
go side by side all the same, and keep the one tree a mirror of the other, so that inserted text
comes out like a document (`Setup.insertText_copies`).

A handler that has been set on the node, or above it, reaches the inserted nodes but not the
document.  So the law is confined to nodes above which there is none
(`Setup.not_copiesDocument_beneath_override`).
-/

namespace TaggedOutline

/-- An insertion under `p` gives copies of the nodes of a document: the nodes that are inserted are
those of the children of its root. -/
structure Tree.CopiesDocument (p : NodeId) (t₀ t : Tree Handler) (ids : List NodeId)
    (t' : Tree Handler) : Prop where
  ids_eq : ids = (t₀.childNodes root).map (shifted p t.size)
  children : ∃ n n', t.node? p = some n ∧ t'.node? p = some n' ∧
    n'.children = n.children ++ ids.map .node
  size_eq : t'.size + 1 = t.size + t₀.size
  isCopy : ∀ {id n}, id ≠ root → t₀.node? id = some n →
    ∃ m, t'.node? (shifted p t.size id) = some m ∧ n.IsCopy (shifted p t.size) m ∧ m.state = .built

/-! ## Steps of a build -/

namespace Setup

open TaggedOutline.Tree

variable {s : Setup} {p first : Nat} {id : NodeId} {cs₀ cs : List (Child NodeId)}
  {t₀ t : Tree Handler}

section

variable (hempty : s.registry = {}) (h : Mirrors p first cs₀ cs t₀ t) (hid : id ≠ root)
  (hlt : id < t₀.size)

include hempty h hid hlt

lemma mirrors_decodeHeader : Mirrors p first cs₀ cs (s.decodeHeader t₀ id)
    (s.decodeHeader t (shifted p first id)) := by
  obtain ⟨n, hn⟩ := exists_node?_of_lt hlt
  obtain ⟨m, hm, hcopy⟩ := h.isCopy hid hn
  have hheader : m.header = n.header := hcopy.field Fields.header fun _ => rfl
  obtain ⟨hfree₀, hfree⟩ := h.isFree_of_lt hid
  obtain ⟨t₀', hresolve₀, hfinds₀⟩ := Registry.resolve_isFree hempty hfree₀
  obtain ⟨t', hresolve, hfinds⟩ := Registry.resolve_isFree hempty hfree
  have hmirrors := h.finds hfinds₀ hfinds
  rw [decodeHeader, decodeHeader, hn, hm, Option.bind_some, Option.bind_some, hheader]
  split
  · exact h.advance hid _
  · rw [hresolve₀, hresolve]
    dsimp only
    split
    · exact (hmirrors.edit hid fun _ => rfl).advance hid _
    · exact (hmirrors.annotate hid _).advance hid _

lemma mirrors_bodyPolicy : ∃ policy t₀' t', s.bodyPolicy t₀ id = (policy, t₀') ∧
    s.bodyPolicy t (shifted p first id) = (policy, t') ∧ Mirrors p first cs₀ cs t₀' t' := by
  obtain ⟨hfree₀, hfree⟩ := h.isFree_of_lt hid
  obtain ⟨t₀', hresolve₀, hfinds₀⟩ := Registry.resolve_isFree hempty hfree₀
  obtain ⟨t', hresolve, hfinds⟩ := Registry.resolve_isFree hempty hfree
  have hmirrors := h.finds hfinds₀ hfinds
  obtain ⟨n, hn⟩ := exists_node?_of_lt (hfinds₀.size_eq.symm ▸ hlt)
  obtain ⟨m, hm, hcopy⟩ := hmirrors.isCopy hid hn
  have hparser : m.parser = n.parser := hcopy.field Fields.parser fun _ => rfl
  have hnone : ∀ name, s.registry.body? name = none := fun name => by rw [hempty]; rfl
  rw [bodyPolicy, bodyPolicy, hresolve₀, hresolve]
  dsimp only
  rw [hn, hm, Option.bind_some, Option.bind_some, hparser]
  cases n.parser with
  | none => exact ⟨_, _, _, rfl, rfl, hmirrors⟩
  | some name =>
    dsimp only
    rw [hnone]
    exact ⟨_, _, _, rfl, rfl, hmirrors.annotate hid _⟩

lemma mirrors_bodyItems (tag body : Text) : ∃ items t₀' t',
    s.bodyItems t₀ id tag body = (items, t₀') ∧
      s.bodyItems t (shifted p first id) tag body = (items, t') ∧
        Mirrors p first cs₀ cs t₀' t' := by
  obtain ⟨policy, t₀', t', hpolicy₀, hpolicy, hmirrors⟩ := mirrors_bodyPolicy hempty h hid hlt
  rw [bodyItems, bodyItems, hpolicy₀, hpolicy]
  cases policy with
  | freeform => exact ⟨_, _, _, rfl, rfl, hmirrors⟩
  | grammar g =>
    dsimp only
    cases g.parse body with
    | some items => exact ⟨_, _, _, rfl, rfl, hmirrors⟩
    | none => exact ⟨_, _, _, rfl, rfl, hmirrors.annotate hid _⟩
  | structural =>
    dsimp only
    split <;> exact ⟨_, _, _, rfl, rfl, hmirrors⟩

lemma mirrors_expandBody : Mirrors p first cs₀ cs (s.expandBody t₀ id)
    (s.expandBody t (shifted p first id)) := by
  obtain ⟨n, hn⟩ := exists_node?_of_lt hlt
  obtain ⟨m, hm, hcopy⟩ := h.isCopy hid hn
  have hsuppressed : m.suppressed = n.suppressed := hcopy.field Fields.suppressed fun _ => rfl
  have hcode : m.inlineCode = n.inlineCode := hcopy.field Fields.inlineCode fun _ => rfl
  have hflag : m.runtimeOnly = true := congrArg Fields.runtimeOnly hcopy.toFields
  have hbody : m.body = n.body := hcopy.field Fields.body fun _ => rfl
  rw [expandBody, expandBody, hn, hm]
  dsimp only
  rw [hsuppressed, hcode, hflag, hbody, hcopy.tag]
  split
  · exact h.advance hid _
  · split
    · exact ((h.addSpecs hid hlt _ _).edit hid fun _ => rfl).advance hid _
    · next body _ =>
      obtain ⟨items, t₀', t', hitems₀, hitems, hmirrors⟩ :=
        mirrors_bodyItems hempty h hid hlt n.tag body
      rw [hitems₀, hitems]
      cases items with
      | none => exact hmirrors.advance hid _
      | some items =>
        have hlt' : id < t₀'.size := by
          have hplace := s.place?_bodyItems t₀ id n.tag body
          rw [hitems₀] at hplace
          exact (size_congr hplace).symm ▸ hlt
        exact ((hmirrors.addItems hid hlt' _ _ items).edit hid fun _ => rfl).advance hid _

end

section

variable (h : Mirrors p first cs₀ cs t₀ t)

include h

lemma mirrors_of_movesOn {step : Builder → Tree Handler → NodeId → Option (Tree Handler)}
    {state : BuildState} (hstep : MovesOn step state) (hid : id ≠ root) : ∃ t₀' t',
      (∀ build, step build t₀ id = some t₀') ∧
      (∀ build, step build t (shifted p first id) = some t') ∧ Mirrors p first cs₀ cs t₀' t' := by
  obtain ⟨hfree₀, hfree⟩ := h.isFree_of_lt hid
  obtain ⟨t₀', hfinds₀, hmoves₀⟩ := hstep hfree₀
  obtain ⟨t', hfinds, hmoves⟩ := hstep hfree
  exact ⟨_, _, hmoves₀, hmoves, (h.finds hfinds₀ hfinds).advance hid state⟩

/-- A step for the root has no counterpart. -/
lemma mirrors_root_of_movesOn {step : Builder → Tree Handler → NodeId → Option (Tree Handler)}
    {state : BuildState} (hstep : MovesOn step state) :
    ∃ t₀', (∀ build, step build t₀ root = some t₀') ∧ Mirrors p first cs₀ cs t₀' t := by
  obtain ⟨t₀', hfinds₀, hmoves₀⟩ := hstep fun hlt => (h.isFree hlt).1
  exact ⟨_, hmoves₀, (h.finds hfinds₀ (.refl t)).advance_root state⟩

lemma mirrors_lastSteps (hempty : s.registry = {}) (hid : id ≠ root) : ∃ t₀' t',
    (∀ build, ((s.registerNode build (t₀.advance id .childrenBuilt) id).bind fun t =>
      s.finishNode build t id) = some t₀') ∧
    (∀ build, ((s.registerNode build (t.advance (shifted p first id) .childrenBuilt)
      (shifted p first id)).bind fun t => s.finishNode build t (shifted p first id)) = some t') ∧
      Mirrors p first cs₀ cs t₀' t' := by
  obtain ⟨t₁, t₁', hregister₀, hregister, h₁⟩ :=
    mirrors_of_movesOn (h.advance hid .childrenBuilt) (movesOn_registerNode hempty) hid
  obtain ⟨t₂, t₂', hfinish₀, hfinish, h₂⟩ :=
    mirrors_of_movesOn h₁ (movesOn_finishNode hempty) hid
  refine ⟨t₂, t₂', fun build => ?_, fun build => ?_, h₂⟩
  · rw [hregister₀, Option.bind_some, hfinish₀]
  · rw [hregister, Option.bind_some, hfinish]

end

/-! ## Whole builds -/

lemma rel_bind {α α' β β' : Type} {r : α → α' → Prop} {r' : β → β' → Prop} {o : Option α}
    {o' : Option α'} {f : α → Option β} {f' : α' → Option β'} (ho : Option.Rel r o o')
    (hf : ∀ {a a'}, r a a' → Option.Rel r' (f a) (f' a')) :
    Option.Rel r' (o.bind f) (o'.bind f') := by
  cases ho with
  | some ha => exact hf ha
  | none => exact .none

section

-- the builds inside a build leave mirrored trees
variable {build : Builder} (hempty : s.registry = {})
  (hbuild : ∀ {t₀ t : Tree Handler} {id : NodeId}, Mirrors p first cs₀ cs t₀ t → id ≠ root →
    Option.Rel (Mirrors p first cs₀ cs) (build t₀ id) (build t (shifted p first id)))
  (h : Mirrors p first cs₀ cs t₀ t)

include hbuild h

lemma mirrors_buildAll {ids : List NodeId} (hids : ∀ id ∈ ids, id ≠ root) :
    Option.Rel (Mirrors p first cs₀ cs) (buildAll build ids t₀)
      (buildAll build (ids.map (shifted p first)) t) := by
  induction ids generalizing t₀ t with
  | nil => exact .some h
  | cons id ids ih =>
    obtain ⟨hid, hids⟩ := List.forall_mem_cons.mp hids
    exact rel_bind (hbuild h hid) fun h' => ih h' hids

include hempty

lemma mirrors_buildOnce (hid : id ≠ root) : Option.Rel (Mirrors p first cs₀ cs)
    (s.buildOnce build t₀ id) (s.buildOnce build t (shifted p first id)) := by
  rcases Nat.lt_or_ge id t₀.size with hlt | hge
  · obtain ⟨n, hn⟩ := exists_node?_of_lt hlt
    obtain ⟨m, hm, hcopy⟩ := h.isCopy hid hn
    rw [buildOnce, buildOnce, hn, hm]
    dsimp only
    rw [hcopy.state]
    split
    · have hdecoded := mirrors_decodeHeader hempty h hid hlt
      have hlt' : id < (s.decodeHeader t₀ id).size :=
        (size_congr (s.place?_decodeHeader t₀ id)).symm ▸ hlt
      have hexpanded := mirrors_expandBody hempty hdecoded hid hlt'
      obtain ⟨t₁, t₁', hmake₀, hmake, h₁⟩ :=
        mirrors_of_movesOn hexpanded (movesOn_makePayload hempty) hid
      have hall : Option.Rel (Mirrors p first cs₀ cs) (buildAll build (t₁.childNodes id) t₁)
          (buildAll build (t₁'.childNodes (shifted p first id)) t₁') := by
        rw [h₁.childNodes hid]
        exact mirrors_buildAll hbuild h₁ fun _ => h₁.ne_root_of_mem_childNodes
      simp only [buildSteps, hmake₀, hmake, Option.bind_eq_bind, Option.bind_some]
      refine rel_bind hall fun {t₂ t₂'} h₂ => ?_
      obtain ⟨t₃, t₃', hlast₀, hlast, h₃⟩ := mirrors_lastSteps h₂ hempty hid
      rw [hlast₀, hlast]
      exact .some h₃
    · exact .some h
  · rw [buildOnce, buildOnce, node?_eq_none hge, node?_eq_none (h.size_le hid hge)]
    exact .some h

end

/-- The builds of a node and of its copy leave mirrored trees, or both have no end. -/
lemma mirrors_build (hempty : s.registry = {}) (depth : Nat)
    (h : Mirrors p first cs₀ cs t₀ t) (hid : id ≠ root) : Option.Rel (Mirrors p first cs₀ cs)
      (s.build depth t₀ id) (s.build depth t (shifted p first id)) := by
  induction depth generalizing t₀ t id with
  | zero => exact .none
  | succ depth ih => exact mirrors_buildOnce hempty ih h hid

/-! ## Documents -/

/-- A document that nothing has been made of stands for the node that others are inserted under. -/
lemma mirrors_ofText (s : Setup) (text : Text) {n : Node Handler} (hfree : t.IsFree p)
    (hn : t.node? p = some n) : Mirrors p t.size [] n.children (s.ofText text) t where
  size_eq := rfl
  lt := lt_size_of_node? hn
  isCopy hid hk := absurd (Nat.lt_one_iff.mp (lt_size_of_node? hk)) hid
  isFree {j} hj := by
    obtain rfl : j = 0 := Nat.lt_one_iff.mp hj
    exact ⟨.root rfl rfl ⟨rfl, .inl rfl⟩, hfree⟩
  below {j k} hk c hc := by
    obtain rfl : j = 0 := Nat.lt_one_iff.mp (lt_size_of_node? hk)
    obtain rfl := Option.some.inj hk
    exact absurd hc List.not_mem_nil
  root := ⟨_, rfl, rfl⟩
  here := ⟨n, hn, rfl⟩

section

variable (hempty : s.registry = {})
  (hroot : s.settings.layout.isFreeform s.settings.rootTag = false) (hfree : t.IsFree p)

include hempty hroot hfree

/-- The root of a document is opened, and the elements of the document are added elsewhere. -/
lemma mirrors_opened (text : Text) {n : Node Handler} (hn : t.node? p = some n) :
    let items := Body.parse s.settings.layout text
    Mirrors p t.size (itemChildren 1 items)
      (n.children ++ (List.range' t.size (items.filter BodyItem.isTag).length).map .node)
      (s.expandBody (s.decodeHeader (s.ofText text) root) root)
      (t.addItems s.settings.layout p true (items.filter BodyItem.isTag)) := by
  intro items
  have hdecode : s.decodeHeader (s.ofText text) root =
      (s.ofText text).advance root .headerDecoded := rfl
  have hdecoded := (s.mirrors_ofText text hfree hn).advance_root .headerDecoded
  obtain ⟨t₁, hresolve, hfinds⟩ :=
    Registry.resolve_isFree hempty fun hlt => (hdecoded.isFree hlt).1
  have hplace : ((s.ofText text).advance root .headerDecoded).node? root = some
      { tag := s.settings.rootTag, parent := root, body := .text text, state := .headerDecoded } :=
    rfl
  have hparser : (t₁.node? root).bind (·.parser) = none := by
    obtain ⟨k, hk, rfl | rfl⟩ := hfinds.node? hplace <;> rw [hk] <;> rfl
  have hitems : s.bodyItems ((s.ofText text).advance root .headerDecoded) root s.settings.rootTag
      text = (some items, t₁) := by
    rw [bodyItems, bodyPolicy, hresolve]
    dsimp only
    rw [hparser]
    exact if_neg (by rw [hroot]; exact Bool.false_ne_true)
  have hexpand : s.expandBody (s.decodeHeader (s.ofText text) root) root =
      ((t₁.addItems s.settings.layout root false items).edit root
        fun f => { f with expanded := true }).advance root .bodyParsed := by
    rw [hdecode, expandBody, hplace]
    dsimp only
    rw [hitems]
    rfl
  have hsize : t₁.size = 1 := hfinds.size_eq
  have hadded := (hdecoded.finds hfinds (.refl t)).addItems_root s.settings.layout items
  rw [hsize] at hadded
  rw [hexpand]
  exact (hadded.edit_root _).advance_root _

omit hroot hfree in
/-- The last steps of the build of the root. -/
lemma mirrors_lastSteps_root {cs₀ cs : List (Child NodeId)} {first : Nat} {t₀ : Tree Handler}
    (h : Mirrors p first cs₀ cs t₀ t) : ∃ t₀',
    (∀ build, ((s.registerNode build (t₀.advance root .childrenBuilt) root).bind fun t =>
      s.finishNode build t root) = some t₀') ∧ Mirrors p first cs₀ cs t₀' t := by
  obtain ⟨t₁, hregister, h₁⟩ :=
    mirrors_root_of_movesOn (h.advance_root .childrenBuilt) (movesOn_registerNode hempty)
  obtain ⟨t₂, hfinish, h₂⟩ := mirrors_root_of_movesOn h₁ (movesOn_finishNode hempty)
  refine ⟨t₂, fun build => ?_, h₂⟩
  rw [hregister, Option.bind_some, hfinish]

/-- At one depth a text is inserted, and at the next one the document of the text is built, or both
have no end. -/
lemma rel_buildText (text : Text) (depth : Nat) {n : Node Handler} (hn : t.node? p = some n) :
    Option.Rel (fun t₀ r => r.1 = (t₀.childNodes root).map (shifted p t.size) ∧
        ∃ cs₀, Mirrors p t.size cs₀ (n.children ++ r.1.map .node) t₀ r.2)
      (s.buildText (depth + 1) text) (s.insertText depth t p text) := by
  have hopened := mirrors_opened hempty hroot hfree text hn
  obtain ⟨t₁, hmake, hmade⟩ := mirrors_root_of_movesOn hopened (movesOn_makePayload hempty)
  rw [List.range'_eq_map_range] at hmade
  have hinner : ∀ {cs₀ cs : List (Child NodeId)} {t₀ t' : Tree Handler} {id : NodeId},
      Mirrors p t.size cs₀ cs t₀ t' → id ≠ root → Option.Rel (Mirrors p t.size cs₀ cs)
        (s.build depth t₀ id) (s.build depth t' (shifted p t.size id)) :=
    fun h hid => mirrors_build hempty depth h hid
  have hall := mirrors_buildAll hinner hmade fun c (hc : c ∈ t₁.childNodes root) =>
    hmade.ne_root_of_mem_childNodes hc
  rw [hmade.map_childNodes_root] at hall
  have hbuild : s.buildText (depth + 1) text =
      (buildAll (s.build depth) (t₁.childNodes root) t₁).bind fun t₂ =>
        (s.registerNode (s.build depth) (t₂.advance root .childrenBuilt) root).bind fun t =>
          s.finishNode (s.build depth) t root := by
    have hsteps : s.buildText (depth + 1) text =
        s.buildSteps (s.build depth) (s.ofText text) root := rfl
    simp only [hsteps, buildSteps, hmake, Option.bind_eq_bind, Option.bind_some]
  rw [hbuild]
  refine rel_bind hall fun {t₂ t'} h₂ => ?_
  obtain ⟨t₃, hlast, h₃⟩ := mirrors_lastSteps_root hempty h₂
  rw [hlast]
  exact .some ⟨h₃.map_childNodes_root.symm, _, h₃⟩

end

/-- The build of a document comes to an end at every depth beyond the length of its text. -/
lemma exists_buildText {s : Setup} (hempty : s.registry = {}) (text : Text) :
    ∃ t₀, ∀ depth, text.length < depth → s.buildText depth text = some t₀ := by
  have hfresh : s.IsFresh (s.ofText text) := .ofText text
  have hbare : s.bare = { settings := s.settings } := by
    rw [bare, hempty]
    rfl
  obtain ⟨t, -, hbuilds, -⟩ := builds_subtree s.settings text
  -- which handlers hooks could set makes no difference to a build without hooks
  have hbuild : (s.buildText (text.length + 1) text).map Tree.bare = some t := by
    have hsame :=
      bare_build (isIdle_of_empty hempty).isQuiet (text.length + 1) (hfresh.isSound s) root
    rw [hfresh.bare, hbare] at hsame
    exact hsame.symm.trans (hbuilds _ (Nat.lt_succ_self _))
  obtain ⟨t₀, ht₀, -⟩ := Option.map_eq_some_iff.mp hbuild
  exact ⟨t₀, fun depth hdepth => build_of_le hdepth ht₀⟩

lemma state_of_buildText {s : Setup} (hempty : s.registry = {}) {depth : Nat} {text : Text}
    {t₀ : Tree Handler} (hbuild : s.buildText depth text = some t₀) {id : NodeId} {n : Node Handler}
    (hid : id ≠ root) (hn : t₀.node? id = some n) : n.state = .built := by
  obtain ⟨_, _, hraised⟩ := raised_of_build (isIdle_of_empty hempty) depth
    ((IsFresh.ofText text).isSound s) (n := _) rfl rfl (hasBegun_of_children_eq_nil _ rfl)
    hbuild
  exact (hraised.new id n (Nat.pos_of_ne_zero hid) hn).1

/-- Without registered handlers inserted text is built like a document, under any node on which and
above which no handler has been set.  The insertion comes to an end like the build of the document.
Then all nodes of the document but its root have copies among the nodes behind those from before,
and they are built; what is inserted are the copies of the children of the root. -/
theorem insertText_copies {s : Setup} (hempty : s.registry = {})
    (hroot : s.settings.layout.isFreeform s.settings.rootTag = false) {start m : Moment}
    (hstart : s.IsStart start) (hreaches : s.Reaches start m) {p : NodeId} (hp : p < m.tree.size)
    (hway : ∀ a ∈ p :: m.tree.ancestors p, m.tree.isOverridden a = false) (text : Text) :
    (∀ depth, text.length < depth →
      (s.buildText depth text).isSome ∧ (s.insertText depth m.tree p text).isSome) ∧
    ∀ {depth depth' t₀ ids t'}, s.buildText depth text = some t₀ →
      s.insertText depth' m.tree p text = some (ids, t') → CopiesDocument p t₀ m.tree ids t' := by
  have hfree := isFree_of_reaches hempty hstart hreaches hp hway
  obtain ⟨n, hn, -⟩ := hfree.exists_node?
  have hrel := fun depth => rel_buildText hempty hroot hfree text depth hn
  refine ⟨fun depth hdepth => ?_, fun {depth depth' t₀ ids t'} hbuild hinsert => ?_⟩
  · obtain ⟨t₀, hbuilds⟩ := exists_buildText hempty text
    have hnext := hrel depth
    rw [hbuilds _ (Nat.lt_succ_of_lt hdepth)] at hnext
    rw [hbuilds _ hdepth]
    cases hinsert : s.insertText depth m.tree p text with
    | some r => exact ⟨rfl, rfl⟩
    | none => rw [hinsert] at hnext; cases hnext
  · -- at a common depth the two are built side by side
    have hboth := hrel (max depth depth')
    rw [insertText_of_le (le_max_right depth depth') hinsert, buildText,
      build_of_le ((le_max_left depth depth').trans (Nat.le_succ _)) hbuild] at hboth
    cases hboth with
    | some hboth =>
      obtain ⟨hids, cs₀, h⟩ := hboth
      obtain ⟨n', hn', hchildren⟩ := h.here
      refine ⟨hids, ⟨n, n', hn, hn', hchildren⟩, h.size_eq, fun {id k} hid hk => ?_⟩
      obtain ⟨k', hk', hcopy⟩ := h.isCopy hid hk
      exact ⟨k', hk', hcopy, hcopy.state.trans (state_of_buildText hempty hbuild hid hk)⟩

/-- Someone builds a document and sets a handler on its first node. -/
def overriddenStart : Moment :=
  ⟨[.program .client <| .build root fun _ =>
      .override 1 "x".toList [] <| pure ()],
    ofText {} "p\nq\n".toList⟩

theorem insertText_copies_beside_override :
    let s : Setup := { known := fun _ => { body := .freeform } }
    let m := s.after 24 overriddenStart
    let text := "x\n  y\n".toList
    m.tree.size = 3 ∧ m.tree.isOverridden 1 = true ∧ ∃ t₀ ids t', s.buildText 7 text = some t₀ ∧
      s.insertText 7 m.tree 2 text = some (ids, t') ∧ ids = [3] ∧
        CopiesDocument 2 t₀ m.tree ids t' := by
  intro s m text
  obtain ⟨hends, hcopies⟩ := insertText_copies rfl (by decide +kernel) (.ofText _ _)
    (s.reaches_after 24 overriddenStart) (by decide +kernel : 2 < m.tree.size) (by decide +kernel)
    text
  obtain ⟨hbuilds, hinserts⟩ := hends 7 (by decide)
  obtain ⟨t₀, hbuild⟩ := Option.isSome_iff_exists.mp hbuilds
  obtain ⟨⟨ids, t'⟩, hinsert⟩ := Option.isSome_iff_exists.mp hinserts
  have hids : (s.insertText 7 m.tree 2 text).map (·.1) = some [3] := by decide +kernel
  rw [hinsert] at hids
  exact ⟨by decide +kernel, by decide +kernel, t₀, ids, t', hbuild, hinsert,
    Option.some.inj hids, hcopies hbuild hinsert⟩

/-- Beneath a node with a handler for a tag, what is inserted is built by that handler.  Here it
leaves the body of a node as it is, while a document of the same text gets two nodes. -/
theorem not_copiesDocument_beneath_override :
    let s : Setup := { known := fun _ => { body := .freeform } }
    let m := s.after 24 overriddenStart
    let text := "x\n  y\n".toList
    s.IsStart overriddenStart ∧ s.Reaches overriddenStart m ∧
      s.settings.layout.isFreeform s.settings.rootTag = false ∧ 1 < m.tree.size ∧
      ∃ t₀ ids t', s.buildText 7 text = some t₀ ∧ s.insertText 7 m.tree 1 text = some (ids, t') ∧
        ¬ CopiesDocument 1 t₀ m.tree ids t' := by
  intro s m text
  have hbuilt : (s.buildText 7 text).map (·.size) = some 3 := by decide +kernel
  have hinserted : (s.insertText 7 m.tree 1 text).map (·.2.size) = some 4 := by decide +kernel
  have hsize : m.tree.size = 3 := by decide +kernel
  obtain ⟨t₀, hbuild, hsize₀⟩ := Option.map_eq_some_iff.mp hbuilt
  obtain ⟨⟨ids, t'⟩, hinsert, hsize'⟩ := Option.map_eq_some_iff.mp hinserted
  refine ⟨.ofText _ _, s.reaches_after 24 _, by decide +kernel, by decide +kernel, t₀, ids, t',
    hbuild, hinsert, fun h => ?_⟩
  have hcopies := h.size_eq
  dsimp only at hsize'
  omega

end Setup

end TaggedOutline
