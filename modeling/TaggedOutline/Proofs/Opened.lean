import TaggedOutline.Proofs.Memory

/-!
# Opened nodes

Every build begins with the header and the body of its node.  What becomes of the fields, and which
nodes come under the node, follows from the node and its handler alone (`Setup.opened`).
`Setup.opens_of_unparsed` says that the first steps of a build do that and nothing else: the new
nodes stand behind all others, and elsewhere no more than a handler is remembered.
-/

namespace TaggedOutline

/-! ## What a handler reads in a node -/

/-- Whether a property of fields lasts while a header and a body are read, whatever they say. -/
structure Fields.IsLasting (P : Fields → Prop) : Prop where
  applyHeader : ∀ {f} h, P f → P (f.applyHeader h)
  annotate : ∀ {f d}, d.severity = .warning → P f → P (f.annotate d)
  expanded : ∀ {f}, P f → P { f with expanded := true }

namespace Setup

open TaggedOutline.Tree

section

variable (s : Setup) (h : Handler)

/-- The fields of a node after its header is decoded. -/
def decoded (f : Fields) : Fields :=
  match f.header with
  | none => f
  | some header =>
    match (h.line.getD s.registry.line).parse header with
    | some decoded => f.applyHeader decoded
    | none => f.annotate (.ofUnreadHeader header)

/-- What is to be done with a body, and the fields of its node after that is known. -/
def policy (f : Fields) : BodyPolicy × Fields :=
  match f.parser with
  | none => (h.body, f)
  | some name =>
    match s.registry.body? name with
    | some g => (.grammar g, f)
    | none => (h.body, f.annotate (.ofUnknownGrammar name))

/-- The items of a body, unless it stays as it is, and the fields of its node after that. -/
def items (tag body : Text) (f : Fields) : Option (List BodyItem) × Fields :=
  match s.policy h f with
  | (.freeform, f) => (none, f)
  | (.grammar g, f) =>
    match g.parse body with
    | some items => (some items, f)
    | none => (none, f.annotate .ofRejectedBody)
  | (.structural, f) =>
    if s.settings.layout.isFreeform tag then (none, f)
    else (some (Body.parse s.settings.layout body), f)

/-- The new children of a node after its body is read, and its fields. -/
def expanded (id : NodeId) (tag : Text) (f : Fields) : List (Child (Node Handler)) × Fields :=
  if f.suppressed || f.inlineCode.isSome then ([], f)
  else
    match f.body with
    | .children items => (items.map (Spec.seed id f.runtimeOnly), { f with expanded := true })
    | .text body =>
      match s.items h tag body f with
      | (some items, f') =>
        (items.map (BodyItem.seed s.settings.layout id f.runtimeOnly), { f' with expanded := true })
      | (none, f') => ([], f')

/-- The new children of a node that is opened, and its fields. -/
def opened (id : NodeId) (n : Node Handler) : List (Child (Node Handler)) × Fields :=
  s.expanded h id n.tag (s.decoded h n.toFields)

lemma isSeed_of_mem_expanded (id : NodeId) (tag : Text) (f : Fields) :
    ∀ n ∈ newNodes (s.expanded h id tag f).1, n.IsSeed id f.runtimeOnly := by
  intro n hn
  replace hn := mem_newNodes hn
  rw [expanded] at hn
  split at hn
  · exact absurd hn List.not_mem_nil
  · split at hn
    · exact Spec.isSeed_of_mem hn
    · split at hn
      · exact BodyItem.isSeed_of_mem hn
      · exact absurd hn List.not_mem_nil

variable {P : Fields → Prop} (hP : Fields.IsLasting P) {f : Fields}

include hP

lemma lasting_decoded (hf : P f) : P (s.decoded h f) := by
  unfold decoded
  split
  · exact hf
  · split
    · exact hP.applyHeader _ hf
    · exact hP.annotate rfl hf

lemma lasting_policy (hf : P f) : P (s.policy h f).2 := by
  unfold policy
  split
  · exact hf
  · split
    · exact hf
    · exact hP.annotate rfl hf

lemma lasting_items (tag body : Text) (hf : P f) : P (s.items h tag body f).2 := by
  have hpolicy := s.lasting_policy h hP hf
  unfold items
  rcases hread : s.policy h f with ⟨policy, f'⟩
  rw [hread] at hpolicy
  cases policy with
  | structural =>
    dsimp only
    split <;> exact hpolicy
  | freeform => exact hpolicy
  | grammar g =>
    dsimp only
    split
    · exact hpolicy
    · exact hP.annotate rfl hpolicy

/-- What lasts is still true of a node when it has been opened. -/
lemma lasting_opened (id : NodeId) (n : Node Handler) (hn : P n.toFields) :
    P (s.opened h id n).2 := by
  have hdecoded := s.lasting_decoded h hP hn
  unfold opened expanded
  split
  · exact hdecoded
  · split
    · exact hP.expanded hdecoded
    · next body _ =>
      have hitems := s.lasting_items h hP n.tag body hdecoded
      rcases hread : s.items h n.tag body (s.decoded h n.toFields) with ⟨_ | items, f'⟩ <;>
        rw [hread] at hitems
      · exact hitems
      · exact hP.expanded hitems

omit hP

lemma runtimeOnly_decoded (f : Fields) : (s.decoded h f).runtimeOnly = f.runtimeOnly :=
  s.lasting_decoded h (P := (·.runtimeOnly = f.runtimeOnly))
    ⟨fun _ h => h, fun _ h => h, fun h => h⟩ rfl

lemma isSeed_of_mem_opened (id : NodeId) (n : Node Handler) :
    ∀ m ∈ newNodes (s.opened h id n).1, m.IsSeed id n.runtimeOnly :=
  s.runtimeOnly_decoded h n.toFields ▸ s.isSeed_of_mem_expanded h id n.tag _

end

end Setup

/-! ## Opening -/

/-- Whether a handler can be that of a node. -/
def Node.Admits (n : Node Handler) (h : Handler) : Prop := n.handler = none ∨ n.handler = some h

namespace Tree

/-- From `t` to `t'` the node `id`, which was `n`, has become `m` and has got new children. -/
structure Opens (s : Setup) (t t' : Tree Handler) (id : NodeId) (n m : Node Handler)
    (seeds : List (Child (Node Handler))) : Prop extends Tends s t t' id n m where
  size_eq : t'.size = t.size + (newNodes seeds).length
  added : ∀ k, t'.node? (t.size + k) = (newNodes seeds)[k]?
  journal : t'.journal = t.journal

namespace Opens

variable {s : Setup} {t t' t'' : Tree Handler} {id : NodeId} {n m k : Node Handler}
  {seeds seeds' : List (Child (Node Handler))}

lemma of_tends (h : Tends s t t' id n m) (hsize : t'.size = t.size)
    (hjournal : t'.journal = t.journal) : Opens s t t' id n m [] where
  toTends := h
  size_eq := hsize
  added k := by
    rw [← hsize]
    simp [node?, size, newNodes]
  journal := hjournal

lemma refl (s : Setup) (hn : t.node? id = some n) : Opens s t t id n n [] :=
  of_tends (.refl s hn) rfl rfl

lemma trans (h : Opens s t t' id n m seeds) (h' : Opens s t' t'' id m k seeds') :
    Opens s t t'' id n k (seeds ++ seeds') where
  toTends := h.toTends.trans h'.toTends
  size_eq := by rw [h'.size_eq, h.size_eq, newNodes_append, List.length_append, Nat.add_assoc]
  added i := by
    have hid := lt_size_of_node? h.before
    rw [newNodes_append]
    rcases Nat.lt_or_ge i (newNodes seeds).length with hi | hi
    · rw [List.getElem?_append_left hi, ← h.added i]
      exact h'.behind _ (h.size_eq ▸ Nat.add_lt_add_left hi _) (Nat.lt_add_right i hid)
    · have hplace : t.size + i = t'.size + (i - (newNodes seeds).length) := by
        have := h.size_eq
        omega
      rw [List.getElem?_append_right hi, ← h'.added, hplace]
  journal := h'.journal.trans h.journal

lemma update (h : Opens s t t' id n m seeds) (f : Node Handler → Node Handler)
    (htag : (f m).tag = m.tag) (hparent : (f m).parent = m.parent)
    (hhandler : (f m).handler = m.handler) (hoverrides : (f m).overrides = m.overrides) :
    Opens s t (t'.update id f) id n (f m) seeds := by
  have hstep : Opens s t' (t'.update id f) id m (f m) [] :=
    of_tends ((Tends.refl s h.here).update f htag hparent hhandler hoverrides)
      (size_update t' id f) rfl
  simpa using h.trans hstep

lemma advance (h : Opens s t t' id n m seeds) (state : BuildState) :
    Opens s t (t'.advance id state) id n { m with state := m.state.later state } seeds :=
  h.update _ rfl rfl rfl rfl

lemma annotate (h : Opens s t t' id n m seeds) (d : Diagnostic) :
    Opens s t (t'.annotate id d) id n { m with toFields := m.toFields.annotate d } seeds :=
  h.update _ rfl rfl rfl rfl

lemma resolve (h : Opens s t t' id n m seeds) (harena : t'.IsArena) :
    Opens s t (s.registry.resolve t' id).2 id n
      { m with handler := some (s.registry.resolve t' id).1 } seeds := by
  have hrecalls := s.registry.recalls_resolve t' id
  have hstep := of_tends ((Tends.refl s h.here).resolve harena) hrecalls.size_eq hrecalls.journal
  simpa using h.trans hstep

lemma of_addSeeds (s : Setup) {runtimeOnly : Bool} (hn : t.node? id = some n)
    (hseeds : ∀ m ∈ newNodes seeds, m.IsSeed id runtimeOnly) :
    Opens s t (t.addSeeds id seeds) id n
      { n with children := n.children ++ numbered t.size seeds } seeds := by
  obtain ⟨hsize, hhere, hothers, hadded⟩ := addSeeds_spec hn fun m hm => (hseeds m hm).parent
  refine ⟨⟨hsize ▸ Nat.le_add_right _ _, hn, hhere, rfl, rfl, .inl rfl, fun {j k} hj hk => ?_,
    fun j hj hlt => hothers j hj hlt.ne', fun _ j hj hne => hothers j hj hne,
    fun hoffered j k hk => ?_⟩, hsize, hadded, journal_addSeeds id seeds t⟩
  · exact ⟨k, (hothers j (lt_size_of_node? hk) hj).trans hk, .refl k⟩
  · rcases Nat.lt_or_ge j t.size with hlt | hge
    · by_cases hj : j = id
      · subst hj
        obtain rfl := Option.some.inj (hhere.symm.trans hk)
        exact hoffered j n hn
      · exact hoffered j k ((hothers j hlt hj).symm.trans hk)
    · obtain ⟨i, rfl⟩ := Nat.exists_eq_add_of_le hge
      have hseed := hseeds k (List.mem_of_getElem? ((hadded i).symm.trans hk))
      rw [hseed.handler, hseed.overrides]
      exact ⟨fun _ h => (by cases h), fun _ h => absurd h List.not_mem_nil⟩

end Opens

end Tree

namespace Setup

open TaggedOutline.Tree

variable (s : Setup) {t : Tree Handler} {id : NodeId} {n : Node Handler}

lemma opens_decodeHeader (harena : t.IsArena) (hn : t.node? id = some n) :
    ∃ m, Opens s t (s.decodeHeader t id) id n m [] ∧ ∀ h, m.Admits h →
      m = { n with
        toFields := s.decoded h n.toFields
        state := n.state.later .headerDecoded
        handler := m.handler } := by
  have hstart := Opens.refl s hn
  unfold decodeHeader decoded
  simp only [hn, Option.bind_some]
  cases hheader : n.header with
  | none => exact ⟨_, hstart.update _ rfl rfl rfl rfl, fun _ _ => rfl⟩
  | some header =>
    have hresolved := hstart.resolve harena
    dsimp only
    generalize s.registry.resolve t id = found at hresolved ⊢
    obtain ⟨handler, t'⟩ := found
    dsimp only
    cases hparse : (handler.line.getD s.registry.line).parse header with
    | some decoded =>
      refine ⟨_, (hresolved.update _ rfl rfl rfl rfl).update _ rfl rfl rfl rfl, fun h hh => ?_⟩
      obtain rfl : handler = h := Option.some.inj (hh.resolve_left (Option.some_ne_none _))
      simp only [hparse, Node.edit]
    | none =>
      refine ⟨_, (hresolved.update _ rfl rfl rfl rfl).update _ rfl rfl rfl rfl, fun h hh => ?_⟩
      obtain rfl : handler = h := Option.some.inj (hh.resolve_left (Option.some_ne_none _))
      simp only [hparse, Node.edit]

lemma admits_resolve (hn : t.node? id = some n) : n.Admits (s.registry.resolve t id).1 := by
  rcases hh : n.handler with - | h
  · exact .inl hh
  · rw [s.registry.resolve_of_handler hn hh]
    exact .inr hh

lemma opens_bodyPolicy (harena : t.IsArena) (hn : t.node? id = some n) :
    ∃ h t', n.Admits h ∧ s.bodyPolicy t id = ((s.policy h n.toFields).1, t') ∧
      Opens s t t' id n
        { n with toFields := (s.policy h n.toFields).2, handler := some h } [] := by
  have hresolved := (Opens.refl s hn).resolve harena
  have hadmits := s.admits_resolve hn
  rcases hfound : s.registry.resolve t id with ⟨handler, t₁⟩
  rw [hfound] at hresolved hadmits
  have hnode : t₁.node? id = _ := hresolved.here
  rcases hparser : n.parser with - | name
  · exact ⟨handler, t₁, hadmits, by simp [bodyPolicy, policy, hfound, hnode, hparser],
      by simpa [policy, hparser] using hresolved⟩
  · rcases hbody : s.registry.body? name with - | g
    · exact ⟨handler, t₁.annotate id (.ofUnknownGrammar name), hadmits,
        by simp [bodyPolicy, policy, hfound, hnode, hparser, hbody],
        by simpa [policy, hparser, hbody] using hresolved.annotate (.ofUnknownGrammar name)⟩
    · exact ⟨handler, t₁, hadmits, by simp [bodyPolicy, policy, hfound, hnode, hparser, hbody],
        by simpa [policy, hparser, hbody] using hresolved⟩

lemma opens_bodyItems (harena : t.IsArena) (hn : t.node? id = some n) (body : Text) :
    ∃ h t', n.Admits h ∧ s.bodyItems t id n.tag body = ((s.items h n.tag body n.toFields).1, t') ∧
      Opens s t t' id n
        { n with toFields := (s.items h n.tag body n.toFields).2, handler := some h } [] := by
  obtain ⟨h, t₁, hadmits, hpolicy, hopens⟩ := s.opens_bodyPolicy harena hn
  unfold bodyItems
  rw [hpolicy]
  rcases hread : s.policy h n.toFields with ⟨policy, f⟩
  rw [hread] at hopens
  cases policy with
  | freeform => exact ⟨h, t₁, hadmits, by simp [items, hread], by simpa [items, hread]⟩
  | grammar g =>
    rcases hparse : g.parse body with - | its
    · exact ⟨h, t₁.annotate id .ofRejectedBody, hadmits, by simp [items, hread, hparse],
        by simpa [items, hread, hparse] using hopens.annotate .ofRejectedBody⟩
    · exact ⟨h, t₁, hadmits, by simp [items, hread, hparse], by simpa [items, hread, hparse]⟩
  | structural =>
    cases hfree : s.settings.layout.isFreeform n.tag with
    | true => exact ⟨h, t₁, hadmits, by simp [items, hread, hfree], by simpa [items, hread, hfree]⟩
    | false => exact ⟨h, t₁, hadmits, by simp [items, hread, hfree], by simpa [items, hread, hfree]⟩

/-- The last steps of opening, for a node that gets children. -/
lemma opens_expand {t' : Tree Handler} {m : Node Handler} (h : Opens s t t' id n m [])
    {seeds : List (Child (Node Handler))} {runtimeOnly : Bool}
    (hseeds : ∀ m ∈ newNodes seeds, m.IsSeed id runtimeOnly) :
    Opens s t
      (((t'.addSeeds id seeds).edit id fun f => { f with expanded := true }).advance id .bodyParsed)
      id n
      { m with
        toFields := { m.toFields with expanded := true }
        children := m.children ++ numbered t.size seeds
        state := m.state.later .bodyParsed } seeds := by
  have hadded := h.trans (.of_addSeeds s h.here hseeds)
  have hsize : t'.size = t.size := h.size_eq
  rw [hsize] at hadded
  exact (hadded.update _ rfl rfl rfl rfl).update _ rfl rfl rfl rfl

lemma opens_expandBody (harena : t.IsArena) (hn : t.node? id = some n) :
    ∃ known : Option Handler, ∀ h, (known = none ∨ known = some h) →
      Opens s t (s.expandBody t id) id n
        { n with
          toFields := (s.expanded h id n.tag n.toFields).2
          children := n.children ++ numbered t.size (s.expanded h id n.tag n.toFields).1
          state := n.state.later .bodyParsed
          handler := known } (s.expanded h id n.tag n.toFields).1 := by
  have hstart := Opens.refl s hn
  rcases hself : n.suppressed || n.inlineCode.isSome with - | -
  · rcases hbody : n.body with body | items
    · obtain ⟨h, t₁, -, hitems, hopens⟩ := s.opens_bodyItems harena hn body
      refine ⟨some h, fun k hk => ?_⟩
      obtain rfl := Option.some.inj (hk.resolve_left (Option.some_ne_none _))
      have hseeds := s.isSeed_of_mem_expanded h id n.tag n.toFields
      rcases hread : s.items h n.tag body n.toFields with ⟨_ | items, f⟩
      · rw [hread] at hitems hopens
        have hexpand : s.expandBody t id = t₁.advance id .bodyParsed := by
          simp [expandBody, hn, hself, hbody, hitems]
        rw [hexpand]
        simpa [expanded, hself, hbody, hread, numbered] using hopens.advance .bodyParsed
      · rw [hread] at hitems hopens
        simp only [expanded, hself, hbody, hread] at hseeds
        simpa [expandBody, hn, hself, hbody, hitems, addItems_eq, expanded, hread] using
          s.opens_expand hopens hseeds
    · refine ⟨n.handler, fun h _ => ?_⟩
      have hseeds := s.isSeed_of_mem_expanded h id n.tag n.toFields
      simp only [expanded, hself, hbody] at hseeds
      simpa [expandBody, hn, hself, hbody, addSpecs_eq, expanded] using s.opens_expand hstart hseeds
  · refine ⟨n.handler, fun h _ => ?_⟩
    have hexpand : s.expandBody t id = t.advance id .bodyParsed := by
      simp [expandBody, hn, hself]
    rw [hexpand]
    simpa [expanded, hself, numbered] using hstart.advance .bodyParsed

/-- A node whose build has not begun is opened in the way of the handler that is found for it. -/
theorem opens_of_unparsed (harena : t.IsArena) (hn : t.node? id = some n)
    (hstate : n.state = .unparsed) :
    ∃ h t', s.registry.resolve (s.expandBody (s.decodeHeader t id) id) id = (h, t') ∧
      Opens s t t' id n
        { n with
          toFields := (s.opened h id n).2
          children := n.children ++ numbered t.size (s.opened h id n).1
          state := .bodyParsed
          handler := some h } (s.opened h id n).1 := by
  obtain ⟨m, hdecode, hm⟩ := s.opens_decodeHeader harena hn
  have harena₁ := harena.congr (s.place?_decodeHeader t id)
  have harena₂ := (s.extends_expandBody (s.decodeHeader t id) id).isArena harena₁
  obtain ⟨known, hexpand⟩ := s.opens_expandBody harena₁ hdecode.here
  have hfit : known = none ∨ known = some (known.getD .generic) := by cases known <;> simp
  -- the handler found at the end is the one that the header and the body have been read with
  have hknown : known = none ∨ known = some (s.registry.resolve
      (s.expandBody (s.decodeHeader t id) id) id).1 :=
    s.admits_resolve (hexpand _ hfit).here
  have hadmits : m.Admits (s.registry.resolve (s.expandBody (s.decodeHeader t id) id) id).1 := by
    rcases (hexpand _ hfit).memory with heq | ⟨hnone, -⟩
    · exact hknown.imp (fun h => heq.symm.trans h) fun h => heq.symm.trans h
    · exact .inl hnone
  refine ⟨_, _, rfl, ?_⟩
  have hopens := (hdecode.trans (hexpand _ hknown)).resolve harena₂
  rw [hm _ hadmits, hstate, hdecode.size_eq] at hopens
  exact hopens

end Setup

end TaggedOutline
