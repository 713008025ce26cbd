import TaggedOutline.Pattern.Reader
import TaggedOutline.Proofs.Locator.Lexemes
import TaggedOutline.Proofs.Locator.Syntax
import TaggedOutline.Tree.Build
import TaggedOutline.Tree.Search

/-!
# Paths by position

The way down to a node says for every node on it the tag and the place among the siblings with that
tag.  Written with these, the way is a path, as long as the tags are bare words; the path leads to
the node from where the way begins (`Tree.find?_positions`).

The path is cut into its words and marks and compiles to one positional step for each node of the
way (`Locator.compile_writePath`).  A positional step never stands for the start itself, and it
selects by place just the node that the place was taken of.
-/

namespace TaggedOutline

/-! ## Written numbers -/

lemma Text.digits?_ofNat (n : Nat) : Text.digits? (Text.ofNat n) = some n := by
  have hdigits : ∀ c ∈ Text.ofNat n, c.isDigit = true := fun c hc =>
    Nat.isDigit_of_mem_toDigits (by decide) (by decide) hc
  have hne : (Text.ofNat n).isEmpty = false := List.isEmpty_eq_false_iff.mpr Nat.toDigits_ne_nil
  have hvalue : (Text.ofNat n).foldl (fun n c => n * 10 + (c.toNat - '0'.toNat)) 0 = n := by
    have hvalue := Nat.ofDigitChars_ten_toDigits (n := n)
    simp only [Nat.ofDigitChars_eq_foldl, Nat.mul_comm 10] at hvalue
    exact hvalue
  rw [Text.digits?, hne, List.all_eq_true.mpr hdigits, hvalue]
  rfl

lemma Text.nat?_ofNat {bits n : Nat} (hn : n < 2 ^ bits) :
    Text.nat? bits (Text.ofNat n) = some n := by
  have hsign : ∀ rest, Text.ofNat n ≠ '+' :: rest := by
    intro rest hrest
    have hmem : '+' ∈ Text.ofNat n := by rw [hrest]; exact List.mem_cons_self
    have hdigit := Nat.isDigit_of_mem_toDigits (by decide) (by decide) hmem
    cases hdigit
  rw [Text.nat?, Text.digits?_ofNat, Option.filter_some]
  · exact if_pos (decide_eq_true hn)
  · exact hsign

namespace Locator

/-! ## Written positions -/

/-- A tag and a place among the siblings with it, from one. -/
structure Position where
  tag : Text
  place : Nat
  pos : 1 ≤ place
deriving DecidableEq, Repr

/-- A tag that can be written as a bare word and means only itself, with a place that fits. -/
structure Position.IsPlain (p : Position) : Prop where
  nonempty : p.tag ≠ []
  named : p.tag ≠ Step.anyTag
  chars : ∀ c ∈ p.tag, Text.isBlank c = false ∧ c ∉ stops
  fits : p.place < 2 ^ 64

instance (p : Position) : Decidable p.IsPlain :=
  decidable_of_iff (p.tag ≠ [] ∧ p.tag ≠ Step.anyTag ∧
      (p.tag.all fun c => Text.isBlank c = false ∧ c ∉ stops) = true ∧ p.place < 2 ^ 64)
    ⟨fun ⟨hne, hnamed, hchars, hfits⟩ => ⟨hne, hnamed, by simpa using hchars, hfits⟩,
      fun h => ⟨h.nonempty, h.named, by simpa using h.chars, h.fits⟩⟩

/-- The written form of a position. -/
def Position.write (p : Position) : Text := p.tag ++ '(' :: (Text.ofNat p.place ++ [')'])

/-- The step to a position. -/
def Position.step (p : Position) : Step := ⟨p.tag, .nth p.place⟩

/-- The written form of a position as a step of a path. -/
def Position.written (p : Position) : WrittenStep := .nth p.tag (Text.ofNat p.place)

/-- The lexemes of a position. -/
def Position.lexemes (p : Position) : List Lexeme :=
  [("word", p.tag), ("lparen", ['(']), ("word", Text.ofNat p.place), ("rparen", [')'])]

/-- The path through some positions, each but the first behind its mark. -/
def writePath (p : Position) : List (Char × Position) → Text
  | [] => p.write
  | (mark, next) :: more => p.write ++ mark :: writePath next more

/-- The characters between steps. -/
def separators : List Char := ['.', '/']

lemma Position.IsPlain.means {read : Matcher.Reader} {p : Position} (h : p.IsPlain) :
    Means read p.written p.step :=
  .nth (Text.nat?_ofNat h.fits) p.pos p.tag

lemma Position.spells (p : Position) : SpellsStep p.lexemes p.written :=
  .nth p.tag ['('] (Text.ofNat p.place) [')']

lemma inWord_of_isDigit {c : Char} (hc : c.isDigit = true) : lexer.inWord c = true := by
  have hall : ∀ n, '0'.toNat ≤ n → n ≤ '9'.toNat → lexer.inWord (Char.ofNat n) = true := by
    decide
  simp only [Char.isDigit, Bool.and_eq_true, decide_eq_true_eq] at hc
  rw [← Char.ofNat_toNat c]
  exact hall c.toNat hc.1 hc.2

lemma Position.IsPlain.inWord {p : Position} (h : p.IsPlain) :
    ∀ c ∈ p.tag, lexer.inWord c = true := by
  intro c hc
  obtain ⟨hblank, hstop⟩ := h.chars c hc
  have hcontains : stops.contains c = false := by simpa using hstop
  rw [Lexer.inWord, hblank]
  exact congrArg Bool.not hcontains

lemma cuts_write {p : Position} (h : p.IsPlain) {t : Text} {ls : List Lexeme}
    (ht : lexer.Lexes t ls) : lexer.Lexes (p.write ++ t) (p.lexemes ++ ls) := by
  have hclose : lexer.Lexes (')' :: t) (("rparen", [')']) :: ls) := lexes_mark rfl (by decide) ht
  have hplace : lexer.Lexes (Text.ofNat p.place ++ ')' :: t) _ :=
    lexes_word Nat.toDigits_ne_nil (fun c hc => inWord_of_isDigit
      (Nat.isDigit_of_mem_toDigits (by decide) (by decide) hc)) (by rintro _ ⟨⟩; decide) hclose
  have hopen : lexer.Lexes ('(' :: (Text.ofNat p.place ++ ')' :: t)) _ :=
    lexes_mark rfl (by decide) hplace
  have htag : lexer.Lexes (p.tag ++ '(' :: (Text.ofNat p.place ++ ')' :: t)) _ :=
    lexes_word h.nonempty h.inWord (by rintro _ ⟨⟩; decide) hopen
  have hwrite : p.write ++ t = p.tag ++ '(' :: (Text.ofNat p.place ++ ')' :: t) := by
    simp [Position.write]
  rw [hwrite]
  exact htag

/-- A path through plain positions is cut into the lexemes of its steps. -/
lemma exists_cuts_writePath {p : Position} {more : List (Char × Position)} (hp : p.IsPlain)
    (hmore : ∀ m ∈ more, m.1 ∈ separators ∧ m.2.IsPlain) :
    ∃ ls, lexer.Lexes (writePath p more) (p.lexemes ++ ls) ∧
      SpellsEach SpellsNext ls (more.map fun m => m.2.written) := by
  induction more generalizing p with
  | nil =>
    have hcuts := cuts_write hp (.nil lexer)
    rw [List.append_nil] at hcuts
    exact ⟨[], hcuts, .nil⟩
  | cons m more ih =>
    obtain ⟨mark, next⟩ := m
    obtain ⟨⟨hmark, hnext⟩, hmore⟩ := List.forall_mem_cons.mp hmore
    obtain ⟨ls, hcuts, hspells⟩ := ih hnext hmore
    obtain ⟨kind, hkind, hlookup⟩ : ∃ kind ∈ markKinds, marks.lookup mark = some kind := by
      rcases List.mem_pair.mp hmark with rfl | rfl
      · exact ⟨"dot", by simp [markKinds], rfl⟩
      · exact ⟨"slash", by simp [markKinds], rfl⟩
    have hequals : mark ≠ '=' := fun heq =>
      absurd (show '=' ∈ separators from heq ▸ hmark) (by decide)
    exact ⟨(kind, [mark]) :: next.lexemes ++ ls, cuts_write hp (lexes_mark hlookup hequals hcuts),
      .cons (.mk hkind [mark] next.spells) hspells⟩

/-- A path through plain positions compiles to the steps to them. -/
theorem compile_writePath (read : Matcher.Reader) {p : Position} {more : List (Char × Position)}
    (hp : p.IsPlain) (hmore : ∀ m ∈ more, m.1 ∈ separators ∧ m.2.IsPlain) :
    compile read (writePath p more) =
      .ok ⟨writePath p more, p.step :: more.map fun m => m.2.step⟩ := by
  obtain ⟨ls, hcuts, hspells⟩ := exists_cuts_writePath hp hmore
  obtain ⟨tokens, hvisible, hlexemes⟩ := hcuts.visible
  have hpath := SpellsPath.mk p.spells hspells
  rw [← hlexemes] at hpath
  refine (compile_eq_ok_iff_of_spells hvisible hpath).mpr ⟨.cons hp.means ?_, rfl⟩
  rw [List.forall₂_map_left_iff, List.forall₂_map_right_iff, List.forall₂_same]
  exact fun m hm => (hmore m hm).2.means

end Locator

namespace Tree

open Locator (Position separators)

variable {H : Type} (t : Tree H)

/-! ## Ways -/

/-- A way down from a node to another one: each node of it is a child of the one before. -/
inductive Way : NodeId → List NodeId → NodeId → Prop
  | nil (n : NodeId) : Way n [] n
  | cons {start c n : NodeId} {way : List NodeId} (hc : c ∈ t.childNodes start) (h : Way c way n) :
      Way start (c :: way) n

/-- The tag of a node. -/
def tagOf (id : NodeId) : Text := ((t.node? id).map Node.tag).getD []

/-- The position of a child among the children of its parent with the same tag. -/
def positionOf (parent c : NodeId) : Position where
  tag := t.tagOf c
  place := ((t.childNodes parent).filter fun id => t.tagOf id == t.tagOf c).idxOf c + 1
  pos := Nat.le_add_left 1 _

/-- The positions of the nodes of a way. -/
def positions : NodeId → List NodeId → List Position
  | _, [] => []
  | parent, c :: way => t.positionOf parent c :: positions c way

variable {t} {start n c : NodeId} {way : List NodeId}

lemma exists_way_of_mem_walk {steps : Nat} {waiting : List NodeId} (h : n ∈ t.walk steps waiting) :
    ∃ w ∈ waiting, ∃ way, t.Way w way n := by
  induction steps generalizing waiting with
  | zero => exact absurd h List.not_mem_nil
  | succ steps ih =>
    cases waiting with
    | nil => exact absurd h List.not_mem_nil
    | cons id waiting =>
      rcases List.mem_cons.mp h with rfl | h
      · exact ⟨n, List.mem_cons_self, [], .nil n⟩
      · obtain ⟨w, hw, way, hway⟩ := ih h
        rcases List.mem_append.mp hw with hw | hw
        · exact ⟨id, List.mem_cons_self, w :: way, .cons hw hway⟩
        · exact ⟨w, List.mem_cons_of_mem _ hw, way, hway⟩

/-- There is a way to every node beneath a node. -/
lemma exists_way_of_mem_descendants (h : n ∈ t.descendants start) :
    ∃ c way, t.Way start (c :: way) n := by
  obtain ⟨c, hc, way, hway⟩ := exists_way_of_mem_walk h
  exact ⟨c, way, .cons hc hway⟩

/-- The step to a position accepts the nodes with its tag. -/
lemma accepts_step {p : Position} (hplain : p.IsPlain) (id : NodeId) :
    t.accepts p.step id = (t.tagOf id == p.tag) := by
  have hany : (p.tag == Step.anyTag) = false := beq_false_of_ne hplain.named
  rw [accepts, tagOf]
  rcases t.node? id with - | node
  · exact (beq_false_of_ne hplain.nonempty.symm).symm
  · simp [Step.accepts, Step.acceptsTag, Position.step, hany, Bool.beq_comm]

lemma select?_positionOf (hc : c ∈ t.childNodes start) (hplain : (t.positionOf start c).IsPlain) :
    t.select? start (t.positionOf start c).step = some c := by
  have haccepts : t.accepts (t.positionOf start c).step = fun id => t.tagOf id == t.tagOf c :=
    funext fun id => accepts_step hplain id
  have hmem : c ∈ (t.childNodes start).filter fun id => t.tagOf id == t.tagOf c :=
    List.mem_filter.mpr ⟨hc, beq_self_eq_true _⟩
  rw [select?, haccepts]
  exact List.getElem?_idxOf hmem

lemma descend?_positions (h : t.Way start way n)
    (hplain : ∀ p ∈ t.positions start way, p.IsPlain) :
    t.descend? start ((t.positions start way).map Position.step) = some n := by
  induction h with
  | nil n => rfl
  | cons hc _ ih =>
    obtain ⟨hfirst, hrest⟩ := List.forall_mem_cons.mp hplain
    rw [positions, List.map_cons, descend?, select?_positionOf hc hfirst]
    exact ih hrest

/-- Every node is found by its position.  There is a way to each node beneath a start; the path that
is written of the positions on a way leads from its start to its end, with any separators between
the steps, if the tags are bare words and the places fit. -/
theorem find?_positions (t : Tree H) (start n : NodeId) :
    (n ∈ t.descendants start → ∃ c way, t.Way start (c :: way) n) ∧
    ∀ way, t.Way start way n → (∀ p ∈ t.positions start way, p.IsPlain) →
      ∀ first more, t.positions start way = first :: more.map Prod.snd →
        (∀ m ∈ more, m.1 ∈ separators) →
          ∀ read, t.find? read start (Locator.writePath first more) = some n := by
  refine ⟨exists_way_of_mem_descendants,
    fun way hway hplain first more hpositions hmarks read => ?_⟩
  have hsteps := descend?_positions hway hplain
  rw [hpositions] at hplain hsteps
  obtain ⟨hfirst, hrest⟩ := List.forall_mem_cons.mp hplain
  have hcompile := Locator.compile_writePath read hfirst fun m hm =>
    ⟨hmarks m hm, hrest m.2 (List.mem_map_of_mem hm)⟩
  rw [List.map_cons, List.map_map] at hsteps
  rw [find?, hcompile]
  exact hsteps

/-- The second of two elements with the same tag, and an element in it. -/
theorem find?_positions_in_sample :
    ∃ t : Tree Handler, Setup.buildText {} 4 "a\nb\nb\n  c\n".toList = some t ∧
      4 ∈ t.descendants root ∧ t.Way root [3, 4] 4 ∧
        (∀ p ∈ t.positions root [3, 4], p.IsPlain) ∧
          t.find? Pattern.reader root "b(2)/c(1)".toList = some 4 := by
  have hview : (Setup.buildText {} 4 "a\nb\nb\n  c\n".toList).map (fun t =>
      (t.childNodes root, t.childNodes 3, t.descendants root, t.positions root [3, 4])) =
      some ([1, 2, 3], [4], [1, 2, 3, 4],
        [⟨"b".toList, 2, by decide⟩, ⟨"c".toList, 1, by decide⟩]) := by
    decide +kernel
  obtain ⟨t, hbuild, hview⟩ := Option.map_eq_some_iff.mp hview
  simp only [Prod.mk.injEq] at hview
  obtain ⟨hchildren, hinner, hdescendants, hpositions⟩ := hview
  have hway : t.Way root [3, 4] 4 :=
    .cons (by rw [hchildren]; decide) (.cons (by rw [hinner]; decide) (.nil 4))
  have hplain : ∀ p ∈ t.positions root [3, 4], p.IsPlain := by
    rw [hpositions]
    decide
  refine ⟨t, hbuild, by rw [hdescendants]; decide, hway, hplain, ?_⟩
  exact (find?_positions t root 4).2 [3, 4] hway hplain _
    [('/', ⟨"c".toList, 1, by decide⟩)] hpositions (by decide) _

end Tree

end TaggedOutline
