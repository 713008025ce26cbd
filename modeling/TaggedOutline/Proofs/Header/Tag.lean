import TaggedOutline.Proofs.Header.Canonical
import TaggedOutline.Proofs.Macros

/-!
# The tag of a new node

A node has its tag from the moment it is made: what stands in front of the first blank or stop of
its header line, without the marker of suppressed elements.  Only the build decodes the line, with a
lexer that tries its rules in order and a grammar behind it.  Whatever is registered for the tag is
looked up between the two, so they have to agree, and they do (`Tree.tag_of_decoded`): of every
header line that can be read, the tag that is cut off, with its marker, is the tag that is read.
-/

namespace TaggedOutline

namespace Tree

open Header (splitMarker splitMarker_eq rawTag_of_parse)

/-- The new nodes for the items of a body are those for its elements. -/
lemma length_newNodes_seed (settings : LayoutSettings) (parent : NodeId) (runtimeOnly : Bool)
    (items : List BodyItem) :
    (newNodes (items.map (BodyItem.seed settings parent runtimeOnly))).length =
      (items.filter BodyItem.isTag).length := by
  induction items with
  | nil => rfl
  | cons item items ih =>
    cases item with
    | text s => exact ih
    | tag header body bracket => exact congrArg (· + 1) ih

/-- The node for an element stands behind the nodes for the elements before it. -/
lemma node?_addItems_tag {t : Tree Handler} {parent : NodeId} (hlt : parent < t.size)
    (settings : LayoutSettings) (runtimeOnly : Bool) (before behind : List BodyItem)
    (header body : Text) (bracket : Bool) :
    (t.addItems settings parent runtimeOnly (before ++ .tag header body bracket :: behind)).node?
        (t.size + (before.filter BodyItem.isTag).length) =
      some (.ofTag settings parent runtimeOnly header body bracket) := by
  obtain ⟨n, hn⟩ := exists_node?_of_lt hlt
  let items := before ++ .tag header body bracket :: behind
  have hparent : ∀ m ∈ newNodes (items.map (BodyItem.seed settings parent runtimeOnly)),
      m.parent = parent := fun m hm => (BodyItem.isSeed_of_mem (mem_newNodes hm)).parent
  obtain ⟨-, -, -, hnew⟩ := addSeeds_spec hn hparent
  rw [addItems_eq, hnew, ← length_newNodes_seed settings parent runtimeOnly before, List.map_append,
    newNodes_append, List.getElem?_append_right le_rfl, Nat.sub_self]
  rfl

/-- What is cut off a header line as its tag, marker included, is the tag of the header that is
decoded from the line, if the line can be decoded and begins without a space or a tab.  So of every
new node for such a line, among whatever items it is made and whatever the marker is, the tag is
that of the header, with the marker in front of it if the node is suppressed. -/
theorem tag_of_decoded {header : Text} {h : Header} (hparse : Header.parse header = some h)
    (hhead : ∀ c ∈ header.head?, Layout.isIndent c = false) :
    Node.rawTag header = h.tag ∧
    ∀ (settings : LayoutSettings) (t : Tree Handler) (parent : NodeId), parent < t.size →
      ∀ (runtimeOnly : Bool) (before behind : List BodyItem) (body : Text) (bracket : Bool),
        ∃ n, (t.addItems settings parent runtimeOnly
            (before ++ .tag header body bracket :: behind)).node?
              (t.size + (before.filter BodyItem.isTag).length) = some n ∧
          n.header = some header ∧ n.body = .text body ∧ n.bracket = bracket ∧
          (if n.suppressed then settings.suppressMarker ++ n.tag else n.tag) = h.tag := by
  have hraw := rawTag_of_parse hparse hhead
  refine ⟨hraw, fun settings t parent hlt runtimeOnly before behind body bracket => ?_⟩
  refine ⟨_, node?_addItems_tag hlt settings runtimeOnly before behind header body bracket, rfl,
    rfl, rfl, ?_⟩
  exact (splitMarker_eq (Eq.refl (splitMarker settings.suppressMarker (Node.rawTag header)))).trans
    hraw

/-- A marker of two characters in front of a tag that ends at a bracket. -/
theorem tag_of_decoded_behind_marker :
    let header := "--größe(x) # --".toList
    let settings : LayoutSettings := { suppressMarker := "--".toList }
    let t := Setup.ofText {} []
    let before : List BodyItem := [.text "x\n".toList, .tag ['a'] [] false]
    ∃ h n, Header.parse header = some h ∧ h.tag = "--größe".toList ∧
      (∀ c ∈ header.head?, Layout.isIndent c = false) ∧ root < t.size ∧
      (t.addItems settings root false (before ++ .tag header "b\n".toList false :: [])).node? 2 =
        some n ∧
      n.tag = "größe".toList ∧ n.suppressed = true ∧ "--".toList ++ n.tag = h.tag := by
  intro header settings t before
  have htag : (Header.parse header).map Header.tag = some "--größe".toList := by decide +kernel
  obtain ⟨h, hparse, htag⟩ := Option.map_eq_some_iff.mp htag
  have hfirst : header.head? = some '-' := by decide +kernel
  have hhead : ∀ c ∈ header.head?, Layout.isIndent c = false := by
    rw [hfirst]
    rintro _ ⟨⟩
    rfl
  obtain ⟨-, hnew⟩ := tag_of_decoded hparse hhead
  obtain ⟨n, hn, -, -, -, hagrees⟩ :=
    hnew settings t root Nat.one_pos false before [] "b\n".toList false
  have hview : ((t.addItems settings root false
      (before ++ .tag header "b\n".toList false :: [])).node? 2).map
        (fun n => (n.tag, n.suppressed)) = some ("größe".toList, true) := by
    decide +kernel
  obtain ⟨n', hn', hview⟩ := Option.map_eq_some_iff.mp hview
  obtain rfl : n' = n := Option.some.inj (hn'.symm.trans hn)
  obtain ⟨hplain, hsuppressed⟩ := Prod.mk.inj hview
  rw [hsuppressed, if_pos rfl] at hagrees
  exact ⟨h, n', hparse, htag, hhead, Nat.one_pos, hn', hplain, hsuppressed, hagrees⟩

end Tree

end TaggedOutline
