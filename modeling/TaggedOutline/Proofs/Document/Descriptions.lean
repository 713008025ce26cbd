import Mathlib.Data.List.Nodup
import TaggedOutline.Proofs.Document.Reader
import TaggedOutline.Spec.Document

/-!
# Descriptions as JSON

A description that is written as JSON is read back as it was (`Spec.ofJson_toJson`), as long as its
document nests no deeper than a reader follows.

The fields that are left out are those with default values, and these are what a reader puts in
their places (`Spec.read_found`).  What a child is, a text or a description, is found out by trying;
a child that is a description is never written as a text.
-/

namespace TaggedOutline

namespace Spec

open Document (Shape Value)

/-! ## The fields of a document -/

/-- What a truth value is written as. -/
def flagValue (b : Bool) : Option Value := if b then some (.bool true) else none

/-- What a list is written as. -/
def listValue (items : List Value) : Option Value :=
  if items.isEmpty then none else some (.list items)

/-- What a pair is written as. -/
def pairValue (p : Text × Text) : Value := .list [.text p.1, .text p.2]

/-- The fields of a description with what is written for them. -/
def fields (s : Spec) : List (Text × Option Value) :=
  [("tag".toList, some (.text s.tag)),
    ("suppressed".toList, flagValue s.suppressed),
    ("header".toList, s.header.map .text),
    ("name".toList, s.name.map .text),
    ("aliases".toList, listValue (s.aliases.map .text)),
    ("params".toList, listValue (s.params.map pairValue)),
    ("options".toList, listValue (s.options.map pairValue)),
    ("label".toList, s.label.map .text),
    ("parser".toList, s.parser.map .text),
    ("inline_code".toList, s.inlineCode.map .text),
    ("bracket".toList, flagValue s.bracket),
    ("comment".toList, s.comment.map .text),
    ("body".toList, s.body.map .text),
    ("children".toList, listValue (childValues s.children))]

lemma names_fields (s : Spec) : s.fields.map Prod.fst = fieldNames := rfl

lemma nodup_fields (s : Spec) : (s.fields.map Prod.fst).Nodup := by
  rw [names_fields]
  decide

/-- The entries of the fields that are written. -/
def present (fs : List (Text × Option Value)) : List (Value × Value) :=
  fs.flatMap fun f => (f.2.map (Value.text f.1, ·)).toList

lemma flagField_eq (name : String) (b : Bool) :
    flagField name b = ((flagValue b).map (Value.text name.toList, ·)).toList := by
  cases b <;> rfl

lemma textField_eq (name : String) (t : Option Text) :
    textField name t = ((t.map Value.text).map (Value.text name.toList, ·)).toList := by
  cases t <;> rfl

lemma listField_eq (name : String) (items : List Value) :
    listField name items = ((listValue items).map (Value.text name.toList, ·)).toList := by
  cases items <;> rfl

lemma toValue_eq (s : Spec) : s.toValue = .map (present s.fields) := by
  obtain ⟨⟩ := s
  simp only [toValue, flagField_eq, textField_eq, listField_eq, List.append_assoc]
  simp only [present, fields, List.flatMap_cons, List.flatMap_nil, List.append_nil]
  rfl

lemma exists_of_mem_present {fs : List (Text × Option Value)} {e : Value × Value}
    (h : e ∈ present fs) : ∃ f ∈ fs, ∃ v ∈ f.2, e = (.text f.1, v) := by
  obtain ⟨f, hf, he⟩ := List.mem_flatMap.mp h
  obtain ⟨v, hv, rfl⟩ := Option.map_eq_some_iff.mp (Option.mem_toList.mp he)
  exact ⟨f, hf, v, hv, rfl⟩

lemma keys_present (fs : List (Text × Option Value)) :
    ((present fs).map Prod.fst).Sublist ((fs.map Prod.fst).map Value.text) := by
  induction fs with
  | nil => exact .slnil
  | cons f fs ih =>
    obtain ⟨name, v⟩ := f
    cases v with
    | none => exact ih.cons _
    | some v => exact ih.cons_cons _

/-! ## Reading fields -/

/-- The value of a field that is found. -/
def fieldValue (v : Value) : FieldValue := ⟨v, childrenOf? v⟩

/-- What is found of fields. -/
def found (fs : List (Text × Option Value)) : FoundFields :=
  fs.flatMap fun f => (f.2.map fun v => (fieldNames.idxOf f.1, fieldValue v)).toList

lemma fieldPlace?_text {name : Text} (h : name ∈ fieldNames) :
    fieldPlace? (.text name) = some (some (fieldNames.idxOf name)) :=
  congrArg some (List.findIdx?_eq_some_of_exists ⟨name, h, beq_self_eq_true name⟩)

lemma lookup_eq_none {fs : List (Text × Option Value)} {name : Text}
    (h : name ∉ fs.map Prod.fst) : fs.lookup name = none :=
  List.lookup_eq_none_iff.mpr fun f hf => by
    simpa using fun heq => h (List.mem_map.mpr ⟨f, hf, heq.symm⟩)

/-- What is found at the place of a field is what was written for it. -/
lemma lookup_found {fs : List (Text × Option Value)} (hnodup : (fs.map Prod.fst).Nodup)
    {name : Text} (hname : name ∈ fieldNames) :
    (found fs).lookup (fieldNames.idxOf name) = (fs.lookup name).join.map fieldValue := by
  induction fs with
  | nil => rfl
  | cons f fs ih =>
    obtain ⟨other, v⟩ := f
    obtain ⟨hnew, hmore⟩ := List.nodup_cons.mp hnodup
    have ih := ih hmore
    by_cases heq : name = other
    · obtain rfl := heq
      rw [lookup_eq_none hnew] at ih
      rw [List.lookup_cons_self]
      cases v with
      | none => exact ih
      | some v => exact List.lookup_cons_self
    · -- another name has another place, so the field in front is passed over by both lookups
      have hne : fieldNames.idxOf name ≠ fieldNames.idxOf other :=
        fun h => heq ((List.idxOf_inj hname).mp h)
      rw [List.lookup_cons, beq_false_of_ne heq]
      cases v with
      | none => exact ih
      | some v =>
        refine Eq.trans ?_ ih
        refine List.lookup_cons.trans ?_
        rw [beq_false_of_ne hne]
        rfl

/-- The fields of a map are those that were written, because none of them was written twice. -/
lemma mapFields?_present {fs : List (Text × Option Value)}
    (hnames : ∀ f ∈ fs, f.1 ∈ fieldNames) (hnodup : (fs.map Prod.fst).Nodup) :
    mapFields? (present fs) = some (found fs) := by
  induction fs with
  | nil => exact mapFields?.eq_1
  | cons f fs ih =>
    obtain ⟨name, v⟩ := f
    obtain ⟨hname, hnames'⟩ := List.forall_mem_cons.mp hnames
    obtain ⟨hnew, hmore⟩ := List.nodup_cons.mp hnodup
    have ih := ih hnames' hmore
    cases v with
    | none => exact ih
    | some v =>
      have hfree : (found fs).lookup (fieldNames.idxOf name) = none := by
        rw [lookup_found hmore hname, lookup_eq_none hnew]
        rfl
      have hcons : present ((name, some v) :: fs) = (.text name, v) :: present fs := rfl
      rw [hcons, mapFields?, mapField?, fieldPlace?_text hname, ih]
      simp only [Option.map_some, hfree]
      rfl

/-- A field that was left out is read as its default, any other as what was written for it. -/
theorem read_found {fs : List (Text × Option Value)} (hnodup : (fs.map Prod.fst).Nodup)
    {α : Type} {name : String} (hname : name.toList ∈ fieldNames) {v : Option Value}
    (hlookup : fs.lookup name.toList = some v) (default : Option α) (decode : Value → Option α) :
    (found fs).read name default decode = v.elim default decode := by
  rw [FoundFields.read, lookup_found hnodup hname, hlookup]
  cases v <;> rfl

/-! ## What is written for a field gives its value back -/

lemma decode_flag (b : Bool) : (flagValue b).elim (some false) Value.bool? = some b := by
  cases b <;> rfl

lemma decode_text (t : Option Text) :
    (t.map Value.text).elim (some none) Value.optionalText? = some t := by
  cases t <;> rfl

lemma mapM_map_of_leftInverse {α β : Type} {f : α → Option β} {g : β → α}
    (h : ∀ b, f (g b) = some b) (bs : List β) : (bs.map g).mapM f = some bs := by
  induction bs with
  | nil => rfl
  | cons b bs ih => rw [List.map_cons, List.mapM_cons, h, ih]; rfl

lemma decode_texts (ts : List Text) :
    (listValue (ts.map .text)).elim (some []) Value.texts? = some ts := by
  cases ts with
  | nil => rfl
  | cons t ts => exact mapM_map_of_leftInverse (g := Value.text) (fun _ => rfl) (t :: ts)

lemma decode_pairs (ps : List (Text × Text)) :
    (listValue (ps.map pairValue)).elim (some []) Value.pairs? = some ps := by
  cases ps with
  | nil => rfl
  | cons p ps => exact mapM_map_of_leftInverse (g := pairValue) (fun _ => rfl) (p :: ps)

/-- Children are left out if there are none; otherwise they are what is read of them. -/
lemma decode_children {children : List (Child Spec)}
    (h : childList? (childValues children) = some children) :
    (listValue (childValues children) = none ∧ children = []) ∨
      ∃ v, listValue (childValues children) = some v ∧ childrenOf? v = some children := by
  cases children with
  | nil => exact .inl ⟨rfl, rfl⟩
  | cons child children => exact .inr ⟨_, rfl, (childrenOf?.eq_1 _).trans h⟩

/-- What is found of the fields of a description is the description. -/
lemma ofFields?_found {s : Spec} (h : childList? (childValues s.children) = some s.children) :
    ofFields? (found s.fields) = some s := by
  have hread {α : Type} (name : String) (hname : name.toList ∈ fieldNames) (v : Option Value)
      (hlookup : s.fields.lookup name.toList = some v) (default : Option α)
      (decode : Value → Option α) := read_found s.nodup_fields hname hlookup default decode
  have hchildren : (found s.fields).lookup (fieldNames.idxOf "children".toList) =
      (listValue (childValues s.children)).map fieldValue :=
    lookup_found s.nodup_fields (by decide)
  rw [ofFields?]
  simp only [hread "tag" (by decide) _ rfl, hread "suppressed" (by decide) _ rfl,
    hread "header" (by decide) _ rfl, hread "name" (by decide) _ rfl,
    hread "aliases" (by decide) _ rfl, hread "params" (by decide) _ rfl,
    hread "options" (by decide) _ rfl, hread "label" (by decide) _ rfl,
    hread "parser" (by decide) _ rfl, hread "inline_code" (by decide) _ rfl,
    hread "bracket" (by decide) _ rfl, hread "comment" (by decide) _ rfl,
    hread "body" (by decide) _ rfl, decode_flag, decode_text, decode_texts, decode_pairs, hchildren]
  -- a description has descriptions in it, so it is its fields only once it is taken apart
  rcases decode_children h with ⟨hlist, hnil⟩ | ⟨v, hlist, hdecode⟩
  · simp only [hlist]
    cases s
    cases hnil
    rfl
  · simp only [hlist, Option.map_some, fieldValue, hdecode]
    cases s
    rfl

/-- A description is read back if its children are. -/
lemma ofValue?_of_children {s : Spec}
    (h : childList? (childValues s.children) = some s.children) :
    ofValue? s.toValue = some s := by
  have hnames : ∀ f ∈ s.fields, f.1 ∈ fieldNames := fun f hf => by
    rw [← names_fields s]
    exact List.mem_map_of_mem hf
  rw [toValue_eq, ofValue?, mapFields?_present hnames s.nodup_fields]
  exact ofFields?_found h

lemma childOf?_node (s : Spec) : childOf? s.toValue = (ofValue? s.toValue).map .node := by
  rw [toValue_eq, childOf?]
  simp

mutual

/-- What is written of a description as a document stands for it. -/
lemma ofValue?_toValue : ∀ s : Spec, ofValue? s.toValue = some s
  | ⟨_, _, _, _, _, _, _, _, _, _, _, _, _, children⟩ =>
    ofValue?_of_children (childList?_childValues children)

lemma childList?_childValues : ∀ children : List (Child Spec),
    childList? (childValues children) = some children
  | [] => childList?.eq_1
  | child :: children => by
    rw [childValues, childList?, childOf?_childValue child, childList?_childValues children]

lemma childOf?_childValue : ∀ child : Child Spec, childOf? (childValue child) = some child
  | .text _ => childOf?.eq_1 _
  | .node s => by rw [childValue, childOf?_node, ofValue?_toValue s, Option.map_some]

end

/-! ## The document is a record -/

lemma fits_flag (b : Bool) : ∀ v ∈ flagValue b, Shape.flag.Fits v := by
  cases b with
  | false => exact fun _ h => nomatch h
  | true => rintro _ ⟨⟩; exact .flag true

lemma fits_text (t : Option Text) : ∀ v ∈ t.map Value.text, Shape.optionalText.Fits v := by
  cases t with
  | none => exact fun _ h => nomatch h
  | some t => rintro _ ⟨⟩; exact .optionalText t

lemma fits_list {item : Shape} {items : List Value} (h : ∀ v ∈ items, item.Fits v) :
    ∀ v ∈ listValue items, (Shape.list item).Fits v := by
  cases items with
  | nil => exact fun _ h => nomatch h
  | cons v items => rintro _ ⟨⟩; exact .list h

lemma fits_texts (ts : List Text) :
    ∀ v ∈ listValue (ts.map .text), (Shape.list .text).Fits v :=
  fits_list (List.forall_mem_map.mpr fun t _ => .text t)

lemma fits_pairs (ps : List (Text × Text)) :
    ∀ v ∈ listValue (ps.map pairValue), (Shape.list .pair).Fits v :=
  fits_list (List.forall_mem_map.mpr fun p _ => .pair p.1 p.2)

lemma childValues_eq (children : List (Child Spec)) :
    childValues children = children.map childValue := by
  induction children with
  | nil => rfl
  | cons child children ih => rw [childValues, ih, List.map_cons]

lemma fits_children {children : List (Child Spec)}
    (h : ∀ child ∈ children, (childValue child).IsPlain) :
    ∀ v ∈ listValue (childValues children),
      (Shape.list (.value fun v => (childOf? v).isSome)).Fits v := by
  rw [childValues_eq]
  refine fits_list (List.forall_mem_map.mpr fun child hchild => .value (h child hchild) ?_)
  rw [childOf?_childValue]
  rfl

/-- What is written for each field is of the shape that is looked for. -/
lemma fits_fields {s : Spec} (h : ∀ child ∈ s.children, (childValue child).IsPlain) :
    ∀ f ∈ s.fields, ∀ v ∈ f.2, ∃ shape, record.shape? f.1 = some shape ∧ shape.Fits v := by
  have hall {name : Text} {shape : Shape} {written : Option Value}
      (hshape : record.shape? name = some shape) (hfits : ∀ v ∈ written, shape.Fits v) :
      ∀ v ∈ written, ∃ shape, record.shape? name = some shape ∧ shape.Fits v :=
    fun v hv => ⟨shape, hshape, hfits v hv⟩
  simp only [fields, List.forall_mem_cons]
  exact ⟨hall rfl (by rintro _ ⟨⟩; exact .text s.tag), hall rfl (fits_flag _),
    hall rfl (fits_text _), hall rfl (fits_text _), hall rfl (fits_texts _),
    hall rfl (fits_pairs _), hall rfl (fits_pairs _), hall rfl (fits_text _),
    hall rfl (fits_text _), hall rfl (fits_text _), hall rfl (fits_flag _),
    hall rfl (fits_text _), hall rfl (fits_text _), hall rfl (fits_children h), by simp⟩

/-- The document of a description is a record that a reader looks for. -/
lemma holds_of_children {s : Spec} (h : ∀ child ∈ s.children, (childValue child).IsPlain) :
    record.Holds (present s.fields) where
  fields := fun e he => by
    obtain ⟨f, hf, v, hv, rfl⟩ := exists_of_mem_present he
    obtain ⟨shape, hshape, hfits⟩ := fits_fields h f hf v hv
    exact ⟨f.1, shape, rfl, hshape, hfits⟩
  nodup := (keys_present s.fields).nodup
    (List.Nodup.map (fun _ _ => Value.text.inj) s.nodup_fields)
  needed := List.mem_cons_self

mutual

/-- The document of a description has no numbers in it. -/
lemma isPlain_toValue : ∀ s : Spec, s.toValue.IsPlain
  | ⟨_, _, _, _, _, _, _, _, _, _, _, _, _, children⟩ => by
    rw [toValue_eq]
    exact (holds_of_children (isPlain_children children)).fields.isPlain

lemma isPlain_children : ∀ children : List (Child Spec),
    ∀ child ∈ children, (childValue child).IsPlain
  | [] => by simp
  | child :: children =>
    List.forall_mem_cons.mpr ⟨isPlain_childValue child, isPlain_children children⟩

lemma isPlain_childValue : ∀ child : Child Spec, (childValue child).IsPlain
  | .text t => .text t
  | .node s => isPlain_toValue s

end

/-- A description that is written as JSON is read back as it was, if it does not nest too deep. -/
theorem ofJson_toJson (s : Spec) (h : s.toValue.levels ≤ Document.Json.maxLevels) :
    ofJson s.toJson = .ok s := by
  rw [toValue_eq] at h
  have hread := Document.Json.read_print (holds_of_children (isPlain_children s.children)) h
  rw [← toValue_eq] at hread
  rw [ofJson, toJson, hread]
  simp only [bind, Except.bind, ofValue?_toValue]
  rfl

/-- An element among texts, with pairs, empty values and characters that are written as escapes. -/
def mixedSample : Spec :=
  { tag := "menu".toList, name := some "a\"b\\".toList, aliases := [[], "m".toList]
    params := [("k".toList, []), ("tab\t".toList, "\x00\x1f\x7f\u00e9".toList)]
    label := some [], body := some "line\n".toList
    children := [.text [], .node { tag := [], suppressed := true, children := [.text "\r".toList] },
      .text "null".toList] }

theorem ofJson_toJson_mixed : mixedSample.toValue.levels = 4 ∧
    ofJson mixedSample.toJson = .ok mixedSample :=
  ⟨by decide, ofJson_toJson mixedSample (by decide)⟩

end Spec

end TaggedOutline
