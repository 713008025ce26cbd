import TaggedOutline.Proofs.Cut

/-!
# Content

The structure of a body is told from its rows of content, the ones that are neither blank nor
comments.  What is cut from a body has content that is cut from its content in the same way.
-/

namespace TaggedOutline

namespace Body

variable {s : LayoutSettings} {r : Row} {rows : List Row}

/-- The rows of content. -/
def contents (s : LayoutSettings) (rows : List Row) : List Row := rows.filter fun r => !isQuiet s r

lemma contents_cons_of_quiet (h : isQuiet s r = true) (rows : List Row) :
    contents s (r :: rows) = contents s rows := by
  rw [contents, List.filter_cons_of_neg (by simp [h])]
  rfl

lemma contents_cons_of_loud (h : isQuiet s r = false) (rows : List Row) :
    contents s (r :: rows) = r :: contents s rows := by
  rw [contents, List.filter_cons_of_pos (by simp [h])]
  rfl

lemma contents_append (s : LayoutSettings) (rows rows' : List Row) :
    contents s (rows ++ rows') = contents s rows ++ contents s rows' :=
  List.filter_append rows rows'

lemma contents_outdent (s : LayoutSettings) (column : Nat) (rows : List Row) :
    contents s (rows.map (Row.outdent column)) = (contents s rows).map (Row.outdent column) := by
  rw [contents, contents, List.filter_map]
  congr 1
  exact List.filter_congr fun r _ => by simp

lemma not_blank_of_mem_contents (h : r ∈ contents s rows) : r.isBlank = false := by
  have hloud := (List.mem_filter.mp h).2
  simp only [isQuiet, Bool.not_or, Bool.and_eq_true, Bool.not_eq_eq_eq_not, Bool.not_true] at hloud
  exact hloud.1

lemma contentColumn?_eq_head? (s : LayoutSettings) (rows : List Row) :
    contentColumn? s rows = (contents s rows).head?.map Row.indent := by
  rw [contentColumn?, contents, List.head?_filter]

lemma contentColumn?_map_outdent (s : LayoutSettings) (column : Nat) (rows : List Row) :
    contentColumn? s (rows.map (Row.outdent column)) =
      (contentColumn? s rows).map fun indent => indent - column := by
  rw [contentColumn?_eq_head?, contentColumn?_eq_head?, contents_outdent, List.head?_map,
    Option.map_map, Option.map_map]
  refine Option.map_congr fun q hq => Row.indent_outdent ?_
  exact not_blank_of_mem_contents (List.mem_of_mem_head? hq)

/-- The content of a region goes up to the first row that is not deeper. -/
lemma contents_region (s : LayoutSettings) (column : Nat) (rows : List Row) :
    contents s (region s column rows) =
      (contents s rows).takeWhile fun q => column < q.indent := by
  unfold region
  induction rows with
  | nil => rfl
  | cons r rows ih =>
    by_cases hquiet : isQuiet s r = true
    · rw [List.takeWhile_cons_of_pos (by simp [hquiet]), contents_cons_of_quiet hquiet, ih,
        contents_cons_of_quiet hquiet]
    · have hloud : isQuiet s r = false := Bool.eq_false_iff.mpr hquiet
      rw [contents_cons_of_loud hloud]
      by_cases hdeep : column < r.indent
      · rw [List.takeWhile_cons_of_pos (by simp [hdeep]), contents_cons_of_loud hloud, ih,
          List.takeWhile_cons_of_pos (by simp [hdeep])]
      · rw [List.takeWhile_cons_of_neg (by simp [hloud, hdeep]),
          List.takeWhile_cons_of_neg (by simp [hdeep])]
        rfl

lemma contents_owned (s : LayoutSettings) (column : Nat) (rows : List Row) :
    contents s (owned s column rows) =
      (contents s rows).takeWhile fun q => column < q.indent := by
  have hrest : contents s ((region s column rows).drop (settle s (region s column rows)).length) =
      [] := by
    refine List.filter_eq_nil_iff.mpr fun r hr => ?_
    simp [isQuiet_of_mem_drop_settle hr]
  rw [← contents_region]
  conv_rhs => rw [← settle_append_drop s (region s column rows), contents_append, hrest,
    List.append_nil]
  rfl

lemma deeper_of_mem_contents_owned {column : Nat} {q : Row}
    (hq : q ∈ contents s (owned s column rows)) : column < q.indent := by
  rw [contents_owned] at hq
  simpa using List.mem_takeWhile_imp hq

/-- The content goes on behind the rows that are owned. -/
lemma contents_owned_append (s : LayoutSettings) (column : Nat) (rows : List Row) :
    contents s (owned s column rows) ++ contents s (rows.drop (owned s column rows).length) =
      contents s rows := by
  rw [← contents_append, List.prefix_iff_eq_append.mp (owned_isPrefix s column rows)]

lemma contents_drop_owned (s : LayoutSettings) (column : Nat) (rows : List Row) :
    contents s (rows.drop (owned s column rows).length) =
      (contents s rows).dropWhile fun q => column < q.indent := by
  have hsplit := contents_owned_append s column rows
  rw [contents_owned] at hsplit
  exact List.append_cancel_left (hsplit.trans List.takeWhile_append_dropWhile.symm)

/-- It goes on with a row that is not deeper. -/
lemma le_of_mem_head?_drop_owned {column : Nat} {q : Row}
    (hq : q ∈ (contents s (rows.drop (owned s column rows).length)).head?) : q.indent ≤ column := by
  have hnot :=
    List.head?_dropWhile_not (fun q : Row => decide (column < q.indent)) (contents s rows)
  rw [contents_drop_owned] at hq
  rw [Option.mem_def.mp hq] at hnot
  simpa using hnot

lemma contents_beyond (s : LayoutSettings) (column : Nat) (rows : List Row) :
    contents s (beyond s column rows) =
      (contents s rows).dropWhile fun q => column < q.indent := by
  have hsplit := congrArg (contents s) (region_append_beyond s column rows)
  rw [contents_append, contents_region] at hsplit
  exact List.append_cancel_left (hsplit.trans List.takeWhile_append_dropWhile.symm)

/-- Where all rows that say nothing are dropped, the content is dropped like the rows. -/
lemma contents_dropWhile {p : Row → Bool} (hp : ∀ r, isQuiet s r = true → p r = true)
    (rows : List Row) : contents s (rows.dropWhile p) = (contents s rows).dropWhile p := by
  induction rows with
  | nil => rfl
  | cons r rows ih =>
    cases hquiet : isQuiet s r with
    | true => rw [List.dropWhile_cons_of_pos (hp r hquiet), contents_cons_of_quiet hquiet, ih]
    | false =>
      rw [contents_cons_of_loud hquiet]
      cases hr : p r with
      | true => rw [List.dropWhile_cons_of_pos hr, List.dropWhile_cons_of_pos hr, ih]
      | false =>
        rw [List.dropWhile_cons_of_neg (by simp [hr]), List.dropWhile_cons_of_neg (by simp [hr]),
          contents_cons_of_loud hquiet]

lemma contents_rdropWhile {p : Row → Bool} (hp : ∀ r, isQuiet s r = true → p r = true)
    (rows : List Row) : contents s (rows.rdropWhile p) = (contents s rows).rdropWhile p := by
  have hreverse (rows : List Row) : contents s rows.reverse = (contents s rows).reverse :=
    List.filter_reverse
  rw [List.rdropWhile, List.rdropWhile, hreverse, contents_dropWhile hp, hreverse]

/-- A bracket takes the content that it takes of the content alone, and leaves the same. -/
lemma contents_enclosed (hclose : ∀ r : Row, isQuiet s r = true → r.content ≠ s.closeBracket)
    (column depth : Nat) (rows : List Row) :
    contents s (enclosed s column depth rows).1 = (enclosed s column depth (contents s rows)).1 ∧
      contents s (enclosed s column depth rows).2 =
        (enclosed s column depth (contents s rows)).2 := by
  induction rows generalizing depth with
  | nil => exact ⟨rfl, rfl⟩
  | cons r rows ih =>
    cases hquiet : isQuiet s r with
    | true =>
      rw [enclosed_quiet hquiet (hclose r hquiet), contents_cons_of_quiet hquiet,
        contents_cons_of_quiet hquiet]
      exact ih depth
    | false =>
      rw [contents_cons_of_loud hquiet, enclosed, enclosed]
      by_cases hcloses : closes s column depth r = true
      · rw [if_pos hcloses, if_pos hcloses]
        exact ⟨rfl, rfl⟩
      · obtain ⟨hin, hbehind⟩ := ih (depthAfter s depth r)
        rw [if_neg hcloses, if_neg hcloses, contents_cons_of_loud hquiet, hin]
        exact ⟨rfl, hbehind⟩

end Body

end TaggedOutline
