import TaggedOutline.Text

/-!
# Lines

A line feed ends a line.  One at the very end of a text opens no further line, so a text and the
same text with a final line feed have the same lines.
-/

namespace TaggedOutline

namespace Text

/-- The lines of a text, each without its line feed. -/
def lines : Text → List Text
  | [] => []
  | c :: rest =>
    if c = '\n' then [] :: lines rest
    else match lines rest with
      | [] => [[c]]
      | line :: more => (c :: line) :: more

/-- Each line with a line feed after it. -/
def unlines (ls : List Text) : Text := ls.flatMap fun line => line ++ ['\n']

/-- A carriage return that stands before a line feed is dropped. -/
def dropReturns : Text → Text
  | [] => []
  | [c] => [c]
  | c :: d :: rest =>
    if c = '\r' ∧ d = '\n' then '\n' :: dropReturns rest else c :: dropReturns (d :: rest)

/-- The lines of a text whose lines may end in a carriage return and a line feed. -/
def writtenLines (t : Text) : List Text := lines (dropReturns t)

@[simp] theorem lines_nil : lines [] = [] := rfl

@[simp] theorem lines_newline (t : Text) : lines ('\n' :: t) = [] :: lines t := rfl

@[simp] theorem unlines_nil : unlines [] = [] := rfl

@[simp] theorem unlines_cons (l : Text) (ls : List Text) :
    unlines (l :: ls) = l ++ '\n' :: unlines ls := by
  simp [unlines]

/-- A line followed by a line feed is cut off as the first line. -/
theorem lines_append_newline {l : Text} (h : '\n' ∉ l) (t : Text) :
    lines (l ++ '\n' :: t) = l :: lines t := by
  induction l with
  | nil => rfl
  | cons c l ih =>
    obtain ⟨hc, hl⟩ := not_or.mp (fun hm => h (List.mem_cons.mpr hm))
    have hc' : c ≠ '\n' := fun e => hc e.symm
    simp [lines, hc', ih hl]

/-- Lines that hold no line feed are read back from their written form. -/
theorem lines_unlines {ls : List Text} (h : ∀ l ∈ ls, '\n' ∉ l) : lines (unlines ls) = ls := by
  induction ls with
  | nil => rfl
  | cons l ls ih =>
    rw [unlines_cons, lines_append_newline (h l (by simp)),
      ih fun m hm => h m (List.mem_cons_of_mem _ hm)]

end Text

end TaggedOutline
