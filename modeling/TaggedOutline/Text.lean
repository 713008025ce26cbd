/-!
# Text

Every text of the library is a list of characters, so that scanning is recursion on the list and
what is left of a text is again a text.  Positions that are shown to a caller are byte offsets of
the UTF-8 form; `Text.byteSize` is that measure.

`Text.Blank`, `Text.Lines` and `Text.Shown` hold the white space rules, the cutting into lines and
the quoted display form used in messages.
-/

namespace TaggedOutline

/-- A text, character by character. -/
abbrev Text := List Char

namespace Text

/-- The length of a text in bytes of its UTF-8 form. -/
def byteSize : Text → Nat
  | [] => 0
  | c :: rest => c.utf8Size + byteSize rest

@[simp] theorem byteSize_nil : byteSize [] = 0 := rfl

@[simp] theorem byteSize_cons (c : Char) (t : Text) :
    byteSize (c :: t) = c.utf8Size + byteSize t := rfl

@[simp] theorem byteSize_append (s t : Text) : byteSize (s ++ t) = byteSize s + byteSize t := by
  induction s with
  | nil => simp
  | cons c s ih => simp [ih, Nat.add_assoc]

/-- The texts in order with `separator` between neighbours. -/
def join (separator : Text) (parts : List Text) : Text :=
  separator.intercalate parts

/-- Every occurrence of `old`, from the left and without overlap, becomes `new`.  An empty `old`
occurs before every character and at the end. -/
def replaceAll (old new : Text) (t : Text) : Text :=
  match old with
  | [] => new ++ t.flatMap fun c => c :: new
  | o :: os =>
    let rec go : Nat → Text → Text
      | _, [] => []
      | 0, c :: rest =>
        if (o :: os).isPrefixOf (c :: rest) then new ++ go os.length rest else c :: go 0 rest
      | skip + 1, _ :: rest => go skip rest
    go 0 t

end Text

end TaggedOutline
