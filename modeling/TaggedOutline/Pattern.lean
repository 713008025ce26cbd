import TaggedOutline.Matcher
import TaggedOutline.Text.Blank
import TaggedOutline.Text.Classes

/-!
# Patterns

A pattern describes pieces of a text.  Its meaning is a list of ends: `Pattern.ends p c` holds every
place where a match of `p` that begins at the cursor `c` may stop, the preferred one first.  A
choice prefers its earlier side, a greedy repetition one more round, a lazy one the fewest.

A round of a repetition that consumes nothing ends the repetition, so a repetition of a pattern that
matches the empty text is finite.  Each place is listed once, at its best rank; what follows a match
depends on the place alone, so nothing is lost.

`Pattern.find` looks for the leftmost match and takes its preferred end.  The written form of
patterns is read in `Pattern.Reader`.
-/

namespace TaggedOutline

/-- The classes of characters that have a name in the written form. -/
inductive CharClass where
  | digit
  | blank
  | word
deriving DecidableEq, Repr

/-- Whether a character belongs to a named class. -/
def CharClass.contains : CharClass → Char → Bool
  | .digit, c => Text.isDigitChar c
  | .blank, c => Text.isBlank c
  | .word, c => Text.isWordChar c

/-- A set of characters. -/
inductive CharSet where
  | none
  | range (first last : Char)
  | named (k : CharClass)
  | compl (s : CharSet)
  | union (s t : CharSet)
  | inter (s t : CharSet)
  /-- The set with the other case of each of its letters. -/
  | anyCase (s : CharSet)
deriving DecidableEq, Repr

namespace CharSet

/-- The characters that differ from `c` in case only, `c` itself among them.  The Kelvin sign and
the long s are cases of `k` and `s`. -/
def caseForms (c : Char) : List Char :=
  let kin := [c, c.toLower, c.toUpper]
  if c.toLower = 'k' ∨ c = '\u212a' then 'k' :: 'K' :: '\u212a' :: kin
  else if c.toLower = 's' ∨ c = '\u017f' then 's' :: 'S' :: '\u017f' :: kin
  else kin

/-- Whether a character is in the set. -/
def contains : CharSet → Char → Bool
  | none, _ => false
  | range first last, c => first ≤ c && c ≤ last
  | named k, c => k.contains c
  | compl s, c => !s.contains c
  | union s t, c => s.contains c || t.contains c
  | inter s t, c => s.contains c && t.contains c
  | anyCase s, c => (caseForms c).any s.contains

/-- The set with one character. -/
def single (c : Char) : CharSet := range c c

/-- The set of the listed characters. -/
def ofList (cs : List Char) : CharSet := cs.foldl (fun s c => union s (single c)) none

/-- The set of all characters. -/
def all : CharSet := compl none

/-- The characters of the first set that are not in the second. -/
def diff (s t : CharSet) : CharSet := inter s (compl t)

@[simp] theorem contains_single (c d : Char) : (single c).contains d = decide (d = c) := by
  simp only [single, contains]
  by_cases h : d = c
  · subst h; simp
  · have : ¬(c ≤ d ∧ d ≤ c) := fun hh => h (Char.le_antisymm hh.2 hh.1)
    simpa [h] using this

end CharSet

namespace Cursor

/-- Whether a word begins or ends here. -/
def atWordEdge (c : Cursor) : Bool :=
  (c.before.any Text.isWordChar) != (c.after.head?.any Text.isWordChar)

/-- The places of a list that are not among the seen offsets, each at its first occurrence only. -/
def distinctFrom (seen : List Nat) : List Cursor → List Cursor
  | [] => []
  | c :: cs =>
    if seen.contains c.offset then distinctFrom seen cs
    else c :: distinctFrom (c.offset :: seen) cs

/-- The places of a list, each at its first occurrence only. -/
def distinct : List Cursor → List Cursor
  | [] => []
  | [c] => [c]
  | cs => distinctFrom [] cs

end Cursor

/-- A pattern. -/
inductive Pattern where
  | empty
  | one (s : CharSet)
  /-- The head of the text, or of any line of it. -/
  | start (everyLine : Bool)
  /-- The end of the text, or of any line of it. -/
  | finish (everyLine : Bool)
  /-- A place where a word begins or ends, or one where none does. -/
  | wordEdge (there : Bool)
  | seq (p q : Pattern)
  | alt (p q : Pattern)
  | star (greedy : Bool) (p : Pattern)
deriving DecidableEq, Repr

namespace Pattern

/-- The place where a repetition may stop, behind or before those that more rounds reach. -/
def arrange (greedy : Bool) (further : List Cursor) (c : Cursor) : List Cursor :=
  if greedy then further ++ [c] else c :: further

/-- The ends of a repetition, where a place that some earlier way has passed is not followed again;
`passed` holds the offsets of those places and is given back with the ends. -/
def starThrough (greedy : Bool) (round : Cursor → List Cursor) (c : Cursor) (passed : List Nat) :
    List Cursor × List Nat :=
  let (further, passed) := (round c).foldl (fun (found, passed) d =>
    if _ : d.after.length < c.after.length then
      if passed.contains d.offset then (found, passed)
      else
        let (more, passed) := starThrough greedy round d passed
        (found ++ more, passed)
    else (found ++ [d], passed)) ([], c.offset :: passed)
  (arrange greedy further c, passed)
termination_by c.after.length

/-- The ends of a repetition whose single round has the ends `round`. -/
def starEnds (greedy : Bool) (round : Cursor → List Cursor) (c : Cursor) : List Cursor :=
  match round c with
  | [] => [c]
  | [d] =>
    if _ : d.after.length < c.after.length then arrange greedy (starEnds greedy round d) c else [c]
  | _ => Cursor.distinct (starThrough greedy round c []).1
termination_by c.after.length

/-- The places where a match that begins at a cursor may stop, the preferred one first. -/
def ends : Pattern → Cursor → List Cursor
  | empty, c => [c]
  | one s, c =>
    match c.after with
    | [] => []
    | d :: rest => if s.contains d then [⟨c.offset + d.utf8Size, some d, rest⟩] else []
  | start everyLine, c =>
    if c.before.isNone || everyLine && c.before == some '\n' then [c] else []
  | finish everyLine, c =>
    if c.after.isEmpty || everyLine && c.after.head? == some '\n' then [c] else []
  | wordEdge there, c => if c.atWordEdge == there then [c] else []
  | seq p q, c => Cursor.distinct ((p.ends c).flatMap q.ends)
  | alt p q, c => Cursor.distinct (p.ends c ++ q.ends c)
  | star greedy p, c => starEnds greedy p.ends c

/-- The end of the leftmost match at or after a place, for the preferred way to match there. -/
def findFrom (p : Pattern) (offset : Nat) (before : Option Char) : Text → Option Cursor
  | [] => (p.ends ⟨offset, before, []⟩).head?
  | c :: rest =>
    match p.ends ⟨offset, before, c :: rest⟩ with
    | d :: _ => some d
    | [] => findFrom p (offset + c.utf8Size) (some c) rest

/-- The end of the leftmost match in a text. -/
def find (p : Pattern) (t : Text) : Option Cursor := p.findFrom 0 none t

/-! ## Derived patterns -/

/-- A fixed character. -/
def char (c : Char) : Pattern := one (.single c)

/-- Patterns one after the other. -/
def inOrder : List Pattern → Pattern
  | [] => empty
  | [p] => p
  | p :: ps => seq p (inOrder ps)

/-- At least one round, as many as possible or as few. -/
def plus (greedy : Bool) (p : Pattern) : Pattern := seq p (star greedy p)

/-- At most one round; a greedy one is preferred, a lazy one avoided. -/
def optional (greedy : Bool) (p : Pattern) : Pattern := if greedy then alt p empty else alt empty p

/-- Exactly `n` rounds. -/
def times (n : Nat) (p : Pattern) : Pattern := inOrder (List.replicate n p)

/-- At most `n` rounds. -/
def atMost (greedy : Bool) (p : Pattern) : Nat → Pattern
  | 0 => empty
  | n + 1 => optional greedy (seq p (atMost greedy p n))

/-- The pattern at the head of the text only. -/
def anchored (p : Pattern) : Pattern := seq (start false) p

end Pattern

end TaggedOutline
