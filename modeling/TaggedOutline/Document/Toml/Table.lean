import TaggedOutline.Document.Value

/-!
# Tables of TOML

A table is put together from places all over a document: headers open tables by their whole path,
and dotted keys open tables inside the one that they stand in.  No table is opened twice and no key
is given twice, so a table remembers how it came to be (`Origin`).

`addValue` puts a value under a dotted key, `openTable` and `openElement` follow the two kinds of
headers, and `Item.toValue` is what a table is in the end.
-/

namespace TaggedOutline

namespace Document

namespace Toml

/-- How a table came to be. -/
inductive Origin where
  /-- It has a header. -/
  | headed
  /-- It lies on the way to a table with a header. -/
  | passed
  /-- It lies on the way of a dotted key. -/
  | dotted
deriving DecidableEq, Repr

/-- What a key stands for while a document is read. -/
inductive Item where
  | value (v : Value)
  | table (origin : Origin) (entries : List (Text × Item))
  /-- A list of tables, of which only the last can still grow. -/
  | tables (earlier : List (List (Text × Item))) (last : List (Text × Item))

/-- The entries of a table. -/
abbrev Entries := List (Text × Item)

namespace Entries

/-- Changes what a key stands for, if it can be changed. -/
def alter? (key : Text) (change : Option Item → Option Item) : Entries → Option Entries
  | [] => (change none).map fun item => [(key, item)]
  | (k, item) :: entries =>
    if k = key then (change (some item)).map fun item => (k, item) :: entries
    else (alter? key change entries).map ((k, item) :: ·)

/-- Puts a value under a dotted key.  Its path goes through no table that has a header, and the
table that the value goes into was opened by a dotted key, unless the key has no dot. -/
def addValue (v : Value) : List Text → Entries → Option Entries
  | [], _ => none
  | [key], entries => entries.alter? key fun
    | none => some (.value v)
    | some _ => none
  | key :: next :: path, entries => entries.alter? key fun
    | none => (addValue v (next :: path) []).map (.table .dotted)
    | some (.table .dotted inner) => (addValue v (next :: path) inner).map (.table .dotted)
    | some (.table .passed inner) =>
      if path.isEmpty then none else (addValue v (next :: path) inner).map (.table .passed)
    | some (.tables earlier last) =>
      if path.isEmpty then none else (addValue v (next :: path) last).map (.tables earlier)
    | some _ => none

/-- Changes the table at the end of the path of a header. -/
def within (change : Entries → Option Entries) : List Text → Entries → Option Entries
  | [], entries => change entries
  | key :: path, entries => entries.alter? key fun
    | none => (within change path []).map (.table .passed)
    | some (.table origin inner) => (within change path inner).map (.table origin)
    | some (.tables earlier last) => (within change path last).map (.tables earlier)
    | some (.value _) => none

/-- Changes what the last name of the path of a header stands for. -/
def atHeader (change : Option Item → Option Item) (path : List Text) (entries : Entries) :
    Option Entries := do
  let key ← path.getLast?
  entries.within (alter? key change) path.dropLast

/-- Follows a header of a table. -/
def openTable : List Text → Entries → Option Entries :=
  atHeader fun
    | none => some (.table .headed [])
    | some (.table .passed inner) => some (.table .headed inner)
    | some _ => none

/-- Follows a header of a further table of a list. -/
def openElement : List Text → Entries → Option Entries :=
  atHeader fun
    | none => some (.tables [] [])
    | some (.tables earlier last) => some (.tables (earlier ++ [last]) [])
    | some _ => none

end Entries

mutual

/-- The value that a key stands for in the end. -/
def Item.toValue : Item → Value
  | .value v => v
  | .table _ entries => .map (entriesToValues entries)
  | .tables earlier last => .list (tablesToValues earlier ++ [.map (entriesToValues last)])

/-- The entries of a map in the end. -/
def entriesToValues : List (Text × Item) → List (Value × Value)
  | [] => []
  | (key, item) :: entries => (.text key, item.toValue) :: entriesToValues entries

/-- The maps of a list in the end. -/
def tablesToValues : List (List (Text × Item)) → List Value
  | [] => []
  | entries :: tables => .map (entriesToValues entries) :: tablesToValues tables

end

end Toml

end Document

end TaggedOutline
