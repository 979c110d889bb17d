import Colloquy.Table

/-!
# Items of a TOML document

A document is a table of items, and tables may be nested. A table comes into being by its own
header, on the way to the header of a table inside it, by a dotted key, or in line. How it did
decides what may still be added to it: a key is given only once, a header stands only once, and a
table in line is complete.
-/

namespace Colloquy.Toml

/-- How a table came into being. -/
inductive Origin where
  | header
  | implied
  | dotted
  | inline
deriving DecidableEq

/-- The items that a document can hold; what a float is never matters. -/
inductive Item where
  | string (s : String)
  | integer (n : Int)
  | float
  | boolean (b : Bool)
  | array (items : List Item)
  | table (origin : Origin) (entries : List (String × Item))

/-- A table under construction. -/
structure Draft where
  origin : Origin := .header
  entries : Table Item := []

namespace Draft

/-- The table as an item. -/
def item (d : Draft) : Item := .table d.origin d.entries

/-- The entry of a key. -/
def get? (d : Draft) (key : String) : Option Item := d.entries.get? key

/-- Changes the table at the end of a path. Tables on the way are made if they are not there, with
the origin given; a dotted path does not lead into a table that has a header, and no path leads into
a table in line. -/
def update (origin : Origin) (change : Draft → Option Draft) : List String → Draft → Option Draft
  | [], d => change d
  | key :: path, d => do
    let inner ← match d.get? key with
      | none => some ⟨origin, []⟩
      | some (.table .inline _) => none
      | some (.table .header entries) => if origin = .dotted then none else some ⟨.header, entries⟩
      | some (.table other entries) => some ⟨other, entries⟩
      | some _ => none
    let changed ← update origin change path inner
    return { d with entries := d.entries.insert key changed.item }

/-- Gives a key its item. The table that a dotted key leads to has to have come from dotted keys as
well. -/
def give (isDotted : Bool) (key : String) (item : Item) (d : Draft) : Option Draft :=
  if isDotted ≠ decide (d.origin = .dotted) then none
  else
    match d.get? key with
    | some _ => none
    | none => some { d with entries := d.entries.insert key item }

/-- Gives a key, which may be dotted, its item. -/
def assign (keys : List String) (item : Item) (d : Draft) : Option Draft :=
  match keys.getLast? with
  | none => none
  | some key => update .dotted (give (keys.length ≠ 1) key item) keys.dropLast d

/-- Puts the header of a table. -/
def putHeader (keys : List String) (d : Draft) : Option Draft :=
  match keys.getLast? with
  | none => none
  | some key =>
    update .implied (fun d =>
      match d.get? key with
      | none => some { d with entries := d.entries.insert key (.table .header []) }
      | some (.table .implied entries) =>
        some { d with entries := d.entries.insert key (.table .header entries) }
      | some _ => none) keys.dropLast d

end Draft

end Colloquy.Toml
