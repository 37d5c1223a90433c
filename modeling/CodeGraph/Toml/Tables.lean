import CodeGraph.Toml.Basic

/-!
# TOML tables

Tables grow key by key and header by header. A table remembers how it came to be: one that was only
passed through on the way to another may still get a header, one made by a dotted key may be
extended by dotted keys alone, and one that has a header gets no second one.
-/

namespace CodeGraph.Toml

inductive Item where
  | value (value : Toml)
  /-- A table is implied until it has a header of its own. -/
  | table (implied dotted : Bool) (entries : List (String × Item))
  /-- A table for each header of the same name in double brackets. -/
  | tables (rows : List (List (String × Item)))
  deriving Repr, Inhabited

abbrev Entries := List (String × Item)

namespace Entries

def has (entries : Entries) (key : String) : Bool :=
  entries.any fun entry => entry.1 = key

def replace (entries : Entries) (key : String) (item : Item) : Entries :=
  entries.map fun entry => if entry.1 = key then (key, item) else entry

/-- Goes down a path of tables, making those that are missing, and changes the last one. The change
learns whether that table came from a dotted key. -/
def updateAt (dotted : Bool) (change : Bool → Entries → Option Entries) :
    List String → Bool → Entries → Option Entries
  | [], fromDotted, entries => change fromDotted entries
  | key :: rest, _, entries =>
    match entries.lookup key with
    | none => do
      let inner ← updateAt dotted change rest dotted []
      return entries ++ [(key, .table true dotted inner)]
    | some (.value _) => none
    | some (.tables rows) => do
      let last ← rows.getLast?
      let inner ← updateAt dotted change rest false last
      return replace entries key (.tables (rows.dropLast ++ [inner]))
    | some (.table implied fromDotted inner) =>
      if dotted && !implied then none
      else do
        let inner ← updateAt dotted change rest fromDotted inner
        return replace entries key (.table implied fromDotted inner)

def insertNew (key : String) (item : Item) (entries : Entries) : Option Entries :=
  if entries.has key then none else some (entries ++ [(key, item)])

/-- Sets a key, dotted or not, in a table that did not come from a dotted key itself. -/
def setKey (path : List String) (value : Toml) (fromDotted : Bool) (entries : Entries) :
    Option Entries := do
  let key ← path.getLast?
  let way := path.dropLast
  updateAt true (fun fromDotted inner =>
    if fromDotted = way.isEmpty then none else insertNew key (.value value) inner)
    way fromDotted entries

/-- A header in single brackets. -/
def addTable (path : List String) (entries : Entries) : Option Entries := do
  let key ← path.getLast?
  updateAt false (fun _ inner =>
    match inner.lookup key with
    | none => some (inner ++ [(key, .table false false [])])
    | some (.table true false rows) => some (replace inner key (.table false false rows))
    | some _ => none) path.dropLast false entries

/-- A header in double brackets. -/
def addRow (path : List String) (entries : Entries) : Option Entries := do
  let key ← path.getLast?
  updateAt false (fun _ inner =>
    match inner.lookup key with
    | none => some (inner ++ [(key, .tables [[]])])
    | some (.tables rows) => some (replace inner key (.tables (rows ++ [[]])))
    | some _ => none) path.dropLast false entries

end Entries

/-! ### Finished tables -/

mutual

def finish : Item → Toml
  | .value value => value
  | .table _ _ entries => .table (finishEntries entries)
  | .tables rows => .array (finishRows rows)

def finishEntries : List (String × Item) → List (String × Toml)
  | [] => []
  | (key, item) :: rest => (key, finish item) :: finishEntries rest

def finishRows : List (List (String × Item)) → List Toml
  | [] => []
  | row :: rest => .table (finishEntries row) :: finishRows rest

end

/-- The table that a list of keys and values makes, unless they contradict each other. -/
def tableOf? (pairs : List (List String × Toml)) : Option Toml := do
  let entries ← pairs.foldlM (fun entries (path, value) =>
    Entries.setKey path value false entries) []
  return .table (finishEntries entries)

end CodeGraph.Toml
