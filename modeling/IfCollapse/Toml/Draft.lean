import IfCollapse.Toml.Value

/-!
A document under construction. Tables remember how they came to be, since that decides what may
still be added to them.
-/

namespace IfCollapse.Toml

inductive Origin where
  /-- Has a header of its own. -/
  | explicit
  /-- Implied by the header of a table inside it. -/
  | implied
  /-- Made by a dotted key. -/
  | dotted
  deriving DecidableEq, Repr

inductive Draft where
  /-- A finished value, closed to additions. -/
  | value (v : Value)
  | table (origin : Origin) (entries : List (String × Draft))
  /-- An array of tables; additions go to the last one. -/
  | tables (earlier : List (List (String × Draft))) (last : List (String × Draft))

abbrev Entries := List (String × Draft)

def Entries.set (key : String) (draft : Draft) : Entries → Entries
  | [] => [(key, draft)]
  | entry :: entries =>
    if entry.1 = key then (key, draft) :: entries else entry :: Entries.set key draft entries

/-- Changes the table at the end of a path, making the tables that are missing. A dotted key may
not pass through a table with a header of its own. -/
def Entries.within (dotted : Bool) (change : Origin → Entries → Option Entries) :
    (path : List String) → Origin → Entries → Option Entries
  | [], origin, entries => change origin entries
  | key :: path, _, entries =>
    match entries.lookup key with
    | none => do
      let origin := if dotted then .dotted else .implied
      return entries.set key (.table origin (← Entries.within dotted change path origin []))
    | some (.table origin inner) => do
      if dotted && origin = .explicit then none
      return entries.set key (.table origin (← Entries.within dotted change path origin inner))
    | some (.tables earlier last) => do
      return entries.set key (.tables earlier (← Entries.within dotted change path .explicit last))
    | some (.value _) => none

/-- Gives a value to a dotted key that has none. The table that takes it was made by dotted keys
too, unless it is the one at hand. -/
def Entries.assign (path : List String) (key : String) (v : Value) (entries : Entries) :
    Option Entries :=
  Entries.within true (fun origin entries =>
    if !path.isEmpty && origin ≠ .dotted then none
    else if (entries.lookup key).isSome then none
    else some (entries ++ [(key, .value v)])) path .explicit entries

def Entries.open (path : List String) (key : String) (entries : Entries) : Option Entries :=
  Entries.within false (fun _ entries =>
    match entries.lookup key with
    | none => some (entries ++ [(key, .table .explicit [])])
    | some (.table .implied inner) => some (entries.set key (.table .explicit inner))
    | some _ => none) path .explicit entries

def Entries.openItem (path : List String) (key : String) (entries : Entries) : Option Entries :=
  Entries.within false (fun _ entries =>
    match entries.lookup key with
    | none => some (entries ++ [(key, .tables [] [])])
    | some (.tables earlier last) => some (entries.set key (.tables (earlier ++ [last]) []))
    | some _ => none) path .explicit entries

def insertKey (entry : String × Value) : List (String × Value) → List (String × Value)
  | [] => [entry]
  | first :: entries =>
    if entry.1 < first.1 then entry :: first :: entries else first :: insertKey entry entries

def sortKeys (entries : List (String × Value)) : List (String × Value) :=
  entries.foldr insertKey []

mutual

def Draft.finish : Draft → Value
  | .value v => v
  | .table _ entries => .table (sortKeys (finishEntries entries))
  | .tables earlier last =>
    .array (finishTables earlier ++ [.table (sortKeys (finishEntries last))])

def finishEntries : List (String × Draft) → List (String × Value)
  | [] => []
  | entry :: entries => finishEntry entry :: finishEntries entries

def finishEntry : String × Draft → String × Value
  | (key, draft) => (key, draft.finish)

def finishTables : List (List (String × Draft)) → List Value
  | [] => []
  | entries :: rest => .table (sortKeys (finishEntries entries)) :: finishTables rest

end

end IfCollapse.Toml
