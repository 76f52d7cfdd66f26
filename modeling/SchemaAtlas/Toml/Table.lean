/-
Growth of TOML tables. A document is a list of statements: headers,
which open a table or append one to an array of tables, and
assignments to the table that is open. No key is assigned twice, no
table opened twice, and what stands between braces or brackets is
closed for good.

- `Value.assign`: a key, dotted or not, assigned in a table.
- `Value.openTable`, `Value.openItem`: the two kinds of header.
- `Statement.run`: a list of statements run on an empty document.
-/
import SchemaAtlas.Toml.Value

namespace SchemaAtlas

namespace Toml

namespace Value

/-- The entries with the value under `key` replaced. -/
def replace (key : String) (v : Value) (entries : List (String × Value)) :
    List (String × Value) :=
  entries.map fun e => if e.1 = key then (key, v) else e

-- ==================================================== descending

/-- Applies a change to a value that a path leads through: a table that
may still grow, or the last table of an array of tables. A dotted key
leads through no table that has a header. -/
def through (byDot : Bool) (change : Value → Option Value) : Value → Option Value
  | table .inline _ => none
  | table .headed entries => if byDot then none else change (table .headed entries)
  | table form entries => change (table form entries)
  | array .headed items =>
      match items.getLast? with
      | some last => (change last).map fun v => array .headed (items.dropLast ++ [v])
      | none => none
  | _ => none

/-- Applies a change to the table at the end of a path. Tables that are
missing on the way are made. -/
def descend (byDot : Bool) : List String → (Value → Option Value) → Value → Option Value
  | [], change, v => change v
  | key :: path, change, table form entries =>
      match lookup? key entries with
      | some v =>
          (through byDot (descend byDot path change) v).map fun v =>
            table form (replace key v entries)
      | none =>
          (descend byDot path change (table (if byDot then .dotted else .passed) [])).map
            fun v => table form (entries ++ [(key, v)])
  | _, _, _ => none

-- ==================================================== changes

/-- Assigns a key that is new to its table. The last part of a dotted
key belongs to a table made by dotted keys, a bare key to one that was
not. -/
def assignLast (isDotted : Bool) (key : String) (v : Value) : Value → Option Value
  | table form entries =>
      if (form = .dotted) ≠ isDotted then none
      else
        match lookup? key entries with
        | some _ => none
        | none => some (table form (entries ++ [(key, v)]))
  | _ => none

/-- Assigns a key of one or more parts in a table. -/
def assign (path : List String) (key : String) (v : Value) : Value → Option Value :=
  descend (!path.isEmpty) path (assignLast (!path.isEmpty) key v)

/-- Opens the table under a key: a new one, or one that so far was only
passed on the way to others. -/
def openLast (key : String) : Value → Option Value
  | table form entries =>
      match lookup? key entries with
      | none => some (table form (entries ++ [(key, table .headed [])]))
      | some (table .passed children) =>
          some (table form (replace key (table .headed children) entries))
      | some _ => none
  | _ => none

/-- Appends a table to the array of tables under a key. -/
def appendLast (key : String) : Value → Option Value
  | table form entries =>
      match lookup? key entries with
      | none => some (table form (entries ++ [(key, array .headed [table .headed []])]))
      | some (array .headed items) =>
          some (table form (replace key (array .headed (items ++ [table .headed []])) entries))
      | some _ => none
  | _ => none

/-- Opens the table that a header names. -/
def openTable (path : List String) (key : String) : Value → Option Value :=
  descend false path (openLast key)

/-- Appends the table that a header in double brackets names. -/
def openItem (path : List String) (key : String) : Value → Option Value :=
  descend false path (appendLast key)

end Value

-- ==================================================== statements

/-- A key of one or more parts. -/
structure Key where
  path : List String
  last : String
  deriving DecidableEq, Repr

/-- All parts of a key. -/
def Key.parts (k : Key) : List String :=
  k.path ++ [k.last]

/-- One statement of a document. -/
inductive Statement
  | header (key : Key)
  | itemHeader (key : Key)
  | assignment (key : Key) (value : Value)

/-- Runs statements on a document; assignments go to the table at the
path `current`. -/
def Statement.runFrom (current : List String) (document : Value) :
    List Statement → Option Value
  | [] => some document
  | .header key :: rest =>
      (document.openTable key.path key.last).bind fun d => runFrom key.parts d rest
  | .itemHeader key :: rest =>
      (document.openItem key.path key.last).bind fun d => runFrom key.parts d rest
  | .assignment key v :: rest =>
      (document.descend false current (Value.assign key.path key.last v)).bind fun d =>
        runFrom current d rest

/-- The document that statements make. -/
def Statement.run (statements : List Statement) : Option Value :=
  runFrom [] (.table .headed []) statements

/-- The table that assignments between braces make. -/
def Value.ofMembers (members : List (Key × Value)) : Option Value :=
  let empty : Value := .table .headed []
  match members.foldlM (fun t m => Value.assign m.1.path m.1.last m.2 t) empty with
  | some (.table _ entries) => some (.table .inline entries)
  | _ => none

end Toml

end SchemaAtlas
