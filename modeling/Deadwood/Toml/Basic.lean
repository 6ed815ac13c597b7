/-!
# TOML values

The values of a TOML document. A table remembers how it came about, because that decides whether a
later line may add to it.
-/

namespace Deadwood

/-- How a table came about. -/
inductive Toml.Origin where
  /-- Under a header of its own. -/
  | header
  /-- As a table on the way to one with a header. -/
  | implied
  /-- By a key with dots. -/
  | dotted
  /-- In braces. -/
  | inline
  deriving Repr, DecidableEq, Inhabited

/-- A value. -/
inductive Toml where
  | bool (value : Bool)
  | int (value : Int)
  | str (value : String)
  /-- A number with a fraction, a date or a time. -/
  | other
  | arr (items : List Toml)
  | table (origin : Toml.Origin) (members : List (String × Toml))
  /-- The tables under headers in double brackets. -/
  | tables (items : List (List (String × Toml)))
  deriving Repr, Inhabited

namespace Toml

/-- The members of a table. -/
abbrev Members := List (String × Toml)

namespace Members

/-- The members with one replaced, or added at the end. -/
def put (ms : Members) (name : String) (v : Toml) : Members :=
  if (ms.lookup name).isSome then ms.map fun m => if m.1 = name then (name, v) else m
  else ms ++ [(name, v)]

/-- Adds a value under a key with dots: the path to it, and its name. The tables on the path are
    made, or were made by such keys before; the name may not be taken. -/
def add : List String → String → Toml → Members → Option Members
  | [], name, v, ms => if (ms.lookup name).isSome then none else some (ms ++ [(name, v)])
  | p :: path, name, v, ms =>
    match ms.lookup p with
    | none => (add path name v []).map fun sub => ms.put p (.table .dotted sub)
    | some (.table .dotted sub) =>
      (add path name v sub).map fun sub => ms.put p (.table .dotted sub)
    -- a table that a header implies gets no values by dotted keys, but tables below it may
    | some (.table .implied sub) =>
      if path.isEmpty then none
      else (add path name v sub).map fun sub => ms.put p (.table .implied sub)
    | some (.tables items) =>
      match path.isEmpty, items.getLast? with
      | false, some sub =>
        (add path name v sub).map fun sub => ms.put p (.tables (items.dropLast ++ [sub]))
      | _, _ => none
    | some _ => none

/-- Changes the table at the end of a path of names in a header. Tables on the way are made if they
    are missing; of tables under headers in double brackets the last one counts. -/
def change : List String → (Members → Option Members) → Members → Option Members
  | [], f, ms => f ms
  | p :: path, f, ms =>
    match ms.lookup p with
    | none => (change path f []).map fun sub => ms.put p (.table .implied sub)
    | some (.table .inline _) => none
    | some (.table origin sub) => (change path f sub).map fun sub => ms.put p (.table origin sub)
    -- a header leads into the last table of a list
    | some (.tables items) =>
      match items.getLast? with
      | some sub => (change path f sub).map fun sub => ms.put p (.tables (items.dropLast ++ [sub]))
      | none => none
    | some _ => none

/-- Opens the table of a header; no header may have opened it before. -/
def openTable (name : String) (ms : Members) : Option Members :=
  match ms.lookup name with
  | none => some (ms.put name (.table .header []))
  | some (.table .implied sub) => some (ms.put name (.table .header sub))
  | some _ => none

/-- Opens one more table of a header in double brackets. -/
def openTables (name : String) (ms : Members) : Option Members :=
  match ms.lookup name with
  | none => some (ms.put name (.tables [[]]))
  | some (.tables items) => some (ms.put name (.tables (items ++ [[]])))
  | some _ => none

end Members
end Toml
end Deadwood
