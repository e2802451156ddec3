/-!
# TOML tables

The values of a TOML document, and the rules by which headers and dotted keys build its
tables.

A key may be given once.  A table may be opened by a header once, it may be implied by a
longer header before that, and dotted keys may add to tables that dotted keys made and to no
others.  A table in braces is closed.  Each table therefore remembers its `Origin`, and every
way of reaching into a table goes through `alterAt`, which refuses a path that breaks these
rules.
-/

namespace AmqpEnvelope.Toml

/-- How a table came to be. -/
inductive Origin where
  /-- By a header of its own, or as the root. -/
  | header
  /-- As a part of a longer header. -/
  | implied
  /-- As a part of a dotted key. -/
  | dotted
  /-- In braces. -/
  | inline
deriving DecidableEq, Repr

/-- A value of a document. -/
inductive Value where
  | string (text : String)
  | integer (value : Int)
  | boolean (value : Bool)
  /-- A number with a fraction or an exponent, an infinity or no number.  Which one it is
  is not kept. -/
  | float
  /-- A date, a time or both.  Which one it is is not kept. -/
  | moment
  /-- Values in brackets. -/
  | array (elements : List Value)
  /-- Tables under headers in double brackets, the last apart. -/
  | tables (earlier : List (List (String × Value))) (last : List (String × Value))
  | table (origin : Origin) (entries : List (String × Value))

/-- The entries of a table, in the order in which they were given. -/
abbrev Entries := List (String × Value)

namespace Entries

/-- Replace the value of a key, or add it at the end. -/
def put (key : String) (value : Value) : Entries → Entries
  | [] => [(key, value)]
  | (k, v) :: rest => if k = key then (key, value) :: rest else (k, v) :: put key value rest

/-- Change the table at the end of a path.  Tables that are missing on the way are made;
`byDots` tells whether the path belongs to a dotted key or to a header. -/
def alterAt (byDots : Bool) (change : Origin → Entries → Option Entries) :
    (path : List String) → Origin → Entries → Option Entries
  | [], origin, entries => change origin entries
  | key :: path, _, entries =>
      match entries.lookup key with
      | none => do
          let origin := if byDots then .dotted else .implied
          return entries.put key (.table origin (← alterAt byDots change path origin []))
      | some (.table origin inner) =>
          if origin = .inline || (byDots && origin = .header) then none
          else do return entries.put key (.table origin (← alterAt byDots change path origin inner))
      | some (.tables earlier last) => do
          return entries.put key (.tables earlier (← alterAt byDots change path .header last))
      | some _ => none

/-- Add a key that is not present yet. -/
def add (key : String) (value : Value) (entries : Entries) : Option Entries :=
  if (entries.lookup key).isSome then none else some (entries ++ [(key, value)])

/-- Give a value to a key, which stands at the end of a path of dotted keys.  Such a path has
to end in a table that dotted keys made. -/
def assign (entries : Entries) (path : List String) (key : String) (value : Value) :
    Option Entries :=
  alterAt true
    (fun origin inner => if path.isEmpty || origin = .dotted then inner.add key value else none)
    path .header entries

end Entries

/-- A key, with the path of dotted keys in front of it, and its value. -/
structure Assignment where
  path : List String
  key : String
  value : Value

/-- Carry out assignments in order. -/
def Entries.assignAll (entries : Entries) (assignments : List Assignment) : Option Entries :=
  assignments.foldlM (fun entries a => entries.assign a.path a.key a.value) entries

/-- Add to the root the table that a header opens.  A table that was only implied so far
keeps what is in it. -/
def Entries.openTable (root : Entries) (path : List String) (key : String)
    (assignments : List Assignment) : Option Entries :=
  Entries.alterAt false
    (fun _ inner =>
      match inner.lookup key with
      | none => do return inner.put key (.table .header (← Entries.assignAll [] assignments))
      | some (.table .implied entries) => do
          return inner.put key (.table .header (← Entries.assignAll entries assignments))
      | some _ => none)
    path .header root

/-- Add to the root the next of the tables under a header in double brackets. -/
def Entries.openElement (root : Entries) (path : List String) (key : String)
    (assignments : List Assignment) : Option Entries :=
  Entries.alterAt false
    (fun _ inner =>
      match inner.lookup key with
      | none => do return inner.put key (.tables [] (← Entries.assignAll [] assignments))
      | some (.tables earlier last) => do
          return inner.put key (.tables (earlier ++ [last]) (← Entries.assignAll [] assignments))
      | some _ => none)
    path .header root

end AmqpEnvelope.Toml
