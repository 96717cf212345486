import Docblock.Text.Basic

/-!
# Items of a TOML document

An item is a value, a table or a list of tables. Tables can be made in several ways, and the way a
table was made decides which later lines may add to it. Numbers that are not whole, dates and times
keep the text they are written by.
-/

set_option autoImplicit false

namespace Docblock.Toml

inductive Origin where
  | header
  | implied
  | dotted
  | inline
  deriving DecidableEq, Repr

inductive Item where
  | text (value : Text)
  | boolean (value : Bool)
  | integer (value : Int)
  | real (literal : Text)
  | moment (literal : Text)
  | array (items : List Item)
  | table (origin : Origin) (entries : List (Text × Item))
  | tables (all : List (List (Text × Item)))

abbrev Entries := List (Text × Item)

namespace Entries

def find? (key : Text) (entries : Entries) : Option Item :=
  (List.find? (fun entry => entry.1 == key) entries).map Prod.snd

def put (key : Text) (item : Item) : Entries → Entries
  | [] => [(key, item)]
  | entry :: rest => if entry.1 = key then (key, item) :: rest else entry :: put key item rest

def add (key : Text) (item : Item) (entries : Entries) : Option Entries :=
  if (entries.find? key).isNone then some (entries ++ [(key, item)]) else none

/-- Changes the table at a path. Tables on the way that are not there are made, those that are there
must be such as `enters` admits, and of a list of tables the last one is taken. -/
def within (made : Origin) (enters : Origin → Bool)
    (change : Origin → Entries → Option Entries) (origin : Origin) (entries : Entries) :
    List Text → Option Entries
  | [] => change origin entries
  | key :: path =>
      match entries.find? key with
      | none =>
          (within made enters change made [] path).map fun inner =>
            entries.put key (.table made inner)
      | some (.table inner held) =>
          if enters inner then
            (within made enters change inner held path).map fun held =>
              entries.put key (.table inner held)
          else none
      | some (.tables all) =>
          match all.getLast? with
          | none => none
          | some last =>
              (within made enters change .header last path).map fun last =>
                entries.put key (.tables (all.dropLast ++ [last]))
      | some _ => none

def takesDotted (origin : Origin) : Bool :=
  origin == .implied || origin == .dotted

/-- Adds an item below a table of the given origin. What stands before the last part of a key with
dots must name a table that such keys alone have made. -/
def assign (origin : Origin) (path : List Text) (key : Text) (item : Item) (entries : Entries) :
    Option Entries :=
  match path with
  | [] => entries.add key item
  | _ :: _ =>
      entries.within .dotted takesDotted
        (fun inner held => if inner = .dotted then held.add key item else none) origin path

end Entries

structure Pair where
  path : List Text
  key : Text
  item : Item

def Entries.assignAll (origin : Origin) : List Pair → Entries → Option Entries
  | [], entries => some entries
  | pair :: pairs, entries =>
      (entries.assign origin pair.path pair.key pair.item).bind (assignAll origin pairs)

structure Header where
  path : List Text
  key : Text
  repeats : Bool

/-- Adds a table with its pairs. A table of its own must not be there, unless the header of a table
inside it implied it; one more table of a list needs that list or makes it. -/
def Entries.addTable (header : Header) (pairs : List Pair) (entries : Entries) : Option Entries :=
  entries.within .implied (· != .inline) (fun _ held => do
    if header.repeats then
      let before ← match held.find? header.key with
        | none => some []
        | some (.tables all) => some all
        | some _ => none
      let table ← Entries.assignAll .header pairs []
      return held.put header.key (.tables (before ++ [table]))
    else
      let before ← match held.find? header.key with
        | none => some []
        | some (.table .implied inner) => some inner
        | some _ => none
      let table ← Entries.assignAll .header pairs before
      return held.put header.key (.table .header table)) .header header.path

def Entries.addTables : List (Header × List Pair) → Entries → Option Entries
  | [], entries => some entries
  | (header, pairs) :: rest, entries => (entries.addTable header pairs).bind (addTables rest)

end Docblock.Toml
