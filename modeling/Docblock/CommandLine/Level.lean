import Docblock.Text.Basic

/-!
# Levels of a command line

A command and each of its subcommands is a level with options and operands of its own. The
arguments are read from left to right. An option's value and operands take effect when something
else follows them or when the arguments end; a refusal for another reason that comes before that
takes precedence over what is wrong with them.
-/

set_option autoImplicit false

namespace Docblock.CommandLine

inductive Refusal where
  | unknownArgument
  | invalidSubcommand
  | argumentConflict
  | missingRequiredArgument
  | missingSubcommand
  | invalidValue
  | tooManyValues
  | displayHelp
  | displayVersion
  | displayHelpOnMissingArgumentOrSubcommand
  deriving DecidableEq, Repr

inductive Purpose where
  | switch
  /-- It has a value, which must not be empty if it is a path; some can be given repeatedly. -/
  | value (isPath repeats : Bool)
  | help
  | version
  deriving DecidableEq

structure Choice where
  long : Text
  short : Option Char
  purpose : Purpose
  deriving DecidableEq

inductive Operands where
  | none
  | one (isPath hyphens : Bool)
  | paths
  deriving DecidableEq

structure Level where
  choices : List Choice
  operands : Operands
  subcommands : List Text

inductive Pending where
  | value (name : Text) (isPath repeats : Bool) (given : Option Text)
  | operands (arePaths : Bool) (given : List Text)

structure Reading where
  switches : List Text := []
  values : List (Text × Text) := []
  operands : List Text := []
  pending : Option Pending := none

namespace Reading

def awaits (reading : Reading) : Bool :=
  match reading.pending with
  | some (.value _ _ _ none) => true
  | _ => false

def hasOperand (reading : Reading) : Bool :=
  !reading.operands.isEmpty || match reading.pending with
    | some (.operands _ _) => true
    | _ => false

def isEmpty (reading : Reading) : Bool :=
  reading.switches.isEmpty && reading.values.isEmpty && reading.operands.isEmpty

def turnOn (name : Text) (reading : Reading) : Except Refusal Reading :=
  if reading.switches.contains name then .error .argumentConflict
  else .ok { reading with switches := reading.switches ++ [name] }

def give (name : Text) (isPath repeats : Bool) (value : Text) (reading : Reading) :
    Except Refusal Reading :=
  if !repeats && reading.values.any (·.1 == name) then .error .argumentConflict
  else if isPath && value.isEmpty then .error .invalidValue
  else .ok { reading with values := reading.values ++ [(name, value)] }

def settle (reading : Reading) : Except Refusal Reading :=
  let settled := { reading with pending := none }
  match reading.pending with
  | none => .ok settled
  | some (.value _ _ _ none) => .error .invalidValue
  | some (.value name isPath repeats (some value)) => settled.give name isPath repeats value
  | some (.operands arePaths given) =>
      if arePaths && given.any List.isEmpty then .error .invalidValue
      else .ok { settled with operands := settled.operands ++ given }

def value? (name : Text) (reading : Reading) : Option Text :=
  (reading.values.reverse.find? (·.1 == name)).map Prod.snd

def valuesOf (name : Text) (reading : Reading) : List Text :=
  (reading.values.filter (·.1 == name)).map Prod.snd

def isOn (name : Text) (reading : Reading) : Bool :=
  reading.switches.contains name

end Reading

namespace Choice

def take (choice : Choice) (attached : Option Text) (reading : Reading) : Except Refusal Reading :=
  match choice.purpose, attached with
  | .value isPath repeats, some value => do
      (← reading.settle).give choice.long isPath repeats value
  | .value isPath repeats, none => do
      return { ← reading.settle with pending := some (.value choice.long isPath repeats none) }
  | _, some _ => .error .tooManyValues
  | .switch, none => do (← reading.settle).turnOn choice.long
  | .help, none => do
      let _ ← reading.settle
      .error .displayHelp
  | .version, none => do
      let _ ← reading.settle
      .error .displayVersion

end Choice

namespace Level

def long? (level : Level) (name : Text) : Option Choice :=
  level.choices.find? (·.long == name)

def short? (level : Level) (name : Char) : Option Choice :=
  level.choices.find? (·.short == some name)

def takesHyphens (level : Level) (reading : Reading) : Bool :=
  match level.operands with
  | .one _ hyphens => hyphens && !reading.hasOperand
  | _ => false

def takeOperand (level : Level) (trailing : Bool) (argument : Text) (reading : Reading) :
    Except Refusal Reading :=
  match level.operands, reading.pending with
  | .none, _ =>
      if trailing && level.subcommands.contains argument then .error .unknownArgument
      else .error .invalidSubcommand
  | .one isPath _, _ =>
      if reading.hasOperand then .error .unknownArgument
      else do return { ← reading.settle with pending := some (.operands isPath [argument]) }
  | .paths, some (.operands arePaths given) =>
      .ok { reading with pending := some (.operands arePaths (given ++ [argument])) }
  | .paths, _ => do
      return { ← reading.settle with pending := some (.operands true [argument]) }

def takeValue (level : Level) (argument : Text) (reading : Reading) : Except Refusal Reading :=
  match reading.pending with
  | some (.value name isPath repeats none) =>
      .ok { reading with pending := some (.value name isPath repeats (some argument)) }
  | _ => level.takeOperand false argument reading

/-- Takes short names that are written together. What follows a name whose option has a value is this
value, with or without an equals sign in front of it. -/
def takeShort (level : Level) : Text → Reading → Except Refusal Reading
  | [], reading => .ok reading
  | name :: rest, reading =>
      match level.short? name with
      | none => .error .unknownArgument
      | some choice =>
          match choice.purpose with
          | .value _ _ =>
              let attached := match rest with
                | [] => none
                | '=' :: value => some value
                | value => some value
              choice.take attached reading
          | _ => do level.takeShort rest (← choice.take none reading)

def takeLong (level : Level) (whole name : Text) (attached : Option Text) (reading : Reading) :
    Except Refusal Reading :=
  match level.long? name with
  | some choice => choice.take attached reading
  | none =>
      if level.takesHyphens reading then level.takeValue whole reading
      else .error .unknownArgument

def takeArgument (level : Level) (argument : Text) (reading : Reading) : Except Refusal Reading :=
  match argument with
  | '-' :: '-' :: c :: rest =>
      match Text.splitOnce '=' (c :: rest) with
      | some (name, value) => level.takeLong argument name (some value) reading
      | none => level.takeLong argument (c :: rest) none reading
  | '-' :: c :: rest =>
      if level.takesHyphens reading && (c :: rest).any fun name => (level.short? name).isNone then
        level.takeValue argument reading
      else level.takeShort (c :: rest) reading
  | _ => level.takeValue argument reading

/-- Reads arguments up to a subcommand: what has been read, and the subcommand with what follows it. -/
def read (level : Level) (trailing : Bool) (reading : Reading) :
    List Text → Except Refusal (Reading × List Text)
  | [] => .ok (reading, [])
  | argument :: rest =>
      if trailing then do level.read true (← level.takeOperand true argument reading) rest
      else if !reading.awaits && level.subcommands.contains argument then
        .ok (reading, argument :: rest)
      else if argument = ['-', '-'] then level.read true reading rest
      else do level.read false (← level.takeArgument argument reading) rest

end Level

end Docblock.CommandLine
