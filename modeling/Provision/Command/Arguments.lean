/-!
# Command line arguments

A grammar lists the switches of a command. Arguments are read from left to right: long switches
with their value after an equals sign or in the next argument, short ones in clusters, and what is
neither is positional. Reading stops at the first argument that breaks the grammar or asks for help
or the version.
-/

namespace Provision

/-- Why a command is not run. -/
inductive Stop
  | usage
  | help
  | version
deriving DecidableEq, Repr

/-- What a switch does. -/
inductive SwitchKind
  | flag
  /-- A flag that may be repeated. -/
  | counter
  /-- A switch with a value that passes a test. -/
  | value (accepts : String → Bool)
  | stop (reason : Stop)

/-- A switch of a command. -/
structure Switch where
  long : String
  short : Option Char
  kind : SwitchKind

/-- The switches of a command, and how many positional arguments it takes. -/
structure Grammar where
  switches : List Switch
  positionals : Nat

/-- What arguments gave: values by switch, and the positional arguments, both last one first. -/
structure Given where
  values : List (String × String)
  positionals : List String

namespace Given

def nothing : Given := ⟨[], []⟩

/-- The value given for a switch. -/
def value? (given : Given) (long : String) : Option String :=
  given.values.lookup long

/-- Whether a switch was given. -/
def has (given : Given) (long : String) : Bool :=
  (given.value? long).isSome

/-- Adds an occurrence of a switch; only counters may be repeated. -/
def add (given : Given) (switch : Switch) (value : String) : Except Stop Given :=
  let added := { given with values := (switch.long, value) :: given.values }
  match switch.kind with
  | .counter => .ok added
  | .flag => if given.has switch.long then .error .usage else .ok added
  | .value accepts =>
    if given.has switch.long || !accepts value then .error .usage else .ok added
  | .stop reason => .error reason

end Given

namespace Grammar

/-- Whether a switch takes a value. -/
def takesValue : SwitchKind → Bool
  | .value _ => true
  | _ => false

/-- Reads a cluster of short switches. The last one may still lack its value. -/
def shortCluster (grammar : Grammar) : List Char → Given → Except Stop (Given × Option Switch)
  | [], given => .ok (given, none)
  | c :: rest, given =>
    match grammar.switches.find? (·.short == some c) with
    | none => .error .usage
    | some switch =>
      if takesValue switch.kind then
        match rest with
        | [] => .ok (given, some switch)
        | '=' :: value => return (← given.add switch (String.ofList value), none)
        | value => return (← given.add switch (String.ofList value), none)
      else do grammar.shortCluster rest (← given.add switch "")

/-- Reads a long switch. It may still lack its value. -/
def longSwitch (grammar : Grammar) (text : List Char) (given : Given) :
    Except Stop (Given × Option Switch) :=
  let name := String.ofList (text.takeWhile (· != '='))
  match grammar.switches.find? (·.long == name) with
  | none => .error .usage
  | some switch =>
    match text.dropWhile (· != '='), takesValue switch.kind with
    | _ :: value, true => return (← given.add switch (String.ofList value), none)
    | [], true => .ok (given, some switch)
    | [], false => return (← given.add switch "", none)
    | _ :: _, false => .error .usage

/-- Reads a switch; none for a positional argument. -/
def switch? (grammar : Grammar) (argument : String) (given : Given) :
    Option (Except Stop (Given × Option Switch)) :=
  match argument.toList with
  | '-' :: '-' :: text => some (grammar.longSwitch text given)
  | '-' :: c :: rest => some (grammar.shortCluster (c :: rest) given)
  | _ => none

/-- Whether an argument can be the value of the switch before it. -/
def mayBeValue (argument : String) : Bool :=
  match argument.toList with
  | '-' :: _ :: _ => false
  | _ => true

/-- Adds a positional argument, if the command takes one more. -/
def addPositional (grammar : Grammar) (argument : String) (given : Given) : Except Stop Given :=
  if given.positionals.length < grammar.positionals then
    .ok { given with positionals := argument :: given.positionals }
  else .error .usage

/-- Adds positional arguments. -/
def addPositionals (grammar : Grammar) : List String → Given → Except Stop Given
  | [], given => .ok given
  | argument :: rest, given => do
    grammar.addPositionals rest (← grammar.addPositional argument given)

/-- Reads arguments. A grammar for what comes before a command's name stops at the first positional
argument and gives back the arguments from there. -/
def read (grammar : Grammar) (toName : Bool) : List String → Given →
    Except Stop (Given × List String)
  | [], given => .ok (given, [])
  | "--" :: rest, given =>
    if toName then .error .usage
    else return (← grammar.addPositionals rest given, [])
  | argument :: rest, given =>
    match grammar.switch? argument given with
    | none =>
      if toName then .ok (given, argument :: rest)
      else do grammar.read toName rest (← grammar.addPositional argument given)
    | some (.error stop) => .error stop
    | some (.ok (given, none)) => grammar.read toName rest given
    | some (.ok (given, some switch)) =>
      match rest with
      | [] => .error .usage
      | value :: rest =>
        if mayBeValue value then do grammar.read toName rest (← given.add switch value)
        else .error .usage

end Grammar

end Provision
