import ProtoRecovery.Number.Decimal
import ProtoRecovery.Recovery.State
/-!
What a command line asks for.

The first word that is no option names the kind of metadata. Then come two paths and any options, in
any order. Options are read from left to right, and the first one that asks for help or is not right
ends the reading.
-/

namespace ProtoRecovery.Command

open Number (Binary32)

/-- Where metadata comes from. -/
inductive Source where
  /-- A dump of assemblies, or a directory of them. -/
  | managed (target : String)
  /-- A dump of tables, and the version to take it for. -/
  | il2cpp (metadata : String) (version : Option Binary32)
deriving DecidableEq, Repr

/-- What is to be done. -/
structure Request where
  source : Source
  output : String
  options : Recovery.Options
  /-- Whether to recover services from their servers. -/
  servers : Bool
  /-- Whether to recover services from their clients. -/
  clients : Bool
  /-- A file with a dictionary of names. -/
  names : Option String
  /-- A file for the descriptors. -/
  descriptors : Option String
deriving DecidableEq, Repr

/-- Why nothing is to be done. -/
inductive Stop where
  /-- Help was asked for. -/
  | help
  /-- The version was asked for, of the program or of one of its commands. -/
  | version (command : Option String)
  /-- The command line is not right. -/
  | misuse
deriving DecidableEq, Repr

/-- An option that is given or not. -/
inductive Flag where
  | skipEnums
  | allProperties
  | allMethods
  | servers
  | clients
deriving DecidableEq, Repr

/-- An option with a value. -/
inductive Parameter where
  | names
  | descriptors
  | version
deriving DecidableEq, Repr

/-- The flag of a name. -/
def Flag.ofName? : String → Option Flag
  | "skip-enums" => some .skipEnums
  | "include-properties-without-non-user-code-attribute" => some .allProperties
  | "include-service-methods-without-generated-code-attribute" => some .allMethods
  | "parse-service-servers" => some .servers
  | "parse-service-clients" => some .clients
  | _ => none

/-- The parameter of a name. Only tables have a version. -/
def Parameter.ofName? (hasVersion : Bool) : String → Option Parameter
  | "name-map" => some .names
  | "descriptor-set" => some .descriptors
  | "metadata-version" => if hasVersion then some .version else none
  | _ => none

/-- Whether a value is one that a parameter takes. -/
def Parameter.accepts (p : Parameter) (value : String) : Bool :=
  match p with
  | .names | .descriptors => !value.isEmpty
  | .version => (Binary32.parse? value).isSome

/-- What has been read so far. -/
structure Draft where
  paths : List String := []
  flags : List Flag := []
  values : List (Parameter × String) := []
deriving DecidableEq, Repr

namespace Draft

/-- Adds a path; there are two, and neither is empty. -/
def addPath (d : Draft) (path : String) : Except Stop Draft :=
  if path.isEmpty || 2 ≤ d.paths.length then .error .misuse
  else .ok { d with paths := d.paths ++ [path] }

/-- Adds a flag that is not there yet. -/
def addFlag (d : Draft) (flag : Flag) : Except Stop Draft :=
  if flag ∈ d.flags then .error .misuse else .ok { d with flags := d.flags ++ [flag] }

/-- Gives a parameter its value, once. -/
def addValue (d : Draft) (p : Parameter) (value : String) : Except Stop Draft :=
  if (d.values.lookup p).isSome || !p.accepts value then .error .misuse
  else .ok { d with values := d.values ++ [(p, value)] }

end Draft

/-- A word on a command line. -/
inductive Word where
  /-- The mark behind which every word is a path. -/
  | separator
  /-- An option by name, and the value that is attached to it. -/
  | long (name : String) (value : Option String)
  /-- Options by one letter each. -/
  | short (letters : List Char)
  /-- Any other word. -/
  | plain (text : String)
deriving DecidableEq, Repr

/-- Tells what a word is. A single dash is a plain word. -/
def Word.ofString (s : String) : Word :=
  match s.toList with
  | ['-', '-'] => .separator
  | '-' :: '-' :: rest =>
    let name := String.ofList (rest.takeWhile (· != '='))
    match rest.dropWhile (· != '=') with
    | [] => .long name none
    | _ :: value => .long name (some (String.ofList value))
  | '-' :: letter :: rest => .short (letter :: rest)
  | _ => .plain s

/-- Reads options of one letter. Verbosity asks for nothing here. -/
def readLetters (command : Option String) : List Char → Except Stop Unit
  | [] => .ok ()
  | 'v' :: rest => readLetters command rest
  | 'h' :: _ => .error .help
  | 'V' :: _ => .error (.version command)
  | _ => .error .misuse

/-- Reads an option that every command has; `false` if it is none. -/
def readCommon (command : Option String) (name : String) (value : Option String) :
    Except Stop Bool :=
  match name, value with
  | "verbose", none => .ok true
  | "help", none => .error .help
  | "version", none => .error (.version command)
  | "verbose", some _ | "help", some _ | "version", some _ => .error .misuse
  | _, _ => .ok false

/-- Reads the words after the name of a command. `pending` is the parameter that waits for its
value. -/
def readWords (command : String) (hasVersion : Bool) :
    (pending : Option Parameter) → List String → Draft → Except Stop Draft
  | none, [], d => .ok d
  | some _, [], _ => .error .misuse
  | some p, word :: rest, d =>
    match Word.ofString word with
    | .plain value => do readWords command hasVersion none rest (← d.addValue p value)
    | _ => .error .misuse
  | none, word :: rest, d =>
    match Word.ofString word with
    | .separator => rest.foldlM Draft.addPath d
    | .short letters => do
      readLetters (some command) letters
      readWords command hasVersion none rest d
    | .plain path => do readWords command hasVersion none rest (← d.addPath path)
    | .long name value => do
      if ← readCommon (some command) name value then readWords command hasVersion none rest d
      else
        match Flag.ofName? name, Parameter.ofName? hasVersion name, value with
        | some flag, _, none => readWords command hasVersion none rest (← d.addFlag flag)
        | none, some p, some value => readWords command hasVersion none rest (← d.addValue p value)
        | none, some p, none => readWords command hasVersion (some p) rest d
        | _, _, _ => .error .misuse

/-- What a draft asks for, if it has both paths. -/
def Draft.request (d : Draft) (source : String → Source) : Except Stop Request :=
  match d.paths with
  | [input, output] =>
    .ok {
      source := source input
      output
      options :=
        { skipEnums := d.flags.contains .skipEnums
          allProperties := d.flags.contains .allProperties
          allMethods := d.flags.contains .allMethods }
      servers := d.flags.contains .servers
      clients := d.flags.contains .clients
      names := d.values.lookup .names
      descriptors := d.values.lookup .descriptors }
  | _ => .error .misuse

/-- The names of the commands. -/
def commands : List String := ["clr", "il2cpp", "help"]

/-- Reads the words after `help`: at most one, the name of a command. -/
def readHelp : List String → Stop
  | [] => .help
  | [name] => if commands.contains name then .help else .misuse
  | _ => .misuse

/-- Reads a command line. -/
def read : List String → Except Stop Request
  | [] => .error .misuse
  | word :: rest =>
    match word with
    | "clr" => do (← readWords "clr" false none rest {}).request .managed
    | "il2cpp" => do
      let d ← readWords "il2cpp" true none rest {}
      d.request fun metadata => .il2cpp metadata ((d.values.lookup .version).bind Binary32.parse?)
    | "help" => .error (readHelp rest)
    | _ =>
      match Word.ofString word with
      | .short letters => do
        readLetters none letters
        read rest
      | .long name value => do
        if ← readCommon none name value then read rest else .error .misuse
      | _ => .error .misuse

end ProtoRecovery.Command
