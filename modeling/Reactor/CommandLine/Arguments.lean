import Reactor.CommandLine.Duration
import Reactor.Text.Blank

/-!
# Arguments

The grammar of the command line. Options that every command knows may stand before the command and
after it; an option after the command replaces the same option before it.
-/

namespace Reactor.CommandLine

/-- How a command prints its result. -/
inductive OutputFormat where
  | text
  | json
  deriving DecidableEq, Repr

/-- What to do, and the arguments of that command. -/
inductive Command where
  | resolve (path : String) (format : OutputFormat)
  | order (path : String) (format : OutputFormat)
  | effective (path : String) (module : String)
  deriving DecidableEq, Repr

/-- The options that every command knows. -/
structure Options where
  verbosity : Nat
  failFast : Bool
  keepMissing : Bool
  timeout : Option Nanoseconds
  /-- Global properties, in the order given. -/
  defines : List (String × String)
  versionFile : Option String
  deriving Repr

inductive Request where
  | run (options : Options) (command : Command)
  | help
  | version
  deriving Repr

/-- The options and operands given on one side of the command's name. -/
structure Given where
  verbosity : Nat := 0
  failFast : Bool := false
  keepMissing : Bool := false
  timeout : Option Nanoseconds := none
  defines : List (String × String) := []
  versionFile : Option String := none
  format : Option OutputFormat := none
  module : Option String := none
  path : Option String := none

/-- Why reading arguments stops. -/
inductive Stop where
  | usageError
  | help
  | version
  deriving DecidableEq, Repr

inductive CommandName where
  | resolve
  | order
  | effective
  deriving DecidableEq, Repr

namespace CommandName

def ofText? : String → Option CommandName
  | "resolve" => some resolve
  | "order" => some order
  | "effective" => some effective
  | _ => none

def hasFormat : CommandName → Bool
  | resolve => true
  | order => true
  | effective => false

def hasModule (command : CommandName) : Bool :=
  command = effective

end CommandName

inductive ValueOption where
  | timeout
  | define
  | versionFile
  | format
  | module
  deriving DecidableEq, Repr

/-- Whether an option may stand where it does: before the command, or after the given one. -/
def ValueOption.isAllowed (command : Option CommandName) : ValueOption → Bool
  | .format => command.any CommandName.hasFormat
  | .module => command.any CommandName.hasModule
  | _ => true

def ValueOption.ofLong? : String → Option ValueOption
  | "timeout" => some .timeout
  | "define" => some .define
  | "version-file" => some .versionFile
  | "format" => some .format
  | "module" => some .module
  | _ => none

def ValueOption.ofShort? : Char → Option ValueOption
  | 'D' => some .define
  | 'm' => some .module
  | _ => none

/-- The key and value of a property definition. The first equals sign divides them, and the key,
trimmed, must not be empty. -/
def definition? (text : String) : Option (String × String) :=
  let key := Text.trimChars (text.toList.takeWhile (· ≠ '='))
  match text.toList.dropWhile (· ≠ '=') with
  | [] => none
  | _ :: value => if key.isEmpty then none else some (String.ofList key, String.ofList value)

def setOnce {α : Type} (old : Option α) (new : Option α) : Except Stop (Option α) :=
  match old, new with
  | none, some value => .ok (some value)
  | _, _ => .error .usageError

def outputFormat? : String → Option OutputFormat
  | "text" => some .text
  | "json" => some .json
  | _ => none

/-- A path as given, which must not be empty. -/
def pathArgument? (text : String) : Option String :=
  if text.isEmpty then none else some text

namespace Given

def setValue (given : Given) (option : ValueOption) (value : String) : Except Stop Given :=
  match option with
  | .timeout => do
    let timeout ← setOnce given.timeout (duration? value)
    .ok { given with timeout }
  | .define =>
    match definition? value with
    | some entry => .ok { given with defines := given.defines ++ [entry] }
    | none => .error .usageError
  | .versionFile => do
    let versionFile ← setOnce given.versionFile (pathArgument? value)
    .ok { given with versionFile }
  | .format => do
    let format ← setOnce given.format (outputFormat? value)
    .ok { given with format }
  | .module => do
    let module ← setOnce given.module (some value)
    .ok { given with module }

/-- Takes in an option without a value, by its long name. -/
def setFlag (given : Given) (command : Option CommandName) (name : String) : Except Stop Given :=
  match name with
  | "verbose" => .ok { given with verbosity := given.verbosity + 1 }
  | "fail-fast" =>
    if given.failFast then .error .usageError else .ok { given with failFast := true }
  | "keep-missing" =>
    if given.keepMissing then .error .usageError else .ok { given with keepMissing := true }
  | "help" => .error .help
  | "version" => .error (if command.isNone then .version else .usageError)
  | _ => .error .usageError

/-- Takes in an operand after the command: the path, once. -/
def setPath (given : Given) (text : String) : Except Stop Given := do
  let path ← setOnce given.path (pathArgument? text)
  .ok { given with path }

end Given

/-- The long name of an option without a value, by its one-letter name. -/
def flagOfShort? : Char → Option String
  | 'v' => some "verbose"
  | 'h' => some "help"
  | 'V' => some "version"
  | _ => none

/-- Takes in the letters of a group of one-letter options. The first one that takes a value takes
the rest of the group, less a leading equals sign, or waits for the next argument. -/
def readShort (command : Option CommandName) (given : Given) :
    List Char → Except Stop (Given × Option ValueOption)
  | [] => .ok (given, none)
  | letter :: rest =>
    match ValueOption.ofShort? letter with
    | some option =>
      if option.isAllowed command then
        match rest with
        | [] => .ok (given, some option)
        | '=' :: value => (·, none) <$> given.setValue option (String.ofList value)
        | value => (·, none) <$> given.setValue option (String.ofList value)
      else .error .usageError
    | none =>
      match flagOfShort? letter with
      | some name => do
        let given ← given.setFlag command name
        readShort command given rest
      | none => .error .usageError

/-- Takes in a long option, given without its two dashes. -/
def readLong (command : Option CommandName) (given : Given) (text : String) :
    Except Stop (Given × Option ValueOption) :=
  let name := String.ofList (text.toList.takeWhile (· ≠ '='))
  match ValueOption.ofLong? name, text.toList.dropWhile (· ≠ '=') with
  | some option, value =>
    if option.isAllowed command then
      match value with
      | [] => .ok (given, some option)
      | _ :: value => (·, none) <$> given.setValue option (String.ofList value)
    else .error .usageError
  | none, [] => (·, none) <$> given.setFlag command name
  | none, _ => .error .usageError

/-- Whether an argument is read as options: it starts with a dash and is not just a dash. -/
def looksLikeOption (argument : String) : Bool :=
  argument.toList.head? = some '-' && argument ≠ "-"

def readOption (command : Option CommandName) (given : Given) (argument : String) :
    Except Stop (Given × Option ValueOption) :=
  match argument.toList with
  | '-' :: '-' :: text => readLong command given (String.ofList text)
  | _ :: letters => readShort command given letters
  | [] => .ok (given, none)

/-- Takes in the arguments after a command. An option may wait for its value, and two dashes end the
options. -/
def readAfter (command : CommandName) (given : Given) :
    Option ValueOption → Bool → List String → Except Stop Given
  | none, _, [] => .ok given
  | some _, _, [] => .error .usageError
  | _, true, argument :: rest => do
    let given ← given.setPath argument
    readAfter command given none true rest
  | some option, false, argument :: rest =>
    if looksLikeOption argument then .error .usageError
    else do
      let given ← given.setValue option argument
      readAfter command given none false rest
  | none, false, argument :: rest =>
    if argument = "--" then readAfter command given none true rest
    else if looksLikeOption argument then do
      let (given, waiting) ← readOption (some command) given argument
      readAfter command given waiting false rest
    else do
      let given ← given.setPath argument
      readAfter command given none false rest

/-- Whether help can be given on what follows the word `help`: nothing, or the name of one
command. -/
def isHelpTopic : List String → Bool
  | [] => true
  | [name] => name = "help" || (CommandName.ofText? name).isSome
  | _ => false

/-- Takes in the arguments up to the command, and those after it. -/
def readBefore (given : Given) :
    Option ValueOption → List String → Except Stop (Given × CommandName × Given)
  | _, [] => .error .usageError
  | some option, argument :: rest =>
    if looksLikeOption argument then .error .usageError
    else do
      let given ← given.setValue option argument
      readBefore given none rest
  | none, argument :: rest =>
    if argument = "--" then .error .usageError
    else if looksLikeOption argument then do
      let (given, waiting) ← readOption none given argument
      readBefore given waiting rest
    else
      match CommandName.ofText? argument with
      | some command => do
        let after ← readAfter command {} none false rest
        .ok (given, command, after)
      | none =>
        .error (if argument = "help" ∧ isHelpTopic rest then .help else .usageError)

/-- The options given before and after a command as one. -/
def Options.ofGiven (before after : Given) : Options where
  verbosity := if after.verbosity = 0 then before.verbosity else after.verbosity
  failFast := before.failFast || after.failFast
  keepMissing := before.keepMissing || after.keepMissing
  timeout := after.timeout.or before.timeout
  defines := if after.defines.isEmpty then before.defines else after.defines
  versionFile := after.versionFile.or before.versionFile

def Command.ofGiven (command : CommandName) (given : Given) : Command :=
  let path := given.path.getD "."
  match command with
  | .resolve => .resolve path (given.format.getD .text)
  | .order => .order path (given.format.getD .text)
  | .effective => .effective path (given.module.getD "")

/-- What a command line asks for, unless it breaks the grammar. -/
def request? (arguments : List String) : Option Request :=
  match readBefore {} none arguments with
  | .ok (before, command, after) =>
    some (.run (.ofGiven before after) (.ofGiven command after))
  | .error .help => some .help
  | .error .version => some .version
  | .error .usageError => none

end Reactor.CommandLine
