import MarkupLoader.Config
import MarkupLoader.Dump
import MarkupLoader.Load.Component
import MarkupLoader.Schema.Controls

/-!
# The command line

The command loads one component from a directory of files and prints it as JSON. Everything it
says is decided here, from its arguments and from what the files hold; reading and printing are
left to the caller.

* **Arguments** (`Options.read`): a directory, the full name of a class, and options in any place.
* **Running** (`run`): the configuration is applied first, then the directory is opened, then the
  component is loaded. The first failure ends the run.
-/

namespace MarkupLoader.CommandLine

/-! ## Arguments -/

/-- What the command is asked to do. -/
structure Options where
  directory : String
  className : String
  config : Option String
  tolerant : Bool
  verbose : Bool
deriving DecidableEq, Repr

/-- Why arguments make no sense. -/
inductive UsageFault where
  | missingConfigPath
  | unknownOption (name : String)
  /-- There are not exactly two arguments that are no options. -/
  | wrongCount
deriving DecidableEq, Repr

/-- The wording of a fault. -/
def UsageFault.message : UsageFault → String
  | missingConfigPath => "--config requires a path"
  | unknownOption name => s!"Unknown option {name}"
  | wrongCount =>
    "Usage: mini-xaml <bundle-dir> <Full.Type.Name> [--config loader.json] [--tolerant] [--verbose]"

/-- The arguments read so far. -/
structure Reading where
  positional : List String
  config : Option String
  tolerant : Bool
  verbose : Bool

namespace Options

/-- Reads arguments. The one after `--config` is its path, whatever it looks like. -/
def readFrom (r : Reading) : List String → Except UsageFault Reading
  | [] => .ok r
  | "--config" :: rest =>
    match rest with
    | [] => .error .missingConfigPath
    | path :: rest => readFrom { r with config := some path } rest
  | argument :: rest =>
    if argument = "--tolerant" then readFrom { r with tolerant := true } rest
    else if argument = "--verbose" ∨ argument = "-v" then
      readFrom { r with verbose := true } rest
    else if "--".toList.isPrefixOf argument.toList then .error (.unknownOption argument)
    else readFrom { r with positional := r.positional ++ [argument] } rest

/-- Reads all arguments. -/
def read (arguments : List String) : Except UsageFault Options := do
  let r ← readFrom ⟨[], none, false, false⟩ arguments
  match r.positional with
  | [directory, className] => return ⟨directory, className, r.config, r.tolerant, r.verbose⟩
  | _ => throw .wrongCount

end Options

/-! ## Running -/

/-- What the command leaves: its exit code and what it prints. -/
structure Output where
  code : Nat
  stdout : String
  stderr : String
deriving DecidableEq, Repr

namespace Output

/-- Arguments that make no sense. -/
def ofUsage (fault : UsageFault) : Output := ⟨2, "", fault.message ++ "\n"⟩

/-- A run that failed. -/
def ofFailure (message : String) : Output := ⟨1, "", "❌ " ++ message ++ "\n"⟩

/-- A run that loaded a component. -/
def ofReport (report : Report) (h : Heap) : Output :=
  ⟨0, (h.dump (.object report.root)).print ++ "\n",
    String.join (report.diagnostics.map fun e => "⚠️  " ++ e.message ++ "\n")⟩

end Output

/-- The name of the bundle of a directory: the last part of its path, if that is a name. -/
def bundleName (directory : String) : String :=
  let parts := (Text.splitAt '/' directory).filter fun part => part ≠ "" ∧ part ≠ "."
  match parts.getLast? with
  | none => "bundle"
  | some part => if part = ".." then "bundle" else part

/-- The error of a configuration file that is missing. -/
def missingConfig (path : String) : LoadError := .config s!"cannot read {path}"

/-- The error of a configuration file that holds no text. -/
def garbledConfig (path : String) : LoadError :=
  .config s!"cannot read {path}: stream did not contain valid UTF-8"

/-- The configuration to apply, given what the file at its path holds, if there is one. -/
def readConfig (o : Options) (file : Option ByteArray) : Except LoadError (Option Config) :=
  match o.config with
  | none => .ok none
  | some path =>
    match file with
    | none => .error (missingConfig path)
    | some content =>
      match String.fromUTF8? content with
      | none => .error (garbledConfig path)
      | some text => (Config.read text).map some

/-- The loader that the options and the configuration ask for. -/
def loader (o : Options) (config : Option Config) : Except LoadError Loader :=
  match config with
  | none => .ok ⟨⟨.controls, .builtIn⟩, o.tolerant⟩
  | some config =>
    match config.apply .controls with
    | (none, registry) => .ok ⟨⟨registry, .builtIn⟩, o.tolerant || config.tolerant⟩
    | (some error, _) => .error error

/-- Loads a component from a bundle. -/
def load (l : Loader) (c : Component) : Except LoadError Report × Heap :=
  match l.createComponent ⟨none⟩ .empty .empty c with
  | (.error error, _) => (.error error, .empty)
  | (.ok (target, h), cache) =>
    let (outcome, _) := l.loadComponent ⟨none⟩ cache h target c
    (outcome.result, outcome.heap)

/-- Runs the command, given what the configuration file holds and the files below the directory,
each if it can be read. -/
def run (o : Options) (config : Option ByteArray) (files : Option (List File)) : Output :=
  match (readConfig o config).bind (loader o) with
  | .error error => .ofFailure error.message
  | .ok l =>
    match files with
    | none => .ofFailure s!"Failed to open {o.directory}"
    | some files =>
      match load l ⟨o.className, .ofFiles (bundleName o.directory) files⟩ with
      | (.error error, _) => .ofFailure error.message
      | (.ok report, h) => .ofReport report h

end MarkupLoader.CommandLine
