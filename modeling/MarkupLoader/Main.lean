import MarkupLoader.CommandLine

/-!
# The command

Reads the files that the arguments name and prints what `CommandLine.run` answers.
-/

namespace MarkupLoader.Main

/-- The files below a directory, each with the parts of its path after `parts`. -/
partial def filesBelow (directory : String) (parts : List String) : IO (List File) := do
  let root ← IO.FS.realPath directory
  let mut files := []
  for entry in ← root.readDir do
    let path := parts ++ [entry.fileName]
    if ← entry.path.isDir then
      files := files ++ (← filesBelow entry.path.toString path)
    else
      files := files ++ [⟨path, ← IO.FS.readBinFile entry.path⟩]
  return files

/-- What an action gives, if it does not fail. -/
def attempt (action : IO α) : IO (Option α) := do
  match ← action.toBaseIO with
  | .ok a => return some a
  | .error _ => return none

/-- Runs the command with some arguments and gives its exit code. -/
def run (arguments : List String) : IO UInt32 := do
  let output ← match CommandLine.Options.read arguments with
    | .error fault => pure (.ofUsage fault)
    | .ok o =>
      let config ← match o.config with
        | none => pure none
        | some path => attempt (IO.FS.readBinFile path)
      pure (CommandLine.run o config (← attempt (filesBelow o.directory [])))
  IO.eprint output.stderr
  IO.print output.stdout
  return output.code.toUInt32

end MarkupLoader.Main

/-- The command. -/
def main (arguments : List String) : IO UInt32 := MarkupLoader.Main.run arguments
