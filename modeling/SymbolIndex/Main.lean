import SymbolIndex.Program

/-!
The command line: reads arguments and directories and prints what the program answers.
-/

namespace SymbolIndex.Shell

/-- The tree below a directory, without what the exclusion keeps out.  Files stand in it by their
full path, and directories that cannot be read are empty. -/
partial def treeBelow (exclusion : Exclusion) (directory : String) : IO (List (Entry String)) := do
  let listed ← try (← IO.FS.realPath directory).readDir catch _ => pure #[]
  let mut entries := #[]
  for entry in listed do
    let path := directory ++ "/" ++ entry.fileName
    let kind ← try pure (some (← entry.path.symlinkMetadata).type) catch _ => pure none
    if kind == some .file then
      entries := entries.push (Entry.file entry.fileName path)
    else if kind == some .dir && !exclusion.excludes entry.fileName then
      entries := entries.push (Entry.directory entry.fileName (← treeBelow exclusion path))
  return entries.toList

/-- The files with what stands in them. -/
def load (files : List (FoundFile String)) : IO (List (FoundFile Stored)) :=
  files.mapM fun file => do
    let content ←
      try pure (Stored.bytes (← IO.FS.readBinFile file.content))
      catch e => pure (Stored.unreadable (toString e))
    return { relative := file.relative, content }

/-- Runs the program over a directory. -/
def index (options : Options) : IO Outcome := do
  let started ← IO.monoMsNow
  let isDirectory ← try pure (← (← IO.FS.realPath options.root).isDir) catch _ => pure false
  if options.root.isEmpty || !isDirectory then return Program.noDirectory options
  let exclusion := Exclusion.ofList options.excludes options.withoutUsual
  let files := Program.select options false (← treeBelow exclusion options.root)
  let isOver : IO Bool := do
    match options.timeout with
    | none => pure false
    | some seconds => pure (seconds * 1000 ≤ (← IO.monoMsNow) - started)
  let elapsed : IO Nat := do return (← IO.monoMsNow) - started
  if ← isOver then
    return Program.reporting options true (Program.searchTimedOut files.length (← elapsed))
  let loaded ← load files
  let timedOut ← isOver
  return Program.reporting options timedOut
    (Program.reportOf options loaded timedOut (← elapsed))

end SymbolIndex.Shell

open SymbolIndex in
def main (arguments : List String) : IO UInt32 := do
  let outcome ←
    match Options.parse (← IO.currentDir).toString arguments with
    | .error e => pure (Program.refused e)
    | .ok .help => pure (Program.saying Program.help)
    | .ok .version => pure (Program.saying (Program.version ++ "\n"))
    | .ok (.run options) => Shell.index options
  IO.print outcome.stdout
  IO.eprint outcome.stderr
  return outcome.exitCode.toUInt32
