import JavaSema.CommandLine.Basic

/-!
# The program

Reads from the disk what a command line refers to, runs the command and prints the outcome.
-/

namespace JavaSema.Main

/-- Adds what is on the disk at a path: a file, or a directory without what is in it. -/
def addPath (tree : FileTree) (path : String) : IO FileTree := do
  let onDisk := (← IO.currentDir) / path
  if ← onDisk.isDir then return tree.makeDirectory path
  else if ← onDisk.pathExists then
    return tree.write path (.bytes (← IO.FS.readBinFile onDisk).toList)
  else return tree

/-- Adds what is on the disk at a path and, if that is a directory, all that is in it. -/
partial def addAll (tree : FileTree) (path : String) : IO FileTree := do
  let mut tree ← addPath tree path
  let onDisk := (← IO.currentDir) / path
  if ← onDisk.isDir then
    for e in ← onDisk.readDir do
      tree ← addAll tree (Path.join path e.fileName)
  return tree

/-- The files that a command line refers to: the settings, and the class path that they give. -/
def readFiles (args : List String) : IO FileTree := do
  match CommandLine.Request.parse? args with
  | some (.run options _) =>
    let tree ← addPath {} (options.config.getD CommandLine.defaultConfig)
    (CommandLine.classPathOf tree options).foldlM addAll tree
  | _ => return {}

end JavaSema.Main

/-- Runs the program and gives its exit code. -/
def main (args : List String) : IO UInt32 := do
  let outcome := JavaSema.CommandLine.run (← JavaSema.Main.readFiles args) args
  IO.print outcome.stdout
  IO.eprint outcome.stderr
  return outcome.code.toUInt32
