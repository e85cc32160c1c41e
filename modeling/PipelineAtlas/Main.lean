import PipelineAtlas.CommandLine.Run

/-! The program: reads what stands at the paths that the arguments name, runs the command, prints
what it gives, and ends with its exit code. -/
namespace PipelineAtlas

/-- The file or the directory behind an entry. What cannot be read, and what is neither, is left
out. -/
partial def readTree (entry : IO.FS.DirEntry) : IO (Option FileTree) := do
  try
    match (← entry.path.symlinkMetadata).type with
    | .dir =>
      let entries ← (← entry.path.readDir).toList.filterMapM fun child => do
        return (← readTree child).map fun t => (child.fileName,t)
      return some (.directory entries)
    | .file => return some (.file (.ofBytes (← IO.FS.readBinFile entry.path)))
    | _ => return none
  catch _ => return none

def readPaths (paths : List String) : IO Paths := do
  let found ← paths.mapM fun path => do return (path,← readTree ⟨".",path⟩)
  return fun path => (found.lookup path).join

end PipelineAtlas

open PipelineAtlas in
def main (args : List String) : IO UInt32 := do
  let paths ←
    match CommandLine.read? args with
    | some command => readPaths (CommandLine.pathsOf command)
    | none => readPaths []
  let outcome := CommandLine.run paths args
  IO.print outcome.output
  IO.eprint outcome.complaint
  return outcome.code.toUInt32
