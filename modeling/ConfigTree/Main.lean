import ConfigTree.CommandLine.Discovery

/-!
# The command

The outer layer: it reads the parts of the computer's files and environment that a run looks at,
runs the command on them, and prints.
-/

namespace ConfigTree.CommandLine

/-- The node that stands at a path on the computer. What cannot be read as a file counts as a
directory. -/
def readNode (path : String) : IO (Option Node) := do
  try
    return some (.file (← IO.FS.readBinFile path))
  catch
    | .noFileOrDirectory .. => return none
    | _ => return some .directory

/-- The world with what stands on the computer along names, from those that lead to `here` on. -/
def readAlong (w : World) (here : List (List Char)) : List (List Char) → IO World
  | [] => return w
  | name :: rest => do
    let next := here ++ [name]
    let path := String.ofList (FilePath.ofNames next)
    match ← readNode path with
    | none => return w
    | some .directory => readAlong (w.put path .directory) next rest
    | some file => return w.put path file

/-- The world with all in it that a run looks at. -/
partial def readWorld (w : World) (args known : List String) : IO World := do
  match (lookedAt w args).filter (!known.contains ·) with
  | [] => return w
  | unknown =>
    let w ← unknown.foldlM (fun w path => readAlong w [] (FilePath.names path.toList)) w
    readWorld w args (known ++ unknown)

/-- The variables of the process, each written as its name, an equals sign and its text. -/
def readEnvironment : IO Environment := do
  let bytes ← try IO.FS.readBinFile "/proc/self/environ" catch _ => pure ByteArray.empty
  let settings := ((String.fromUTF8? bytes).getD "").splitOn "\x00"
  return settings.filterMap fun setting =>
    let cs := setting.toList
    let name := cs.takeWhile (· ≠ '=')
    if name = [] then none
    else some (String.ofList name, String.ofList (cs.drop (name.length + 1)))

end ConfigTree.CommandLine

open ConfigTree ConfigTree.CommandLine in
/-- Runs the command on the computer's files. -/
def main (args : List String) : IO UInt32 := do
  let cwd := (← IO.currentDir).toString
  let start : World := { cwd := cwd, env := ← readEnvironment }
  let w ← readWorld (start.put cwd .directory) args []
  let outcome := run w args
  IO.print outcome.output
  IO.eprint outcome.complaint
  IO.eprint outcome.hint
  return UInt32.ofNat outcome.status
