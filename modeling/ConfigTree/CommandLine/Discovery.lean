import ConfigTree.CommandLine.Run

/-!
# What a run looks at

A run of the command is a function of a world, but the world of a computer is too large to be taken
as a whole. What a run looks at can be told from the run itself: the places of a `.env` file, the files
that it visits and their environment files. When all these are in the world, the run is the one in
the full world; when some are not, the run in the full world may go on and look at more.
-/

namespace ConfigTree.CommandLine

/-- The names that lead to a directory, and those that lead to the directories above it. -/
def upwards : List (List Char) → List (List (List Char))
  | [] => [[]]
  | name :: rest => (upwards rest).map (name :: ·) ++ [[]]

/-- Where a `.env` file can stand. -/
def dotenvPlaces (w : World) : List String :=
  (upwards (FilePath.names w.cwd.toList)).map fun ns =>
    String.ofList (FilePath.ofNames (ns ++ [Dotenv.fileName]))

/-- The files that a load visits, each with its environment file. -/
def visited (l : Loader) (events : List LoadEvent) : List String :=
  events.flatMap fun event =>
    match event with
    | .visit _ path => path :: (l.options.environment.map (Extension.sibling path)).toList
    | _ => []

/-- The files that a run looks at in a world. -/
def lookedAt (w : World) (args : List String) : List String :=
  let (after, _) := LoaderBuilder.loadDotenv w
  let files : List String :=
    match Request.ofArguments args with
    | .error _ => []
    | .ok r =>
      match r.file, (r.withEnvironment after.env).loader after.env with
      | some file, .ok l => visited l (l.loadRaw after file {}).events
      | _, _ => []
  dotenvPlaces w ++ files

end ConfigTree.CommandLine
