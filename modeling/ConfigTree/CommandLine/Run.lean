import ConfigTree.CommandLine.Arguments
import ConfigTree.Json.Printer
import ConfigTree.Yaml.Printer

/-!
# Running the command

The command sets the variables of the `.env` file, reads its arguments, makes a loader, loads the file
and prints the document or one value of it. It ends with a status that tells the kind of a failure.

## The model

`run` is a function of the world and the arguments. `Request.forcedData`, `Request.builder` and
`Request.load` are its steps.
-/

namespace ConfigTree.CommandLine

/-- Why a request cannot be carried out. -/
inductive Failure where
  /-- The text given as data is not JSON. -/
  | dataNotJson
  /-- The text given as data is not a JSON object. -/
  | dataNotObject
  /-- An assignment has no equals sign. -/
  | noEquals (assignment : String)
  /-- A path is refused. -/
  | path (source : PathError)
  /-- The document has no value at the path that was asked for. -/
  | noValue (path : String)
  /-- Loading failed. -/
  | loader (source : LoaderError)
deriving DecidableEq, Repr

namespace Failure

/-- The wordings of a failure and of what caused it, the failure first. -/
def chain : Failure → List String
  | dataNotJson => ["--data is not valid JSON"]
  | dataNotObject => ["--data must be a JSON object"]
  | noEquals assignment => ["--set '" ++ assignment ++ "' is missing '='"]
  | path source => [source.message]
  | noValue key => ["No value at '" ++ key ++ "'"]
  | loader source => source.chain

/-- The status of a failure to load. -/
def statusOfLoader : LoaderError → Nat
  | .unregisteredExtension .. => 2
  | .load .. => 3
  | .reference .. => 4
  | .cyclicImport .. | .invalidImport .. => 5
  | .invalidValue .. | .dotenvParse .. | .dotenvRead .. => 6

/-- The status of a failure. -/
def status : Failure → Nat
  | loader source => statusOfLoader source
  | _ => 1

end Failure

namespace Request

/-- The path and the value that an assignment gives. What is not JSON is a text. -/
def assignment (text : String) : Except Failure (Path × Value) :=
  let cs := text.toList
  let key := cs.takeWhile (· ≠ '=')
  if key.length = cs.length then .error (.noEquals text)
  else
    match Path.parseText (Text.trim (String.ofList key)) with
    | .error e => .error (.path e)
    | .ok p =>
      let raw := String.ofList (cs.drop (key.length + 1))
      .ok (p, (Json.parse raw).getD (.string raw))

/-- The document with an assignment carried out. -/
def assign (d : Document) (text : String) : Except Failure Document :=
  match assignment text with
  | .error e => .error e
  | .ok (p, v) =>
    let w := d.set p v
    match w.outcome p with
    | .ok () => .ok w.tree
    | .error e => .error (.path e)

/-- The document given as data. -/
def givenData : Option String → Except Failure Document
  | none => .ok []
  | some text =>
    match Json.parse text with
    | none => .error .dataNotJson
    | some (.mapping es) => .ok es
    | some _ => .error .dataNotObject

/-- The data that is merged over every file: what is given as data, with the assignments carried
out. -/
def forcedData (r : Request) : Except Failure Document :=
  (givenData r.data).bind fun d => r.assignments.foldlM assign d

/-- The builder that the request makes before the environment is read. -/
def explicitBuilder (r : Request) (data : Document) : LoaderBuilder :=
  let b := (({} : LoaderBuilder).withYaml.withProcessEnv (!r.noProcessEnv)).withData data
  { b with
    environment := r.environment
    importsKey := r.importsKey
    flattenOutput := if r.flatten then some true else none }

/-- The loader that the request makes. -/
def loader (r : Request) (env : Environment) : Except Failure Loader :=
  match r.forcedData with
  | .error e => .error e
  | .ok data =>
    match (r.explicitBuilder data).fromEnv env with
    | .error e => .error (.loader e)
    | .ok b => .ok b.build

/-- What loading the file of the request gives. -/
def load (r : Request) (w : World) (file : String) : Except Failure LoadOutput :=
  match r.loader w.env with
  | .error e => .error e
  | .ok l =>
    let outcome :=
      if r.raw then (l.loadRaw w file {}).outcome.map LoadOutput.document
      else (l.load w file).outcome
    match outcome with
    | .error e => .error (.loader e)
    | .ok output => .ok output

/-- The value that the request asks for. -/
def select (r : Request) (output : LoadOutput) : Except Failure Value :=
  match r.get with
  | none =>
    match output with
    | .document d => .ok (.mapping d)
    | .flattened flat => .ok (.mapping flat.leaves)
  | some text =>
    match Path.parseText text with
    | .error e => .error (.path e)
    | .ok p =>
      match output.toDocument.get? p with
      | some v => .ok v
      | none => .error (.noValue text)

/-- The value that the request asks for, loaded from its file. -/
def answer (r : Request) (w : World) (file : String) : Except Failure Value :=
  (r.load w file).bind r.select

/-- A value in the format of the request. -/
def render (r : Request) (v : Value) : String :=
  match r.format.getD .json with
  | .json => Json.pretty v ++ "\n"
  | .yaml => Yaml.render v

end Request

/-- How a run of the command ends. -/
inductive Outcome where
  /-- The text that was asked for is printed. -/
  | printed (text : String)
  /-- The arguments do not ask for a load. -/
  | refused (reason : Refusal)
  /-- The `.env` file cannot be used. -/
  | noEnvironment (source : LoaderError)
  /-- The request cannot be carried out. -/
  | failed (source : Failure)
deriving DecidableEq, Repr

/-- Runs the command. -/
def run (w : World) (args : List String) : Outcome :=
  match LoaderBuilder.loadDotenv w with
  | (_, some e) => .noEnvironment e
  | (w, none) =>
    match Request.ofArguments args with
    | .error reason => .refused reason
    | .ok r =>
      match r.file with
      | none => .refused .usage
      | some file =>
        let r := r.withEnvironment w.env
        match r.answer w file with
        | .ok v => .printed (r.render v)
        | .error e => .failed e

namespace Outcome

/-- The status that a run ends with. -/
def status : Outcome → Nat
  | printed _ => 0
  | refused .usage => 2
  | refused _ => 0
  | noEnvironment source => Failure.statusOfLoader source
  | failed source => source.status

/-- The text that a run writes about a failure. That the arguments are not understood is no failure
of a load, and is told by `hint`. -/
def complaint : Outcome → String
  | printed _ => ""
  | refused _ => ""
  | noEnvironment source => "Failed to load environment: " ++ source.message ++ "\n"
  | failed source => "Error: " ++ ": ".intercalate source.chain ++ "\n"

/-- The advice that goes with a run. -/
def hint : Outcome → String
  | refused .usage => "The arguments are not understood; '--help' tells how the command is used.\n"
  | _ => ""

/-- The text that a run prints. -/
def output : Outcome → String
  | printed text => text
  | refused .help =>
    "Load a layered configuration file and print the merged result\n\n"
      ++ "Usage: layerconf [OPTIONS] <FILE>\n\n"
      ++ "Options:\n"
      ++ "  -e, --env <ENVIRONMENT>          Environment suffix of the files laid over each file\n"
      ++ "      --data <DATA>                JSON object merged into every loaded file\n"
      ++ "      --set <PATH=VALUE>           Force a single value\n"
      ++ "      --imports-key <IMPORTS_KEY>  Key holding the import list\n"
      ++ "      --flatten                    Print every leaf under its path\n"
      ++ "      --no-process-env             Hide the process environment from references\n"
      ++ "      --raw                        Print placeholders as written\n"
      ++ "      --get <PATH>                 Print only the value at this path\n"
      ++ "  -f, --format <FORMAT>            Output format, json or yaml\n"
      ++ "  -v, --verbose                    Log at debug level\n"
      ++ "      --log-json                   Emit logs as JSON lines\n"
      ++ "  -h, --help                       Print help\n"
      ++ "  -V, --version                    Print version\n"
  | refused .version => "layerconf 0.1.0\n"
  | refused .usage => ""
  | noEnvironment _ => ""
  | failed _ => ""

end Outcome

end ConfigTree.CommandLine
