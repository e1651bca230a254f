import ConfigTree.Document.Strings
import ConfigTree.Environment
import ConfigTree.Path.Access
import ConfigTree.Path.Parser
import ConfigTree.Reference.Resolver
import ConfigTree.Reference.Template

/-!
# Resolving the placeholders of a document

A placeholder without a namespace points to a place in the document itself; what stands there is
resolved before it is put in. A placeholder with a namespace points into a named global value, or,
for the namespace `env`, to a variable of the process. A string that is one placeholder takes the
value as it is; a placeholder inside a longer text is replaced by the text of a scalar.

## The model

All lookups read the document as it was before the pass (the snapshot), so the order of replacing
does not matter. A lookup carries the canonical paths that are being resolved around it; meeting one
of them again is a cycle. What a path was resolved to is remembered for the rest of the pass.

Each nested lookup uses one unit of fuel. The paths being resolved are different canonical paths of
placeholders of the snapshot, so the number of its placeholders is fuel enough (`Lookup.depth`).

A pass goes string by string, in depth-first order. The first failure stops it: strings
replaced before stay replaced, and all others stay as they are.
-/

namespace ConfigTree

/-- What a resolver is configured with. -/
structure ResolverOptions where
  /-- The values that namespaces stand for. -/
  globals : Document := []
  /-- Whether the namespace `env` stands for the process environment. -/
  processEnv : Bool := true
deriving DecidableEq

/-- The namespace of the process environment. -/
def environmentDomain : String := "env"

/-- Which entries of a document a pass goes through. -/
inductive Scope where
  /-- All of them. -/
  | all
  /-- The entry of one key. -/
  | only (key : String)
  /-- All but the entry of one key, which is read as it is. -/
  | except (finalized : String)
deriving DecidableEq, Repr

namespace Scope

/-- Whether a pass goes through the entry of a key. -/
def contains : Scope → String → Bool
  | all, _ => true
  | only key, k => k == key
  | except finalized, k => k != finalized

/-- The document with each string of the entries in scope replaced by what `f` makes of it. -/
def mapStrings {m : Type → Type} [Monad m] (scope : Scope) (f : String → m Value) :
    Document → m Document
  | [] => pure []
  | (key, v) :: rest => do
    let v ← (if scope.contains key then v.mapStrings f else pure v)
    let rest ← scope.mapStrings f rest
    return (key, v) :: rest

/-- Whether a path leads into the finalized entry. Only a key segment tells so. -/
def isFinalized : Scope → Path → Bool
  | except finalized, .key k :: _ => k == finalized
  | _, _ => false

end Scope

namespace Placeholder

/-- The path of a placeholder. -/
def segments (p : Placeholder) : Except ReferenceError Path :=
  match Path.parse p.path with
  | .ok path => .ok path
  | .error fault => .error (.malformed p.raw fault.message)

/-- What a placeholder stands for when nothing is found: its fallback, if it has one. -/
def missing (p : Placeholder) : Except ReferenceError Value :=
  match p.fallback with
  | some text => .ok (.string text)
  | none => .error (.notFound p.raw)

/-- The text of a value inside a longer text. -/
def interpolate (p : Placeholder) : Value → Except ReferenceError String
  | .string s => .ok s
  | .number n => .ok n.text
  | .bool b => .ok (if b then "true" else "false")
  | .null => .ok "null"
  | .sequence _ => .error (.notInterpolatable p.raw .sequence)
  | .mapping _ => .error (.notInterpolatable p.raw .mapping)

end Placeholder

/-- What the lookups of a pass read. -/
structure Lookup where
  /-- The options of the resolver. -/
  options : ResolverOptions
  /-- The process environment. -/
  env : Environment
  /-- The document before the pass. -/
  snapshot : Document
  /-- What is being replaced. -/
  scope : Scope

/-- Values by the canonical paths they were found at. -/
abbrev Resolved := Entries Value

/-- A computation that may fail, and may add to what is already resolved. -/
abbrev Resolving := StateT Resolved (Except ReferenceError)

namespace Lookup

/-- The value of a placeholder in a namespace. -/
def inDomain (l : Lookup) (p : Placeholder) (name : String) : Except ReferenceError Value :=
  match Entries.get? l.options.globals name with
  | some global =>
    match p.segments with
    | .error e => .error e
    | .ok path =>
      match global.get? path with
      | some v => .ok v
      | none => p.missing
  | none =>
    if name = environmentDomain ∧ l.options.processEnv = true then
      match l.env.lookup p.path with
      | some text => .ok (.string text)
      | none => p.missing
    else .error (.unknownNamespace p.raw name)

/-- Where a placeholder points. -/
inductive Aim where
  /-- To a value that is put in as it is. -/
  | value (v : Value)
  /-- To a place of the document; what stands there is resolved before it is put in. -/
  | place (path : Path) (target : Value)

/-- Where a placeholder points. -/
def aim (l : Lookup) (p : Placeholder) : Except ReferenceError Aim :=
  match p.domain with
  | some name => (l.inDomain p name).map .value
  | none =>
    match p.segments with
    | .error e => .error e
    | .ok path =>
      match l.snapshot.get? path with
      | none => p.missing.map .value
      | some target =>
        if l.scope.isFinalized path then .ok (.value target) else .ok (.place path target)

/-- The text of parts, the placeholders among them looked up by `look`. -/
def textOfParts {m : Type → Type} [Monad m] [MonadExceptOf ReferenceError m]
    (look : Placeholder → m Value) : List Part → m String
  | [] => pure ""
  | .literal text :: ps => do return text ++ (← textOfParts look ps)
  | .reference p :: ps => do
    let value ← look p
    let text ← MonadExcept.ofExcept (p.interpolate value)
    return text ++ (← textOfParts look ps)

/-- What a string becomes, its placeholders looked up by `look`. -/
def resolveText {m : Type → Type} [Monad m] [MonadExceptOf ReferenceError m]
    (look : Placeholder → m Value) (text : String) : m Value :=
  if Template.containsPlaceholder text then
    match Template.parse text with
    | .error e => throw e
    | .ok ps =>
      match Template.single? ps with
      | some p => look p
      | none => return .string (← textOfParts look ps)
  else pure (.string text)

/-- The value of a placeholder that is met while the paths of `stack` are being resolved. -/
def value (l : Lookup) : Nat → List String → Placeholder → Resolving Value
  | fuel, stack, p =>
    match l.aim p with
    | .error e => throw e
    | .ok (.value v) => return v
    | .ok (.place path target) => do
      let here := path.render
      match Entries.get? (← get) here with
      | some v => return v
      | none =>
        if here ∈ stack then throw (.cycle (stack ++ [here]))
        else
          match fuel with
          | 0 => throw (.cycle (stack ++ [here]))
          | fuel + 1 =>
            let v ← target.mapStrings (resolveText (value l fuel (stack ++ [here])))
            modify fun known => Entries.insert known here v
            return v

/-- The placeholders of a string; none when it cannot be parsed. -/
def placeholdersOf (text : String) : List Placeholder :=
  match Template.parse text with
  | .ok ps =>
    ps.filterMap fun
      | .reference p => some p
      | .literal _ => none
  | .error _ => []

/-- The number of placeholders of the snapshot: nested lookups go no deeper. -/
def depth (l : Lookup) : Nat :=
  ((Value.stringsOfEntries l.snapshot).flatMap placeholdersOf).length

/-- What a string of the document becomes. -/
def string (l : Lookup) (text : String) : Resolving Value :=
  resolveText (l.value l.depth []) text

end Lookup

/-- How far a pass has come. -/
structure Progress where
  /-- What is already resolved. -/
  known : Resolved
  /-- The failure that stopped the pass. -/
  failure : Option ReferenceError

namespace Lookup

/-- Replaces one string, unless the pass was stopped before or is stopped by it. -/
def replaceString (l : Lookup) (text : String) : StateM Progress Value := fun progress =>
  match progress.failure with
  | some _ => (.string text, progress)
  | none =>
    match l.string text progress.known with
    | .ok (v, known) => (v, ⟨known, none⟩)
    | .error e => (.string text, ⟨progress.known, some e⟩)

/-- A pass leaves the keys and their order as they are. -/
theorem keys_mapStrings {σ : Type} (scope : Scope) (f : String → StateM σ Value) (d : Document)
    (s : σ) : Entries.keys ((scope.mapStrings f d).run s).1 = Entries.keys d := by
  induction d generalizing s with
  | nil => rfl
  | cons e d ih =>
    obtain ⟨key, v⟩ := e
    simp only [Scope.mapStrings, StateT.run_bind, StateT.run_pure]
    exact congrArg (key :: ·) (ih _)

/-- The pass over the whole snapshot. -/
def run (l : Lookup) : Resolution :=
  let (document, progress) := (l.scope.mapStrings l.replaceString l.snapshot).run ⟨[], none⟩
  ⟨document, progress.failure⟩

@[simp] theorem keys_run (l : Lookup) : Entries.keys l.run.document = Entries.keys l.snapshot :=
  keys_mapStrings l.scope l.replaceString l.snapshot _

end Lookup

namespace Resolver

/-- One pass over a document. -/
def pass (options : ResolverOptions) (env : Environment) (scope : Scope) (d : Document) :
    Resolution :=
  Lookup.run ⟨options, env, d, scope⟩

/-- The resolver of placeholders. -/
def placeholders (options : ResolverOptions) (env : Environment) : Resolver where
  resolve d key :=
    match key with
    | none => pass options env .all d
    | some key => pass options env (.only key) d
  resolveExcept d finalized := pass options env (.except finalized) d

/-- Resolving placeholders leaves each key once. -/
theorem distinct_placeholders {options : ResolverOptions} {env : Environment} {d : Document}
    (key : Option String) (h : Entries.Distinct d) :
    Entries.Distinct ((placeholders options env).resolve d key).document := by
  cases key <;> simpa [Entries.Distinct, placeholders, pass] using h

end Resolver

end ConfigTree
