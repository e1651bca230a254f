import ConfigTree.Yaml.Layout
import ConfigTree.Yaml.Node

/-!
# The document of a YAML text

The tokens of a text describe a document. Directives may stand in front of it, markers on either
side. Each token tells by itself what kind of node begins with it, so that the tokens are read from
the first to the last without going back.

## The model

A `Reader` takes tokens from the front. `Node.ofTokens?` reads the whole row, which must hold one
document and no more; a place where a node is left out holds the empty plain scalar. A new anchor
gets as its number how many different names were anchored before it, so that a name that is anchored
anew may come to share its number with a later name. Every level of nesting and every item uses one
unit of fuel or a few, and each belongs to a token.
-/

namespace ConfigTree.Yaml

namespace Node

/-- What is known while the tokens of a document are read. -/
structure Reading where
  /-- The tokens that are left. -/
  tokens : List Token
  /-- The names anchored so far, the newest first, with their numbers. -/
  names : List (List Char × Nat) := []
  /-- What the handles of tags stand for. -/
  handles : List (List Char × List Char) := []

/-- A step that takes tokens and gives something, unless the tokens are at fault. -/
abbrev Reader (α : Type) : Type := StateT Reading Option α

/-- The next token, which stays. -/
def next : Reader (Option Token) := do return (← get).tokens.head?

/-- Takes the next token. -/
def advance : Reader Unit := modify fun r => { r with tokens := r.tokens.tail }

/-- Takes the next token, which must be this one. -/
def expect (t : Token) : Reader Unit := do
  if (← next) = some t then advance else failure

/-- Whether the next token is one of these. -/
def nextIn (ts : List Token) : Reader Bool := do
  match ← next with
  | none => return false
  | some t => return ts.contains t

/-- The number of a new anchor. -/
def anchorNumber (name : List Char) : Reader Nat := do
  let names := (← get).names
  let others := names.filter (·.1 ≠ name)
  modify fun r => { r with names := (name, names.length) :: others }
  return names.length

/-- The number of the anchor with this name. -/
def lookUp (name : List Char) : Reader Node := do
  match (← get).names.lookup name with
  | some n => return .alias n
  | none => failure

/-- A tag with its handle expanded. -/
def expandTag (handle suffix : List Char) : Reader (List Char) := do
  if handle = [] then return suffix
  else
    match (← get).handles.lookup handle with
    | some expansion => return expansion ++ suffix
    | none => failure

/-- The anchor of a node, if there is one. -/
def anchor? : Reader (Option Nat) := do
  match ← next with
  | some (.anchor name) => do
    advance
    return some (← anchorNumber name)
  | _ => return none

/-- The tag of a node, if there is one, not yet expanded. -/
def tag? : Reader (Option (List Char × List Char)) := do
  match ← next with
  | some (.tag handle suffix) => do
    advance
    return some (handle, suffix)
  | _ => return none

/-- The anchor and the tag of a node, in either order. -/
def properties : Reader Properties := do
  let first ← anchor?
  let tag ← tag?
  let anchor ← match first with
    | some a => pure (some a)
    | none => anchor?
  let tag ← match tag with
    | some (handle, suffix) => some <$> expandTag handle suffix
    | none => pure none
  return { anchor := anchor, tag := tag }

/-- Tokens after which an item of a block sequence is left out. -/
def noItem : List Token := [.blockEntry, .blockEnd]

/-- Tokens before which a key or value of a block mapping is left out. -/
def noBlockNode : List Token := [.key, .value, .blockEnd]

mutual

/-- A node. `inBlock` says whether block collections may stand here, `flush` whether a sequence may
stand here whose items are indented no further than the mapping around it. -/
def node (inBlock flush : Bool) : Nat → Reader Node
  | 0 => failure
  | fuel + 1 => do
    match ← next with
    | some (.alias name) => do
      advance
      lookUp name
    | _ => do
      let props ← properties
      match ← next with
      | some .blockEntry =>
        if flush then return .sequence props (← flushItems fuel)
        else bare props
      | some (.scalar text plain) => do
        advance
        return .scalar props text plain
      | some .flowSequenceStart => do
        advance
        return .sequence props (← flowItems true fuel)
      | some .flowMappingStart => do
        advance
        return .mapping props (← flowEntries true fuel)
      | some .blockSequenceStart =>
        if inBlock then do
          advance
          return .sequence props (← blockItems fuel)
        else bare props
      | some .blockMappingStart =>
        if inBlock then do
          advance
          return .mapping props (← blockEntries fuel)
        else bare props
      | _ => bare props
where
  /-- A node of which only the properties are written. -/
  bare (props : Properties) : Reader Node :=
    if props = {} then failure else return .scalar props [] true

/-- A node, unless one of these tokens is next. -/
def nodeUnless (stops : List Token) (inBlock flush : Bool) : Nat → Reader Node
  | 0 => failure
  | fuel + 1 => do
    if ← nextIn stops then return absent else node inBlock flush fuel

/-- The items of a block sequence. -/
def blockItems : Nat → Reader (List Node)
  | 0 => failure
  | fuel + 1 => do
    match ← next with
    | some .blockEntry => do
      advance
      let item ← nodeUnless noItem true false fuel
      return item :: (← blockItems fuel)
    | some .blockEnd => do
      advance
      return []
    | _ => failure

/-- The items of a block sequence that are indented no further than the mapping around it. -/
def flushItems : Nat → Reader (List Node)
  | 0 => failure
  | fuel + 1 => do
    match ← next with
    | some .blockEntry => do
      advance
      let item ← nodeUnless (.blockEntry :: noBlockNode) true false fuel
      return item :: (← flushItems fuel)
    | _ => return []

/-- The entries of a block mapping. -/
def blockEntries : Nat → Reader (List (Node × Node))
  | 0 => failure
  | fuel + 1 => do
    match ← next with
    | some .key => do
      advance
      let key ← nodeUnless noBlockNode true true fuel
      let value ← valueUnless noBlockNode true fuel
      return (key, value) :: (← blockEntries fuel)
    | some .blockEnd => do
      advance
      return []
    | _ => failure

/-- The value of an entry. -/
def valueUnless (stops : List Token) (inBlock : Bool) : Nat → Reader Node
  | 0 => failure
  | fuel + 1 => do
    match ← next with
    | some .value => do
      advance
      nodeUnless stops inBlock inBlock fuel
    | _ => return absent

/-- The items of a sequence in brackets. An item with a key is a mapping with one entry. -/
def flowItems (first : Bool) : Nat → Reader (List Node)
  | 0 => failure
  | fuel + 1 => do
    match ← next with
    | some .flowSequenceEnd => do
      advance
      return []
    | _ => do
      if !first then expect .flowEntry
      match ← next with
      | some .flowSequenceEnd => do
        advance
        return []
      | some .key => do
        advance
        let item ← flowPair fuel
        return item :: (← flowItems false fuel)
      | _ => do
        let item ← node false false fuel
        return item :: (← flowItems false fuel)

/-- The item of a sequence in brackets that has a key. Where the key is left out, the token after it
is lost. -/
def flowPair : Nat → Reader Node
  | 0 => failure
  | fuel + 1 => do
    let stops := [.flowEntry, .flowSequenceEnd]
    if ← nextIn (.value :: stops) then
      advance
      let value ← valueUnless stops false fuel
      return .mapping {} [(absent, value)]
    else
      let key ← node false false fuel
      let value ← valueUnless stops false fuel
      return .mapping {} [(key, value)]

/-- The entries of a mapping in braces. An entry without a key indicator has no value. -/
def flowEntries (first : Bool) : Nat → Reader (List (Node × Node))
  | 0 => failure
  | fuel + 1 => do
    let stops := [.flowEntry, .flowMappingEnd]
    match ← next with
    | some .flowMappingEnd => do
      advance
      return []
    | _ => do
      if !first then expect .flowEntry
      match ← next with
      | some .flowMappingEnd => do
        advance
        return []
      | some .key => do
        advance
        let key ← nodeUnless (.value :: stops) false false fuel
        let value ← valueUnless stops false fuel
        return (key, value) :: (← flowEntries false fuel)
      | _ => do
        let key ← node false false fuel
        return (key, absent) :: (← flowEntries false fuel)

end

/-- The handles that are known without a directive. -/
def standardHandles : List (List Char × List Char) :=
  [(['!'], ['!']), (['!', '!'], "tag:yaml.org,2002:".toList)]

/-- The directives in front of a document, of which each may stand once. -/
def directives (versioned : Bool) : Nat → Reader Unit
  | 0 => failure
  | fuel + 1 => do
    match ← next with
    | some (.version major minor) =>
      if versioned ∨ major ≠ 1 ∨ (minor ≠ 1 ∧ minor ≠ 2) then failure
      else do
        advance
        directives true fuel
    | some (.tagHandle handle expansion) => do
      if ((← get).handles.lookup handle).isSome then failure
      else
        advance
        modify fun r => { r with handles := r.handles ++ [(handle, expansion)] }
        directives versioned fuel
    | _ => return ()

/-- Whether a directive is next. -/
def atDirective : Reader Bool := do
  match ← next with
  | some (.version ..) => return true
  | some (.tagHandle ..) => return true
  | _ => return false

/-- The document that the tokens hold; nothing is inside when there are no tokens. -/
def document : Reader (Option Node) := do
  let fuel := 4 * (← get).tokens.length + 4
  if (← next).isNone then return none
  let explicit := (← atDirective) || (← nextIn [.documentStart])
  if explicit then
    directives false fuel
    expect .documentStart
  modify fun r => { r with handles := r.handles ++ standardHandles }
  let empty := (← next).isNone || (← atDirective) || (← nextIn [.documentStart, .documentEnd])
  let found ← if explicit ∧ empty then pure absent else node true false fuel
  modify fun r => { r with tokens := r.tokens.dropWhile (· == .documentEnd) }
  if (← next).isSome then failure
  return some found

/-- The document that a row of tokens holds; nothing at all when the tokens are at fault, nothing
inside when there is no document. -/
def ofTokens? (tokens : List Token) : Option (Option Node) := document.run' { tokens := tokens }

end Node

end ConfigTree.Yaml
