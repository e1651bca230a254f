import ConfigTree.Value

/-!
# Visiting the strings of a value

References stand in strings, so a pass over a document is a visit to each of its strings in
depth-first order. `mapStrings` replaces each string by what a function makes of it, in any monad;
`strings` lists them.
-/

namespace ConfigTree.Value

mutual

/-- The value with each string replaced by what `f` makes of it, from the first to the last. -/
def mapStrings {m : Type → Type} [Monad m] (f : String → m Value) : Value → m Value
  | .null => pure .null
  | .bool b => pure (.bool b)
  | .number n => pure (.number n)
  | .string s => f s
  | .sequence items => do return .sequence (← mapStringsOfItems f items)
  | .mapping entries => do return .mapping (← mapStringsOfEntries f entries)

/-- The items with each string replaced. -/
def mapStringsOfItems {m : Type → Type} [Monad m] (f : String → m Value) :
    List Value → m (List Value)
  | [] => pure []
  | v :: vs => do
    let v ← mapStrings f v
    let vs ← mapStringsOfItems f vs
    return v :: vs

/-- The entries with each string replaced; the keys stay. -/
def mapStringsOfEntries {m : Type → Type} [Monad m] (f : String → m Value) :
    List (String × Value) → m (List (String × Value))
  | [] => pure []
  | (k, v) :: es => do
    let v ← mapStrings f v
    let es ← mapStringsOfEntries f es
    return (k, v) :: es

end

mutual

/-- The strings of a value, in depth-first order; keys are not among them. -/
def strings : Value → List String
  | .string s => [s]
  | .sequence items => stringsOfItems items
  | .mapping entries => stringsOfEntries entries
  | .null | .bool _ | .number _ => []

/-- The strings of the items. -/
def stringsOfItems : List Value → List String
  | [] => []
  | v :: vs => strings v ++ stringsOfItems vs

/-- The strings of the entries. -/
def stringsOfEntries : List (String × Value) → List String
  | [] => []
  | (_, v) :: es => strings v ++ stringsOfEntries es

end

variable {m : Type → Type} [Monad m] [LawfulMonad m]

theorem mapStringsOfItems_eq_mapM (f : String → m Value) (items : List Value) :
    mapStringsOfItems f items = items.mapM (mapStrings f) := by
  induction items with
  | nil => rw [mapStringsOfItems, List.mapM_nil]
  | cons v items ih => rw [mapStringsOfItems, List.mapM_cons, ih]

theorem mapStringsOfEntries_eq_mapM (f : String → m Value) (entries : List (String × Value)) :
    mapStringsOfEntries f entries = entries.mapM fun e => (e.1, ·) <$> mapStrings f e.2 := by
  induction entries with
  | nil => rw [mapStringsOfEntries, List.mapM_nil]
  | cons e entries ih => simp [mapStringsOfEntries, List.mapM_cons, ih]

mutual

/-- Replacing each string by itself changes nothing. -/
theorem mapStrings_pure :
    ∀ v : Value, v.mapStrings (fun s => (pure (.string s) : m Value)) = pure v
  | .null | .bool _ | .number _ | .string _ => by simp [mapStrings]
  | .sequence vs => by rw [mapStrings, mapStringsOfItems_pure vs, pure_bind]
  | .mapping es => by rw [mapStrings, mapStringsOfEntries_pure es, pure_bind]

theorem mapStringsOfItems_pure :
    ∀ vs : List Value, mapStringsOfItems (fun s => (pure (.string s) : m Value)) vs = pure vs
  | [] => by rw [mapStringsOfItems]
  | v :: vs => by
    rw [mapStringsOfItems, mapStrings_pure v, mapStringsOfItems_pure vs, pure_bind, pure_bind]

theorem mapStringsOfEntries_pure :
    ∀ es : List (String × Value),
      mapStringsOfEntries (fun s => (pure (.string s) : m Value)) es = pure es
  | [] => by rw [mapStringsOfEntries]
  | (k, v) :: es => by
    rw [mapStringsOfEntries, mapStrings_pure v, mapStringsOfEntries_pure es, pure_bind, pure_bind]

end

end ConfigTree.Value
