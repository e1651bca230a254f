import ConfigTree.Value

/-!
# Merging documents

Environment files, imported files and data forced by the caller are combined by merging one
document over another. Where both hold a mapping the mappings are merged key by key; every other
conflict is won by the document that is laid on top, sequences included. Keys of the lower document
keep their places and new keys follow in the order of the upper one.
-/

namespace ConfigTree

mutual

/-- What an entry holds once a value is laid over what was there before. -/
def Value.overlay (below : Option Value) : Value → Value
  | .mapping upper =>
    match below with
    | some (.mapping lower) => .mapping (Document.merge lower upper)
    | _ => .mapping upper
  | .null => .null
  | .bool b => .bool b
  | .number n => .number n
  | .string s => .string s
  | .sequence items => .sequence items

/-- The first document with the second laid over it. -/
def Document.merge (lower : List (String × Value)) : List (String × Value) → List (String × Value)
  | [] => lower
  | (key, value) :: rest =>
    Document.merge (Entries.insert lower key (Value.overlay (Entries.get? lower key) value)) rest

end

/-- The documents merged from the first to the last, each over what came before. -/
def Document.mergeAll (ds : List Document) : Document :=
  ds.foldl Document.merge []

@[simp] theorem Value.overlay_none (v : Value) : Value.overlay none v = v := by
  cases v <;> simp [Value.overlay]

namespace Document

@[simp] theorem merge_nil (lower : Document) : merge lower [] = lower := by simp [merge]

theorem merge_cons (lower rest : Document) (key : String) (value : Value) :
    merge lower ((key, value) :: rest) =
      merge (Entries.insert lower key (Value.overlay (Entries.get? lower key) value)) rest := by
  simp [merge]

/-- An entry may be written before or after a merge with a document that has no such entry. -/
theorem merge_insert {lower upper : Document} {key : String} (value : Value)
    (hmem : key ∈ Entries.keys lower) (hkey : Entries.get? upper key = none) :
    merge (Entries.insert lower key value) upper = Entries.insert (merge lower upper) key value := by
  induction upper generalizing lower with
  | nil => simp
  | cons e upper ih =>
    obtain ⟨other, v⟩ := e
    obtain ⟨hother, hkey⟩ : other ≠ key ∧ Entries.get? upper key = none := by
      rw [Entries.get?] at hkey
      split at hkey
      · cases hkey
      · next hother => exact ⟨hother, hkey⟩
    have hmem' : ∀ u, key ∈ Entries.keys (Entries.insert lower other u) := fun u => by
      rw [← Entries.isSome_get?_iff, Entries.get?_insert_of_ne _ _ hother, Entries.isSome_get?_iff]
      exact hmem
    rw [merge_cons, merge_cons, Entries.get?_insert_of_ne _ _ (Ne.symm hother),
      Entries.insert_comm _ _ (Ne.symm hother) hmem, ih (hmem' _) hkey]

/-- A document with none of the keys below it follows what is below. -/
theorem merge_eq_append {lower upper : Document} (h : Entries.Distinct (lower ++ upper)) :
    merge lower upper = lower ++ upper := by
  induction upper generalizing lower with
  | nil => simp
  | cons e upper ih =>
    obtain ⟨key, value⟩ := e
    have hkey : key ∉ Entries.keys lower := h.not_mem_of_append_cons
    rw [merge_cons, Entries.get?_eq_none_of_not_mem hkey, Value.overlay_none,
      Entries.insert_of_not_mem value hkey, ih (by simpa using h)]
    simp

/-- Nothing merged with a document is that document. -/
theorem nil_merge {d : Document} (h : Entries.Distinct d) : merge [] d = d :=
  merge_eq_append (by simpa using h)

/-- Merging keeps the keys distinct. -/
theorem distinct_merge {lower : Document} (h : Entries.Distinct lower) (upper : Document) :
    Entries.Distinct (merge lower upper) := by
  induction upper generalizing lower with
  | nil => simpa using h
  | cons e upper ih =>
    rw [merge_cons]
    exact ih (h.insert _ _)

end Document

end ConfigTree
