import ConfigTree.Proofs.Document.Positions
import Mathlib.Data.List.Basic

/-!
# Values with other texts

Overwriting the strings of a value with one text leaves its keys, its other scalars and its shape. So two
values that cannot be told apart once this is done are the same but for the texts in them
(`Value.SameButTexts`), and reading them at one path gives values that are the same but for their texts,
or nothing in both (`SameButTexts.get?`).
-/

namespace ConfigTree

theorem Entries.get?_map {α β : Type} (f : α → β) (es : Entries α) (key : String) :
    Entries.get? (es.map fun e => (e.1, f e.2)) key = (Entries.get? es key).map f := by
  induction es with
  | nil => rfl
  | cons e es ih =>
    rw [List.map_cons, Entries.get?, Entries.get?, ih]
    split <;> rfl

namespace Value

variable {v w : Value} {text : String} {p : Path} {s : Segment} {items : List Value}
  {entries : List (String × Value)}

/-- The value with this text in place of each of its strings. -/
def overwrite (text : String) (v : Value) : Value :=
  Id.run (v.mapStrings fun _ => pure (.string text))

/-- The values are the same but for the texts in them. -/
def SameButTexts (v w : Value) : Prop := v.overwrite "" = w.overwrite ""

@[simp] theorem overwrite_null : overwrite text .null = .null := rfl

@[simp] theorem overwrite_bool (b : Bool) : overwrite text (.bool b) = .bool b := rfl

@[simp] theorem overwrite_number (n : Number) : overwrite text (.number n) = .number n := rfl

@[simp] theorem overwrite_string (t : String) : overwrite text (.string t) = .string text := rfl

@[simp] theorem overwrite_sequence (items : List Value) :
    overwrite text (.sequence items) = .sequence (items.map (overwrite text)) := by
  refine congrArg Value.sequence ?_
  induction items with
  | nil => rfl
  | cons v items ih => exact congrArg (overwrite text v :: ·) ih

@[simp] theorem overwrite_mapping (entries : List (String × Value)) :
    overwrite text (.mapping entries) = .mapping (entries.map fun e => (e.1, e.2.overwrite text)) := by
  refine congrArg Value.mapping ?_
  induction entries with
  | nil => rfl
  | cons e entries ih => exact congrArg ((e.1, e.2.overwrite text) :: ·) ih

theorem stringsOfItems_eq_flatMap (items : List Value) : stringsOfItems items = items.flatMap strings := by
  induction items with
  | nil => rfl
  | cons v items ih => rw [stringsOfItems, ih, List.flatMap_cons]

theorem stringsOfEntries_eq_flatMap (entries : List (String × Value)) :
    stringsOfEntries entries = entries.flatMap fun e => e.2.strings := by
  induction entries with
  | nil => rfl
  | cons e entries ih => rw [stringsOfEntries, ih, List.flatMap_cons]

theorem overwrite_overwrite (first second : String) (v : Value) :
    (v.overwrite first).overwrite second = v.overwrite second := by
  induction v using Value.induction with
  | leaf v hv => cases v <;> simp_all [IsLeaf]
  | sequence items _ ih => simpa using ih
  | mapping entries _ ih => simpa using ih

/-- Each string is overwritten, and none is added. -/
theorem strings_overwrite (text : String) (v : Value) :
    (v.overwrite text).strings = v.strings.map fun _ => text := by
  induction v using Value.induction with
  | leaf v hv => cases v <;> simp_all [IsLeaf, strings, stringsOfItems, stringsOfEntries]
  | sequence items _ ih =>
    rw [overwrite_sequence, strings, strings, stringsOfItems_eq_flatMap, stringsOfItems_eq_flatMap,
      List.flatMap_map, List.map_flatMap]
    exact List.flatMap_congr ih
  | mapping entries _ ih =>
    rw [overwrite_mapping, strings, strings, stringsOfEntries_eq_flatMap,
      stringsOfEntries_eq_flatMap, List.flatMap_map, List.map_flatMap]
    exact List.flatMap_congr ih

theorem overwrite_of_strings_eq_nil (h : v.strings = []) : v.overwrite text = v := by
  induction v using Value.induction with
  | leaf v hv => cases v <;> simp_all [IsLeaf, strings]
  | sequence items _ ih =>
    rw [strings, stringsOfItems_eq_flatMap, List.flatMap_eq_nil_iff] at h
    rw [overwrite_sequence, List.map_congr_left fun v hv => ih v hv (h v hv), List.map_id']
  | mapping entries _ ih =>
    rw [strings, stringsOfEntries_eq_flatMap, List.flatMap_eq_nil_iff] at h
    rw [overwrite_mapping, List.map_congr_left fun e he => congrArg (e.1, ·) (ih e he (h e he)),
      List.map_id']

theorem child?_overwrite : (v.overwrite text).child? s = (v.child? s).map (overwrite text) := by
  cases v with
  | sequence items =>
    rw [overwrite_sequence]
    cases s with
    | index i => exact List.getElem?_map
    | key name =>
      simp only [child?]
      cases Text.readIndex? name.toList with
      | none => rfl
      | some i => exact List.getElem?_map
  | mapping entries =>
    rw [overwrite_mapping]
    cases s <;> exact Entries.get?_map _ _ _
  | _ => rfl

/-- What is read at a path is overwritten along with the value. -/
theorem get?_overwrite : (v.overwrite text).get? p = (v.get? p).map (overwrite text) := by
  induction p generalizing v with
  | nil => rfl
  | cons s p ih =>
    rw [get?, get?, child?_overwrite]
    cases v.child? s with
    | none => rfl
    | some u => exact ih

theorem sameButTexts_overwrite (text : String) (v : Value) : (v.overwrite text).SameButTexts v :=
  overwrite_overwrite text "" v

theorem SameButTexts.exists_string (h : v.SameButTexts (.string text)) : ∃ t, v = .string t := by
  cases v <;> simp_all [SameButTexts]

theorem SameButTexts.exists_sequence (h : v.SameButTexts (.sequence items)) :
    ∃ items', v = .sequence items' := by
  cases v <;> simp_all [SameButTexts]

theorem SameButTexts.exists_mapping (h : v.SameButTexts (.mapping entries)) :
    ∃ entries', v = .mapping entries' := by
  cases v <;> simp_all [SameButTexts]

/-- Reading at one path gives values that are the same but for their texts, or nothing in both. -/
theorem SameButTexts.get? (h : v.SameButTexts w) :
    (v.get? p).map (overwrite "") = (w.get? p).map (overwrite "") := by
  rw [← get?_overwrite, ← get?_overwrite, h]

/-- A value without texts is the only one that is the same but for texts. -/
theorem SameButTexts.eq_of_strings_eq_nil (h : v.SameButTexts w) (hw : w.strings = []) : v = w := by
  have hv : v.strings = [] := by
    have hstrings := congrArg strings h
    rw [strings_overwrite, strings_overwrite, hw] at hstrings
    exact List.map_eq_nil_iff.1 hstrings
  rw [SameButTexts, overwrite_of_strings_eq_nil hv, overwrite_of_strings_eq_nil hw] at h
  exact h

end Value

end ConfigTree
