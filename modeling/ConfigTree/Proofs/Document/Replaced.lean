import ConfigTree.Proofs.Path.Reading

/-!
# A value with its strings replaced

Resolving a document changes its strings and nothing else. What it makes of a string may be any value,
but keys and their order, the lengths of sequences and all other scalars stay. `Value.Replaced R` says
this of two values, where `R` relates each string of the first to what stands in its place in the
second.

Reading goes along with it: whatever is read at a path of the first value is read, replaced, at the
same path of the second (`Replaced.readsAlong`). A path through a string leads nowhere, so it does not
matter that a mapping may stand there afterwards.
-/

namespace ConfigTree

namespace Value

mutual

/-- The second value is the first one with each string replaced by a value related to it. -/
inductive Replaced (R : String → Value → Prop) : Value → Value → Prop
  | null : Replaced R .null .null
  | bool (b : Bool) : Replaced R (.bool b) (.bool b)
  | number (n : Number) : Replaced R (.number n) (.number n)
  | string {s : String} {v : Value} : R s v → Replaced R (.string s) v
  | sequence {vs ws : List Value} :
      ReplacedItems R vs ws → Replaced R (.sequence vs) (.sequence ws)
  | mapping {es fs : List (String × Value)} :
      ReplacedEntries R es fs → Replaced R (.mapping es) (.mapping fs)

/-- Item by item, the second list is the first one with its strings replaced. -/
inductive ReplacedItems (R : String → Value → Prop) : List Value → List Value → Prop
  | nil : ReplacedItems R [] []
  | cons {v w : Value} {vs ws : List Value} :
      Replaced R v w → ReplacedItems R vs ws → ReplacedItems R (v :: vs) (w :: ws)

/-- Entry by entry, the second list has the keys of the first one and its values with their strings
replaced. -/
inductive ReplacedEntries (R : String → Value → Prop) :
    List (String × Value) → List (String × Value) → Prop
  | nil : ReplacedEntries R [] []
  | cons {k : String} {v w : Value} {es fs : List (String × Value)} :
      Replaced R v w → ReplacedEntries R es fs → ReplacedEntries R ((k, v) :: es) ((k, w) :: fs)

end

variable {R S : String → Value → Prop}

/-! ### Other relations between strings and values -/

mutual

/-- Only the strings of the value matter. -/
theorem Replaced.imp {v w : Value} :
    Replaced R v w → (∀ s ∈ strings v, ∀ u, R s u → S s u) → Replaced S v w
  | .null, _ => .null
  | .bool b, _ => .bool b
  | .number n, _ => .number n
  | .string h, hRS => .string (hRS _ (by simp [strings]) _ h)
  | .sequence h, hRS => .sequence (h.imp hRS)
  | .mapping h, hRS => .mapping (h.imp hRS)

theorem ReplacedItems.imp {vs ws : List Value} :
    ReplacedItems R vs ws → (∀ s ∈ stringsOfItems vs, ∀ u, R s u → S s u) → ReplacedItems S vs ws
  | .nil, _ => .nil
  | .cons h hs, hRS =>
    .cons (h.imp fun s hm => hRS s (List.mem_append_left _ hm))
      (hs.imp fun s hm => hRS s (List.mem_append_right _ hm))

theorem ReplacedEntries.imp {es fs : List (String × Value)} :
    ReplacedEntries R es fs → (∀ s ∈ stringsOfEntries es, ∀ u, R s u → S s u) →
      ReplacedEntries S es fs
  | .nil, _ => .nil
  | .cons h hs, hRS =>
    .cons (h.imp fun s hm => hRS s (List.mem_append_left _ hm))
      (hs.imp fun s hm => hRS s (List.mem_append_right _ hm))

end

mutual

/-- Something stands in the place of each string, and its strings are there. -/
theorem Replaced.exists_of_mem {v w : Value} :
    Replaced R v w → ∀ s ∈ strings v, ∃ u, R s u ∧ strings u ⊆ strings w
  | .null, s, hm => by simp [strings] at hm
  | .bool _, s, hm => by simp [strings] at hm
  | .number _, s, hm => by simp [strings] at hm
  | .string h, s, hm => ⟨_, List.mem_singleton.1 hm ▸ h, List.Subset.refl _⟩
  | .sequence h, s, hm => h.exists_of_mem s hm
  | .mapping h, s, hm => h.exists_of_mem s hm

theorem ReplacedItems.exists_of_mem {vs ws : List Value} :
    ReplacedItems R vs ws → ∀ s ∈ stringsOfItems vs, ∃ u, R s u ∧ strings u ⊆ stringsOfItems ws
  | .nil, s, hm => by simp [stringsOfItems] at hm
  | .cons h hs, s, hm => by
    rcases List.mem_append.1 hm with hm | hm
    · obtain ⟨u, hu, hsub⟩ := h.exists_of_mem s hm
      exact ⟨u, hu, List.subset_append_of_subset_left _ hsub⟩
    · obtain ⟨u, hu, hsub⟩ := hs.exists_of_mem s hm
      exact ⟨u, hu, List.subset_append_of_subset_right _ hsub⟩

theorem ReplacedEntries.exists_of_mem {es fs : List (String × Value)} :
    ReplacedEntries R es fs → ∀ s ∈ stringsOfEntries es, ∃ u, R s u ∧ strings u ⊆ stringsOfEntries fs
  | .nil, s, hm => by simp [stringsOfEntries] at hm
  | .cons h hs, s, hm => by
    rcases List.mem_append.1 hm with hm | hm
    · obtain ⟨u, hu, hsub⟩ := h.exists_of_mem s hm
      exact ⟨u, hu, List.subset_append_of_subset_left _ hsub⟩
    · obtain ⟨u, hu, hsub⟩ := hs.exists_of_mem s hm
      exact ⟨u, hu, List.subset_append_of_subset_right _ hsub⟩

end

mutual

/-- All strings that are there stand in the place of a string. -/
theorem Replaced.exists_of_mem_right {v w : Value} :
    Replaced R v w → ∀ t ∈ strings w, ∃ s ∈ strings v, ∃ u, R s u ∧ t ∈ strings u
  | .null, t, hm => by simp [strings] at hm
  | .bool _, t, hm => by simp [strings] at hm
  | .number _, t, hm => by simp [strings] at hm
  | .string h, t, hm => ⟨_, by simp [strings], _, h, hm⟩
  | .sequence h, t, hm => h.exists_of_mem_right t hm
  | .mapping h, t, hm => h.exists_of_mem_right t hm

theorem ReplacedItems.exists_of_mem_right {vs ws : List Value} :
    ReplacedItems R vs ws → ∀ t ∈ stringsOfItems ws, ∃ s ∈ stringsOfItems vs, ∃ u, R s u ∧ t ∈ strings u
  | .nil, t, hm => by simp [stringsOfItems] at hm
  | .cons h hs, t, hm => by
    rcases List.mem_append.1 hm with hm | hm
    · obtain ⟨s, hs, hu⟩ := h.exists_of_mem_right t hm
      exact ⟨s, List.mem_append_left _ hs, hu⟩
    · obtain ⟨s, hs, hu⟩ := hs.exists_of_mem_right t hm
      exact ⟨s, List.mem_append_right _ hs, hu⟩

theorem ReplacedEntries.exists_of_mem_right {es fs : List (String × Value)} :
    ReplacedEntries R es fs →
      ∀ t ∈ stringsOfEntries fs, ∃ s ∈ stringsOfEntries es, ∃ u, R s u ∧ t ∈ strings u
  | .nil, t, hm => by simp [stringsOfEntries] at hm
  | .cons h hs, t, hm => by
    rcases List.mem_append.1 hm with hm | hm
    · obtain ⟨s, hs, hu⟩ := h.exists_of_mem_right t hm
      exact ⟨s, List.mem_append_left _ hs, hu⟩
    · obtain ⟨s, hs, hu⟩ := hs.exists_of_mem_right t hm
      exact ⟨s, List.mem_append_right _ hs, hu⟩

end

mutual

/-- A value is left as it is when each of its strings is. -/
theorem replaced_self_iff :
    ∀ v : Value, Replaced R v v ↔ ∀ s ∈ strings v, R s (.string s)
  | .null => ⟨fun _ s hs => by simp [strings] at hs, fun _ => .null⟩
  | .bool b => ⟨fun _ s hs => by simp [strings] at hs, fun _ => .bool b⟩
  | .number n => ⟨fun _ s hs => by simp [strings] at hs, fun _ => .number n⟩
  | .string s => by
    constructor
    · rintro ⟨⟩ t ht
      rw [List.mem_singleton.1 ht]
      assumption
    · exact fun h => .string (h s (by simp [strings]))
  | .sequence vs => by
    rw [strings, ← replacedItems_self_iff vs]
    exact ⟨fun h => by cases h; assumption, .sequence⟩
  | .mapping es => by
    rw [strings, ← replacedEntries_self_iff es]
    exact ⟨fun h => by cases h; assumption, .mapping⟩

theorem replacedItems_self_iff :
    ∀ vs : List Value, ReplacedItems R vs vs ↔ ∀ s ∈ stringsOfItems vs, R s (.string s)
  | [] => ⟨fun _ s hs => by simp [stringsOfItems] at hs, fun _ => .nil⟩
  | v :: vs => by
    rw [stringsOfItems, List.forall_mem_append, ← replaced_self_iff v, ← replacedItems_self_iff vs]
    exact ⟨fun h => by cases h; constructor <;> assumption, fun h => .cons h.1 h.2⟩

theorem replacedEntries_self_iff :
    ∀ es : List (String × Value), ReplacedEntries R es es ↔ ∀ s ∈ stringsOfEntries es, R s (.string s)
  | [] => ⟨fun _ s hs => by simp [stringsOfEntries] at hs, fun _ => .nil⟩
  | (k, v) :: es => by
    rw [stringsOfEntries, List.forall_mem_append, ← replaced_self_iff v,
      ← replacedEntries_self_iff es]
    exact ⟨fun h => by cases h; constructor <;> assumption, fun h => .cons h.1 h.2⟩

end

mutual

/-- What stands in the places is all that is left open. -/
theorem Replaced.unique {v w w' : Value} (hR : ∀ s u u', R s u → R s u' → u = u') :
    Replaced R v w → Replaced R v w' → w = w'
  | .null, .null => rfl
  | .bool _, .bool _ => rfl
  | .number _, .number _ => rfl
  | .string h, .string h' => hR _ _ _ h h'
  | .sequence h, .sequence h' => congrArg Value.sequence (h.unique hR h')
  | .mapping h, .mapping h' => congrArg Value.mapping (h.unique hR h')

theorem ReplacedItems.unique {vs ws ws' : List Value} (hR : ∀ s u u', R s u → R s u' → u = u') :
    ReplacedItems R vs ws → ReplacedItems R vs ws' → ws = ws'
  | .nil, .nil => rfl
  | .cons h hs, .cons h' hs' => by rw [h.unique hR h', hs.unique hR hs']

theorem ReplacedEntries.unique {es fs fs' : List (String × Value)}
    (hR : ∀ s u u', R s u → R s u' → u = u') :
    ReplacedEntries R es fs → ReplacedEntries R es fs' → fs = fs'
  | .nil, .nil => rfl
  | .cons h hs, .cons h' hs' => by rw [h.unique hR h', hs.unique hR hs']

end

/-- Where there is nothing to replace, nothing is replaced. -/
theorem Replaced.eq_of_strings_eq_nil {v w : Value} (h : Replaced R v w) (hv : strings v = []) :
    w = v := by
  have hnone : Replaced (fun _ _ => False) v w := h.imp (by simp [hv])
  exact hnone.unique (fun _ _ _ hf => hf.elim) ((replaced_self_iff v).2 (by simp [hv]))

/-! ### Reading -/

theorem ReplacedEntries.get? {es fs : List (String × Value)} {key : String} {v : Value}
    (h : ReplacedEntries R es fs) (hv : Entries.get? es key = some v) :
    ∃ w, Entries.get? fs key = some w ∧ Replaced R v w := by
  induction es generalizing fs with
  | nil => cases hv
  | cons e es ih =>
    cases h with
    | cons hw hs =>
      rw [Entries.get?] at hv ⊢
      split
      · rw [if_pos ‹_›] at hv
        cases hv
        exact ⟨_, rfl, hw⟩
      · rw [if_neg ‹_›] at hv
        exact ih hs hv

theorem ReplacedItems.getElem? {vs ws : List Value} {i : Nat} {v : Value}
    (h : ReplacedItems R vs ws) (hv : vs[i]? = some v) : ∃ w, ws[i]? = some w ∧ Replaced R v w := by
  induction vs generalizing ws i with
  | nil => simp at hv
  | cons x vs ih =>
    cases h with
    | cons hw hs =>
      cases i with
      | zero =>
        cases hv
        exact ⟨_, rfl, hw⟩
      | succ i =>
        rw [List.getElem?_cons_succ] at hv ⊢
        exact ih hs hv

/-- What is read of a value is read, replaced, afterwards. -/
theorem Replaced.readsAlong : ReadsAlong (Replaced R) := by
  intro v w s t h ht
  cases h with
  | sequence h =>
    cases s with
    | index i => exact h.getElem? ht
    | key name =>
      obtain ⟨i, hi, ht⟩ := Option.bind_eq_some_iff.1 ht
      obtain ⟨u, hu, htu⟩ := h.getElem? ht
      exact ⟨u, Option.bind_eq_some_iff.2 ⟨i, hi, hu⟩, htu⟩
  | mapping h =>
    cases s with
    | index i => exact h.get? ht
    | key name => exact h.get? ht
  | _ => simp [Value.child?] at ht

/-- What is read at a path of a document is read there, replaced, afterwards. -/
theorem ReplacedEntries.documentGet? {d d' : Document} {t : Value} {p : Path}
    (h : ReplacedEntries R d d') (ht : Document.get? d p = some t) :
    ∃ u, Document.get? d' p = some u ∧ Replaced R t u :=
  Replaced.readsAlong.documentGet? (fun _ _ hv => h.get? hv) ht

end Value

end ConfigTree
