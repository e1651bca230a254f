import ConfigTree.Proofs.Document.LastWriter
import ConfigTree.Proofs.Document.Wellformed

/-!
# What a document holds at each key path

What is in a mapping is held at longer paths. So it is enough to know at which key paths a document holds
a mapping, no matter which, and what else it holds at the others: two documents of which this is the same
are the same up to the order of entries (`reorderedEntries_of_held_eq`). Merging goes path by path then.
What the upper document cuts off is as the upper document has it, its mappings stay mappings, and all else
is as it was (`held_merge_of_cuts`, `held_merge_of_mapping`, `held_merge_of_nothing`).
-/

namespace ConfigTree

/-- What is held at a key path; one mapping counts like any other. -/
inductive Held where
  /-- Nothing. -/
  | nothing
  /-- A mapping. -/
  | mapping
  /-- A value that is no mapping. -/
  | other (v : Value)

/-- What a place, which may be empty, holds at a key path below it. -/
def Held.at (place : Option Value) (path : List String) : Held :=
  match place.bind (·.at? path) with
  | none => nothing
  | some (.mapping _) => mapping
  | some v => other v

/-- What a document holds at a key path. -/
def Document.held (d : Document) (path : List String) : Held := Held.at (some (.mapping d)) path

namespace Held

variable {v : Value} {es : Document} {key : String} {path : List String}

theorem at_none (path : List String) : Held.at none path = nothing := rfl

theorem at_nil_of_entries?_eq_none (h : v.entries? = none) : Held.at (some v) [] = other v := by
  cases v <;> first | rfl | cases h

theorem at_cons_of_entries?_eq_none (h : v.entries? = none) :
    Held.at (some v) (key :: path) = nothing := by
  rw [Held.at, Option.bind_some, Value.at?_cons_of_entries?_eq_none h]

theorem at_mapping_nil : Held.at (some (.mapping es)) [] = mapping := rfl

theorem at_mapping_cons :
    Held.at (some (.mapping es)) (key :: path) = Held.at (Entries.get? es key) path := rfl

end Held

namespace Document

variable {d : Document} {path : List String} {v : Value}

theorem held_eq_nothing_iff : d.held path = .nothing ↔ d.at? path = none := by
  show Held.at (some (.mapping d)) path = .nothing ↔ (Value.mapping d).at? path = none
  rw [Held.at, Option.bind_some]
  rcases (Value.mapping d).at? path with _ | u
  · simp
  · cases u <;> simp

theorem held_eq_mapping_iff : d.held path = .mapping ↔ d.HoldsMapping path := by
  show Held.at (some (.mapping d)) path = .mapping ↔ ∃ es, (Value.mapping d).at? path = some (.mapping es)
  rw [Held.at, Option.bind_some]
  rcases (Value.mapping d).at? path with _ | u
  · simp
  · cases u <;> simp

theorem held_eq_other_iff : d.held path = .other v ↔ d.at? path = some v ∧ v.entries? = none := by
  show Held.at (some (.mapping d)) path = .other v ↔ (Value.mapping d).at? path = some v ∧ _
  rw [Held.at, Option.bind_some]
  rcases (Value.mapping d).at? path with _ | u
  · simp
  · cases u with
    | mapping es =>
      constructor
      · rintro ⟨⟩
      · rintro ⟨⟨⟩, ⟨⟩⟩
    | _ =>
      constructor
      · rintro ⟨⟩
        exact ⟨rfl, rfl⟩
      · rintro ⟨⟨⟩, -⟩
        rfl

end Document

/-! ### Up to the order of entries -/

namespace Value

/-- Entries are the same up to order when the keys are, and the values up to the order of theirs. -/
theorem reorderedEntries_of_forall {es fs : Document} (hes : Entries.Distinct es)
    (hfs : Entries.Distinct fs) (hkeys : ∀ key ∈ Entries.keys fs, key ∈ Entries.keys es)
    (h : ∀ key v, (key, v) ∈ es → ∃ w, (key, w) ∈ fs ∧ Reordered v w) : ReorderedEntries es fs := by
  induction es generalizing fs with
  | nil =>
    cases fs with
    | nil => exact .nil
    | cons f fs => exact absurd (hkeys f.1 (by simp [Entries.keys])) (by simp [Entries.keys])
  | cons e es ih =>
    obtain ⟨key, v⟩ := e
    obtain ⟨hkey, hes⟩ := List.nodup_cons.1 hes
    obtain ⟨w, hw, hvw⟩ := h key v List.mem_cons_self
    -- the entry of this key is moved to the front of the other list
    have hperm : fs.Perm ((key, w) :: List.erase fs (key, w)) := List.perm_cons_erase hw
    have hfirst : Entries.Distinct ((key, w) :: List.erase fs (key, w)) :=
      (hperm.map Prod.fst).nodup hfs
    obtain ⟨hnew, hrest⟩ := List.nodup_cons.1 hfirst
    refine .trans (.cons hvw (ih hes hrest ?_ ?_)) (.of_perm hperm.symm)
    · intro other hother
      have hmem : other ∈ Entries.keys fs :=
        (hperm.map Prod.fst).mem_iff.2 (List.mem_cons_of_mem _ hother)
      rcases List.mem_cons.1 (hkeys other hmem) with rfl | hmem
      · exact absurd hother hnew
      · exact hmem
    · intro other u hu
      obtain ⟨u', hu', huu'⟩ := h other u (List.mem_cons_of_mem _ hu)
      rcases List.mem_cons.1 (hperm.mem_iff.1 hu') with heq | hmem
      · cases heq
        exact absurd (List.mem_map_of_mem hu) hkey
      · exact ⟨u', hmem, huu'⟩

/-- What a place holds tells whether there is anything. -/
theorem isSome_iff_at_nil (place : Option Value) : place.isSome ↔ Held.at place [] ≠ .nothing := by
  cases place with
  | none => simp [Held.at_none]
  | some v =>
    cases hv : v.entries? with
    | none => simp [Held.at_nil_of_entries?_eq_none hv]
    | some es =>
      obtain rfl := entries?_eq_some_iff.1 hv
      simp [Held.at_mapping_nil]

theorem eq_of_at_nil {v w : Value} (hv : v.entries? = none)
    (h : ∀ path, Held.at (some v) path = Held.at (some w) path) : v = w := by
  have hnil := h []
  rw [Held.at_nil_of_entries?_eq_none hv] at hnil
  cases hw : w.entries? with
  | none =>
    rw [Held.at_nil_of_entries?_eq_none hw] at hnil
    exact Held.other.inj hnil
  | some es =>
    obtain rfl := entries?_eq_some_iff.1 hw
    cases hnil

mutual

/-- Values that hold the same at each key path are the same up to the order of entries. -/
theorem reordered_of_at : ∀ v w : Value, v.Wellformed → w.Wellformed →
    (∀ path, Held.at (some v) path = Held.at (some w) path) → Reordered v w
  | .mapping es, w, hv, hw, h => by
    have hnil := h []
    cases hentries : w.entries? with
    | none =>
      rw [Held.at_nil_of_entries?_eq_none hentries] at hnil
      cases hnil
    | some fs =>
      obtain rfl := entries?_eq_some_iff.1 hentries
      have hget : ∀ key path, Held.at (Entries.get? es key) path = Held.at (Entries.get? fs key) path :=
        fun key path => h (key :: path)
      have hsome : ∀ key, (Entries.get? es key).isSome ↔ (Entries.get? fs key).isSome := fun key => by
        rw [isSome_iff_at_nil, isSome_iff_at_nil, hget key []]
      refine .mapping (reorderedEntries_of_forall hv.1 hw.1 (fun key hkey => ?_) fun key u hu => ?_)
      · rw [← Entries.isSome_get?_iff] at hkey ⊢
        exact (hsome key).2 hkey
      · have hu' := Entries.Distinct.get?_of_mem hv.1 hu
        obtain ⟨t, ht⟩ := Option.isSome_iff_exists.1 ((hsome key).1 (by rw [hu']; rfl))
        refine ⟨t, Entries.mem_of_get?_eq_some ht, ?_⟩
        refine reordered_of_at_of_mem es hv.2 key u hu t (wellformed_of_entriesGet? hw.2 ht) ?_
        intro path
        rw [← hu', ← ht, hget key path]
  | .null, w, _, _, h => eq_of_at_nil rfl h ▸ .refl _
  | .bool _, w, _, _, h => eq_of_at_nil rfl h ▸ .refl _
  | .number _, w, _, _, h => eq_of_at_nil rfl h ▸ .refl _
  | .string _, w, _, _, h => eq_of_at_nil rfl h ▸ .refl _
  | .sequence _, w, _, _, h => eq_of_at_nil rfl h ▸ .refl _

theorem reordered_of_at_of_mem : ∀ es : List (String × Value), WellformedEntries es →
    ∀ key v, (key, v) ∈ es → ∀ w : Value, w.Wellformed →
      (∀ path, Held.at (some v) path = Held.at (some w) path) → Reordered v w
  | (_, u) :: es, hes, key, v, hmem, w, hw, h => by
    rcases List.mem_cons.1 hmem with heq | hmem
    · cases heq
      exact reordered_of_at u w hes.1 hw h
    · exact reordered_of_at_of_mem es hes.2 key v hmem w hw h

end

end Value

namespace Document

variable {d e lower upper : Document} {path way : List String}

/-- **Held everywhere alike.** Documents that hold the same at each key path are the same up to the order
of entries. -/
theorem reorderedEntries_of_held_eq (hd : d.Wellformed) (he : e.Wellformed) (h : d.held = e.held) :
    Value.ReorderedEntries d e := by
  have hreordered := Value.reordered_of_at (.mapping d) (.mapping e) hd he (congrFun h)
  cases hreordered with
  | mapping hentries => exact hentries

/-! ### Where paths are cut -/

theorem cuts_iff_held : d.Cuts path ↔ ∃ way v, way <+: path ∧ d.held way = .other v := by
  constructor
  · rintro ⟨way, v, hway, hat, hv⟩
    exact ⟨way, v, hway, held_eq_other_iff.2 ⟨hat, hv⟩⟩
  · rintro ⟨way, v, hway, hheld⟩
    obtain ⟨hat, hv⟩ := held_eq_other_iff.1 hheld
    exact ⟨way, v, hway, hat, hv⟩

theorem cuts_mono (hway : way <+: path) (h : d.Cuts way) : d.Cuts path := by
  obtain ⟨first, v, hfirst, hv⟩ := cuts_iff_held.1 h
  exact cuts_iff_held.2 ⟨first, v, hfirst.trans hway, hv⟩

/-- Where a path is not cut, there is a mapping at it or nothing. -/
theorem held_of_not_cuts (h : ¬ d.Cuts path) : d.held path = .nothing ∨ d.held path = .mapping := by
  rcases Value.at?_of_not_cuts h with hnone | hmapping
  · exact .inl (held_eq_nothing_iff.2 hnone)
  · exact .inr (held_eq_mapping_iff.2 hmapping)

/-! ### Merging, path by path -/

theorem held_merge_of_cuts (hupper : upper.Wellformed) (h : upper.Cuts path) :
    held (merge lower upper) path = upper.held path := by
  have hat : at? (merge lower upper) path = upper.at? path := at?_merge_of_cuts hupper h
  cases hheld : upper.held path with
  | nothing => rwa [held_eq_nothing_iff, hat, ← held_eq_nothing_iff]
  | mapping =>
    obtain ⟨es, hes⟩ := held_eq_mapping_iff.1 hheld
    exact absurd hes (Value.at?_ne_mapping_of_cuts h)
  | other v => rwa [held_eq_other_iff, hat, ← held_eq_other_iff]

theorem held_merge_of_mapping (hupper : upper.Wellformed) (h : upper.held path = .mapping) :
    held (merge lower upper) path = .mapping :=
  held_eq_mapping_iff.2 (holdsMapping_merge hupper (held_eq_mapping_iff.1 h))

theorem held_merge_of_nothing (hupper : upper.Wellformed) (hcuts : ¬ upper.Cuts path)
    (h : upper.held path = .nothing) : held (merge lower upper) path = lower.held path := by
  have hat : (Value.mapping (merge lower upper)).at? path = (Value.mapping lower).at? path :=
    at?_merge_of_none hupper hcuts (held_eq_nothing_iff.1 h)
  show Held.at (some (.mapping (merge lower upper))) path = Held.at (some (.mapping lower)) path
  rw [Held.at, Held.at, Option.bind_some, Option.bind_some, hat]

/-- What a merge holds depends only on what is held below and above. -/
theorem held_merge_congr {lower' upper' : Document} (hupper : upper.Wellformed)
    (hupper' : upper'.Wellformed) (hlower : lower.held = lower'.held)
    (hheld : upper.held = upper'.held) : held (merge lower upper) = held (merge lower' upper') := by
  funext path
  have hcutsiff : upper.Cuts path ↔ upper'.Cuts path := by simp only [cuts_iff_held, hheld]
  by_cases hcuts : upper.Cuts path
  · rw [held_merge_of_cuts hupper hcuts, held_merge_of_cuts hupper' (hcutsiff.1 hcuts), hheld]
  · have hcuts' : ¬ upper'.Cuts path := fun h => hcuts (hcutsiff.2 h)
    rcases held_of_not_cuts hcuts with h | h
    · rw [held_merge_of_nothing hupper hcuts h, held_merge_of_nothing hupper' hcuts' (hheld ▸ h),
        hlower]
    · rw [held_merge_of_mapping hupper h, held_merge_of_mapping hupper' (hheld ▸ h)]

end Document

end ConfigTree
