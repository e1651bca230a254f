import ConfigTree.Proofs.Document.Held

/-!
# Data over several documents

Is it the same to lay data over each of two documents and merge them, as to merge them and lay the data
over the result? Where the data hold a mapping and the upper document something else, it is not: the data
replace this something before it could replace what the lower document holds there, which then stays.

So the upper document must yield to the data (`held_merge_merge`). Any document can be made to, by taking
away what stands in the way, and laying the data over it gives the same then (`held_merge_clear`).
-/

namespace ConfigTree

namespace Document

variable {d lower upper data : Document} {path : List String} {v : Value}

/-- Where the data hold a mapping, the document holds a mapping or nothing. -/
def YieldsTo (d data : Document) : Prop :=
  ∀ path, data.HoldsMapping path → ∀ v, d.at? path = some v → ∃ es, v = .mapping es

theorem YieldsTo.held_ne_other (h : d.YieldsTo data) (hdata : data.held path = .mapping) :
    d.held path ≠ .other v := by
  intro hheld
  obtain ⟨hat, hv⟩ := held_eq_other_iff.1 hheld
  obtain ⟨es, rfl⟩ := h path (held_eq_mapping_iff.1 hdata) v hat
  cases hv

theorem yieldsTo_of_held (h : ∀ path v, data.held path = .mapping → d.held path ≠ .other v) :
    d.YieldsTo data := by
  intro path hdata v hat
  cases hv : v.entries? with
  | none => exact absurd (held_eq_other_iff.2 ⟨hat, hv⟩) (h path v (held_eq_mapping_iff.2 hdata))
  | some es => exact ⟨es, Value.entries?_eq_some_iff.1 hv⟩

/-- Data cut a path wherever they are laid over a document. -/
theorem cuts_merge_of_cuts (hdata : data.Wellformed) (h : data.Cuts path) :
    Cuts (merge d data) path := by
  obtain ⟨way, v, hway, hv⟩ := cuts_iff_held.1 h
  refine cuts_iff_held.2 ⟨way, v, hway, ?_⟩
  rw [held_merge_of_cuts hdata (cuts_iff_held.2 ⟨way, v, List.prefix_rfl, hv⟩), hv]

/-- Where data do not cut a path, a document that yields to them cuts it with them as without them. -/
theorem cuts_merge_iff (hdata : data.Wellformed) (hd : d.YieldsTo data) (hcuts : ¬ data.Cuts path) :
    Cuts (merge d data) path ↔ d.Cuts path := by
  have hheld : ∀ way v, way <+: path →
      (held (merge d data) way = .other v ↔ d.held way = .other v) := by
    intro way v hway
    have hway' : ¬ data.Cuts way := fun h => hcuts (cuts_mono hway h)
    rcases held_of_not_cuts hway' with h | h
    · rw [held_merge_of_nothing hdata hway' h]
    · rw [held_merge_of_mapping hdata h]
      exact iff_of_false (by simp) (hd.held_ne_other h)
  simp only [cuts_iff_held]
  constructor
  · rintro ⟨way, v, hway, h⟩
    exact ⟨way, v, hway, (hheld way v hway).1 h⟩
  · rintro ⟨way, v, hway, h⟩
    exact ⟨way, v, hway, (hheld way v hway).2 h⟩

/-- **Data over two documents.** Where the upper document yields to the data, it is the same to lay them
over both documents and over their merge. -/
theorem held_merge_merge (hupper : upper.Wellformed) (hdata : data.Wellformed)
    (hyields : upper.YieldsTo data) :
    held (merge (merge lower data) (merge upper data)) = held (merge (merge lower upper) data) := by
  have hforced : Document.Wellformed (merge upper data) := hupper.merge hdata
  funext path
  by_cases hcuts : data.Cuts path
  · rw [held_merge_of_cuts hdata hcuts, held_merge_of_cuts hforced (cuts_merge_of_cuts hdata hcuts),
      held_merge_of_cuts hdata hcuts]
  rcases held_of_not_cuts hcuts with hnothing | hmapping
  · have hupperheld : held (merge upper data) path = upper.held path :=
      held_merge_of_nothing hdata hcuts hnothing
    rw [held_merge_of_nothing hdata hcuts hnothing]
    by_cases hup : upper.Cuts path
    · rw [held_merge_of_cuts hforced ((cuts_merge_iff hdata hyields hcuts).2 hup), hupperheld,
        held_merge_of_cuts hupper hup]
    · have hup' : ¬ Cuts (merge upper data) path := fun h =>
        hup ((cuts_merge_iff hdata hyields hcuts).1 h)
      rcases held_of_not_cuts hup with h | h
      · rw [held_merge_of_nothing hforced hup' (hupperheld.trans h),
          held_merge_of_nothing hdata hcuts hnothing, held_merge_of_nothing hupper hup h]
      · rw [held_merge_of_mapping hforced (hupperheld.trans h), held_merge_of_mapping hupper h]
  · rw [held_merge_of_mapping hdata hmapping,
      held_merge_of_mapping hforced (held_merge_of_mapping hdata hmapping)]

/-- A merge yields where both documents do. -/
theorem YieldsTo.merge (hupper : upper.Wellformed) (hlower : lower.YieldsTo data)
    (hyields : upper.YieldsTo data) : YieldsTo (merge lower upper) data := by
  refine yieldsTo_of_held fun path v hdata h => ?_
  by_cases hcuts : upper.Cuts path
  · rw [held_merge_of_cuts hupper hcuts] at h
    exact hyields.held_ne_other hdata h
  rcases held_of_not_cuts hcuts with hnothing | hmapping
  · rw [held_merge_of_nothing hupper hcuts hnothing] at h
    exact hlower.held_ne_other hdata h
  · rw [held_merge_of_mapping hupper hmapping] at h
    cases h

end Document

/-! ### Clearing the way for data -/

mutual

/-- A value without what is in the way of mappings of the data that are laid over its place; none when
the value itself is. -/
def Value.clear (forced : Option Value) : Value → Option Value
  | .mapping es =>
    match forced with
    | some (.mapping data) => some (.mapping (Document.clear data es))
    | _ => some (.mapping es)
  | v =>
    match forced with
    | some (.mapping _) => none
    | _ => some v

/-- A document without what is in the way of mappings of the data: the values that are no mappings where
the data hold one. -/
def Document.clear (data : Document) : List (String × Value) → List (String × Value)
  | [] => []
  | (key, v) :: es =>
    match Value.clear (Entries.get? data key) v with
    | some u => (key, u) :: Document.clear data es
    | none => Document.clear data es

end

section

variable {data es : Document} {v : Value} {forced : Option Value}

theorem Value.clear_mapping :
    Value.clear (some (.mapping data)) (.mapping es) = some (.mapping (Document.clear data es)) := by
  simp [Value.clear]

theorem Value.clear_of_entries?_eq_none (hv : v.entries? = none) :
    Value.clear (some (.mapping data)) v = none := by
  cases v with
  | mapping es => cases hv
  | _ => simp [Value.clear]

/-- Nothing is in the way where there is no mapping. -/
theorem Value.clear_of_ne (h : ∀ data, forced ≠ some (.mapping data)) :
    Value.clear forced v = some v := by
  unfold Value.clear
  split
  · split
    · next data => exact absurd rfl (h data)
    · rfl
  · split
    · next data => exact absurd rfl (h data)
    · rfl

end

namespace Document

variable {d data es : Document} {key : String} {v : Value} {forced : Option Value}
  {path : List String}

theorem keys_clear_sublist (data es : Document) :
    (Entries.keys (clear data es)).Sublist (Entries.keys es) := by
  induction es with
  | nil => exact .slnil
  | cons e es ih =>
    obtain ⟨key, v⟩ := e
    rw [clear]
    split
    · exact ih.cons_cons key
    · exact ih.cons key

theorem get?_clear (hes : Entries.Distinct es) :
    Entries.get? (clear data es) key =
      (Entries.get? es key).bind (Value.clear (Entries.get? data key)) := by
  induction es with
  | nil => rfl
  | cons e es ih =>
    obtain ⟨k, v⟩ := e
    obtain ⟨hk, hes⟩ := List.nodup_cons.1 hes
    have hnone : Entries.get? (clear data es) k = none :=
      Entries.get?_eq_none_of_not_mem fun hm => hk ((keys_clear_sublist data es).subset hm)
    rw [clear, Entries.get?]
    by_cases hkey : k = key
    · subst hkey
      rw [if_pos rfl, Option.bind_some]
      split
      · next u hu => rw [Entries.get?, if_pos rfl, hu]
      · next hu => rw [hu, hnone]
    · rw [if_neg hkey]
      split
      · rw [Entries.get?, if_neg hkey, ih hes]
      · exact ih hes

end Document

/-- Below a place without a mapping there is none. -/
theorem Held.at_ne_mapping {place : Option Value} (h : ∀ es, place ≠ some (.mapping es))
    (path : List String) : Held.at place path ≠ mapping := by
  cases place with
  | none => simp [Held.at_none]
  | some v =>
    have hv : v.entries? = none := by
      cases hes : v.entries? with
      | none => rfl
      | some es => exact absurd (congrArg some (Value.entries?_eq_some_iff.1 hes)) (h es)
    cases path with
    | nil => simp [Held.at_nil_of_entries?_eq_none hv]
    | cons key path => simp [Held.at_cons_of_entries?_eq_none hv]

/-- What clearing leaves of what a place holds at a key path: all of it, but for what is no mapping where
the data hold one. -/
def Held.Cleared (forced held cleared : Held) : Prop :=
  (forced ≠ mapping → cleared = held) ∧ (forced = mapping → ∀ u, cleared ≠ other u)

theorem Held.cleared_of_ne {place : Option Value} {held : Held}
    (h : ∀ es, place ≠ some (.mapping es)) (path : List String) :
    Held.Cleared (Held.at place path) held held :=
  ⟨fun _ => rfl, fun hpath => absurd hpath (Held.at_ne_mapping h path)⟩

theorem Held.cleared_at_clear {forced : Option Value} {v : Value} (hv : v.Wellformed)
    (path : List String) :
    Held.Cleared (Held.at forced path) (Held.at (some v) path)
      (Held.at (Value.clear forced v) path) := by
  induction path generalizing forced v with
  | nil =>
    by_cases hforced : ∃ data, forced = some (.mapping data)
    · obtain ⟨data, rfl⟩ := hforced
      refine ⟨fun hpath => absurd Held.at_mapping_nil hpath, fun _ u => ?_⟩
      cases hentries : v.entries? with
      | none => simp [Value.clear_of_entries?_eq_none hentries, Held.at_none]
      | some es =>
        obtain rfl := Value.entries?_eq_some_iff.1 hentries
        simp [Value.clear_mapping, Held.at_mapping_nil]
    · rw [Value.clear_of_ne (not_exists.1 hforced)]
      exact Held.cleared_of_ne (not_exists.1 hforced) []
  | cons key path ih =>
    by_cases hforced : ∃ data, forced = some (.mapping data)
    · obtain ⟨data, rfl⟩ := hforced
      cases hentries : v.entries? with
      | none =>
        rw [Value.clear_of_entries?_eq_none hentries, Held.at_none,
          Held.at_cons_of_entries?_eq_none hentries]
        exact ⟨fun _ => rfl, fun _ u => by simp⟩
      | some es =>
        obtain rfl := Value.entries?_eq_some_iff.1 hentries
        rw [Value.clear_mapping, Held.at_mapping_cons, Held.at_mapping_cons, Held.at_mapping_cons,
          Document.get?_clear hv.1]
        cases hget : Entries.get? es key with
        | none => exact ⟨fun _ => rfl, fun _ u => by simp [Held.at_none]⟩
        | some u => exact ih (Value.wellformed_of_entriesGet? hv.2 hget)
    · rw [Value.clear_of_ne (not_exists.1 hforced)]
      exact Held.cleared_of_ne (not_exists.1 hforced) _

theorem Value.wellformed_clear_of_entries?_eq_none {forced : Option Value} {v : Value}
    (hv : v.Wellformed) (hentries : v.entries? = none) :
    ∀ u ∈ Value.clear forced v, u.Wellformed := by
  intro u hu
  by_cases hforced : ∃ data, forced = some (.mapping data)
  · obtain ⟨data, rfl⟩ := hforced
    rw [Value.clear_of_entries?_eq_none hentries] at hu
    cases hu
  · rw [Value.clear_of_ne (not_exists.1 hforced)] at hu
    cases hu
    exact hv

mutual

theorem Value.wellformed_clear :
    ∀ (forced : Option Value) (v : Value), v.Wellformed → ∀ u ∈ Value.clear forced v, u.Wellformed
  | forced, .mapping es, hv, u, hu => by
    unfold Value.clear at hu
    split at hu
    · next data =>
      cases hu
      exact ⟨(Document.keys_clear_sublist data es).nodup hv.1,
        Document.wellformedEntries_clear data es hv.2⟩
    · cases hu
      exact hv
  | _, .null, hv, u, hu => Value.wellformed_clear_of_entries?_eq_none hv rfl u hu
  | _, .bool _, hv, u, hu => Value.wellformed_clear_of_entries?_eq_none hv rfl u hu
  | _, .number _, hv, u, hu => Value.wellformed_clear_of_entries?_eq_none hv rfl u hu
  | _, .string _, hv, u, hu => Value.wellformed_clear_of_entries?_eq_none hv rfl u hu
  | _, .sequence _, hv, u, hu => Value.wellformed_clear_of_entries?_eq_none hv rfl u hu

theorem Document.wellformedEntries_clear :
    ∀ (data : Document) (es : List (String × Value)), Value.WellformedEntries es →
      Value.WellformedEntries (Document.clear data es)
  | data, [], _ => trivial
  | data, (key, v) :: es, hes => by
    rw [Document.clear]
    split
    · next u hu =>
      exact ⟨Value.wellformed_clear _ v hes.1 u hu, Document.wellformedEntries_clear data es hes.2⟩
    · exact Document.wellformedEntries_clear data es hes.2

end

namespace Document

variable {d data lower upper : Document} {path : List String}

theorem Wellformed.clear (hd : d.Wellformed) (data : Document) :
    Document.Wellformed (Document.clear data d) :=
  ⟨(keys_clear_sublist data d).nodup hd.1, wellformedEntries_clear data d hd.2⟩

theorem cleared_held (hd : d.Wellformed) (data : Document) (path : List String) :
    Held.Cleared (data.held path) (d.held path) (held (Document.clear data d) path) := by
  have h : Held.Cleared (data.held path) (d.held path)
      (Held.at (Value.clear (some (.mapping data)) (.mapping d)) path) :=
    Held.cleared_at_clear hd path
  rwa [Value.clear_mapping] at h

/-- What is cleared for data yields to them. -/
theorem yieldsTo_clear (hd : d.Wellformed) : YieldsTo (Document.clear data d) data :=
  yieldsTo_of_held fun path v hdata => (cleared_held hd data path).2 hdata v

/-- Clearing a document for data takes away only what they replace. -/
theorem held_merge_clear (hd : d.Wellformed) (hdata : data.Wellformed) :
    held (merge (Document.clear data d) data) = held (merge d data) := by
  funext path
  by_cases hcuts : data.Cuts path
  · rw [held_merge_of_cuts hdata hcuts, held_merge_of_cuts hdata hcuts]
  rcases held_of_not_cuts hcuts with hnothing | hmapping
  · rw [held_merge_of_nothing hdata hcuts hnothing, held_merge_of_nothing hdata hcuts hnothing]
    exact (cleared_held hd data path).1 (by simp [hnothing])
  · rw [held_merge_of_mapping hdata hmapping, held_merge_of_mapping hdata hmapping]

/-! ### Data over many documents -/

/-- The first document is the second one with data laid over it, up to the order of entries, and the
second one yields to the data. -/
structure Forced (data forced d : Document) : Prop where
  /-- No mapping in the first document has a key twice. -/
  wellformed_forced : forced.Wellformed
  /-- No mapping in the second document has a key twice. -/
  wellformed : d.Wellformed
  /-- The second document holds mappings or nothing where the data hold mappings. -/
  yields : d.YieldsTo data
  /-- The first document holds what the data leave of the second one. -/
  held_eq : forced.held = held (merge d data)

theorem Forced.merge {forced : Document} (hdata : data.Wellformed) (hlower : Forced data forced lower)
    {forced' : Document} (hupper : Forced data forced' upper) :
    Forced data (Document.merge forced forced') (Document.merge lower upper) where
  wellformed_forced := hlower.wellformed_forced.merge hupper.wellformed_forced
  wellformed := hlower.wellformed.merge hupper.wellformed
  yields := hlower.yields.merge hupper.wellformed hupper.yields
  held_eq := by
    rw [← held_merge_merge hupper.wellformed hdata hupper.yields]
    exact held_merge_congr hupper.wellformed_forced (hupper.wellformed.merge hdata) hlower.held_eq
      hupper.held_eq

/-- What is laid over documents one after the other may be laid over their merge. -/
theorem forced_foldl (hdata : data.Wellformed) {forced : Document} (h : Forced data forced d)
    {fs ds : List Document} (hds : List.Forall₂ (Forced data) fs ds) :
    Forced data (fs.foldl Document.merge forced) (ds.foldl Document.merge d) := by
  induction hds generalizing forced d with
  | nil => exact h
  | cons hfirst _ ih => exact ih (h.merge hdata hfirst)

/-- **Data over many documents**, of which there is at least one. -/
theorem forced_mergeAll (hdata : data.Wellformed) {fs ds : List Document} (hne : ds ≠ [])
    (hds : List.Forall₂ (Forced data) fs ds) : Forced data (mergeAll fs) (mergeAll ds) := by
  cases hds with
  | nil => exact absurd rfl hne
  | cons hfirst hrest =>
    rw [mergeAll, mergeAll, List.foldl_cons, List.foldl_cons, nil_merge hfirst.wellformed_forced.1,
      nil_merge hfirst.wellformed.1]
    exact forced_foldl hdata hfirst hrest

/-- Each document may be cleared for the data. -/
theorem forced_clear (hd : d.Wellformed) (hdata : data.Wellformed) :
    Forced data (merge d data) (Document.clear data d) where
  wellformed_forced := hd.merge hdata
  wellformed := hd.clear data
  yields := yieldsTo_clear hd
  held_eq := (held_merge_clear hd hdata).symm

/-- A document that yields to the data need not be cleared. -/
theorem forced_of_yieldsTo (hd : d.Wellformed) (hdata : data.Wellformed) (h : d.YieldsTo data) :
    Forced data (merge d data) d where
  wellformed_forced := hd.merge hdata
  wellformed := hd
  yields := h
  held_eq := rfl

theorem Forced.reordered {forced : Document} (hdata : data.Wellformed) (h : Forced data forced d) :
    Value.ReorderedEntries forced (Document.merge d data) :=
  reorderedEntries_of_held_eq h.wellformed_forced (h.wellformed.merge hdata) h.held_eq

end Document

end ConfigTree
