import ConfigTree.Proofs.Document.LastWriter
import ConfigTree.Proofs.Document.Positions
import ConfigTree.Proofs.Document.Wellformed

/-!
# Laws of merging

The empty document is neutral on both sides, a document merged with itself is that document, and
merging the same document a second time changes nothing, not even the order of the keys.

Merging three documents may be grouped either way, with one exception. Where the document in the middle
holds something other than a mapping and both others hold mappings, it cuts off what the lower one has
there when they are merged one by one, and is itself gone before the lower one is reached when the
upper two are merged first. It is said to *interrupt* them there (`Document.Interrupts`). Where nothing
interrupts, `(a + b) + c` is `a + (b + c)`, key order included (`merge_laws`).

All laws go level by level. Documents with distinct keys are equal when their keys come in the same
order and each key has the same value. The keys of a merge are those below and then the new ones
(`keys_merge_eq_append`); under each key stands what one value laid over another gives (`get?_merge`).
-/

namespace ConfigTree

namespace Value

/-- What holds of everything that is no mapping, and of mappings where it holds of their values, holds
of all values. -/
@[elab_as_elim]
theorem induction_mapping {motive : Value → Prop} (other : ∀ v, v.entries? = none → motive v)
    (mapping : ∀ es : Document, (∀ e ∈ es, motive e.2) → motive (.mapping es)) (v : Value) :
    motive v := by
  induction v using Value.induction with
  | leaf v hv =>
    cases v with
    | mapping es =>
      obtain rfl : es = [] := hv
      exact mapping [] (by simp)
    | _ => exact other _ rfl
  | sequence items _ _ => exact other _ rfl
  | mapping es _ ih => exact mapping es ih

/-- What stands under a key when the second value is laid over the first; either may be missing. -/
def layered (below above : Option Value) : Option Value := (above.map (overlay below)).or below

variable {u v w : Value} {below above : Option Value} {es fs gs : Document} {key : String}
  {path : List String}

@[simp] theorem layered_none : layered below none = below := rfl

@[simp] theorem none_layered : layered none above = above := by
  cases above <;> simp [layered]

@[simp] theorem layered_some : layered below (some v) = some (overlay below v) := rfl

/-- Over anything but a mapping, every value is laid as it is. -/
theorem overlay_some_of_entries?_eq_none (h : u.entries? = none) : overlay (some u) v = v := by
  cases hv : v.entries? with
  | none => exact overlay_of_entries?_eq_none hv
  | some es =>
    obtain rfl := entries?_eq_some_iff.1 hv
    refine overlay_mapping_of_ne fun lower hu => ?_
    obtain rfl := Option.some.inj hu
    cases h

/-! ### Interrupting -/

/-- At some key path the value holds something other than a mapping, and both others hold mappings. -/
def Interrupts (v u w : Value) : Prop :=
  ∃ path t, v.at? path = some t ∧ t.entries? = none ∧
    (∃ es, u.at? path = some (.mapping es)) ∧ ∃ es, w.at? path = some (.mapping es)

mutual

/-- The key paths that lead somewhere in a value. -/
def keyPaths : Value → List (List String)
  | .mapping es => [] :: keyPathsEntries es
  | .null | .bool _ | .number _ | .string _ | .sequence _ => [[]]

/-- The key paths that lead somewhere below entries. -/
def keyPathsEntries : List (String × Value) → List (List String)
  | [] => []
  | (key, v) :: es => (keyPaths v).map (key :: ·) ++ keyPathsEntries es

end

theorem nil_mem_keyPaths (v : Value) : [] ∈ v.keyPaths := by
  cases v <;> simp [keyPaths]

theorem mem_keyPathsEntries (hv : Entries.get? es key = some v) (h : path ∈ v.keyPaths) :
    key :: path ∈ keyPathsEntries es := by
  induction es with
  | nil => cases hv
  | cons e es ih =>
    obtain ⟨k, u⟩ := e
    rw [Entries.get?] at hv
    rw [keyPathsEntries, List.mem_append]
    split at hv
    · next hk =>
      cases hv
      exact .inl (hk ▸ List.mem_map_of_mem h)
    · exact .inr (ih hv)

theorem mem_keyPaths_of_at? (h : v.at? path = some u) : path ∈ v.keyPaths := by
  induction path generalizing v with
  | nil => exact nil_mem_keyPaths v
  | cons key path ih =>
    obtain ⟨w, hw, hat⟩ := Option.bind_eq_some_iff.1 h
    obtain ⟨es, hes, hw⟩ := Option.bind_eq_some_iff.1 hw
    obtain rfl := entries?_eq_some_iff.1 hes
    rw [keyPaths]
    exact List.mem_cons_of_mem _ (mem_keyPathsEntries hw (ih hat))

theorem any_entries?_isSome_iff {place : Option Value} :
    place.any (·.entries?.isSome) ↔ ∃ es, place = some (.mapping es) := by
  cases place with
  | none => simp
  | some v => simp [Option.isSome_iff_exists, entries?_eq_some_iff]

instance (v u w : Value) : Decidable (v.Interrupts u w) :=
  decidable_of_iff (∃ path ∈ v.keyPaths, ∃ t ∈ v.at? path, t.entries?.isNone ∧
      (u.at? path).any (·.entries?.isSome) ∧ (w.at? path).any (·.entries?.isSome)) <| by
    simp only [Option.mem_def, Option.isNone_iff_eq_none, any_entries?_isSome_iff]
    constructor
    · rintro ⟨path, -, t, hat, h⟩
      exact ⟨path, t, hat, h⟩
    · rintro ⟨path, t, hat, h⟩
      exact ⟨path, mem_keyPaths_of_at? hat, t, hat, h⟩

/-- What interrupts below a key interrupts. -/
theorem Interrupts.mapping (hv : Entries.get? es key = some v) (hu : Entries.get? fs key = some u)
    (hw : Entries.get? gs key = some w) (h : v.Interrupts u w) :
    (Value.mapping es).Interrupts (.mapping fs) (.mapping gs) := by
  obtain ⟨path, t, hat, ht, hmapping, hmapping'⟩ := h
  refine ⟨key :: path, t, ?_, ht, ?_, ?_⟩
  · rwa [at?_mapping_cons, hv, Option.bind_some]
  · rwa [at?_mapping_cons, hu, Option.bind_some]
  · rwa [at?_mapping_cons, hw, Option.bind_some]

end Value

namespace Document

open Value

/-- At some key path the document holds something other than a mapping, and both others hold mappings. -/
def Interrupts (d lower upper : Document) : Prop :=
  ∃ path v, d.at? path = some v ∧ v.entries? = none ∧ lower.HoldsMapping path ∧ upper.HoldsMapping path

instance (d lower upper : Document) : Decidable (d.Interrupts lower upper) :=
  inferInstanceAs (Decidable ((Value.mapping d).Interrupts (.mapping lower) (.mapping upper)))

variable {a b c lower upper : Document}

/-! ### One level -/

/-- Which keys a merge has, and in which order, is decided by the keys alone. -/
theorem keys_merge_eq_keys_insertAll {es : Document} (h : Entries.keys lower = Entries.keys es) :
    Entries.keys (merge lower upper) = Entries.keys (Entries.insertAll es upper) := by
  induction upper generalizing lower es with
  | nil => rwa [merge_nil]
  | cons e upper ih =>
    obtain ⟨key, v⟩ := e
    rw [merge_cons, Entries.insertAll, List.foldl_cons, ← Entries.insertAll]
    refine ih ?_
    by_cases hkey : key ∈ Entries.keys es
    · rw [Entries.keys_insert_of_mem _ (h ▸ hkey), Entries.keys_insert_of_mem _ hkey, h]
    · rw [Entries.keys_insert_of_not_mem _ (h ▸ hkey), Entries.keys_insert_of_not_mem _ hkey, h]

/-- The keys below keep their places, and the new ones follow in their order. -/
theorem keys_merge_eq_append (hupper : Entries.Distinct upper) :
    Entries.keys (merge lower upper) =
      Entries.keys lower ++ (Entries.keys upper).filter (· ∉ Entries.keys lower) := by
  rw [keys_merge_eq_keys_insertAll rfl, Entries.keys_insertAll _ hupper]

/-- Under each key of a merge stands what is above, laid over what is below. -/
theorem get?_merge (hupper : Entries.Distinct upper) (key : String) :
    Entries.get? (merge lower upper) key =
      layered (Entries.get? lower key) (Entries.get? upper key) := by
  cases h : Entries.get? upper key with
  | none => exact get?_merge_of_none h
  | some v => exact get?_merge_of_some hupper h

/-- Merging again what is above changes nothing where laying its values again changes nothing. -/
theorem merge_again_of_values (hlower : Entries.Distinct lower) (hupper : Entries.Distinct upper)
    (h : ∀ key v, Entries.get? upper key = some v →
      overlay (some (overlay (Entries.get? lower key) v)) v = overlay (Entries.get? lower key) v) :
    merge (merge lower upper) upper = merge lower upper := by
  have hmerge : Entries.Distinct (merge lower upper) := distinct_merge hlower upper
  refine (distinct_merge hmerge upper).ext ?_ fun key => ?_
  · have hnew : (Entries.keys upper).filter (· ∉ Entries.keys (merge lower upper)) = [] := by
      rw [List.filter_eq_nil_iff]
      intro key hkey
      simp [keys_merge_eq_append hupper, hkey, Classical.em]
    rw [keys_merge_eq_append hupper, hnew, List.append_nil]
  · rw [get?_merge hupper, get?_merge hupper]
    cases hkey : Entries.get? upper key with
    | none => rfl
    | some v => rw [layered_some, layered_some, h key v hkey]

/-- Merges may be grouped either way where the values under their common keys may. -/
theorem merge_assoc_of_values (ha : Entries.Distinct a) (hb : Entries.Distinct b)
    (hc : Entries.Distinct c)
    (h : ∀ key u v w, Entries.get? a key = some u → Entries.get? b key = some v →
      Entries.get? c key = some w →
      overlay (some (overlay (some u) v)) w = overlay (some u) (overlay (some v) w)) :
    merge (merge a b) c = merge a (merge b c) := by
  have hab : Entries.Distinct (merge a b) := distinct_merge ha b
  have hbc : Entries.Distinct (merge b c) := distinct_merge hb c
  refine (distinct_merge hab c).ext ?_ fun key => ?_
  · rw [keys_merge_eq_append hc, keys_merge_eq_append hb, keys_merge_eq_append hbc,
      keys_merge_eq_append hc, List.filter_append, List.filter_filter, List.append_assoc]
    congr 2
    refine List.filter_congr fun key _ => ?_
    by_cases hkey : key ∈ Entries.keys a <;> simp [hkey]
  · rw [get?_merge hc, get?_merge hb, get?_merge hbc, get?_merge hc]
    cases hw : Entries.get? c key with
    | none => rfl
    | some w =>
      cases hv : Entries.get? b key with
      | none => simp
      | some v =>
        cases hu : Entries.get? a key with
        | none => simp
        | some u => simp only [layered_some, h key u v w hu hv hw]

end Document

namespace Value

variable {u v w : Value} {below : Option Value}

/-! ### All levels -/

/-- Laying a value once more over what it was laid over changes nothing. -/
theorem overlay_again (hv : v.Wellformed) (hbelow : ∀ u ∈ below, u.Wellformed) :
    overlay (some (overlay below v)) v = overlay below v := by
  induction v using induction_mapping generalizing below with
  | other v hentries => rw [overlay_of_entries?_eq_none hentries, overlay_of_entries?_eq_none hentries]
  | mapping es ih =>
    have hmerge : ∀ lower : Document, lower.Wellformed →
        Document.merge (Document.merge lower es) es = Document.merge lower es := by
      intro lower hlower
      refine Document.merge_again_of_values hlower.1 hv.1 fun key v hkey => ?_
      refine ih (key, v) (Entries.mem_of_get?_eq_some hkey) (wellformed_of_entriesGet? hv.2 hkey) ?_
      exact fun u hu => wellformed_of_entriesGet? hlower.2 hu
    by_cases hmapping : ∃ lower, below = some (.mapping lower)
    · obtain ⟨lower, rfl⟩ := hmapping
      rw [overlay_mapping, overlay_mapping, hmerge lower (hbelow _ rfl)]
    · rw [overlay_mapping_of_ne (not_exists.1 hmapping), overlay_mapping]
      have hnil := hmerge [] Document.wellformed_nil
      rw [Document.nil_merge hv.1] at hnil
      rw [hnil]

/-- Values may be laid over each other in either grouping, unless the middle one interrupts. -/
theorem overlay_assoc (hu : u.Wellformed) (hv : v.Wellformed) (hw : w.Wellformed)
    (h : ¬ v.Interrupts u w) :
    overlay (some (overlay (some u) v)) w = overlay (some u) (overlay (some v) w) := by
  induction v using induction_mapping generalizing u w with
  | other v hentries =>
    rw [overlay_of_entries?_eq_none hentries, overlay_some_of_entries?_eq_none hentries]
    cases hu' : u.entries? with
    | none => rw [overlay_some_of_entries?_eq_none hu']
    | some a =>
      cases hw' : w.entries? with
      | none => rw [overlay_of_entries?_eq_none hw']
      | some c =>
        have hat : u.at? [] = some (.mapping a) := congrArg some (entries?_eq_some_iff.1 hu')
        have hat' : w.at? [] = some (.mapping c) := congrArg some (entries?_eq_some_iff.1 hw')
        exact absurd ⟨[], v, rfl, hentries, ⟨a, hat⟩, c, hat'⟩ h
  | mapping b ih =>
    cases hw' : w.entries? with
    | none => simp only [overlay_of_entries?_eq_none hw']
    | some c =>
      obtain rfl := entries?_eq_some_iff.1 hw'
      cases hu' : u.entries? with
      | none =>
        rw [overlay_some_of_entries?_eq_none hu', overlay_some_of_entries?_eq_none hu']
      | some a =>
        obtain rfl := entries?_eq_some_iff.1 hu'
        simp only [overlay_mapping]
        refine congrArg Value.mapping (Document.merge_assoc_of_values hu.1 hv.1 hw.1 ?_)
        intro key u v w ha hb hc
        refine ih (key, v) (Entries.mem_of_get?_eq_some hb) (wellformed_of_entriesGet? hu.2 ha)
          (wellformed_of_entriesGet? hv.2 hb) (wellformed_of_entriesGet? hw.2 hc) ?_
        exact fun hinterrupts => h (hinterrupts.mapping hb ha hc)

end Value

namespace Document

open Value

variable {a b c : Document}

theorem merge_again (ha : a.Wellformed) (hb : b.Wellformed) :
    merge (merge a b) b = merge a b := by
  have h : overlay (some (overlay (some (.mapping a)) (.mapping b))) (.mapping b) =
      overlay (some (.mapping a)) (.mapping b) :=
    overlay_again hb fun u hu => Option.some.inj hu ▸ ha
  simpa only [overlay_mapping, Value.mapping.injEq] using h

theorem merge_self (ha : a.Wellformed) : merge a a = a := by
  have h := merge_again wellformed_nil ha
  rwa [nil_merge ha.1] at h

theorem merge_assoc (ha : a.Wellformed) (hb : b.Wellformed) (hc : c.Wellformed)
    (h : ¬ b.Interrupts a c) : merge (merge a b) c = merge a (merge b c) := by
  have hassoc := overlay_assoc (u := .mapping a) (v := .mapping b) (w := .mapping c) ha hb hc h
  simpa only [overlay_mapping, Value.mapping.injEq] using hassoc

/-- **The laws of merging**, key order included. The empty document is neutral, merging a document with
itself or once more changes nothing, and merges may be grouped either way unless the document in the
middle interrupts the other two. -/
theorem merge_laws (ha : a.Wellformed) (hb : b.Wellformed) (hc : c.Wellformed) :
    merge [] a = a ∧ merge a [] = a ∧ merge a a = a ∧ merge (merge a b) b = merge a b ∧
      (¬ b.Interrupts a c → merge (merge a b) c = merge a (merge b c)) :=
  ⟨nil_merge ha.1, merge_nil a, merge_self ha, merge_again ha hb, merge_assoc ha hb hc⟩

/-- A document with nested settings. -/
def settings : Document :=
  [("db", .mapping [("host", .string "a"), ("port", .number (.int 1))]),
    ("cache", .mapping [("ttl", .number (.int 9))]), ("log", .string "all")]

/-- A document that switches some of them off. -/
def switchedOff : Document :=
  [("cache", .bool false), ("db", .mapping [("port", .string "p")]), ("log", .null)]

/-- A document that switches one of them on. -/
def switchedOn : Document :=
  [("log", .mapping [("level", .number (.int 2))]), ("db", .mapping [("port", .null), ("user", .null)])]

/-- Nothing is interrupted here. At `cache` the middle document cuts off a mapping, but the upper one
begins no new one there; at `log` the upper one does, but there was none before. -/
theorem merge_laws_settings :
    settings.Wellformed ∧ switchedOff.Wellformed ∧ switchedOn.Wellformed ∧
      ¬ switchedOff.Interrupts settings switchedOn ∧ merge switchedOff switchedOff = switchedOff ∧
      merge (merge settings switchedOff) switchedOff = merge settings switchedOff ∧
      merge (merge settings switchedOff) switchedOn =
        merge settings (merge switchedOff switchedOn) := by
  have hsettings : settings.Wellformed := by decide
  have hoff : switchedOff.Wellformed := by decide
  have hon : switchedOn.Wellformed := by decide
  have hnot : ¬ switchedOff.Interrupts settings switchedOn := by decide +kernel
  obtain ⟨-, -, -, hagain, hassoc⟩ := merge_laws hsettings hoff hon
  obtain ⟨-, -, hself, -⟩ := merge_laws hoff hoff hoff
  exact ⟨hsettings, hoff, hon, hnot, hself, hagain, hassoc hnot⟩

/-- Without the condition the grouping matters: what is below is cut off, or merged. -/
example :
    let lower : Document := [("x", .mapping [("y", .null)])]
    let middle : Document := [("x", .null)]
    let upper : Document := [("x", .mapping [("z", .null)])]
    middle.Interrupts lower upper ∧ merge (merge lower middle) upper = upper ∧
      merge lower (merge middle upper) = [("x", .mapping [("y", .null), ("z", .null)])] := by
  decide +kernel

end Document

end ConfigTree
