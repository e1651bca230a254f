import ConfigTree.Document.Merge
import ConfigTree.Proofs.Document.Reordered
import Mathlib.Data.List.Infix
import Mathlib.Data.Nat.Find

/-!
# The last writer wins

Several documents are merged from the first to the last. Which of them decides what the merge holds at
a key path? A document *cuts* the path when it holds something other than a mapping there or on the
way there (`Document.Cuts`): whatever the documents before it wrote at this path or below it is gone.
Mappings do not cut, they are merged.

So the documents up to the last one that cuts the path (`lastCut`) count only for what that one holds,
and of those after it only mappings can be there. Any such mapping makes the merge hold a mapping at
the path; without one, the merge holds what the cutting document holds (`mergeAll_lastWriter`).

Paths are key paths here: they lead through mappings only, and nothing is read from sequences.
-/

namespace ConfigTree

namespace Value

/-- The value at a key path. -/
def at? (v : Value) : List String → Option Value
  | [] => some v
  | key :: path => (v.entries?.bind (Entries.get? · key)).bind (·.at? path)

/-- Something other than a mapping stands at the key path or on the way there. -/
def Cuts (v : Value) (path : List String) : Prop :=
  ∃ way u, way <+: path ∧ v.at? way = some u ∧ u.entries? = none

variable {v u : Value} {below : Option Value} {es : Document} {key : String} {path : List String}

theorem at?_mapping_cons :
    (Value.mapping es).at? (key :: path) = (Entries.get? es key).bind (·.at? path) := rfl

theorem at?_cons_of_entries?_eq_none (h : v.entries? = none) : v.at? (key :: path) = none := by
  rw [at?, h]
  rfl

theorem entries?_eq_some_iff : v.entries? = some es ↔ v = .mapping es := by
  cases v <;> simp [entries?]

theorem cuts_nil_iff : v.Cuts [] ↔ v.entries? = none := by
  simp [Cuts, at?, List.prefix_nil]

theorem cuts_of_entries?_eq_none (h : v.entries? = none) : v.Cuts path :=
  ⟨[], v, List.nil_prefix, rfl, h⟩

theorem cuts_mapping_cons_iff :
    (Value.mapping es).Cuts (key :: path) ↔ ∃ u, Entries.get? es key = some u ∧ u.Cuts path := by
  constructor
  · rintro ⟨way, t, hway, hat, ht⟩
    rcases List.prefix_cons_iff.1 hway with rfl | ⟨rest, rfl, hrest⟩
    · cases hat
      cases ht
    · obtain ⟨u, hu, hat⟩ := Option.bind_eq_some_iff.1 hat
      exact ⟨u, hu, rest, t, hrest, hat, ht⟩
  · rintro ⟨u, hu, way, t, hway, hat, ht⟩
    have hat' : (Value.mapping es).at? (key :: way) = some t := by
      rw [at?_mapping_cons, hu]
      exact hat
    exact ⟨key :: way, t, (List.prefix_cons_inj key).2 hway, hat', ht⟩

/-- Where a path is cut there is no mapping at it. -/
theorem at?_ne_mapping_of_cuts (h : v.Cuts path) : v.at? path ≠ some (.mapping es) := by
  obtain ⟨way, u, ⟨rest, rfl⟩, hat, hu⟩ := h
  induction way generalizing v with
  | nil =>
    cases hat
    cases rest with
    | nil =>
      intro h
      cases h
      cases hu
    | cons key rest =>
      rw [List.nil_append, at?_cons_of_entries?_eq_none hu]
      simp
  | cons key way ih =>
    obtain ⟨w, hw, hat⟩ := Option.bind_eq_some_iff.1 hat
    rw [List.cons_append, at?, hw]
    exact ih hat

/-- Where a path is not cut there is a mapping at it, or nothing. -/
theorem at?_of_not_cuts (h : ¬ v.Cuts path) :
    v.at? path = none ∨ ∃ es, v.at? path = some (.mapping es) := by
  cases hat : v.at? path with
  | none => exact .inl rfl
  | some u =>
    cases hu : u.entries? with
    | none => exact absurd ⟨path, u, List.prefix_rfl, hat, hu⟩ h
    | some es => exact .inr ⟨es, by rw [entries?_eq_some_iff.1 hu]⟩

instance (v : Value) (path : List String) : Decidable (v.Cuts path) :=
  decidable_of_iff (∃ way ∈ path.inits, ∃ u ∈ v.at? way, u.entries?.isNone) <| by
    simp only [Cuts, List.mem_inits, Option.mem_def, Option.isNone_iff_eq_none]
    constructor
    · rintro ⟨way, hway, u, hat, hu⟩
      exact ⟨way, u, hway, hat, hu⟩
    · rintro ⟨way, u, hway, hat, hu⟩
      exact ⟨way, hway, u, hat, hu⟩

end Value

namespace Document

/-- The value at a key path of a document. -/
def at? (d : Document) (path : List String) : Option Value := (Value.mapping d).at? path

/-- The document holds something other than a mapping at the key path or on the way there. -/
def Cuts (d : Document) (path : List String) : Prop := (Value.mapping d).Cuts path

instance (d : Document) (path : List String) : Decidable (d.Cuts path) :=
  inferInstanceAs (Decidable ((Value.mapping d).Cuts path))

/-- The document holds a mapping at the key path. -/
def HoldsMapping (d : Document) (path : List String) : Prop :=
  ∃ es, d.at? path = some (.mapping es)

variable {lower upper d e : Document} {ds : List Document} {key : String} {path : List String}
  {i : Nat}

/-! ### One merge -/

theorem get?_merge_of_none (h : Entries.get? upper key = none) :
    Entries.get? (merge lower upper) key = Entries.get? lower key := by
  induction upper generalizing lower with
  | nil => rw [merge_nil]
  | cons e upper ih =>
    obtain ⟨k, v⟩ := e
    rw [Entries.get?] at h
    split at h
    · cases h
    · next hk =>
      rw [merge_cons, ih h, Entries.get?_insert_of_ne _ _ hk]

/-- A key of the upper document holds its value, laid over what was there before. -/
theorem get?_merge_of_some (hupper : Entries.Distinct upper) {v : Value}
    (h : Entries.get? upper key = some v) :
    Entries.get? (merge lower upper) key =
      some (Value.overlay (Entries.get? lower key) v) := by
  induction upper generalizing lower with
  | nil => cases h
  | cons e upper ih =>
    obtain ⟨k, w⟩ := e
    obtain ⟨hk, hupper⟩ := List.nodup_cons.1 hupper
    rw [Entries.get?] at h
    rw [merge_cons]
    split at h
    · next hkey =>
      subst hkey
      cases h
      rw [get?_merge_of_none (Entries.get?_eq_none_of_not_mem hk), Entries.get?_insert_self]
    · next hkey =>
      rw [ih hupper h, Entries.get?_insert_of_ne _ _ hkey]

end Document

namespace Value

variable {v u : Value} {below : Option Value} {lower upper es : Document} {path : List String}

theorem overlay_of_entries?_eq_none (h : u.entries? = none) : overlay below u = u := by
  cases u with
  | mapping es => cases h
  | _ => simp [overlay]

theorem overlay_mapping :
    overlay (some (.mapping lower)) (.mapping upper) = .mapping (Document.merge lower upper) := by
  simp [overlay]

/-- Over anything but a mapping, a mapping is laid as it is. -/
theorem overlay_mapping_of_ne (h : ∀ lower, below ≠ some (.mapping lower)) :
    overlay below (.mapping upper) = .mapping upper := by
  unfold overlay
  split
  · next lower => exact absurd rfl (h lower)
  · rfl

/-- Below anything but a mapping there is nothing. -/
theorem bind_at?_cons_of_ne (h : ∀ lower, below ≠ some (.mapping lower)) (key : String) :
    below.bind (·.at? (key :: path)) = none := by
  cases below with
  | none => rfl
  | some w =>
    refine at?_cons_of_entries?_eq_none ?_
    cases w with
    | mapping lower => exact absurd rfl (h lower)
    | _ => rfl

/-- A value that cuts the path decides alone what is there. -/
theorem at?_overlay_of_cuts (hu : u.Wellformed) (h : u.Cuts path) :
    (overlay below u).at? path = u.at? path := by
  induction path generalizing u below with
  | nil => rw [overlay_of_entries?_eq_none (cuts_nil_iff.1 h)]
  | cons key path ih =>
    cases hentries : u.entries? with
    | none => rw [overlay_of_entries?_eq_none hentries]
    | some upper =>
      obtain rfl := entries?_eq_some_iff.1 hentries
      obtain ⟨w, hw, hcuts⟩ := cuts_mapping_cons_iff.1 h
      by_cases hbelow : ∃ lower, below = some (.mapping lower)
      · obtain ⟨lower, rfl⟩ := hbelow
        rw [overlay_mapping, at?_mapping_cons, Document.get?_merge_of_some hu.1 hw, Option.bind_some,
          ih (wellformed_of_entriesGet? hu.2 hw) hcuts, at?_mapping_cons, hw, Option.bind_some]
      · rw [overlay_mapping_of_ne (not_exists.1 hbelow)]

/-- A value with a mapping at the path leaves a mapping there. -/
theorem at?_overlay_of_mapping (hu : u.Wellformed) (h : u.at? path = some (.mapping es)) :
    ∃ fs, (overlay below u).at? path = some (.mapping fs) := by
  induction path generalizing u below with
  | nil =>
    cases h
    by_cases hbelow : ∃ lower, below = some (.mapping lower)
    · obtain ⟨lower, rfl⟩ := hbelow
      exact ⟨_, congrArg some overlay_mapping⟩
    · exact ⟨_, congrArg some (overlay_mapping_of_ne (not_exists.1 hbelow))⟩
  | cons key path ih =>
    obtain ⟨w, hw, hat⟩ := Option.bind_eq_some_iff.1 h
    obtain ⟨upper, hupper, hw⟩ := Option.bind_eq_some_iff.1 hw
    obtain rfl := entries?_eq_some_iff.1 hupper
    by_cases hbelow : ∃ lower, below = some (.mapping lower)
    · obtain ⟨lower, rfl⟩ := hbelow
      rw [overlay_mapping, at?_mapping_cons, Document.get?_merge_of_some hu.1 hw]
      exact ih (wellformed_of_entriesGet? hu.2 hw) hat
    · rw [overlay_mapping_of_ne (not_exists.1 hbelow)]
      exact ⟨es, h⟩

/-- A value that neither cuts the path nor holds anything there leaves what was there before. -/
theorem at?_overlay_of_none (hu : u.Wellformed) (hcuts : ¬ u.Cuts path) (h : u.at? path = none) :
    (overlay below u).at? path = below.bind (·.at? path) := by
  induction path generalizing u below with
  | nil => cases h
  | cons key path ih =>
    cases hentries : u.entries? with
    | none => exact absurd (cuts_of_entries?_eq_none hentries) hcuts
    | some upper =>
      obtain rfl := entries?_eq_some_iff.1 hentries
      by_cases hbelow : ∃ lower, below = some (.mapping lower)
      · obtain ⟨lower, rfl⟩ := hbelow
        rw [overlay_mapping, at?_mapping_cons, Option.bind_some, at?_mapping_cons]
        rw [at?_mapping_cons] at h
        cases hw : Entries.get? upper key with
        | none => rw [Document.get?_merge_of_none hw]
        | some w =>
          rw [hw, Option.bind_some] at h
          rw [Document.get?_merge_of_some hu.1 hw, Option.bind_some]
          refine ih (wellformed_of_entriesGet? hu.2 hw) (fun hc => hcuts ?_) h
          exact cuts_mapping_cons_iff.2 ⟨w, hw, hc⟩
      · rw [overlay_mapping_of_ne (not_exists.1 hbelow), h,
          bind_at?_cons_of_ne (not_exists.1 hbelow)]

end Value

namespace Document

variable {lower upper d e : Document} {ds : List Document} {key : String} {path : List String}
  {i : Nat} {v : Value}

theorem at?_merge_of_cuts (hd : d.Wellformed) (h : d.Cuts path) :
    at? (merge lower d) path = d.at? path := by
  rw [at?, ← Value.overlay_mapping]
  exact Value.at?_overlay_of_cuts hd h

theorem holdsMapping_merge (hd : d.Wellformed) (h : d.HoldsMapping path) :
    HoldsMapping (merge lower d) path := by
  obtain ⟨es, hes⟩ := h
  rw [HoldsMapping, at?, ← Value.overlay_mapping]
  exact Value.at?_overlay_of_mapping hd hes

theorem at?_merge_of_none (hd : d.Wellformed) (hcuts : ¬ d.Cuts path) (h : d.at? path = none) :
    at? (merge lower d) path = lower.at? path := by
  rw [at?, ← Value.overlay_mapping]
  exact Value.at?_overlay_of_none hd hcuts h

/-! ### Documents by number -/

/-- The document with this number; the first one has number one. -/
def numbered (ds : List Document) : Nat → Option Document
  | 0 => none
  | i + 1 => ds[i]?

/-- The number of the last document that cuts the key path; zero when none does. -/
def lastCut (path : List String) (ds : List Document) : Nat :=
  Nat.findGreatest (fun i => ∃ d ∈ numbered ds i, d.Cuts path) ds.length

theorem mem_numbered_append_iff :
    e ∈ numbered (ds ++ [d]) i ↔ e ∈ numbered ds i ∨ i = ds.length + 1 ∧ e = d := by
  cases i with
  | zero => simp [numbered]
  | succ i =>
    simp only [numbered, Option.mem_def, Nat.add_right_cancel_iff]
    rcases Nat.lt_trichotomy i ds.length with hi | rfl | hi
    · rw [List.getElem?_append_left hi]
      simp [Nat.ne_of_lt hi]
    · simp [eq_comm]
    · have hnone : (ds ++ [d])[i]? = none := by
        refine List.getElem?_eq_none ?_
        rw [List.length_append, List.length_singleton]
        omega
      simp [hnone, Nat.ne_of_gt hi, Nat.le_of_lt hi]

theorem le_length_of_mem_numbered (h : d ∈ numbered ds i) : i ≤ ds.length := by
  cases i with
  | zero => exact Nat.zero_le _
  | succ i => exact (List.getElem?_eq_some_iff.1 h).1

theorem lastCut_le_length : lastCut path ds ≤ ds.length := Nat.findGreatest_le _

theorem lastCut_append_of_cuts (h : d.Cuts path) : lastCut path (ds ++ [d]) = ds.length + 1 := by
  rw [lastCut, List.length_append, List.length_singleton, Nat.findGreatest_succ]
  exact if_pos ⟨d, mem_numbered_append_iff.2 (.inr ⟨rfl, rfl⟩), h⟩

theorem lastCut_append_of_not_cuts (h : ¬ d.Cuts path) :
    lastCut path (ds ++ [d]) = lastCut path ds := by
  have hiff : ∀ i, (∃ e ∈ numbered (ds ++ [d]) i, e.Cuts path) ↔ ∃ e ∈ numbered ds i, e.Cuts path := by
    intro i
    constructor
    · rintro ⟨e, he, hcuts⟩
      rcases mem_numbered_append_iff.1 he with he | ⟨-, rfl⟩
      · exact ⟨e, he, hcuts⟩
      · exact absurd hcuts h
    · rintro ⟨e, he, hcuts⟩
      exact ⟨e, mem_numbered_append_iff.2 (.inl he), hcuts⟩
  have hlast : ¬ ∃ e ∈ numbered ds (ds.length + 1), e.Cuts path := by
    rintro ⟨e, he, -⟩
    exact absurd (le_length_of_mem_numbered he) (by omega)
  simp only [lastCut, hiff]
  rw [List.length_append, List.length_singleton, Nat.findGreatest_succ, if_neg hlast]

/-! ### Many merges -/

theorem mergeAll_append (ds : List Document) (d : Document) :
    mergeAll (ds ++ [d]) = merge (mergeAll ds) d := by
  simp [mergeAll]

/-- Some document after the last one that cuts the path holds a mapping there. -/
def RegainsMapping (ds : List Document) (path : List String) : Prop :=
  ∃ j > lastCut path ds, ∃ d ∈ numbered ds j, d.HoldsMapping path

theorem not_regainsMapping_append_of_cuts (h : d.Cuts path) :
    ¬ RegainsMapping (ds ++ [d]) path := by
  rintro ⟨j, hj, e, he, -⟩
  rw [lastCut_append_of_cuts h] at hj
  have hle := le_length_of_mem_numbered he
  rw [List.length_append, List.length_singleton] at hle
  omega

theorem regainsMapping_append_iff (h : ¬ d.Cuts path) :
    RegainsMapping (ds ++ [d]) path ↔ RegainsMapping ds path ∨ d.HoldsMapping path := by
  simp only [RegainsMapping, lastCut_append_of_not_cuts h, mem_numbered_append_iff]
  constructor
  · rintro ⟨j, hj, e, he | ⟨-, rfl⟩, hholds⟩
    · exact .inl ⟨j, hj, e, he, hholds⟩
    · exact .inr hholds
  · rintro (⟨j, hj, e, he, hholds⟩ | hholds)
    · exact ⟨j, hj, e, .inl he, hholds⟩
    · exact ⟨ds.length + 1, Nat.lt_succ_of_le lastCut_le_length, d, .inr ⟨rfl, rfl⟩, hholds⟩

/-- At a key path the merge holds a mapping when some document regains one there. -/
theorem holdsMapping_mergeAll_iff (hpath : path ≠ []) (hds : ∀ d ∈ ds, d.Wellformed) :
    (mergeAll ds).HoldsMapping path ↔ RegainsMapping ds path := by
  induction ds using List.reverseRecOn with
  | nil =>
    obtain ⟨key, path, rfl⟩ := List.exists_cons_of_ne_nil hpath
    constructor
    · rintro ⟨es, hes⟩
      cases hes
    · rintro ⟨j, -, d, hd, -⟩
      have hj : j = 0 := Nat.le_zero.1 (le_length_of_mem_numbered hd)
      subst hj
      cases hd
  | append_singleton ds d ih =>
    have hd : d.Wellformed := hds d (by simp)
    specialize ih fun e he => hds e (by simp [he])
    rw [mergeAll_append]
    by_cases hcuts : d.Cuts path
    · have hnone : ¬ HoldsMapping (merge (mergeAll ds) d) path := by
        rintro ⟨es, hes⟩
        rw [at?_merge_of_cuts hd hcuts] at hes
        exact Value.at?_ne_mapping_of_cuts hcuts hes
      exact iff_of_false hnone (not_regainsMapping_append_of_cuts hcuts)
    · rw [regainsMapping_append_iff hcuts, ← ih]
      rcases Value.at?_of_not_cuts hcuts with hnone | hmapping
      · have hd' : ¬ d.HoldsMapping path := by
          rintro ⟨es, hes⟩
          cases hnone.symm.trans hes
        rw [HoldsMapping, at?_merge_of_none hd hcuts hnone]
        exact (or_iff_left hd').symm
      · exact iff_of_true (holdsMapping_merge hd hmapping) (.inr hmapping)

/-- Something else it holds when no document regains a mapping, and then it is what the last document
that cuts the path holds. -/
theorem at?_mergeAll_eq_iff (hpath : path ≠ []) (hds : ∀ d ∈ ds, d.Wellformed)
    (hv : v.entries? = none) :
    (mergeAll ds).at? path = some v ↔
      ¬ RegainsMapping ds path ∧ ∃ d ∈ numbered ds (lastCut path ds), d.at? path = some v := by
  induction ds using List.reverseRecOn with
  | nil =>
    obtain ⟨key, path, rfl⟩ := List.exists_cons_of_ne_nil hpath
    constructor
    · intro h
      cases h
    · rintro ⟨-, d, hd, -⟩
      cases hd
  | append_singleton ds d ih =>
    have hd : d.Wellformed := hds d (by simp)
    specialize ih fun e he => hds e (by simp [he])
    rw [mergeAll_append]
    by_cases hcuts : d.Cuts path
    · rw [at?_merge_of_cuts hd hcuts, lastCut_append_of_cuts hcuts]
      have hlast : d ∈ numbered (ds ++ [d]) (ds.length + 1) :=
        mem_numbered_append_iff.2 (.inr ⟨rfl, rfl⟩)
      constructor
      · intro h
        exact ⟨not_regainsMapping_append_of_cuts hcuts, d, hlast, h⟩
      · rintro ⟨-, e, he, h⟩
        obtain rfl : d = e := Option.some.inj (hlast.symm.trans he)
        exact h
    · rw [regainsMapping_append_iff hcuts, lastCut_append_of_not_cuts hcuts]
      have hnumbered : ∀ e, e ∈ numbered (ds ++ [d]) (lastCut path ds) ↔
          e ∈ numbered ds (lastCut path ds) := by
        intro e
        have hne : lastCut path ds ≠ ds.length + 1 := by
          have hle : lastCut path ds ≤ ds.length := lastCut_le_length
          omega
        rw [mem_numbered_append_iff]
        exact or_iff_left fun h => hne h.1
      simp only [hnumbered]
      rcases Value.at?_of_not_cuts hcuts with hnone | hmapping
      · have hd' : ¬ d.HoldsMapping path := by
          rintro ⟨es, hes⟩
          cases hnone.symm.trans hes
        rw [at?_merge_of_none hd hcuts hnone, or_iff_left hd']
        exact ih
      · refine iff_of_false (fun h => ?_) fun h => h.1 (.inr hmapping)
        have hholds : HoldsMapping (merge (mergeAll ds) d) path := holdsMapping_merge hd hmapping
        obtain ⟨es, hes⟩ := hholds
        cases hes.symm.trans h
        cases hv

theorem cuts_of_mem_numbered_lastCut (h : d ∈ numbered ds (lastCut path ds)) : d.Cuts path := by
  have hne : lastCut path ds ≠ 0 := by
    intro hzero
    rw [hzero] at h
    cases h
  obtain ⟨e, he, hcuts⟩ := Nat.findGreatest_of_ne_zero (rfl : lastCut path ds = _) hne
  obtain rfl : d = e := Option.some.inj (h.symm.trans he)
  exact hcuts

/-- In all other cases it holds nothing. -/
theorem at?_mergeAll_eq_none_iff (hpath : path ≠ []) (hds : ∀ d ∈ ds, d.Wellformed) :
    (mergeAll ds).at? path = none ↔
      ¬ RegainsMapping ds path ∧ ∀ d ∈ numbered ds (lastCut path ds), d.at? path = none := by
  constructor
  · intro hnone
    have hregains : ¬ RegainsMapping ds path := by
      intro h
      obtain ⟨es, hes⟩ := (holdsMapping_mergeAll_iff hpath hds).2 h
      cases hnone.symm.trans hes
    refine ⟨hregains, fun d hd => ?_⟩
    cases hat : d.at? path with
    | none => rfl
    | some v =>
      have hv : v.entries? = none := by
        cases hes : v.entries? with
        | none => rfl
        | some es =>
          obtain rfl := Value.entries?_eq_some_iff.1 hes
          exact absurd hat (Value.at?_ne_mapping_of_cuts (cuts_of_mem_numbered_lastCut hd))
      cases hnone.symm.trans ((at?_mergeAll_eq_iff hpath hds hv).2 ⟨hregains, d, hd, hat⟩)
  · rintro ⟨hregains, hlast⟩
    cases hat : (mergeAll ds).at? path with
    | none => rfl
    | some v =>
      cases hes : v.entries? with
      | none =>
        obtain ⟨-, d, hd, hv⟩ := (at?_mergeAll_eq_iff hpath hds hes).1 hat
        cases (hlast d hd).symm.trans hv
      | some es =>
        obtain rfl := Value.entries?_eq_some_iff.1 hes
        exact absurd ((holdsMapping_mergeAll_iff hpath hds).1 ⟨es, hat⟩) hregains

/-! ### Keys -/

theorem eraseDups_append_singleton (keys : List String) (key : String) :
    (keys ++ [key]).eraseDups =
      if key ∈ keys then keys.eraseDups else keys.eraseDups ++ [key] := by
  rw [List.eraseDups_append]
  by_cases h : key ∈ keys
  · simp [List.removeAll, h]
  · simp [List.removeAll, h, List.eraseDups_cons]

/-- Writing a key adds it to the keys, unless it is there. -/
theorem keys_insert_eq_eraseDups {d : Document} {keys : List String}
    (h : Entries.keys d = keys.eraseDups) (key : String) (value : Value) :
    Entries.keys (Entries.insert d key value) = (keys ++ [key]).eraseDups := by
  rw [eraseDups_append_singleton]
  by_cases hkey : key ∈ keys
  · rw [if_pos hkey, Entries.keys_insert_of_mem value (by simpa [h] using hkey), h]
  · rw [if_neg hkey, Entries.keys_insert_of_not_mem value (by simpa [h] using hkey), h]

/-- Merging adds the keys of the upper document that are new, in their order. -/
theorem keys_merge {keys : List String} (h : Entries.keys lower = keys.eraseDups) :
    Entries.keys (merge lower upper) = (keys ++ Entries.keys upper).eraseDups := by
  induction upper generalizing lower keys with
  | nil => simpa [Entries.keys] using h
  | cons e upper ih =>
    obtain ⟨key, value⟩ := e
    rw [merge_cons, ih (keys_insert_eq_eraseDups h key _)]
    simp [Entries.keys]

theorem keys_mergeAll (ds : List Document) :
    Entries.keys (mergeAll ds) = (ds.flatMap Entries.keys).eraseDups := by
  induction ds using List.reverseRecOn with
  | nil => rfl
  | append_singleton ds d ih =>
    rw [mergeAll_append, keys_merge ih]
    simp

/-- **The last writer wins, at every key path.** Take the last document that cuts the path. When a
document after it holds a mapping at the path, the merge holds a mapping there; when none does, the
merge holds what the cutting document holds there; and in all other cases it holds nothing. Its keys
are those of the documents, each in the place where it first appeared. -/
theorem mergeAll_lastWriter (ds : List Document) (hds : ∀ d ∈ ds, d.Wellformed) :
    (∀ path ≠ [],
      ((mergeAll ds).HoldsMapping path ↔ RegainsMapping ds path) ∧
      (∀ v, v.entries? = none →
        ((mergeAll ds).at? path = some v ↔
          ¬ RegainsMapping ds path ∧ ∃ d ∈ numbered ds (lastCut path ds), d.at? path = some v)) ∧
      ((mergeAll ds).at? path = none ↔
        ¬ RegainsMapping ds path ∧ ∀ d ∈ numbered ds (lastCut path ds), d.at? path = none)) ∧
    Entries.keys (mergeAll ds) = (ds.flatMap Entries.keys).eraseDups := by
  refine ⟨fun path hpath => ⟨?_, fun v hv => ?_, ?_⟩, keys_mergeAll ds⟩
  · exact holdsMapping_mergeAll_iff hpath hds
  · exact at?_mergeAll_eq_iff hpath hds hv
  · exact at?_mergeAll_eq_none_iff hpath hds

/-- A mapping that is cut off and begun anew, and one that grows. -/
def layers : List Document :=
  [[("a", .mapping [("x", .number (.int 1))]), ("b", .mapping [("x", .bool true)])],
    [("c", .null), ("a", .number (.int 2))],
    [("b", .mapping [("y", .bool false)]), ("a", .mapping [("y", .number (.int 3))])]]

/-- The second layer cuts off what the first one wrote at `a.x`, and the third one brings back the
mapping at `a` but not what it held. -/
theorem mergeAll_layers :
    (∀ d ∈ layers, d.Wellformed) ∧ lastCut ["a", "x"] layers = 2 ∧
      RegainsMapping layers ["a"] ∧ ¬ RegainsMapping layers ["a", "x"] ∧
      (∃ d ∈ numbered layers (lastCut ["b", "x"] layers), d.at? ["b", "x"] = some (.bool true)) ∧
      Entries.keys (mergeAll layers) = (layers.flatMap Entries.keys).eraseDups := by
  have hlayers : ∀ d ∈ layers, d.Wellformed := by decide
  obtain ⟨hpaths, hkeys⟩ := mergeAll_lastWriter layers hlayers
  have ha : (mergeAll layers).at? ["a"] = some (.mapping [("y", .number (.int 3))]) := by decide +kernel
  have hax : (mergeAll layers).at? ["a", "x"] = none := by decide +kernel
  have hbx : (mergeAll layers).at? ["b", "x"] = some (.bool true) := by decide +kernel
  refine ⟨hlayers, by decide +kernel, ?_, ?_, ?_, hkeys⟩
  · exact (hpaths ["a"] (by simp)).1.1 ⟨_, ha⟩
  · exact ((hpaths ["a", "x"] (by simp)).2.2.1 hax).1
  · exact (((hpaths ["b", "x"] (by simp)).2.1 _ rfl).1 hbx).2

end Document

end ConfigTree
