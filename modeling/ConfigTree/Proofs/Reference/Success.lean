import ConfigTree.Proofs.Document.Replaced
import ConfigTree.Proofs.Reference.Related

/-!
# What it takes to succeed

An attempt at resolving may fail, and within a limit it may also come to no end. When it succeeds, all
that it is made of has succeeded. So success can be told without following the steps: a string becomes
a value (`Becomes`) when its placeholders stand for values that make up this value, and a document
becomes the document in which each string has become its value (`Value.Replaced`).
-/

namespace ConfigTree

/-- A computation that may fail, and may come to no end within the limit it was given. -/
abbrev Attempt := ExceptT ReferenceError Option

namespace Attempt

variable {α β : Type}

theorem pure_inj {a b : α} : (pure a : Attempt α) = pure b ↔ a = b :=
  ⟨fun h => Except.ok.inj (Option.some.inj h), congrArg _⟩

theorem throw_ne_pure {e : ReferenceError} {a : α} : (throw e : Attempt α) ≠ pure a :=
  fun h => nomatch Option.some.inj h

/-- A computation gives a value exactly when its first part does and the rest goes on to give it. -/
theorem bind_eq_pure_iff {x : Attempt α} {f : α → Attempt β} {b : β} :
    x >>= f = pure b ↔ ∃ a, x = pure a ∧ f a = pure b := by
  constructor
  · intro h
    match x, h with
    | none, h => exact nomatch h
    | some (.error e), h => exact absurd h throw_ne_pure
    | some (.ok a), h => exact ⟨a, rfl, h⟩
  · rintro ⟨a, rfl, h⟩
    exact h

theorem map_eq_pure_iff {x : Attempt α} {f : α → β} {b : β} :
    (x >>= fun a => pure (f a)) = pure b ↔ ∃ a, x = pure a ∧ f a = b := by
  simp only [bind_eq_pure_iff, pure_inj]

theorem ofExcept_eq_pure_iff {r : Except ReferenceError α} {a : α} :
    (MonadExcept.ofExcept r : Attempt α) = pure a ↔ r = .ok a := by
  cases r with
  | error e => exact ⟨fun h => absurd h throw_ne_pure, fun h => nomatch h⟩
  | ok b => exact pure_inj.trans ⟨congrArg _, Except.ok.inj⟩

end Attempt

open Attempt

/-! ### Strings -/

/-- A text put together of parts, where `V` tells what placeholders stand for. -/
inductive TextOf (V : Placeholder → Value → Prop) : List Part → String → Prop
  | nil : TextOf V [] ""
  | literal {text rest : String} {ps : List Part} :
      TextOf V ps rest → TextOf V (.literal text :: ps) (text ++ rest)
  | reference {p : Placeholder} {v : Value} {text rest : String} {ps : List Part} :
      V p v → p.interpolate v = .ok text → TextOf V ps rest →
      TextOf V (.reference p :: ps) (text ++ rest)

/-- What a string becomes, where `V` tells what placeholders stand for. -/
inductive Becomes (V : Placeholder → Value → Prop) (s : String) : Value → Prop
  /-- A string without a placeholder stays as it is. -/
  | same : Template.containsPlaceholder s = false → Becomes V s (.string s)
  /-- A string that is one placeholder becomes what this stands for. -/
  | single {p : Placeholder} {v : Value} : Template.containsPlaceholder s = true →
      Template.parse s = .ok [.reference p] → V p v → Becomes V s v
  /-- Any other string becomes the text of its parts. -/
  | text {ps : List Part} {t : String} : Template.containsPlaceholder s = true →
      Template.parse s = .ok ps → Template.single? ps = none → TextOf V ps t →
      Becomes V s (.string t)

variable {V W : Placeholder → Value → Prop} {s t : String} {ps : List Part} {v w : Value}

/-! ### What becomes of which string -/

theorem becomes_iff_of_no_placeholder (hs : Template.containsPlaceholder s = false) :
    Becomes V s v ↔ v = .string s := by
  constructor
  · intro h
    cases h with
    | same => rfl
    | single hs' => exact absurd (hs.symm.trans hs') (by simp)
    | text hs' => exact absurd (hs.symm.trans hs') (by simp)
  · rintro rfl
    exact .same hs

theorem becomes_iff_of_single {p : Placeholder} (hs : Template.containsPlaceholder s = true)
    (hparse : Template.parse s = .ok [.reference p]) : Becomes V s v ↔ V p v := by
  constructor
  · intro h
    cases h with
    | same hs' => exact absurd (hs.symm.trans hs') (by simp)
    | single _ hp hv =>
      obtain rfl := Part.reference.inj (List.cons.inj (Except.ok.inj (hparse.symm.trans hp))).1
      exact hv
    | text _ hp hsingle =>
      obtain rfl := Except.ok.inj (hparse.symm.trans hp)
      cases hsingle
  · exact .single hs hparse

theorem becomes_iff_of_parts (hs : Template.containsPlaceholder s = true)
    (hparse : Template.parse s = .ok ps) (hsingle : Template.single? ps = none) :
    Becomes V s v ↔ ∃ t, TextOf V ps t ∧ v = .string t := by
  constructor
  · intro h
    cases h with
    | same hs' => exact absurd (hs.symm.trans hs') (by simp)
    | single _ hp =>
      obtain rfl := Except.ok.inj (hparse.symm.trans hp)
      cases hsingle
    | text _ hp _ ht =>
      obtain rfl := Except.ok.inj (hparse.symm.trans hp)
      exact ⟨_, ht, rfl⟩
  · rintro ⟨t, ht, rfl⟩
    exact .text hs hparse hsingle ht

/-! ### Other values of placeholders -/

theorem TextOf.imp (h : TextOf V ps t) (hVW : ∀ p, .reference p ∈ ps → ∀ v, V p v → W p v) :
    TextOf W ps t := by
  induction h with
  | nil => exact .nil
  | literal _ ih => exact .literal (ih fun p hp => hVW p (List.mem_cons_of_mem _ hp))
  | reference hv ht _ ih =>
    exact .reference (hVW _ (by simp) _ hv) ht (ih fun p hp => hVW p (List.mem_cons_of_mem _ hp))

/-- Only the placeholders of the string matter. -/
theorem Becomes.imp (h : Becomes V s v)
    (hVW : ∀ p ∈ Lookup.placeholdersOf s, ∀ v, V p v → W p v) : Becomes W s v := by
  cases h with
  | same hs => exact .same hs
  | single hs hp hv =>
    exact .single hs hp (hVW _ ((Lookup.mem_placeholdersOf_iff hp).2 (by simp)) _ hv)
  | text hs hp hsingle ht =>
    refine .text hs hp hsingle (ht.imp fun p hm => hVW p ?_)
    exact (Lookup.mem_placeholdersOf_iff hp).2 hm

theorem TextOf.unique {t' : String} (h : TextOf V ps t) (h' : TextOf V ps t')
    (hV : ∀ p v v', V p v → V p v' → v = v') : t = t' := by
  induction h generalizing t' with
  | nil =>
    cases h'
    rfl
  | literal _ ih =>
    cases h' with
    | literal h' => rw [ih h']
  | reference hv ht _ ih =>
    cases h' with
    | reference hv' ht' h' =>
      rw [hV _ _ _ hv' hv, ht] at ht'
      rw [ih h', Except.ok.inj ht']

theorem Becomes.unique (h : Becomes V s v) (h' : Becomes V s w)
    (hV : ∀ p v v', V p v → V p v' → v = v') : v = w := by
  cases h with
  | same hs => rw [(becomes_iff_of_no_placeholder hs).1 h']
  | single hs hparse hv => exact hV _ _ _ hv ((becomes_iff_of_single hs hparse).1 h')
  | text hs hparse hsingle ht =>
    obtain ⟨t', ht', rfl⟩ := (becomes_iff_of_parts hs hparse hsingle).1 h'
    rw [ht.unique ht' hV]

/-- Each placeholder of a string with placeholders stands for something. -/
theorem TextOf.exists_of_mem (h : TextOf V ps t) {p : Placeholder} (hp : .reference p ∈ ps) :
    ∃ v, V p v := by
  induction h with
  | nil => cases hp
  | literal _ ih => exact ih (by simpa using hp)
  | reference hv _ _ ih =>
    rcases List.mem_cons.1 hp with h | hp
    · exact ⟨_, Part.reference.inj h ▸ hv⟩
    · exact ih hp

theorem Becomes.exists_of_mem (h : Becomes V s v) {p : Placeholder}
    (hp : p ∈ Lookup.placeholdersOf s) : ∃ v, V p v := by
  cases h with
  | same hs => cases hs.symm.trans (Lookup.containsPlaceholder_of_mem hp)
  | single _ hparse hv =>
    have hm := (Lookup.mem_placeholdersOf_iff hparse).1 hp
    rw [List.mem_singleton] at hm
    exact ⟨_, Part.reference.inj hm ▸ hv⟩
  | text _ hparse _ ht => exact ht.exists_of_mem ((Lookup.mem_placeholdersOf_iff hparse).1 hp)

/-! ### Attempts -/

variable {look : Placeholder → Attempt Value}

theorem textOfParts_eq_pure_iff :
    Lookup.textOfParts look ps = pure t ↔ TextOf (fun p v => look p = pure v) ps t := by
  induction ps generalizing t with
  | nil =>
    rw [Lookup.textOfParts, pure_inj]
    constructor
    · rintro rfl
      exact .nil
    · rintro ⟨⟩
      rfl
  | cons part ps ih =>
    cases part with
    | literal text =>
      rw [Lookup.textOfParts, map_eq_pure_iff]
      simp only [ih]
      constructor
      · rintro ⟨rest, h, rfl⟩
        exact .literal h
      · rintro ⟨⟩
        exact ⟨_, ‹_›, rfl⟩
    | reference p =>
      rw [Lookup.textOfParts]
      simp only [bind_eq_pure_iff, ofExcept_eq_pure_iff, pure_inj, ih]
      constructor
      · rintro ⟨v, hv, text, ht, rest, h, rfl⟩
        exact .reference hv ht h
      · rintro ⟨⟩
        exact ⟨_, ‹_›, _, ‹_›, _, ‹_›, rfl⟩

/-- An attempt at a string succeeds with what the string becomes. -/
theorem resolveText_eq_pure_iff :
    Lookup.resolveText look s = pure v ↔ Becomes (fun p v => look p = pure v) s v := by
  rw [Lookup.resolveText]
  split_ifs with hs
  · cases hparse : Template.parse s with
    | error e =>
      refine ⟨fun h => absurd h throw_ne_pure, fun h => ?_⟩
      cases h <;> simp_all
    | ok ps =>
      simp only
      cases hsingle : Template.single? ps with
      | some p =>
        obtain rfl := Lookup.eq_of_single?_eq_some hsingle
        rw [becomes_iff_of_single hs hparse]
      | none =>
        rw [becomes_iff_of_parts hs hparse hsingle, map_eq_pure_iff]
        simp only [textOfParts_eq_pure_iff, eq_comm (a := v)]
  · rw [Bool.not_eq_true] at hs
    rw [becomes_iff_of_no_placeholder hs, pure_inj, eq_comm]

/-! ### Values and documents -/

open Value

variable {f : String → Attempt Value}

mutual

theorem replaced_of_mapStrings :
    ∀ v w : Value, v.mapStrings f = pure w → Replaced (fun s u => f s = pure u) v w
  | .null, _, h => pure_inj.1 h ▸ .null
  | .bool b, _, h => pure_inj.1 h ▸ .bool b
  | .number n, _, h => pure_inj.1 h ▸ .number n
  | .string _, _, h => .string h
  | .sequence vs, _, h => by
    obtain ⟨ws, hws, rfl⟩ := map_eq_pure_iff.1 h
    exact .sequence (replacedItems_of_mapStrings vs ws hws)
  | .mapping es, _, h => by
    obtain ⟨fs, hfs, rfl⟩ := map_eq_pure_iff.1 h
    exact .mapping (replacedEntries_of_mapStrings es fs hfs)

theorem replacedItems_of_mapStrings :
    ∀ vs ws : List Value, mapStringsOfItems f vs = pure ws →
      ReplacedItems (fun s u => f s = pure u) vs ws
  | [], _, h => pure_inj.1 h ▸ .nil
  | v :: vs, _, h => by
    rw [mapStringsOfItems] at h
    simp only [bind_eq_pure_iff, pure_inj] at h
    obtain ⟨w, hw, ws, hws, rfl⟩ := h
    exact .cons (replaced_of_mapStrings v w hw) (replacedItems_of_mapStrings vs ws hws)

theorem replacedEntries_of_mapStrings :
    ∀ es fs : List (String × Value), mapStringsOfEntries f es = pure fs →
      ReplacedEntries (fun s u => f s = pure u) es fs
  | [], _, h => pure_inj.1 h ▸ .nil
  | (k, v) :: es, _, h => by
    rw [mapStringsOfEntries] at h
    simp only [bind_eq_pure_iff, pure_inj] at h
    obtain ⟨w, hw, fs, hfs, rfl⟩ := h
    exact .cons (replaced_of_mapStrings v w hw) (replacedEntries_of_mapStrings es fs hfs)

end

mutual

theorem mapStrings_of_replaced {v w : Value} :
    Replaced (fun s u => f s = pure u) v w → v.mapStrings f = pure w
  | .null => rfl
  | .bool _ => rfl
  | .number _ => rfl
  | .string h => h
  | .sequence h => map_eq_pure_iff.2 ⟨_, mapStrings_of_replacedItems h, rfl⟩
  | .mapping h => map_eq_pure_iff.2 ⟨_, mapStrings_of_replacedEntries h, rfl⟩

theorem mapStrings_of_replacedItems {vs ws : List Value} :
    ReplacedItems (fun s u => f s = pure u) vs ws → mapStringsOfItems f vs = pure ws
  | .nil => rfl
  | .cons h hs => by
    rw [mapStringsOfItems, mapStrings_of_replaced h, mapStrings_of_replacedItems hs]
    rfl

theorem mapStrings_of_replacedEntries {es fs : List (String × Value)} :
    ReplacedEntries (fun s u => f s = pure u) es fs → mapStringsOfEntries f es = pure fs
  | .nil => rfl
  | .cons h hs => by
    rw [mapStringsOfEntries, mapStrings_of_replaced h, mapStrings_of_replacedEntries hs]
    rfl

end

/-- An attempt at a value succeeds with the value in which each string has been replaced. -/
theorem mapStrings_eq_pure_iff_replaced :
    v.mapStrings f = pure w ↔ Replaced (fun s u => f s = pure u) v w :=
  ⟨replaced_of_mapStrings v w, mapStrings_of_replaced⟩

theorem resolveText_eq_pure : (fun s u => Lookup.resolveText look s = pure u) =
    Becomes fun p u => look p = pure u :=
  funext fun _ => funext fun _ => propext resolveText_eq_pure_iff

/-- An attempt at a value succeeds with the value in which each string has become what it becomes. -/
theorem mapStrings_eq_pure_iff :
    v.mapStrings (Lookup.resolveText look) = pure w ↔
      Replaced (Becomes fun p u => look p = pure u) v w := by
  rw [← resolveText_eq_pure]
  exact mapStrings_eq_pure_iff_replaced

/-- The second document is the first one with the strings of the entries in scope replaced. -/
inductive ReplacedIn (scope : Scope) (R : String → Value → Prop) : Document → Document → Prop
  | nil : ReplacedIn scope R [] []
  | inside {key : String} {v w : Value} {d d' : Document} : scope.contains key = true →
      Replaced R v w → ReplacedIn scope R d d' → ReplacedIn scope R ((key, v) :: d) ((key, w) :: d')
  | outside {key : String} {v : Value} {d d' : Document} : scope.contains key = false →
      ReplacedIn scope R d d' → ReplacedIn scope R ((key, v) :: d) ((key, v) :: d')

/-- Only the strings in scope matter. -/
theorem ReplacedIn.imp {scope : Scope} {R S : String → Value → Prop} {d d' : Document}
    (h : ReplacedIn scope R d d') (hRS : ∀ s ∈ scope.strings d, ∀ u, R s u → S s u) :
    ReplacedIn scope S d d' := by
  induction h with
  | nil => exact .nil
  | inside hk hv _ ih =>
    rw [Scope.strings, if_pos hk] at hRS
    exact .inside hk (hv.imp fun s hs => hRS s (List.mem_append_left _ hs))
      (ih fun s hs => hRS s (List.mem_append_right _ hs))
  | outside hk _ ih => exact .outside hk (ih fun s hs => hRS s (List.mem_append_right _ hs))

/-- Something stands in the place of each string in scope. -/
theorem ReplacedIn.exists_of_mem {scope : Scope} {R : String → Value → Prop} {d d' : Document}
    (h : ReplacedIn scope R d d') : ∀ s ∈ scope.strings d, ∃ u, R s u := by
  induction h with
  | nil => simp [Scope.strings]
  | inside hk hv _ ih =>
    intro s hs
    rw [Scope.strings, if_pos hk] at hs
    rcases List.mem_append.1 hs with hs | hs
    · obtain ⟨u, hu, -⟩ := hv.exists_of_mem s hs
      exact ⟨u, hu⟩
    · exact ih s hs
  | outside hk _ ih =>
    intro s hs
    rw [Scope.strings, hk] at hs
    exact ih s (by simpa using hs)

/-- An entry in scope has its strings replaced. -/
theorem ReplacedIn.get? {scope : Scope} {R : String → Value → Prop} {d d' : Document} {key : String}
    {v : Value} (h : ReplacedIn scope R d d') (hkey : scope.contains key = true)
    (hv : Entries.get? d key = some v) : ∃ w, Entries.get? d' key = some w ∧ Replaced R v w := by
  induction h with
  | nil => cases hv
  | inside _ hw _ ih =>
    rw [Entries.get?] at hv ⊢
    split_ifs at hv ⊢ with hk
    · cases hv
      exact ⟨_, rfl, hw⟩
    · exact ih hv
  | outside hout _ ih =>
    rw [Entries.get?] at hv ⊢
    split_ifs at hv ⊢ with hk
    · subst hk
      cases hkey.symm.trans hout
    · exact ih hv

theorem replacedIn_all_iff {R : String → Value → Prop} {d d' : Document} :
    ReplacedIn .all R d d' ↔ ReplacedEntries R d d' := by
  constructor
  · intro h
    induction h with
    | nil => exact .nil
    | inside _ hv _ ih => exact .cons hv ih
    | outside hk => cases hk
  · intro h
    induction d generalizing d' with
    | nil =>
      cases h
      exact .nil
    | cons e d ih =>
      cases h with
      | cons hv hs => exact .inside rfl hv (ih hs)

/-- An attempt at a document succeeds with the document in which each string in scope has been replaced. -/
theorem scopeMapStrings_eq_pure_iff_replacedIn {scope : Scope} {d d' : Document} :
    scope.mapStrings f d = pure d' ↔ ReplacedIn scope (fun s u => f s = pure u) d d' := by
  induction d generalizing d' with
  | nil =>
    rw [Scope.mapStrings, pure_inj]
    constructor
    · rintro rfl
      exact .nil
    · rintro ⟨⟩
      rfl
  | cons e d ih =>
    rw [Scope.mapStrings]
    simp only [bind_eq_pure_iff, pure_inj, ih]
    cases hk : scope.contains e.1 with
    | true =>
      simp only [if_true, mapStrings_eq_pure_iff_replaced]
      constructor
      · rintro ⟨w, hw, fs, hfs, rfl⟩
        exact .inside hk hw hfs
      · intro h
        cases h with
        | inside _ hw hfs => exact ⟨_, hw, _, hfs, rfl⟩
        | outside hk' => exact absurd (hk.symm.trans hk') (by simp)
    | false =>
      simp only [Bool.false_eq_true, if_false, pure_inj]
      constructor
      · rintro ⟨w, rfl, fs, hfs, rfl⟩
        exact .outside hk hfs
      · intro h
        cases h with
        | inside hk' => exact absurd (hk.symm.trans hk') (by simp)
        | outside _ hfs => exact ⟨_, rfl, _, hfs, rfl⟩

/-- An attempt at a document succeeds with the document in which each string in scope has become what
it becomes. -/
theorem scopeMapStrings_eq_pure_iff {scope : Scope} {d d' : Document} :
    scope.mapStrings (Lookup.resolveText look) d = pure d' ↔
      ReplacedIn scope (Becomes fun p u => look p = pure u) d d' := by
  rw [← resolveText_eq_pure]
  exact scopeMapStrings_eq_pure_iff_replacedIn

end ConfigTree
