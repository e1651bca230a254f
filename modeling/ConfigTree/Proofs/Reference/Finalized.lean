import ConfigTree.Proofs.Document.Overwritten
import ConfigTree.Proofs.Path.RoundTrip
import ConfigTree.Proofs.Reference.Families
import Mathlib.Tactic.Choose

/-!
# A final entry

When an entry is final, a pass over the rest of the document leaves it as it is. What refers to it gets its
values as they are: a text in it that looks like a placeholder is put in, and not looked into.

An entry is read by the key that the first segment of a path stands for, and at the top of a document an
index stands for its decimal text. But only a key is seen to lead into the final entry. A placeholder that
begins with an index and leads there takes a detour (`Detours`): what it leads to is resolved before it is
put in. So a text in the entry is looked into after all, and can choose what is put in elsewhere, or make
the pass fail.

Where no placeholder takes a detour, the final entry is treated as it should be. And in a document that can
be resolved, it is so only there (`resolveExcept_finalizes`). No detour leads to a key that holds anything
but digits (`noDetours_of_mem`).

That texts in the entry cannot make a pass fail is seen by looking at all the documents that differ in these
texts. They are a family, and values are alike that are the same but for their texts (`butTexts`).
-/

namespace ConfigTree

/-! ### What is promised of a final entry -/

/-- A placeholder leads to a text in the entry of the key, and its path begins with an index. -/
def Detours (d : Document) (key : String) (p : Placeholder) : Prop :=
  p.domain = none ∧ ∃ i rest target, Path.parse p.path = .ok (.index i :: rest) ∧
    (Segment.index i).documentKey = key ∧ d.get? (.index i :: rest) = some target ∧
    target.strings ≠ []

/-- No placeholder outside the entry of the key takes a detour into it. -/
def NoDetours (d : Document) (key : String) : Prop :=
  ∀ s ∈ (Scope.except key).strings d, ∀ p ∈ Lookup.placeholdersOf s, ¬ Detours d key p

/-- If the string is one placeholder that leads into the entry of the key, then what stands in its place is
what it leads to. -/
def Verbatim (d : Document) (key : String) (s : String) (u : Value) : Prop :=
  ∀ p first rest target, Template.parse s = .ok [.reference p] → p.domain = none →
    Path.parse p.path = .ok (first :: rest) → first.documentKey = key →
    d.get? (first :: rest) = some target → u = target

/-- What is promised of a document in which the entry of the key, with this value, is final. -/
structure Finalizes (options : ResolverOptions) (env : Environment) (d : Document) (key : String)
    (v : Value) : Prop where
  /-- Whether the pass succeeds or not, the entry stays. -/
  kept : Entries.get? ((Resolver.placeholders options env).resolveExcept d key).document key = some v
  /-- A string outside the entry that is one placeholder for something inside has become just that. -/
  verbatim : ∀ d', (Resolver.placeholders options env).resolveExcept d key = ⟨d', none⟩ →
    ReplacedIn (.except key) (Verbatim d key) d d'
  /-- The texts in the entry decide neither whether the pass fails nor how. -/
  inert : ∀ w, w.SameButTexts v →
    ((Resolver.placeholders options env).resolveExcept (Entries.insert d key w) key).failure =
      ((Resolver.placeholders options env).resolveExcept d key).failure

variable {d : Document} {key : String} {v w : Value}

/-- Without a detour, an index leads to nothing in the entry that holds a text. -/
theorem strings_eq_nil_of_not_detours {p : Placeholder} {i : Nat} {rest : Path} {target : Value}
    (hp : ¬ Detours d key p) (hdomain : p.domain = none)
    (hpath : Path.parse p.path = .ok (.index i :: rest)) (hi : (Segment.index i).documentKey = key)
    (hget : d.get? (.index i :: rest) = some target) : target.strings = [] := by
  by_contra hne
  exact hp ⟨hdomain, i, rest, target, hpath, hi, hget, hne⟩

/-- A key that holds anything but digits is not what an index stands for. -/
theorem noDetours_of_mem {c : Char} (hc : c ∈ key.toList) (hdigit : c.isDigit = false) :
    NoDetours d key := by
  rintro s - p - ⟨-, i, -, -, -, rfl, -⟩
  have hdigits : (Segment.index i).documentKey.toList = Nat.toDigits 10 i := by
    simp [Segment.documentKey, Nat.repr]
  rw [hdigits] at hc
  have := Nat.isDigit_of_mem_toDigits (by decide) (by decide) hc
  simp [hdigit] at this

/-! ### The entry stays -/

/-- A pass leaves an entry out of scope as it is. -/
theorem Lookup.get?_scopeMapStrings {σ : Type} {scope : Scope} (hkey : scope.contains key = false)
    (f : String → StateM σ Value) (d : Document) (s : σ) :
    Entries.get? ((scope.mapStrings f d).run s).1 key = Entries.get? d key := by
  induction d generalizing s with
  | nil => rfl
  | cons e d ih =>
    obtain ⟨k, x⟩ := e
    simp only [Scope.mapStrings, StateT.run_bind, StateT.run_pure]
    by_cases hk : k = key
    · subst hk
      rw [if_neg (by simp [hkey])]
      exact (if_pos rfl).trans (if_pos rfl).symm
    · exact (if_neg hk).trans ((ih _).trans (if_neg hk).symm)

/-! ### What is put in -/

/-- The strings out of the entry are there whatever stands in it. -/
theorem strings_except_insert (d : Document) (key : String) (w : Value) :
    (Scope.except key).strings (Entries.insert d key w) = (Scope.except key).strings d := by
  induction d with
  | nil => simp [Entries.insert, Scope.strings, Scope.contains]
  | cons e d ih =>
    rw [Entries.insert]
    split
    · next hk => simp [Scope.strings, Scope.contains, hk]
    · rw [Scope.strings, Scope.strings, ih]

namespace Lookup

variable {options : ResolverOptions} {env : Environment} {p : Placeholder}

theorem isFinalized_of_eq {name : String} {rest : Path} (h : (Segment.key name).documentKey = key) :
    (Scope.except key).isFinalized (.key name :: rest) = true := beq_iff_eq.2 h

theorem isFinalized_of_ne {first : Segment} {rest : Path} (h : first.documentKey ≠ key) :
    (Scope.except key).isFinalized (first :: rest) = false := by
  cases first with
  | key name => simpa [Scope.isFinalized, Segment.documentKey] using h
  | index i => rfl

/-- What a placeholder leads to without a detour is put in as it is. -/
theorem verbatim_of_becomes {s : String} {u : Value}
    (hs : ∀ p ∈ placeholdersOf s, ¬ Detours d key p)
    (h : Becomes (HasValue ⟨options, env, d, .except key⟩) s u) : Verbatim d key s u := by
  intro p first rest target hparse hdomain hpath hfirst hget
  have hmem : p ∈ placeholdersOf s := (mem_placeholdersOf_iff hparse).2 List.mem_cons_self
  obtain ⟨n, hn⟩ := (becomes_iff_of_single (containsPlaceholder_of_mem hmem) hparse).1 h
  cases first with
  | key name =>
    have haim := aim_of_final (l := ⟨options, env, d, .except key⟩) hdomain hpath hget
      (isFinalized_of_eq hfirst)
    rw [plain_of_value haim] at hn
    exact (Attempt.pure_inj.1 hn).symm
  | index i =>
    have hstrings := strings_eq_nil_of_not_detours (hs p hmem) hdomain hpath hfirst hget
    have haim := aim_of_place (l := ⟨options, env, d, .except key⟩) hdomain hpath hget rfl
    rcases plain_eq_pure_iff.1 hn with h | ⟨_, _, _, h, -, -, hres⟩
    · cases haim.symm.trans h
    · cases haim.symm.trans h
      exact hres.eq_of_strings_eq_nil hstrings

end Lookup

/-! ### Documents that differ in the texts of one entry -/

open Value

variable {I : Type}

/-- Values are alike that are the same but for their texts, as those of one member are. -/
def butTexts (i₀ : I) : Likeness I where
  Values a := ∀ i, (a i).SameButTexts (a i₀)
  Texts _ := True
  sameText _ := trivial
  append _ _ := trivial
  same _ _ := rfl
  string _ _ := rfl
  sequence h i := by
    rw [SameButTexts, overwrite_sequence, overwrite_sequence, List.map_map, List.map_map]
    exact congrArg _ (List.map_congr_left fun a ha => h a ha i)
  mapping h i := by
    rw [SameButTexts, overwrite_mapping, overwrite_mapping, member, member, List.map_map, List.map_map]
    exact congrArg _ (List.map_congr_left fun e he => congrArg (e.1, ·) (h e he i))
  kind := by
    intro a ha
    cases h₀ : a i₀ with
    | string s =>
      choose text htext using fun i => (h₀ ▸ ha i).exists_string
      exact funext htext ▸ .strings trivial
    | sequence items =>
      choose as has using fun i => (h₀ ▸ ha i).exists_sequence
      exact funext has ▸ .sequences as
    | mapping entries =>
      choose as has using fun i => (h₀ ▸ ha i).exists_mapping
      exact funext has ▸ .mappings as
    | _ =>
      have hsame : a = fun _ => a i₀ := funext fun i => (ha i).eq_of_strings_eq_nil (by simp [h₀, strings])
      exact hsame ▸ .same _

theorem member_insert (es : Entries (I → Value)) (a : I → Value) (i : I) :
    member (Entries.insert es key a) i = Entries.insert (member es i) key (a i) := by
  induction es with
  | nil => rfl
  | cons e es ih =>
    have hcons : member (e :: es) i = (e.1, e.2 i) :: member es i := rfl
    rw [Entries.insert, hcons, Entries.insert]
    split
    · rfl
    · exact congrArg ((e.1, e.2 i) :: ·) ih

namespace Lookup

variable {options : ResolverOptions} {env : Environment} {p : Placeholder}

/-- The lookups of a pass around the entry of the key, where this value stands. -/
def around (options : ResolverOptions) (env : Environment) (d : Document) (key : String) (w : Value) :
    Lookup := ⟨options, env, Entries.insert d key w, .except key⟩

/-- A placeholder that leads into the entry without a detour points to what is there, or to a place that
holds no texts. -/
theorem aimsTogether_inside (hv : Entries.get? d key = some v) (hp : ¬ Detours d key p)
    (hdomain : p.domain = none) {first : Segment} {rest : Path}
    (hpath : Path.parse p.path = .ok (first :: rest)) (hfirst : first.documentKey = key) :
    AimsTogether (butTexts ⟨v, rfl⟩) (fun w : { w // SameButTexts w v } => around options env d key w)
      (fun p => ¬ Detours d key p) p := by
  have hread : ∀ w, (around options env d key w).snapshot.get? (first :: rest) = w.get? rest :=
    fun w => Document.get?_insert_of_eq hfirst
  cases hget : v.get? rest with
  | none =>
    refine aimsTogether_of_map p.missing fun w => aim_of_nowhere hdomain hpath ?_
    have hw := w.2.get? (p := rest)
    rw [hget] at hw
    rw [hread, Option.map_eq_none_iff.1 hw]
  | some target =>
    have hsome : ∀ w : { w // SameButTexts w v },
        ∃ u, w.1.get? rest = some u ∧ u.SameButTexts target := by
      intro w
      have hw := w.2.get? (p := rest)
      rw [hget] at hw
      exact Option.map_eq_some_iff.1 hw
    choose a ha halike using hsome
    cases first with
    | key name =>
      refine .value a (fun w => (halike w).trans (halike _).symm) fun w => ?_
      exact aim_of_final hdomain hpath ((hread w).trans (ha w)) (isFinalized_of_eq hfirst)
    | index i =>
      have hstrings : target.strings = [] := by
        refine strings_eq_nil_of_not_detours hp hdomain hpath hfirst ?_
        rw [← Entries.insert_of_get? hv, Document.get?_insert_of_eq hfirst, hget]
      refine .place _ target (by simp [hstrings]) fun w => aim_of_place hdomain hpath ?_ rfl
      rw [hread, ha, (halike w).eq_of_strings_eq_nil hstrings]

/-- A placeholder that leads to another entry points to a place whose placeholders take no detour. -/
theorem aimsTogether_outside (hclear : NoDetours d key) (hdomain : p.domain = none) {first : Segment}
    {rest : Path} (hpath : Path.parse p.path = .ok (first :: rest)) (hfirst : first.documentKey ≠ key) :
    AimsTogether (butTexts ⟨v, rfl⟩) (fun w : { w // SameButTexts w v } => around options env d key w)
      (fun p => ¬ Detours d key p) p := by
  have hread : ∀ w, (around options env d key w).snapshot.get? (first :: rest) =
      d.get? (first :: rest) := fun w => Document.get?_insert_of_ne hfirst
  cases hget : d.get? (first :: rest) with
  | none =>
    exact aimsTogether_of_map p.missing fun w => aim_of_nowhere hdomain hpath ((hread w).trans hget)
  | some target =>
    refine .place _ target (fun s hs q hq => hclear s ?_ q hq) fun w =>
      aim_of_place hdomain hpath ((hread w).trans hget) (isFinalized_of_ne hfirst)
    obtain ⟨u, hu, htarget⟩ := Option.bind_eq_some_iff.1 hget
    have hkey : (Scope.except key).contains first.documentKey = true := bne_iff_ne.2 hfirst
    exact Scope.strings_subset_of_mem (Entries.mem_of_get?_eq_some hu) hkey
      (strings_subset_of_get? htarget hs)

/-- Where there are no detours, placeholders point the same way in all documents that differ in the texts of
the entry. -/
theorem aimsTogether_around (hv : Entries.get? d key = some v) (hclear : NoDetours d key)
    (hp : ¬ Detours d key p) :
    AimsTogether (butTexts ⟨v, rfl⟩) (fun w : { w // SameButTexts w v } => around options env d key w)
      (fun p => ¬ Detours d key p) p := by
  cases hdomain : p.domain with
  | some name =>
    exact aimsTogether_of_map ((around options env d key v).inDomain p name) fun w => aim_of_domain hdomain
  | none =>
    cases hpath : Path.parse p.path with
    | error fault => exact .error _ fun w => aim_of_malformed hdomain hpath
    | ok path =>
      obtain ⟨first, rest, rfl⟩ := List.exists_cons_of_ne_nil (Path.ne_nil_of_elements hpath (by simp))
      by_cases hfirst : first.documentKey = key
      · exact aimsTogether_inside hv hp hdomain hpath hfirst
      · exact aimsTogether_outside hclear hdomain hpath hfirst

/-- Where there are no detours, the texts in the entry do not decide how a pass ends. -/
theorem failure_around (hv : Entries.get? d key = some v) (hclear : NoDetours d key)
    (hw : w.SameButTexts v) :
    (around options env d key w).run.failure = (around options env d key v).run.failure := by
  set es : Entries ({ w // SameButTexts w v } → Value) :=
    Entries.insert (d.map fun e => (e.1, fun _ => e.2)) key Subtype.val
  have hsnapshot : ∀ w : { w // SameButTexts w v },
      (around options env d key w).snapshot = member es w := by
    intro w
    rw [member_insert]
    simp [around, member, Function.comp_def]
  have hinside : ∀ e ∈ es, (Scope.except key).contains e.1 = true → ∃ u, e.2 = (fun _ => u) ∧
      ∀ s ∈ u.strings, ∀ p ∈ placeholdersOf s, ¬ Detours d key p := by
    intro e he hkey
    rcases Entries.eq_or_mem_of_mem_insert he with rfl | he
    · simp [Scope.contains] at hkey
    · obtain ⟨f, hf, rfl⟩ := List.mem_map.1 he
      exact ⟨f.2, rfl, fun s hs => hclear s (Scope.strings_subset_of_mem hf hkey hs)⟩
  have houtside : ∀ e ∈ es, (Scope.except key).contains e.1 = false →
      (butTexts ⟨v, rfl⟩).Values e.2 := by
    intro e he _
    rcases Entries.eq_or_mem_of_mem_insert he with rfl | he
    · exact fun w => w.2
    · obtain ⟨f, -, rfl⟩ := List.mem_map.1 he
      exact (butTexts _).same f.2
  have : Nonempty { w // SameButTexts w v } := ⟨⟨v, rfl⟩⟩
  obtain ⟨_, failure, -, hrun⟩ := run_together (fun p hp => aimsTogether_around hv hclear hp)
    (fun _ => rfl) hsnapshot hinside houtside
  rw [hrun ⟨w, hw⟩, hrun ⟨v, rfl⟩]

/-- A text that opens a placeholder and does not close it becomes nothing. -/
theorem not_becomes_unclosed {V : Placeholder → Value → Prop} {u : Value} :
    ¬ Becomes V "$\x7b" u := by
  have hopened : Template.splitAtPair '$' '\x7b' "$\x7b".toList = some ([], []) := rfl
  have hparse : ∀ ps, Template.parse "$\x7b" ≠ .ok ps := by
    intro ps h
    rw [Template.parse, Template.parts_of_unclosed hopened rfl] at h
    cases h
  intro h
  cases h with
  | same hs => exact absurd hs (by decide)
  | single _ h => exact hparse _ h
  | text _ h => exact hparse _ h

/-- A detour leads to a text that can be chosen such that the pass fails. -/
theorem failure_around_of_detours (hv : Entries.get? d key = some v) {s : String}
    (hs : s ∈ (Scope.except key).strings d) (hp : p ∈ placeholdersOf s) (hdetours : Detours d key p) :
    (around options env d key (v.overwrite "$\x7b")).run.failure ≠ none := by
  obtain ⟨hdomain, i, rest, target, hpath, hi, hget, hne⟩ := hdetours
  intro hok
  obtain ⟨d', hrun⟩ := Resolution.failure_eq_none_iff.1 hok
  obtain ⟨u, hu⟩ := (run_eq_ok_iff.1 hrun).exists_of_mem s (by rwa [around, strings_except_insert])
  obtain ⟨x, n, hx⟩ := hu.exists_of_mem hp
  -- What the detour leads to is resolved, and its texts open placeholders that they do not close.
  have htarget : v.get? rest = some target := by
    rwa [← Entries.insert_of_get? hv, Document.get?_insert_of_eq hi] at hget
  have hread : Document.get? (Entries.insert d key (v.overwrite "$\x7b")) (.index i :: rest) =
      some (target.overwrite "$\x7b") := by
    rw [Document.get?_insert_of_eq hi, get?_overwrite, htarget, Option.map_some]
  have haim := aim_of_place (l := around options env d key (v.overwrite "$\x7b")) hdomain hpath hread rfl
  obtain ⟨t, ts, hstrings⟩ := List.exists_cons_of_ne_nil hne
  have hmem : "$\x7b" ∈ (target.overwrite "$\x7b").strings := by simp [strings_overwrite, hstrings]
  rcases plain_eq_pure_iff.1 hx with h | ⟨_, _, _, h, -, -, hres⟩
  · cases haim.symm.trans h
  · cases haim.symm.trans h
    obtain ⟨y, hy, -⟩ := Value.Replaced.exists_of_mem hres _ hmem
    exact not_becomes_unclosed hy

end Lookup

namespace Resolver

variable {options : ResolverOptions} {env : Environment}

theorem resolveExcept_insert (w : Value) :
    (placeholders options env).resolveExcept (Entries.insert d key w) key =
      (Lookup.around options env d key w).run := rfl

theorem finalizes_of_noDetours (hv : Entries.get? d key = some v) (hclear : NoDetours d key) :
    Finalizes options env d key v where
  kept := by
    rw [← hv]
    exact Lookup.get?_scopeMapStrings (by simp [Scope.contains]) _ _ _
  verbatim d' h := (Lookup.run_eq_ok_iff.1 h).imp fun s hs u hu =>
    Lookup.verbatim_of_becomes (hclear s hs) hu
  inert w hw := by
    have hfailure : (Lookup.around options env d key w).run.failure =
        (Lookup.around options env d key v).run.failure := Lookup.failure_around hv hclear hw
    rw [← resolveExcept_insert, ← resolveExcept_insert, Entries.insert_of_get? hv] at hfailure
    exact hfailure

/-- **A final entry is read as it is where no placeholder takes a detour into it**, and in a document that
can be resolved only there. -/
theorem resolveExcept_finalizes (hv : Entries.get? d key = some v) :
    (NoDetours d key → Finalizes options env d key v) ∧
      (((placeholders options env).resolveExcept d key).failure = none →
        Finalizes options env d key v → NoDetours d key) := by
  refine ⟨finalizes_of_noDetours hv, fun hok hfinal s hs p hp hdetours => ?_⟩
  have hinert := hfinal.inert (v.overwrite "$\x7b") (sameButTexts_overwrite _ v)
  exact Lookup.failure_around_of_detours hv hs hp hdetours (hinert.trans hok)

/-- The values of an entry that look like placeholders. -/
def unread : Value := .sequence [.string "${later}", .mapping [("k", .string "$\x7b")]]

/-- A document that refers to them, also by way of another entry. -/
def quoting : Document :=
  [("imports", unread), ("first", .string "${imports[0]}"),
    ("text", .string "${first} and ${imports.1.k}"), ("later", .number (.int 1))]

theorem resolveExcept_quoting :
    Entries.get? quoting "imports" = some unread ∧ NoDetours quoting "imports" ∧
      Finalizes {} [] quoting "imports" unread ∧
      (placeholders {} []).resolveExcept quoting "imports" =
        ⟨[("imports", unread), ("first", .string "${later}"),
          ("text", .string "${later} and $\x7b"), ("later", .number (.int 1))], none⟩ := by
  have hv : Entries.get? quoting "imports" = some unread := rfl
  have hclear : NoDetours quoting "imports" :=
    noDetours_of_mem (c := 'i') (by decide) (by decide)
  exact ⟨hv, hclear, (resolveExcept_finalizes hv).1 hclear, by decide +kernel⟩

/-- A document with a placeholder that takes a detour into the first entry. -/
def roundabout : Document :=
  [("0", .sequence [.string "${b}"]), ("a", .string "${[0][0]}"), ("b", .number (.int 1))]

/-- What the detour leads to is not put in as it is. -/
theorem not_finalizes_roundabout :
    roundabout.Wellformed ∧ Entries.get? roundabout "0" = some (.sequence [.string "${b}"]) ∧
      (placeholders {} []).resolveExcept roundabout "0" =
        ⟨[("0", .sequence [.string "${b}"]), ("a", .number (.int 1)), ("b", .number (.int 1))], none⟩ ∧
      ¬ Finalizes {} [] roundabout "0" (.sequence [.string "${b}"]) := by
  have hrun : (placeholders {} []).resolveExcept roundabout "0" =
      ⟨[("0", .sequence [.string "${b}"]), ("a", .number (.int 1)), ("b", .number (.int 1))], none⟩ := by
    decide +kernel
  refine ⟨by decide, rfl, hrun, fun hfinal => ?_⟩
  cases hfinal.verbatim _ hrun with
  | inside hkey => exact absurd hkey (by decide)
  | outside _ hrest =>
    cases hrest with
    | inside _ hreplaced =>
      cases hreplaced with
      | string hverbatim =>
        have hparse : Template.parse "${[0][0]}" =
            .ok [.reference ⟨"${[0][0]}", none, "[0][0]", none⟩] := by decide +kernel
        have hpath : Path.parse "[0][0]" = .ok [.index 0, .index 0] := by decide +kernel
        cases hverbatim _ _ _ (.string "${b}") hparse rfl hpath rfl rfl

end Resolver

end ConfigTree
