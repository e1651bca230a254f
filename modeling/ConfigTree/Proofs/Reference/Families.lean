import ConfigTree.Proofs.Reference.Table

/-!
# Families of runs

Some of what a pass reads should not matter: the text of a variable, or the texts in an entry that is not
to be looked into. To see that it does not, all runs that differ in it are looked at together, as a family
of computations with one member for each choice. A family is uniform when all members come to no end, or
fail in the same way, or give values that are alike (`Together`).

When values are alike is left open (`Likeness`). It has to be kept where values are put together from
parts. And since a text can be put into a longer text and a container cannot, values that are alike have
to be of one kind.

Then it is enough to look at where placeholders point (`AimsTogether`): to one place in all members, or to
values that are alike. If this holds of every placeholder that can be met, lookups go the same way
(`together_plain`), and so do passes (`run_together`).
-/

namespace ConfigTree

/-! ### Families of values -/

/-- The members of a family are the same, or all of them are of one kind. -/
inductive OfOneKind {I : Type} (Texts : (I → String) → Prop) : (I → Value) → Prop
  | same (v : Value) : OfOneKind Texts fun _ => v
  | strings {text : I → String} : Texts text → OfOneKind Texts fun i => .string (text i)
  | sequences (items : I → List Value) : OfOneKind Texts fun i => .sequence (items i)
  | mappings (entries : I → List (String × Value)) : OfOneKind Texts fun i => .mapping (entries i)

/-- The entries of one member, where the values are families. -/
def member {I : Type} (es : Entries (I → Value)) (i : I) : Document := es.map fun e => (e.1, e.2 i)

/-- When the members of a family of values are alike, and those of a family of texts. -/
structure Likeness (I : Type) where
  /-- Values that are alike. -/
  Values : (I → Value) → Prop
  /-- Texts that are alike. -/
  Texts : (I → String) → Prop
  /-- Texts that are the same are alike. -/
  sameText : ∀ s, Texts fun _ => s
  /-- Texts are alike where their parts are. -/
  append : ∀ {s t : I → String}, Texts s → Texts t → Texts fun i => s i ++ t i
  /-- Values that are the same are alike. -/
  same : ∀ v, Values fun _ => v
  /-- Strings are alike where their texts are. -/
  string : ∀ {text : I → String}, Texts text → Values fun i => .string (text i)
  /-- Sequences are alike where their items are. -/
  sequence : ∀ {items : List (I → Value)}, (∀ a ∈ items, Values a) →
    Values fun i => .sequence (items.map (· i))
  /-- Mappings are alike where their values are. -/
  mapping : ∀ {es : Entries (I → Value)}, (∀ e ∈ es, Values e.2) →
    Values fun i => .mapping (member es i)
  /-- Values that are alike are of one kind. -/
  kind : ∀ {a : I → Value}, Values a → OfOneKind Texts a

namespace Likeness

variable {I : Type} (L : Likeness I)

/-- Lists of values that are alike. -/
def Items (a : I → List Value) : Prop :=
  ∃ items : List (I → Value), (∀ b ∈ items, L.Values b) ∧ a = fun i => items.map (· i)

/-- Documents with the same keys, and under each of them values that are alike. -/
def Documents (a : I → Document) : Prop :=
  ∃ es : Entries (I → Value), (∀ e ∈ es, L.Values e.2) ∧ a = member es

variable {L}

theorem Items.cons {a : I → Value} {as : I → List Value} (ha : L.Values a) (has : L.Items as) :
    L.Items fun i => a i :: as i := by
  obtain ⟨items, hitems, rfl⟩ := has
  exact ⟨a :: items, List.forall_mem_cons.2 ⟨ha, hitems⟩, rfl⟩

theorem Documents.cons {key : String} {a : I → Value} {as : I → Document} (ha : L.Values a)
    (has : L.Documents as) : L.Documents fun i => (key, a i) :: as i := by
  obtain ⟨es, hes, rfl⟩ := has
  exact ⟨(key, a) :: es, List.forall_mem_cons.2 ⟨ha, hes⟩, rfl⟩

end Likeness

/-! ### Families of computations -/

/-- What is said of families of computations in terms of the families of their results, such that going
on keeps it. -/
structure FamilyProperty (I : Type) (m : Type → Type) [Monad m] where
  /-- The family comes to results with a property. -/
  Holds : {α : Type} → ((I → α) → Prop) → (I → m α) → Prop
  /-- Doing nothing comes to the results that are there. -/
  of_pure : ∀ {α : Type} {P : (I → α) → Prop} {a : I → α}, P a → Holds P fun i => pure (a i)
  /-- Going on from results with a property. -/
  of_bind : ∀ {α β : Type} {P : (I → α) → Prop} {Q : (I → β) → Prop} {x : I → m α}
    {f : I → α → m β}, Holds P x → (∀ a, P a → Holds Q fun i => f i (a i)) →
    Holds Q fun i => x i >>= f i

namespace FamilyProperty

variable {I : Type} {m : Type → Type} [Monad m] (F : FamilyProperty I m) (L : Likeness I)
  {f : I → String → m Value}

mutual

theorem of_mapStrings : ∀ v : Value, (∀ s ∈ v.strings, F.Holds L.Values fun i => f i s) →
    F.Holds L.Values fun i => v.mapStrings (f i)
  | .null, _ => F.of_pure (L.same .null)
  | .bool b, _ => F.of_pure (L.same (.bool b))
  | .number n, _ => F.of_pure (L.same (.number n))
  | .string s, h => h s (by simp [Value.strings])
  | .sequence vs, h => by
    refine F.of_bind (of_mapStringsOfItems vs h) ?_
    rintro a ⟨items, hitems, rfl⟩
    exact F.of_pure (L.sequence hitems)
  | .mapping es, h => by
    refine F.of_bind (of_mapStringsOfEntries es h) ?_
    rintro a ⟨entries, hentries, rfl⟩
    exact F.of_pure (L.mapping hentries)

theorem of_mapStringsOfItems :
    ∀ vs : List Value, (∀ s ∈ Value.stringsOfItems vs, F.Holds L.Values fun i => f i s) →
      F.Holds L.Items fun i => Value.mapStringsOfItems (f i) vs
  | [], _ => F.of_pure ⟨[], by simp, rfl⟩
  | v :: vs, h => by
    refine F.of_bind (of_mapStrings v fun s hs => h s (List.mem_append_left _ hs)) fun a ha => ?_
    refine F.of_bind (of_mapStringsOfItems vs fun s hs => h s (List.mem_append_right _ hs))
      fun as has => ?_
    exact F.of_pure (has.cons ha)

theorem of_mapStringsOfEntries :
    ∀ es : List (String × Value), (∀ s ∈ Value.stringsOfEntries es, F.Holds L.Values fun i => f i s) →
      F.Holds L.Documents fun i => Value.mapStringsOfEntries (f i) es
  | [], _ => F.of_pure ⟨[], by simp, rfl⟩
  | (k, v) :: es, h => by
    refine F.of_bind (of_mapStrings v fun s hs => h s (List.mem_append_left _ hs)) fun a ha => ?_
    refine F.of_bind (of_mapStringsOfEntries es fun s hs => h s (List.mem_append_right _ hs))
      fun as has => ?_
    exact F.of_pure (has.cons ha)

end

/-- A pass over the entries in scope, which are the same for all members; the others are alike. -/
theorem of_scopeMapStrings (scope : Scope) {es : Entries (I → Value)}
    (hinside : ∀ e ∈ es, scope.contains e.1 = true →
      ∃ v, e.2 = (fun _ => v) ∧ ∀ s ∈ v.strings, F.Holds L.Values fun i => f i s)
    (houtside : ∀ e ∈ es, scope.contains e.1 = false → L.Values e.2) :
    F.Holds L.Documents fun i => scope.mapStrings (f i) (member es i) := by
  induction es with
  | nil => exact F.of_pure ⟨[], by simp, rfl⟩
  | cons e es ih =>
    obtain ⟨key, a⟩ := e
    have hvalue : F.Holds L.Values fun i =>
        if scope.contains key then (a i).mapStrings (f i) else pure (a i) := by
      cases hkey : scope.contains key with
      | true =>
        obtain ⟨v, rfl, hv⟩ := hinside _ List.mem_cons_self hkey
        exact F.of_mapStrings L v hv
      | false => exact F.of_pure (houtside _ List.mem_cons_self hkey)
    refine F.of_bind hvalue fun b hb => ?_
    refine F.of_bind (ih (fun e he => hinside e (List.mem_cons_of_mem _ he))
      fun e he => houtside e (List.mem_cons_of_mem _ he)) fun bs hbs => ?_
    exact F.of_pure (hbs.cons hb)

end FamilyProperty

/-! ### Families of attempts -/

/-- The members of a family of attempts go the same way. -/
inductive Together {I α : Type} (P : (I → α) → Prop) (x : I → Attempt α) : Prop
  /-- No member comes to an end. -/
  | endless : (∀ i, x i = none) → Together P x
  /-- All members fail, and in the same way. -/
  | failure (e : ReferenceError) : (∀ i, x i = throw e) → Together P x
  /-- All members have values, and these have the property. -/
  | values (a : I → α) : P a → (∀ i, x i = pure (a i)) → Together P x

/-- Families of attempts that go the same way. -/
def together (I : Type) : FamilyProperty I Attempt where
  Holds := Together
  of_pure ha := .values _ ha fun _ => rfl
  of_bind := by
    intro α β P Q x f hx hf
    cases hx with
    | endless h => exact .endless fun i => by rw [h i]; rfl
    | failure e h => exact .failure e fun i => by rw [h i]; rfl
    | values a ha h =>
      have hbind : (fun i => x i >>= f i) = fun i => f i (a i) := by
        funext i
        rw [h i, pure_bind]
      rw [hbind]
      exact hf a ha

variable {I : Type} {L : Likeness I}

/-- Values that are alike have texts that are alike inside a longer text, or have none. -/
theorem together_interpolate {a : I → Value} (p : Placeholder) (ha : L.Values a) :
    (together I).Holds L.Texts fun i =>
      (MonadExcept.ofExcept (p.interpolate (a i)) : Attempt String) := by
  cases L.kind ha with
  | same v =>
    cases hv : p.interpolate v with
    | error e => exact .failure e fun _ => congrArg MonadExcept.ofExcept hv
    | ok s => exact .values _ (L.sameText s) fun _ => congrArg MonadExcept.ofExcept hv
  | strings ht => exact .values _ ht fun _ => rfl
  | sequences => exact .failure (.notInterpolatable p.raw .sequence) fun _ => rfl
  | mappings => exact .failure (.notInterpolatable p.raw .mapping) fun _ => rfl

theorem together_textOfParts {look : I → Placeholder → Attempt Value} {ps : List Part}
    (h : ∀ p, .reference p ∈ ps → (together I).Holds L.Values fun i => look i p) :
    (together I).Holds L.Texts fun i => Lookup.textOfParts (look i) ps := by
  induction ps with
  | nil => exact (together I).of_pure (L.sameText "")
  | cons part ps ih =>
    have hrest := ih fun p hp => h p (List.mem_cons_of_mem _ hp)
    cases part with
    | literal s =>
      refine (together I).of_bind hrest fun t ht => ?_
      exact (together I).of_pure (L.append (L.sameText s) ht)
    | reference p =>
      refine (together I).of_bind (h p List.mem_cons_self) fun a ha => ?_
      refine (together I).of_bind (together_interpolate p ha) fun s hs => ?_
      refine (together I).of_bind hrest fun t ht => ?_
      exact (together I).of_pure (L.append hs ht)

theorem together_resolveText {look : I → Placeholder → Attempt Value} {s : String}
    (h : ∀ p ∈ Lookup.placeholdersOf s, (together I).Holds L.Values fun i => look i p) :
    (together I).Holds L.Values fun i => Lookup.resolveText (look i) s := by
  simp only [Lookup.resolveText]
  split
  · cases hparse : Template.parse s with
    | error e => exact .failure e fun _ => rfl
    | ok ps =>
      have hps : ∀ p, .reference p ∈ ps → (together I).Holds L.Values fun i => look i p := fun p hp =>
        h p ((Lookup.mem_placeholdersOf_iff hparse).2 hp)
      simp only
      cases hsingle : Template.single? ps with
      | some p =>
        obtain rfl := Lookup.eq_of_single?_eq_some hsingle
        exact hps p List.mem_cons_self
      | none =>
        refine (together I).of_bind (together_textOfParts hps) fun t ht => ?_
        exact (together I).of_pure (L.string ht)
  · exact (together I).of_pure (L.same (.string s))

/-! ### Families of lookups -/

namespace Lookup

/-- A placeholder points the same way in all members. What it leads to, if this is a place, holds no
placeholders but those that are followed. -/
inductive AimsTogether (L : Likeness I) (ls : I → Lookup) (Followed : Placeholder → Prop)
    (p : Placeholder) : Prop
  /-- It points nowhere, for the same reason in all members. -/
  | error (e : ReferenceError) : (∀ i, (ls i).aim p = .error e) → AimsTogether L ls Followed p
  /-- It points to values that are alike. -/
  | value (a : I → Value) : L.Values a → (∀ i, (ls i).aim p = .ok (.value (a i))) →
    AimsTogether L ls Followed p
  /-- It points to one place, where the same stands in all members. -/
  | place (path : Path) (target : Value) :
    (∀ s ∈ target.strings, ∀ q ∈ placeholdersOf s, Followed q) →
    (∀ i, (ls i).aim p = .ok (.place path target)) → AimsTogether L ls Followed p

variable {ls : I → Lookup} {Followed : Placeholder → Prop} {n : Nat} {stack : List String}
  {p : Placeholder}

/-- A placeholder points the same way where its value, or its failure, is the same in all members. -/
theorem aimsTogether_of_map (r : Except ReferenceError Value)
    (h : ∀ i, (ls i).aim p = r.map .value) : AimsTogether L ls Followed p := by
  cases r with
  | error e => exact .error e h
  | ok v => exact .value _ (L.same v) h

/-- Where aims go together, lookups go the same way if they do where a place is put on the stack. -/
theorem together_of_new (hp : AimsTogether L ls Followed p)
    (hnew : ∀ path target, (∀ s ∈ target.strings, ∀ q ∈ placeholdersOf s, Followed q) →
      (∀ i, (ls i).aim p = .ok (.place path target)) → path.render ∉ stack →
      (together I).Holds L.Values fun i => (ls i).plain n stack p) :
    (together I).Holds L.Values fun i => (ls i).plain n stack p := by
  cases hp with
  | error e haim => exact .failure e fun i => plain_of_error (haim i)
  | value a ha haim => exact .values a ha fun i => plain_of_value (haim i)
  | place path target hfollowed haim =>
    by_cases hmem : path.render ∈ stack
    · exact .failure _ fun i => plain_of_mem (haim i) hmem
    · exact hnew path target hfollowed haim hmem

/-- **Lookups go the same way where all aims do.** -/
theorem together_plain (haims : ∀ p, Followed p → AimsTogether L ls Followed p) (n : Nat)
    (stack : List String) (hp : Followed p) :
    (together I).Holds L.Values fun i => (ls i).plain n stack p := by
  induction n generalizing stack p with
  | zero =>
    refine together_of_new (haims p hp) fun path target _ haim hmem => ?_
    exact .endless fun i => plain_zero_of_not_mem (haim i) hmem
  | succ n ih =>
    refine together_of_new (haims p hp) fun path target hfollowed haim hmem => ?_
    simp only [plain_succ_of_not_mem (haim _) hmem]
    refine (together I).of_mapStrings L target fun s hs => ?_
    exact together_resolveText fun q hq => ih _ (hfollowed s hs q hq)

end Lookup

/-! ### Families of passes -/

/-- Families of passes that go the same way, stopped or not. -/
def passesTogether (I : Type) : FamilyProperty I (StateT (Option ReferenceError) Option) where
  Holds P x := ∀ failure, (∀ i, (x i).run failure = none) ∨
    ∃ a failure', P a ∧ ∀ i, (x i).run failure = some (a i, failure')
  of_pure ha failure := .inr ⟨_, failure, ha, fun _ => rfl⟩
  of_bind := by
    intro α β P Q x f hx hf failure
    rcases hx failure with h | ⟨a, failure', ha, h⟩
    · exact .inl fun i => by rw [StateT.run_bind, h i]; rfl
    · have hbind : ∀ i, (x i >>= f i).run failure = (f i (a i)).run failure' := fun i => by
        rw [StateT.run_bind, h i]
        rfl
      simp only [hbind]
      exact hf a ha failure'

namespace Lookup

variable {ls : I → Lookup} {Followed : Placeholder → Prop} {n : Nat}

theorem passesTogether_plainString (haims : ∀ p, Followed p → AimsTogether L ls Followed p)
    {s : String} (hs : ∀ p ∈ placeholdersOf s, Followed p) :
    (passesTogether I).Holds L.Values fun i => (ls i).plainString n s := by
  intro failure
  cases failure with
  | some e => exact .inr ⟨_, some e, L.same (.string s), fun _ => rfl⟩
  | none =>
    cases together_resolveText fun p hp => together_plain haims n [] (hs p hp) with
    | endless h => exact .inl fun i => Option.map_eq_none_iff.2 (h i)
    | failure e h =>
      exact .inr ⟨_, some e, L.same (.string s), fun i => Option.map_eq_some_iff.2 ⟨_, h i, rfl⟩⟩
    | values a ha h =>
      exact .inr ⟨a, none, ha, fun i => Option.map_eq_some_iff.2 ⟨_, h i, rfl⟩⟩

/-- **Passes go the same way where all aims do.** The entries in scope have to be the same for all members,
and the others alike. -/
theorem run_together [Nonempty I] (haims : ∀ p, Followed p → AimsTogether L ls Followed p)
    {scope : Scope} {es : Entries (I → Value)} (hscope : ∀ i, (ls i).scope = scope)
    (hsnapshot : ∀ i, (ls i).snapshot = member es i)
    (hinside : ∀ e ∈ es, scope.contains e.1 = true →
      ∃ v, e.2 = (fun _ => v) ∧ ∀ s ∈ v.strings, ∀ p ∈ placeholdersOf s, Followed p)
    (houtside : ∀ e ∈ es, scope.contains e.1 = false → L.Values e.2) :
    ∃ a failure, L.Documents a ∧ ∀ i, (ls i).run = ⟨a i, failure⟩ := by
  obtain ⟨i₀⟩ := ‹Nonempty I›
  -- The limit of one member is enough for all, since they come to an end together.
  have hpass : (passesTogether I).Holds L.Documents fun i =>
      scope.mapStrings ((ls i).plainString (ls i₀).depth) (member es i) := by
    refine (passesTogether I).of_scopeMapStrings L scope (fun e he hkey => ?_) houtside
    obtain ⟨v, hv, hfollowed⟩ := hinside e he hkey
    exact ⟨v, hv, fun s hs => passesTogether_plainString haims (hfollowed s hs)⟩
  have hplain : ∀ i, (ls i).plainRun (ls i₀).depth =
      ((scope.mapStrings ((ls i).plainString (ls i₀).depth) (member es i)).run none).map
        fun r => ⟨r.1, r.2⟩ := fun i => by rw [plainRun, hscope i, hsnapshot i]
  rcases hpass none with h | ⟨a, failure, ha, h⟩
  · exact absurd (hplain i₀) (by rw [h i₀, plainRun_depth]; simp)
  · exact ⟨a, failure, ha, fun i => run_eq_of_plainRun (by rw [hplain i, h i]; rfl)⟩

end Lookup

end ConfigTree
