import ConfigTree.Proofs.Reference.Cycles
import ConfigTree.Proofs.Reference.Families

/-!
# The text of a variable is put in as it is

A variable of the process may hold any text, even one that looks like a placeholder. Can such a text
reach into the document, choose what is put in elsewhere, or make a pass fail?

It cannot. Where a pass meets a variable, what it leaves has a hole, and nothing that it does afterwards
looks into the hole: a value with holes goes through the table and into other strings as a whole. So a
pass under one text of the variable and a pass under another fail alike or leave the same document with
holes, each hole filled with the text (`resolve_fills`).

The runs under all texts of the variable are a family of runs. Its values are alike if they are one value
with holes, filled (`holes`).
-/

namespace ConfigTree

/-! ### Holes -/

/-- A piece of a text. -/
inductive Piece where
  /-- Characters that stand for themselves. -/
  | text (s : String)
  /-- A hole. -/
  | hole
deriving DecidableEq, Repr

/-- A text with holes. -/
abbrev HoledText := List Piece

/-- The text with each hole filled. -/
def HoledText.fill : HoledText → String → String
  | [], _ => ""
  | .text s :: ps, t => s ++ fill ps t
  | .hole :: ps, t => t ++ fill ps t

/-- A value with holes inside its strings. -/
inductive HoledValue where
  /-- A value without holes. -/
  | whole (v : Value)
  /-- A string. -/
  | string (text : HoledText)
  /-- A sequence. -/
  | sequence (items : List HoledValue)
  /-- A mapping; no hole is in its keys. -/
  | mapping (entries : List (String × HoledValue))

/-- A document with holes inside its strings. -/
abbrev HoledDocument := Entries HoledValue

namespace HoledValue

mutual

/-- The value with each hole filled. -/
def fill : HoledValue → String → Value
  | .whole v, _ => v
  | .string text, t => .string (text.fill t)
  | .sequence items, t => .sequence (fillItems items t)
  | .mapping entries, t => .mapping (fillEntries entries t)

/-- The items with each hole filled. -/
def fillItems : List HoledValue → String → List Value
  | [], _ => []
  | v :: vs, t => fill v t :: fillItems vs t

/-- The entries with each hole filled. -/
def fillEntries : List (String × HoledValue) → String → List (String × Value)
  | [], _ => []
  | (k, v) :: es, t => (k, fill v t) :: fillEntries es t

end

end HoledValue

/-- The document with each hole filled. -/
def HoledDocument.fill (d : HoledDocument) (t : String) : Document := HoledValue.fillEntries d t

theorem HoledText.fill_append (ps qs : HoledText) (t : String) :
    HoledText.fill (ps ++ qs) t = ps.fill t ++ qs.fill t := by
  induction ps with
  | nil => simp [HoledText.fill]
  | cons p ps ih => cases p <;> simp [HoledText.fill, ih, String.append_assoc]

/-- The members of a family are one thing with holes, each filled with the text of that member. -/
def Fills {I H α : Type} (fill : H → String → α) (text : I → String) (a : I → α) : Prop :=
  ∃ h, ∀ i, a i = fill h (text i)

variable {I : Type} {text : I → String}

theorem fills_items {items : List (I → Value)} (h : ∀ a ∈ items, Fills HoledValue.fill text a) :
    Fills HoledValue.fillItems text fun i => items.map (· i) := by
  induction items with
  | nil => exact ⟨[], fun _ => rfl⟩
  | cons a items ih =>
    obtain ⟨holed, ha⟩ := h a List.mem_cons_self
    obtain ⟨rest, hrest⟩ := ih fun b hb => h b (List.mem_cons_of_mem _ hb)
    exact ⟨holed :: rest, fun i => congrArg₂ List.cons (ha i) (hrest i)⟩

theorem fills_entries {es : Entries (I → Value)} (h : ∀ e ∈ es, Fills HoledValue.fill text e.2) :
    Fills HoledValue.fillEntries text (member es) := by
  induction es with
  | nil => exact ⟨[], fun _ => rfl⟩
  | cons e es ih =>
    obtain ⟨holed, he⟩ := h e List.mem_cons_self
    obtain ⟨rest, hrest⟩ := ih fun f hf => h f (List.mem_cons_of_mem _ hf)
    exact ⟨(e.1, holed) :: rest, fun i => congrArg₂ (fun v es => (e.1, v) :: es) (he i) (hrest i)⟩

/-- Values are alike that are one value with holes, each filled with the text of its member. -/
def holes (text : I → String) : Likeness I where
  Values := Fills HoledValue.fill text
  Texts := Fills HoledText.fill text
  sameText s := ⟨[.text s], fun _ => by simp [HoledText.fill]⟩
  append := by
    rintro s t ⟨ps, hs⟩ ⟨qs, ht⟩
    exact ⟨ps ++ qs, fun i => by simp only [hs i, ht i, HoledText.fill_append]⟩
  same v := ⟨.whole v, fun _ => rfl⟩
  string := by
    rintro t ⟨ps, ht⟩
    exact ⟨.string ps, fun i => congrArg Value.string (ht i)⟩
  sequence := by
    intro items h
    obtain ⟨holed, hitems⟩ := fills_items h
    exact ⟨.sequence holed, fun i => congrArg Value.sequence (hitems i)⟩
  mapping := by
    intro es h
    obtain ⟨holed, hes⟩ := fills_entries h
    exact ⟨.mapping holed, fun i => congrArg Value.mapping (hes i)⟩
  kind := by
    rintro a ⟨holed, ha⟩
    obtain rfl : a = fun i => holed.fill (text i) := funext ha
    cases holed with
    | whole v => exact .same v
    | string ps => exact .strings ⟨ps, fun _ => rfl⟩
    | sequence items => exact .sequences _
    | mapping entries => exact .mappings _

/-! ### Lookups that differ in one variable -/

/-- Two environments are the same but for the variable of one name. -/
def Environment.AgreeBut (name : String) (env env' : Environment) : Prop :=
  ∀ other, other ≠ name → env.lookup other = env'.lookup other

namespace Lookup

variable {l : Lookup} {envs : I → Environment} {name : String}

/-- The lookups of another environment. -/
def under (l : Lookup) (env : Environment) : Lookup := { l with env := env }

/-- A namespace stands for the process environment. -/
def ReadsVariables (l : Lookup) (domain : String) : Prop :=
  Entries.get? l.options.globals domain = none ∧ domain = environmentDomain ∧
    l.options.processEnv = true

theorem inDomain_of_readsVariables {p : Placeholder} {domain : String}
    (h : l.ReadsVariables domain) : l.inDomain p domain =
      match l.env.lookup p.path with
      | some text => .ok (.string text)
      | none => p.missing := by
  rw [inDomain, h.1]
  exact if_pos h.2

theorem inDomain_of_not_readsVariables {p : Placeholder} {domain : String}
    (h : ¬ l.ReadsVariables domain) (env : Environment) :
    (l.under env).inDomain p domain = l.inDomain p domain := by
  rw [inDomain, inDomain]
  cases hglobal : Entries.get? l.options.globals domain with
  | some global => simp only [under, hglobal]
  | none =>
    have hdomain : ¬ (domain = environmentDomain ∧ l.options.processEnv = true) :=
      fun hdomain => h ⟨hglobal, hdomain⟩
    simp only [under, hglobal, hdomain, if_false]

theorem inDomain_under (hothers : ∀ i, (envs i).AgreeBut name l.env)
    (hvariable : ∀ i, (envs i).lookup name = some (text i)) (p : Placeholder) (domain : String) :
    (∀ i, (l.under (envs i)).inDomain p domain = l.inDomain p domain) ∨
      ∀ i, (l.under (envs i)).inDomain p domain = .ok (.string (text i)) := by
  by_cases hreads : l.ReadsVariables domain
  · have hunder : ∀ i, (l.under (envs i)).ReadsVariables domain := fun _ => hreads
    by_cases hname : p.path = name
    · refine .inr fun i => ?_
      rw [inDomain_of_readsVariables (hunder i), under, hname, hvariable i]
    · refine .inl fun i => ?_
      rw [inDomain_of_readsVariables (hunder i), inDomain_of_readsVariables hreads, under,
        hothers i p.path hname]
  · exact .inl fun i => inDomain_of_not_readsVariables hreads _

/-- **Where a placeholder points.** It is the same under all environments, unless it is a placeholder of
the variable in which they differ, and then it is the text of this variable. -/
theorem aim_under (hothers : ∀ i, (envs i).AgreeBut name l.env)
    (hvariable : ∀ i, (envs i).lookup name = some (text i)) (p : Placeholder) :
    (∀ i, (l.under (envs i)).aim p = l.aim p) ∨
      ∀ i, (l.under (envs i)).aim p = .ok (.value (.string (text i))) := by
  cases hdomain : p.domain with
  | none =>
    refine .inl fun i => ?_
    rw [aim, aim, hdomain]
    rfl
  | some domain =>
    rcases inDomain_under hothers hvariable p domain with h | h
    · exact .inl fun i => by rw [aim_of_domain hdomain, aim_of_domain hdomain, h i]
    · exact .inr fun i => by rw [aim_of_domain hdomain, h i]; rfl

/-- All placeholders point the same way under all texts of the variable. -/
theorem aimsTogether_under (hothers : ∀ i, (envs i).AgreeBut name l.env)
    (hvariable : ∀ i, (envs i).lookup name = some (text i)) (p : Placeholder) :
    AimsTogether (holes text) (fun i => l.under (envs i)) (fun _ => True) p := by
  rcases aim_under hothers hvariable p with h | h
  · rcases haim : l.aim p with e | ⟨v⟩ | ⟨path, target⟩
    · exact .error e fun i => (h i).trans haim
    · exact .value _ ((holes text).same v) fun i => (h i).trans haim
    · exact .place path target (by simp) fun i => (h i).trans haim
  · refine .value _ ⟨.string [.hole], fun i => ?_⟩ h
    simp [HoledValue.fill, HoledText.fill]

/-- **A text that is put in is not looked into.** A pass under each text of the variable leaves one document
with holes, filled, and the same failure or none. -/
theorem run_fills (envs : I → Environment) (text : I → String)
    (hothers : ∀ i, (envs i).AgreeBut name l.env)
    (hvariable : ∀ i, (envs i).lookup name = some (text i)) :
    ∃ (failure : Option ReferenceError) (holed : HoledDocument),
      ∀ i, (l.under (envs i)).run = ⟨holed.fill (text i), failure⟩ := by
  have hsnapshot : ∀ i, (l.under (envs i)).snapshot =
      member (l.snapshot.map fun e => (e.1, fun _ => e.2)) i := by
    simp [member, under, Function.comp_def]
  rcases isEmpty_or_nonempty I with hempty | hnonempty
  · exact ⟨none, [], hempty.elim⟩
  · obtain ⟨_, failure, ⟨es, hes, rfl⟩, hrun⟩ := run_together (L := holes text)
      (fun p _ => aimsTogether_under hothers hvariable p) (fun _ => rfl) hsnapshot
      (fun e he _ => by
        obtain ⟨e, -, rfl⟩ := List.mem_map.1 he
        exact ⟨e.2, rfl, by simp⟩)
      (fun e he _ => by
        obtain ⟨e, -, rfl⟩ := List.mem_map.1 he
        exact (holes text).same e.2)
    obtain ⟨holed, hholed⟩ := fills_entries hes
    exact ⟨failure, holed, fun i => by rw [hrun i, hholed i]; rfl⟩

end Lookup

namespace Resolver

/-- **The text of a variable is put in as it is.** For one document, one set of options and one text of
every other variable there is one document with holes, and one failure or none, such that whichever text
a variable has, resolving leaves this document with each hole filled by the text, and fails with this
failure or not at all. -/
theorem resolve_fills (options : ResolverOptions) (env : Environment) (name : String) (d : Document)
    (key : Option String) :
    ∃ (failure : Option ReferenceError) (holed : HoledDocument), ∀ (env' : Environment) (text : String),
      env'.AgreeBut name env → env'.lookup name = some text →
      (placeholders options env').resolve d key = ⟨holed.fill text, failure⟩ := by
  obtain ⟨failure, holed, h⟩ := Lookup.run_fills (l := ⟨options, env, d, scopeOf key⟩)
    (I := { e : Environment × String // e.1.AgreeBut name env ∧ e.1.lookup name = some e.2 })
    (fun i => i.1.1) (fun i => i.1.2) (fun i => i.2.1) fun i => i.2.2
  refine ⟨failure, holed, fun env' text hothers hvariable => ?_⟩
  rw [resolve_eq_run]
  exact h ⟨(env', text), hothers, hvariable⟩

/-- A letter that is signed with a variable, and quotes its own signature. -/
def letter : Document :=
  [("text", .string "From ${sender} (${env:USER})"), ("sender", .string "${env:USER}"),
    ("secret", .string "hunter2")]

theorem agreeBut_singleton (name text : String) : Environment.AgreeBut name [(name, text)] [] := by
  intro other hother
  simp [Environment.lookup, Entries.get?, Ne.symm hother]

/-- A variable that holds a placeholder is quoted as it is, and what it would lead to stays out. -/
theorem resolve_letter :
    ∃ holed : HoledDocument,
      (placeholders {} [("USER", "Ann")]).resolve letter none = ⟨holed.fill "Ann", none⟩ ∧
      (placeholders {} [("USER", "${secret}")]).resolve letter none =
        ⟨holed.fill "${secret}", none⟩ ∧
      Entries.get? (holed.fill "${secret}") "text" = some (.string "From ${secret} (${secret})") := by
  obtain ⟨failure, holed, h⟩ := resolve_fills {} [] "USER" letter none
  have hann := h [("USER", "Ann")] "Ann" (agreeBut_singleton _ _) (by decide +kernel)
  have hsecret := h [("USER", "${secret}")] "${secret}" (agreeBut_singleton _ _) (by decide +kernel)
  have hresult : (placeholders {} [("USER", "${secret}")]).resolve letter none =
      ⟨[("text", .string "From ${secret} (${secret})"), ("sender", .string "${secret}"),
        ("secret", .string "hunter2")], none⟩ := by decide +kernel
  obtain ⟨hdocument, hfailure⟩ := Resolution.mk.inj (hresult.symm.trans hsecret)
  subst hfailure
  exact ⟨holed, hann, hsecret, by rw [← hdocument]; rfl⟩

end Resolver

end ConfigTree
