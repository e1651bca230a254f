import ConfigTree.CommandLine.Run
import ConfigTree.Proofs.Document.Written
import ConfigTree.Proofs.Extension.Registered
import ConfigTree.Proofs.Loader.Forced

/-!
# The loader of a request

A request is carried out by a loader that is built from it: the data that it forces are computed, what it
leaves open is filled in from the environment, and the loaders for JSON and YAML are registered. This
module says what such a loader is (`loader_eq_ok`) and that it falls under what is known of loaders, as its
registry holds no other loaders (`builtin_registry`) and its data are well formed
(`wellformed_forcedData`).
-/

namespace ConfigTree

section Except

variable {ε α β : Type}

theorem bind_eq_ok_iff {x : Except ε α} {f : α → Except ε β} {b : β} :
    x >>= f = .ok b ↔ ∃ a, x = .ok a ∧ f a = .ok b := by
  cases x <;> simp [bind, Except.bind]

/-- What holds at the start and is kept by each step of a fold that succeeds holds at its end. -/
theorem of_foldlM_eq_ok {f : β → α → Except ε β} {P : β → Prop} {xs : List α} {b c : β}
    (hstep : ∀ x ∈ xs, ∀ b c, P b → f b x = .ok c → P c) (hb : P b) (h : xs.foldlM f b = .ok c) :
    P c := by
  induction xs generalizing b with
  | nil =>
    cases h
    exact hb
  | cons x xs ih =>
    rw [List.foldlM_cons, bind_eq_ok_iff] at h
    obtain ⟨b', hx, h⟩ := h
    have hb' : P b' := hstep x List.mem_cons_self b b' hb hx
    exact ih (fun y hy => hstep y (List.mem_cons_of_mem x hy)) hb' h

end Except

namespace LoaderBuilder

variable {b b' : LoaderBuilder} {env : Environment}

/-- Reading the environment fills in the suffix, the imports key and the shape of the output. -/
theorem fromEnv_eq_ok (h : b.fromEnv env = .ok b') :
    ∃ flag, b' = { b with
      environment := b.environment.or (env.setting (SettingVariable.name .environment))
      importsKey := b.importsKey.or (env.setting (SettingVariable.name .importsKey))
      flattenOutput := flag } := by
  rw [fromEnv] at h
  simp only at h
  split at h
  · split at h
    · cases h
      exact ⟨_, rfl⟩
    · cases h
  · cases h
    exact ⟨_, rfl⟩

/-- Without loaders added explicitly there are only those for JSON and YAML. -/
theorem builtin_registry (h : b.extensionLoaders = []) {extension : String} {loader : ExtensionLoader}
    (hget : b.registry.get? extension = some loader) : loader = .json ∨ loader = .yaml := by
  have hempty : Registry.get? {} extension = none := rfl
  rw [registry, h, List.append_nil, Registry.get?_foldl_register, hempty, Option.or_none] at hget
  obtain ⟨name, hmem⟩ := Registry.exists_mem_of_lastFor hget
  have hbuiltIn : (name, loader) ∈ [(".json", .json), (".yaml", .yaml), (".yml", .yaml)] := by
    rw [builtInLoaders] at hmem
    split_ifs at hmem
    · exact hmem
    · exact List.mem_cons.2 (.inl (List.mem_singleton.1 hmem))
  simp only [List.mem_cons, Prod.mk.injEq, List.not_mem_nil, or_false] at hbuiltIn
  rcases hbuiltIn with h | h | h
  · exact .inl h.2
  · exact .inr h.2
  · exact .inr h.2

end LoaderBuilder

namespace CommandLine.Request

variable {r : Request} {env : Environment} {l : Loader} {d data : Document} {text : String}

/-! ### The data -/

/-- What it takes to carry an assignment out. -/
theorem assign_eq_ok_iff :
    assign d text = .ok data ↔
      ∃ p v, assignment text = .ok (p, v) ∧ (d.set p v).fault = none ∧ data = (d.set p v).tree := by
  rw [assign]
  cases assignment text with
  | error e => simp
  | ok given =>
    obtain ⟨p, v⟩ := given
    simp only [Written.outcome]
    cases hfault : (d.set p v).fault <;> simp [hfault, eq_comm]

/-- The value of an assignment was read from JSON, or is a text. -/
theorem wellformed_of_assignment {p : Path} {v : Value} (h : assignment text = .ok (p, v)) :
    v.Wellformed := by
  rw [assignment] at h
  split_ifs at h
  split at h
  · cases h
  · simp only [Except.ok.injEq, Prod.mk.injEq] at h
    obtain ⟨-, rfl⟩ := h
    cases hparse : Json.parse _ with
    | none => simp [Value.Wellformed]
    | some v => exact Json.wellformed_of_parse hparse

theorem wellformed_assign (hd : d.Wellformed) (h : assign d text = .ok data) : data.Wellformed := by
  obtain ⟨p, v, hassignment, -, rfl⟩ := assign_eq_ok_iff.1 h
  exact hd.set (wellformed_of_assignment hassignment)

theorem wellformed_givenData {given : Option String} (h : givenData given = .ok data) :
    data.Wellformed := by
  cases given with
  | none =>
    cases h
    exact Document.wellformed_nil
  | some text =>
    rw [givenData] at h
    split at h
    · cases h
    · next hparse =>
      cases h
      exact Json.wellformed_of_parse hparse
    · cases h

/-- However many assignments there are, the data hold no key twice in a mapping. -/
theorem wellformed_forcedData (h : r.forcedData = .ok data) : data.Wellformed := by
  obtain ⟨d, hgiven, hassign⟩ := bind_eq_ok_iff.1 h
  refine of_foldlM_eq_ok ?_ (wellformed_givenData hgiven) hassign
  intro _ _ _ _ hd hd'
  exact wellformed_assign hd hd'

/-! ### The loader -/

/-- The loader of a request is built from its data and settings, the rest filled in from the environment. -/
theorem loader_eq_ok (h : r.loader env = .ok l) :
    ∃ data flag, r.forcedData = .ok data ∧ l = LoaderBuilder.build { r.explicitBuilder data with
      environment := r.environment.or (env.setting (SettingVariable.name .environment))
      importsKey := r.importsKey.or (env.setting (SettingVariable.name .importsKey))
      flattenOutput := flag } := by
  rw [loader] at h
  split at h
  · cases h
  · next data hdata =>
    split at h
    · cases h
    · next b hb =>
      cases h
      obtain ⟨flag, rfl⟩ := LoaderBuilder.fromEnv_eq_ok hb
      exact ⟨data, flag, hdata, rfl⟩

/-- The data of the loader are those of the request. -/
theorem data_of_loader (h : r.loader env = .ok l) : r.forcedData = .ok l.options.data := by
  obtain ⟨data, flag, hdata, rfl⟩ := loader_eq_ok h
  rw [hdata]
  exact congrArg Except.ok (Document.nil_merge (wellformed_forcedData hdata).1).symm

/-- References are resolved by the resolver of placeholders. -/
theorem resolver_of_loader (h : r.loader env = .ok l) :
    l.resolver = .placeholders { processEnv := !r.noProcessEnv } := by
  obtain ⟨data, flag, -, rfl⟩ := loader_eq_ok h
  rfl

theorem keepsDocuments_of_loader (h : r.loader env = .ok l) (w : World) : l.KeepsDocuments w := by
  refine Loader.keepsDocuments_of_builtin ?_ (resolver_of_loader h) w
  obtain ⟨data, flag, -, rfl⟩ := loader_eq_ok h
  exact fun _ _ => LoaderBuilder.builtin_registry rfl

/-- What it takes for the load of a request to give a result. -/
theorem load_eq_ok_iff {w : World} {file : String} {output : LoadOutput} :
    r.load w file = .ok output ↔ ∃ l, r.loader w.env = .ok l ∧
      ((r.raw = true ∧ ∃ d, (l.loadRaw w file {}).outcome = .ok d ∧ output = .document d) ∨
        r.raw = false ∧ (l.load w file).outcome = .ok output) := by
  rw [load]
  cases r.loader w.env with
  | error e => simp
  | ok l =>
    cases hraw : r.raw with
    | true => cases hload : (l.loadRaw w file {}).outcome <;> simp [Except.map, hload, eq_comm]
    | false => cases hload : (l.load w file).outcome <;> simp [hload]

end CommandLine.Request

end ConfigTree
