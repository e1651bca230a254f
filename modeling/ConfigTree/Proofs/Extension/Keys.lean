import ConfigTree.Extension.Loader
import ConfigTree.Proofs.Document.Wellformed
import Mathlib.Tactic.SplitIfs

/-!
# The keys of a file

A text may write a key twice, at any depth. The readers of JSON and YAML keep the place of the first and
the value of the last, so that no mapping in the documents which their loaders give has a key twice.
-/

namespace ConfigTree

open Value

namespace Json

variable {purpose : Purpose} {cs rest : List Char}

theorem wellformed_of_number {r : Value × List Char} (h : number purpose cs = some r) :
    r.1.Wellformed := by
  rw [number] at h
  split at h
  · simp at h
  · cases purpose with
    | skim =>
      cases h
      trivial
    | keep =>
      obtain ⟨n, -, rfl⟩ := Option.map_eq_some_iff.1 h
      trivial

section

variable {item : List Char → Option (Value × List Char)}
  (hitem : ∀ cs v rest, item cs = some (v, rest) → v.Wellformed)
include hitem

theorem wellformed_of_items {fuel : Nat} {vs : List Value} (h : items item fuel cs = some (vs, rest)) :
    WellformedItems vs := by
  induction fuel generalizing cs vs rest with
  | zero => simp [items] at h
  | succ fuel ih =>
    rw [items] at h
    split at h
    · simp at h
    · next v rest' hv =>
      have hwell : v.Wellformed := hitem _ _ _ hv
      split at h
      · obtain ⟨r, hr, heq⟩ := Option.map_eq_some_iff.1 h
        cases heq
        exact ⟨hwell, ih hr⟩
      · cases h
        exact ⟨hwell, trivial⟩
      · simp at h

theorem wellformed_of_fields {fuel : Nat} {es : List (String × Value)}
    (h : fields purpose item fuel cs = some (es, rest)) : WellformedEntries es := by
  induction fuel generalizing cs es rest with
  | zero => simp [fields] at h
  | succ fuel ih =>
    rw [fields] at h
    split at h
    · split at h
      · simp at h
      · split at h
        · split at h
          · simp at h
          · next v rest' hv =>
            have hwell : v.Wellformed := hitem _ _ _ hv
            split at h
            · obtain ⟨r, hr, heq⟩ := Option.map_eq_some_iff.1 h
              cases heq
              exact ⟨hwell, ih hr⟩
            · cases h
              exact ⟨hwell, trivial⟩
            · simp at h
        · simp at h
    · simp at h

end

/-- A value that is read from JSON has no mapping with a key twice. -/
theorem wellformed_of_value {fuel depth : Nat} {v : Value}
    (h : value purpose fuel depth cs = some (v, rest)) : v.Wellformed := by
  induction fuel generalizing depth cs v rest with
  | zero => simp [value] at h
  | succ fuel ih =>
    rw [value] at h
    split at h
    case h_1 => simp at h
    case h_3 =>
      split_ifs at h
      split at h
      · cases h
        trivial
      · obtain ⟨r, hr, heq⟩ := Option.map_eq_some_iff.1 h
        cases heq
        exact wellformed_of_items (fun _ _ _ hv => ih hv) hr
    case h_4 =>
      split_ifs at h
      split at h
      · cases h
        exact Document.wellformed_nil
      · obtain ⟨r, hr, heq⟩ := Option.map_eq_some_iff.1 h
        cases heq
        exact wellformed_ofList (wellformed_of_fields (fun _ _ _ hv => ih hv) hr)
    case h_8 => exact wellformed_of_number h
    all_goals
      obtain ⟨r, -, heq⟩ := Option.map_eq_some_iff.1 h
      cases heq
      trivial

theorem wellformed_of_parse {text : String} {v : Value} (h : parse text = some v) :
    v.Wellformed := by
  rw [parse, parseWithin] at h
  split at h
  · next v rest hv =>
    split_ifs at h
    cases h
    exact wellformed_of_value hv
  · simp at h

end Json

namespace Yaml

theorem Literal.wellformed_of_ofInt {n : Int} {v : Value} (h : Literal.ofInt n = some v) :
    v.Wellformed := by
  rw [Literal.ofInt] at h
  split_ifs at h
  cases h
  trivial

theorem Literal.wellformed_of_float? {cs : List Char} {v : Value}
    (h : Literal.float? cs = some v) : v.Wellformed := by
  rw [Literal.float?] at h
  split_ifs at h
  · cases h
    trivial
  · obtain ⟨x, -, rfl⟩ := Option.map_eq_some_iff.1 h
    trivial

theorem Literal.wellformed_of_plain? {cs : List Char} {v : Value}
    (h : Literal.plain? cs = some v) : v.Wellformed := by
  rw [Literal.plain?] at h
  split at h
  · cases h
    trivial
  · split at h
    · cases h
      trivial
    · split at h
      · exact Literal.wellformed_of_ofInt h
      · split at h
        · next x hx =>
          cases h
          split at hx
          · simp at hx
          · exact Literal.wellformed_of_float? hx
        · cases h
          trivial

theorem Literal.wellformed_of_value? {tag : Option (List Char)} {cs : List Char} {plain : Bool}
    {v : Value} (h : Literal.value? tag cs plain = some v) : v.Wellformed := by
  unfold Literal.value? at h
  split at h
  · split at h
    · exact Literal.wellformed_of_plain? h
    · cases h
      trivial
  · split_ifs at h
    · obtain ⟨b, -, rfl⟩ := Option.map_eq_some_iff.1 h
      trivial
    · obtain ⟨n, -, hn⟩ := Option.bind_eq_some_iff.1 h
      exact Literal.wellformed_of_ofInt hn
    · exact Literal.wellformed_of_float? h
    · cases h
      trivial
    · cases h
      trivial

theorem run_bind_eq_some_iff {α β : Type} {x : Counted α} {f : α → Counted β} {s : Nat}
    {r : β × Nat} : (x >>= f).run s = some r ↔
      ∃ a t, x.run s = some (a, t) ∧ (f a).run t = some r := by
  simp [StateT.run_bind, Option.bind_eq_some_iff]

theorem run_lift_eq_some_iff {x : Option Value} {s : Nat} {r : Value × Nat} :
    (liftM x : Counted Value).run s = some r ↔ x = some r.1 ∧ s = r.2 := by
  rcases r with ⟨v, t⟩
  cases x <;> simp [liftM, monadLift, MonadLift.monadLift, StateT.lift, StateT.run]

namespace Anchors

variable {a : Anchors} {s s' : Nat} {v : Value}

/-- Reading a node gives only values without a mapping that has a key twice. -/
def Sound (read : Node → Counted Value) : Prop :=
  ∀ n s v s', (read n).run s = some (v, s') → v.Wellformed

theorem wellformed_of_mapM {read : Node → Counted Value} (hread : Sound read) {ns : List Node}
    {vs : List Value} (h : (ns.mapM read).run s = some (vs, s')) : WellformedItems vs := by
  induction ns generalizing s vs with
  | nil =>
    cases h
    trivial
  | cons n ns ih =>
    rw [List.mapM_cons] at h
    obtain ⟨v, t, hv, h⟩ := run_bind_eq_some_iff.1 h
    obtain ⟨vs, t', hvs, h⟩ := run_bind_eq_some_iff.1 h
    cases h
    exact ⟨hread _ _ _ _ hv, ih hvs⟩

theorem wellformed_of_mapM_entries {read : Node → Counted Value} (hread : Sound read)
    {key : Node → Counted String} {ns : List (Node × Node)} {es : List (String × Value)}
    (h : (ns.mapM fun (k, v) => do return (← key k, ← read v)).run s = some (es, s')) :
    WellformedEntries es := by
  induction ns generalizing s es with
  | nil =>
    cases h
    trivial
  | cons n ns ih =>
    rw [List.mapM_cons] at h
    obtain ⟨e, t, he, h⟩ := run_bind_eq_some_iff.1 h
    obtain ⟨es, t', hes, h⟩ := run_bind_eq_some_iff.1 h
    cases h
    obtain ⟨k, u, -, he⟩ := run_bind_eq_some_iff.1 he
    obtain ⟨v, u', hv, he⟩ := run_bind_eq_some_iff.1 he
    cases he
    exact ⟨hread _ _ _ _ hv, ih hes⟩

theorem sound_valueWith {inner : Option (Node → Counted Value)} (hinner : ∀ read ∈ inner, Sound read) :
    Sound (a.valueWith inner) := by
  intro n s v s' h
  rw [valueWith, run_bind_eq_some_iff] at h
  obtain ⟨node, t, -, h⟩ := h
  split at h
  · exact Literal.wellformed_of_value? (run_lift_eq_some_iff.1 h).1
  · split_ifs at h
    · cases h
    · obtain ⟨items, u, hitems, h⟩ := run_bind_eq_some_iff.1 h
      cases h
      exact wellformed_of_mapM (hinner _ rfl) hitems
  · split_ifs at h
    · cases h
    · obtain ⟨entries, u, hentries, h⟩ := run_bind_eq_some_iff.1 h
      cases h
      exact wellformed_ofList (wellformed_of_mapM_entries (hinner _ rfl) hentries)
  · cases h

/-- A value that is read from YAML has no mapping with a key twice. -/
theorem sound_value (a : Anchors) (depth : Nat) : Sound (a.value depth) := by
  induction depth with
  | zero => exact sound_valueWith fun _ h => nomatch h
  | succ depth ih =>
    refine sound_valueWith fun read h => ?_
    cases h
    exact ih

end Anchors

theorem wellformed_of_parse {text : String} {v : Value} (h : parse text = some v) :
    v.Wellformed := by
  rw [parse] at h
  split at h
  · simp at h
  · cases h
    trivial
  · next n _ =>
    rw [ofNode?, StateT.run'] at h
    obtain ⟨⟨v, s⟩, hv, rfl⟩ := Option.map_eq_some_iff.1 h
    exact Anchors.sound_value _ _ _ _ _ _ hv

end Yaml

namespace ExtensionLoader

theorem document_eq_ok_iff {path : String} {v : Value} {d : Document} :
    document path v = .ok d ↔ v = .mapping d ∨ v = .null ∧ d = [] := by
  cases v <;> simp [document, eq_comm]

theorem wellformed_of_document {path : String} {v : Value} {d : Document} (hv : v.Wellformed)
    (h : document path v = .ok d) : d.Wellformed := by
  rcases document_eq_ok_iff.1 h with rfl | ⟨-, rfl⟩
  · exact hv
  · exact Document.wellformed_nil

/-- What the loader for JSON gives has no key twice. -/
theorem wellformed_of_json {w : World} {path : String} {d : Document}
    (h : json.load w path = .ok d) : d.Wellformed := by
  simp only [json] at h
  split at h
  · simp at h
  · split at h
    · next v hv => exact wellformed_of_document (Json.wellformed_of_parse hv) h
    · simp at h

/-- What the loader for YAML gives has no key twice. -/
theorem wellformed_of_yaml {w : World} {path : String} {d : Document}
    (h : yaml.load w path = .ok d) : d.Wellformed := by
  simp only [yaml] at h
  split at h
  · simp at h
  · split_ifs at h
    · cases h
      exact Document.wellformed_nil
    · split at h
      · next v hv => exact wellformed_of_document (Yaml.wellformed_of_parse hv) h
      · simp at h

theorem distinct_of_json {w : World} {path : String} {d : Document}
    (h : json.load w path = .ok d) : Entries.Distinct d :=
  (wellformed_of_json h).1

theorem distinct_of_yaml {w : World} {path : String} {d : Document}
    (h : yaml.load w path = .ok d) : Entries.Distinct d :=
  (wellformed_of_yaml h).1

end ExtensionLoader

end ConfigTree
