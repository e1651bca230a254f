import ConfigTree.Proofs.Document.Leaves
import ConfigTree.Proofs.Reference.Body
import ConfigTree.Proofs.Reference.Reordering

/-!
# Referring to a leaf by the text it is listed under

The flat view lists a leaf under the canonical text of its path. The same text, put in braces after a dollar
sign, should be a reference to the leaf. But this is a text of another grammar: a colon in a key would split
it, a closing brace would end it, and blanks at its ends would be trimmed.

Nothing else stands in the way (`resolve_only_leaf`). Quotes, backslashes and brackets mean nothing in the
body of a placeholder, and a beginning of a placeholder in a key is swallowed. So the body is read as it
stands (`says_of_plain`), its path is the one that was written, and the entry gets the leaf, whatever its
type. The leaf itself must not hold a placeholder, since this would be resolved.
-/

namespace ConfigTree

open Template Value

/-- The text that refers to what stands at a path text. -/
def referenceTo (text : String) : String := "$\x7b" ++ text ++ "\x7d"

theorem toList_referenceTo (text : String) :
    (referenceTo text).toList = '$' :: '\x7b' :: (text.toList ++ ['\x7d']) := by
  simp [referenceTo]

/-- The placeholder that refers to what stands at a path text. -/
def Placeholder.leadingTo (text : String) : Placeholder := ⟨referenceTo text, none, text, none⟩

variable {text : String} {v : Value}

/-- A body without colons and without blanks at its ends is a path. -/
theorem Placeholder.says_of_plain (hne : text ≠ "") (hcolon : ':' ∉ text.toList)
    (hhead : ∀ c ∈ text.toList.head?, Text.isBlank c = false)
    (hlast : ∀ c ∈ text.toList.getLast?, Text.isBlank c = false) :
    (Placeholder.leadingTo text).Says text.toList where
  raw := toList_referenceTo text
  content := by
    refine ⟨text.toList, text.toList, .whole fun hpair => hcolon (hpair.subset (by simp)), ?_, ?_⟩
    · exact .inDocument fun name path heq => absurd (by simp [heq]) hcolon
    · exact ⟨[], [], by simp [leadingTo], by simp, by simp, hhead, hlast⟩
  nonempty := hne

/-- What refers to a leaf is one placeholder. -/
theorem Template.parse_referenceTo (hne : text ≠ "") (hcolon : ':' ∉ text.toList)
    (hbrace : '\x7d' ∉ text.toList) (hhead : ∀ c ∈ text.toList.head?, Text.isBlank c = false)
    (hlast : ∀ c ∈ text.toList.getLast?, Text.isBlank c = false) :
    parse (referenceTo text) = .ok [.reference (.leadingTo text)] := by
  have hmeans := Placeholder.says_of_plain hne hcolon hhead hlast
  have hnil : Cut [] [] := .plain (by simp)
  have hcut := hnil.reference_cons hbrace hmeans
  rw [parse, toList_referenceTo]
  exact parts_eq_ok_iff.2 hcut

/-- A leaf without a placeholder stays what it is. -/
theorem Value.IsLeaf.replaced_self {V : Placeholder → Value → Prop} (hv : v.IsLeaf)
    (hplain : ∀ s, v = .string s → containsPlaceholder s = false) : Replaced (Becomes V) v v := by
  refine (replaced_self_iff v).2 fun s hs => ?_
  cases v with
  | string t =>
    obtain rfl := List.mem_singleton.1 hs
    exact .same (hplain s rfl)
  | sequence items =>
    cases hv
    cases hs
  | mapping entries =>
    cases hv
    cases hs
  | _ => cases hs

namespace Document

variable {d : Document} {p : Path} {key : String} {value : Value}

/-- What stands in a document is read of it when an entry with a new key is added. -/
theorem Wellformed.get?_insert_of_holds (hd : d.Wellformed) (hkey : key ∉ Entries.keys d)
    (h : d.Holds p v) : Document.get? (Entries.insert d key value) p = some v := by
  have hread := hd.get?_of_holds h
  obtain ⟨hp, hholds⟩ := h
  cases hholds with
  | here => exact absurd rfl hp
  | @entry _ name u _ rest hentry _ =>
    have hne : key ≠ name := fun heq => hkey (heq ▸ List.mem_map_of_mem hentry)
    rw [get?, Segment.documentKey, Entries.get?_insert_of_ne d value hne]
    exact hread

end Document

namespace Lookup

variable {l : Lookup} {p : Placeholder} {path : Path} {target : Value}

/-- A placeholder that leads to a leaf without a placeholder has this leaf as its value. -/
theorem hasValue_of_isLeaf (haim : l.aim p = .ok (.place path v)) (hv : v.IsLeaf)
    (hplain : ∀ s, v = .string s → containsPlaceholder s = false) : l.HasValue p v :=
  ⟨1, plain_eq_pure_iff.2 (.inr ⟨path, v, 0, haim, by simp, rfl, hv.replaced_self hplain⟩)⟩

end Lookup

namespace Resolver

/-- **A leaf can be referred to by the text it is listed under**, where this holds no colon and no closing
brace and has no blanks at its ends. An entry that is added with the reference gets the leaf when it is
resolved, and nothing else changes. -/
theorem resolve_only_leaf {options : ResolverOptions} {env : Environment} {d : Document} {key : String}
    (hd : d.Wellformed) (hindices : d.Addressable)
    (hleaf : (text, v) ∈ FlatDocument.leaves ⟨d⟩)
    (hplain : ∀ s, v = .string s → containsPlaceholder s = false)
    (hcolon : ':' ∉ text.toList) (hbrace : '\x7d' ∉ text.toList)
    (hhead : ∀ c ∈ text.toList.head?, Text.isBlank c = false)
    (hlast : ∀ c ∈ text.toList.getLast?, Text.isBlank c = false)
    (hkey : key ∉ Entries.keys d) :
    (placeholders options env).resolve (Entries.insert d key (.string (referenceTo text))) (some key) =
      ⟨Entries.insert d key v, none⟩ := by
  rw [FlatDocument.leaves_eq hd] at hleaf
  obtain ⟨⟨p, u⟩, hmem, heq⟩ := List.mem_map.1 hleaf
  obtain ⟨rfl, rfl⟩ := Prod.mk.inj heq
  obtain ⟨hholds, hu⟩ := Document.mem_positions_iff.1 hmem
  have hparse : Path.parse p.render = .ok p :=
    Path.parse_render hholds.1 (Addressable.inBounds_of_holds hindices hholds.2)
  have hne : p.render ≠ "" := by
    intro hempty
    rw [hempty, Path.parse, String.toList_empty, Path.elements] at hparse
    cases hparse
  set d' : Document := Entries.insert d key (.string (referenceTo p.render))
  have htext : Template.parse (referenceTo p.render) = .ok [.reference (.leadingTo p.render)] :=
    Template.parse_referenceTo hne hcolon hbrace hhead hlast
  have hopens : containsPlaceholder (referenceTo p.render) = true := by
    rw [containsPlaceholder_iff, toList_referenceTo]
    exact ⟨[], p.render.toList ++ ['\x7d'], rfl⟩
  have haim : Lookup.aim ⟨options, env, d', .all⟩ (.leadingTo p.render) = .ok (.place p u) :=
    Lookup.aim_of_place rfl hparse (hd.get?_insert_of_holds hkey hholds) rfl
  have hbecomes : Replaced (Becomes (Lookup.HasValue ⟨options, env, d', .all⟩))
      (.string (referenceTo p.render)) u :=
    .string (.single hopens htext (Lookup.hasValue_of_isLeaf haim hu hplain))
  refine (resolve_only_eq_iff_of_get? (hd.1.insert key _) (Entries.get?_insert_self d key _)).2
    ⟨u, hbecomes, ?_⟩
  exact (Entries.insert_insert d key _ u).symm

/-- A document in which the way to a leaf leads over a key that begins like a placeholder, and over one that
holds a quote, a closing bracket and a backslash. -/
def quotedKeys : Document :=
  [("$\x7b", .mapping [("\"]\\", .sequence [.null, .number (.int 3)])]), ("b", .string "x")]

/-- The text under which the number in it is listed. -/
def quotedLeaf : String := "$\x7b[\"\\\"]\\\\\"][1]"

theorem addressable_quotedKeys : quotedKeys.Addressable := by
  have hleaf : ∀ v : Value, v.IsLeaf → v.HasIndices → v.Everywhere HasIndices := fun v hv =>
    (everywhere_of_isLeaf hv).2
  simp [quotedKeys, Document.Addressable, Addressable, everywhere_mapping_iff, everywhere_sequence_iff,
    hleaf .null trivial trivial, hleaf (.number (.int 3)) trivial trivial, hleaf (.string "x") trivial trivial,
    HasIndices, Text.indexBound]

theorem resolve_only_leaf_quoting :
    quotedKeys.Wellformed ∧ quotedKeys.Addressable ∧
      (quotedLeaf, .number (.int 3)) ∈ FlatDocument.leaves ⟨quotedKeys⟩ ∧ "r" ∉ Entries.keys quotedKeys ∧
      (placeholders {} []).resolve
          (Entries.insert quotedKeys "r" (.string (referenceTo quotedLeaf))) (some "r") =
        ⟨Entries.insert quotedKeys "r" (.number (.int 3)), none⟩ := by
  have hd : quotedKeys.Wellformed := by decide
  have hleaf : (quotedLeaf, .number (.int 3)) ∈ FlatDocument.leaves ⟨quotedKeys⟩ := by decide +kernel
  have hhead : ∀ c ∈ quotedLeaf.toList.head?, Text.isBlank c = false := by
    simp [quotedLeaf]
    decide
  have hlast : ∀ c ∈ quotedLeaf.toList.getLast?, Text.isBlank c = false := by
    simp [quotedLeaf]
    decide
  have hkey : "r" ∉ Entries.keys quotedKeys := by decide
  exact ⟨hd, addressable_quotedKeys, hleaf, hkey,
    resolve_only_leaf hd addressable_quotedKeys hleaf (by simp) (by decide) (by decide) hhead hlast hkey⟩

end Resolver

end ConfigTree
