import ConfigTree.FilePath
import Mathlib.Tactic.SplitIfs

/-!
# Normalised paths

A path is normalised by walking along its names from the root. The names that are left lead to its place
(`placeOf`), and the normalised path is their text. What is left to say is that the result has one spelling: its
names are proper ones, and reading them back and walking along them gives the same path. So a normalised path is
normalised already, whatever the working directory. Unless it is empty, it begins at the root and has no dots and
no steps back in it.
-/

namespace ConfigTree.FilePath

/-- A name that leads one step down: it is not idle, not the step back, and holds no slash. -/
def IsProper (name : List Char) : Prop :=
  isIdle name = false ∧ name ≠ parentName ∧ '/' ∉ name

theorem pieces_ne_nil (cs : List Char) : pieces cs ≠ [] := by
  cases cs with
  | nil => simp [pieces]
  | cons c cs =>
    rw [pieces]
    split_ifs
    · simp
    · cases pieces cs <;> simp

/-- No piece holds a slash. -/
theorem slash_not_mem_of_mem_pieces {cs p : List Char} (h : p ∈ pieces cs) : '/' ∉ p := by
  induction cs generalizing p with
  | nil =>
    simp only [pieces, List.mem_singleton] at h
    simp [h]
  | cons c cs ih =>
    rw [pieces] at h
    split_ifs at h with hc
    · rcases List.mem_cons.1 h with rfl | h
      · simp
      · exact ih h
    · cases hp : pieces cs with
      | nil => exact absurd hp (pieces_ne_nil cs)
      | cons q qs =>
        simp only [hp, List.mem_cons] at h
        rcases h with rfl | h
        · have hq := ih (p := q) (by simp [hp])
          simp only [List.mem_cons, not_or]
          exact ⟨fun he => hc he.symm, hq⟩
        · exact ih (by simp [hp, h])

theorem pieces_of_no_slash {p : List Char} (h : '/' ∉ p) : pieces p = [p] := by
  induction p with
  | nil => rfl
  | cons c p ih =>
    simp only [List.mem_cons, not_or] at h
    rw [pieces, if_neg (fun he => h.1 he.symm), ih h.2]

theorem pieces_append (a b : List Char) : pieces (a ++ '/' :: b) = pieces a ++ pieces b := by
  induction a with
  | nil => simp [pieces]
  | cons c a ih =>
    obtain ⟨p, ps, hps⟩ := List.exists_cons_of_ne_nil (pieces_ne_nil a)
    rw [List.cons_append, pieces, pieces, ih, hps]
    split_ifs <;> rfl

/-- Pieces without slashes are read back from their text. -/
theorem pieces_joinPieces {ps : List (List Char)} (hne : ps ≠ []) (h : ∀ p ∈ ps, '/' ∉ p) :
    pieces (joinPieces ps) = ps := by
  induction ps with
  | nil => exact absurd rfl hne
  | cons p ps ih =>
    have hp := h p (by simp)
    cases ps with
    | nil => exact pieces_of_no_slash hp
    | cons q qs =>
      rw [joinPieces, pieces_append, pieces_of_no_slash hp, ih (by simp) fun r hr => h r (by simp [hr]),
        List.singleton_append]

theorem ofNames_eq_flatMap {ps : List (List Char)} (h : ps ≠ []) : ofNames ps = ps.flatMap ('/' :: ·) := by
  induction ps with
  | nil => exact absurd rfl h
  | cons p ps ih =>
    cases ps with
    | nil => simp [ofNames, joinPieces]
    | cons q qs => rw [List.flatMap_cons, ← ih (by simp), ofNames, joinPieces, ofNames, List.cons_append]

theorem pieces_ofNames {ns : List (List Char)} (hne : ns ≠ []) (h : ∀ n ∈ ns, IsProper n) :
    pieces (ofNames ns) = [] :: ns := by
  rw [ofNames, pieces, if_pos rfl, pieces_joinPieces hne fun n hn => (h n hn).2.2]

theorem names_append (a b : List Char) : names (a ++ '/' :: b) = names a ++ names b := by
  rw [names, pieces_append, List.filter_append]
  rfl

theorem names_of_no_slash {name : List Char} (h : '/' ∉ name) (hidle : isIdle name = false) :
    names name = [name] := by
  rw [names, pieces_of_no_slash h]
  simp [hidle]

theorem names_parentName : names parentName = [parentName] := names_of_no_slash (by decide) rfl

theorem names_ofNames {ns : List (List Char)} (h : ∀ n ∈ ns, IsProper n) :
    names (ofNames ns) = ns := by
  have hidle : ns.filter (fun n => !isIdle n) = ns :=
    List.filter_eq_self.2 fun n hn => by simp [(h n hn).1]
  by_cases hne : ns = []
  · subst hne
    rfl
  · rw [names, pieces_ofNames hne h, List.filter_cons_of_neg (by decide), hidle]

/-- What is read from a path is a proper name or the step back. -/
theorem isProper_of_mem_names {path n : List Char} (h : n ∈ names path) (hn : n ≠ parentName) :
    IsProper n := by
  obtain ⟨hp, hi⟩ := List.mem_filter.1 h
  exact ⟨by simpa using hi, hn, slash_not_mem_of_mem_pieces hp⟩

theorem step_parentName (walked : List (List Char)) : step walked parentName = walked.tail := if_pos rfl

theorem step_of_isProper {name : List Char} (h : IsProper name) (walked : List (List Char)) :
    step walked name = name :: walked :=
  if_neg h.2.1

theorem isProper_of_mem_step {walked : List (List Char)} {name n : List Char}
    (hw : ∀ m ∈ walked, IsProper m) (hname : name ≠ parentName → IsProper name)
    (h : n ∈ step walked name) : IsProper n := by
  rw [step] at h
  split_ifs at h with hp
  · exact hw n (List.mem_of_mem_tail h)
  · rcases List.mem_cons.1 h with rfl | h
    · exact hname hp
    · exact hw n h

/-- Walking along names leaves proper names only. -/
theorem isProper_of_mem_foldl_step {ns walked : List (List Char)}
    (hns : ∀ n ∈ ns, n ≠ parentName → IsProper n) (hw : ∀ m ∈ walked, IsProper m) :
    ∀ n ∈ ns.foldl step walked, IsProper n := by
  induction ns generalizing walked with
  | nil => exact hw
  | cons n ns ih =>
    refine ih (fun m hm => hns m (by simp [hm])) fun m hm => ?_
    exact isProper_of_mem_step hw (hns n (by simp)) hm

/-- Walking along proper names puts them one after another. -/
theorem foldl_step_of_isProper {ns : List (List Char)} (h : ∀ n ∈ ns, IsProper n)
    (walked : List (List Char)) : ns.foldl step walked = ns.reverse ++ walked := by
  induction ns generalizing walked with
  | nil => rfl
  | cons n ns ih =>
    rw [List.foldl_cons, step_of_isProper (h n (by simp)), ih fun m hm => h m (by simp [hm])]
    simp

/-- The names that lead from the root to the place of a path, the last one first. -/
def placeOf (cwd path : List Char) : List (List Char) :=
  ((if isAbsolute path then [] else names cwd) ++ names path).foldl step []

theorem isProper_of_mem_placeOf {cwd path n : List Char} (h : n ∈ placeOf cwd path) : IsProper n := by
  refine isProper_of_mem_foldl_step (fun m hm hparent => ?_) (by simp) n h
  rcases List.mem_append.1 hm with hm | hm
  · split at hm
    · cases hm
    · exact isProper_of_mem_names hm hparent
  · exact isProper_of_mem_names hm hparent

theorem isProper_of_mem_reverse_placeOf {cwd path n : List Char} (h : n ∈ (placeOf cwd path).reverse) :
    IsProper n :=
  isProper_of_mem_placeOf (List.mem_reverse.1 h)

theorem normalizeChars_of_ne_nil (cwd : List Char) {path : List Char} (h : path ≠ []) :
    normalizeChars cwd path = ofNames (placeOf cwd path).reverse := by
  rw [normalizeChars, if_neg h]
  rfl

/-- Only the empty path stays empty. -/
theorem normalizeChars_eq_nil_iff {cwd path : List Char} : normalizeChars cwd path = [] ↔ path = [] := by
  constructor
  · intro h
    by_cases hpath : path = []
    · exact hpath
    · rw [normalizeChars_of_ne_nil cwd hpath] at h
      cases h
  · intro h
    rw [normalizeChars, if_pos h]

/-- A normalised path is empty or leads along proper names from the root. -/
theorem normalizeChars_eq (cwd path : List Char) :
    normalizeChars cwd path = [] ∨
      ∃ ns, (∀ n ∈ ns, IsProper n) ∧ normalizeChars cwd path = ofNames ns := by
  by_cases h : path = []
  · exact .inl (normalizeChars_eq_nil_iff.2 h)
  · exact .inr ⟨_, fun _ => isProper_of_mem_reverse_placeOf, normalizeChars_of_ne_nil cwd h⟩

theorem normalizeChars_ofNames (cwd : List Char) {ns : List (List Char)}
    (h : ∀ n ∈ ns, IsProper n) : normalizeChars cwd (ofNames ns) = ofNames ns := by
  have habs : isAbsolute (ofNames ns) = true := by simp [isAbsolute, ofNames]
  rw [normalizeChars, if_neg (by simp [ofNames])]
  simp only [habs, ↓reduceIte, List.nil_append, names_ofNames h, foldl_step_of_isProper h]
  simp

/-- A normalised path is not changed by normalising it in any working directory. -/
theorem normalize_normalize (cwd other path : String) :
    normalize cwd (normalize other path) = normalize other path := by
  simp only [normalize, String.toList_ofList]
  rcases normalizeChars_eq other.toList path.toList with h | ⟨ns, hns, h⟩
  · rw [h, normalizeChars, if_pos rfl]
  · rw [h, normalizeChars_ofNames _ hns]

/-! ### What a normalised path looks like -/

/-- The path begins at the root, and none of its pieces is a dot or the step back. -/
def IsNormal (path : List Char) : Prop :=
  isAbsolute path = true ∧ ∀ piece ∈ pieces path, piece ≠ ['.'] ∧ piece ≠ parentName

theorem isNormal_ofNames {ns : List (List Char)} (h : ∀ n ∈ ns, IsProper n) :
    IsNormal (ofNames ns) := by
  refine ⟨by simp [isAbsolute, ofNames], fun piece hpiece => ?_⟩
  by_cases hne : ns = []
  · subst hne
    revert piece
    decide
  rw [pieces_ofNames hne h, List.mem_cons] at hpiece
  rcases hpiece with rfl | hpiece
  · decide
  · obtain ⟨hidle, hparent, -⟩ := h piece hpiece
    refine ⟨?_, hparent⟩
    rintro rfl
    cases hidle

/-- Every path but the empty one is normalised to a normal path. -/
theorem isNormal_normalizeChars (cwd : List Char) {path : List Char} (h : path ≠ []) :
    IsNormal (normalizeChars cwd path) := by
  rw [normalizeChars_of_ne_nil cwd h]
  exact isNormal_ofNames fun _ => isProper_of_mem_reverse_placeOf

/-- The directory of a path that begins at the root begins there, too. -/
theorem isAbsolute_parentChars {path : List Char} (h : isAbsolute path = true) :
    isAbsolute (parentChars path) = true := by
  obtain ⟨cs, rfl⟩ : ∃ cs, path = '/' :: cs := by
    cases path with
    | nil => cases h
    | cons c cs =>
      obtain rfl : c = '/' := by simpa [isAbsolute] using h
      exact ⟨cs, rfl⟩
  obtain ⟨p, ps, hps⟩ := List.exists_cons_of_ne_nil (pieces_ne_nil cs)
  have hbody : bodyOf ('/' :: cs) = ([[]], p :: ps) := by
    rw [bodyOf, pieces, if_pos rfl, hps]
  rw [parentChars, hbody]
  simp only
  cases dropIdle (dropIdle (p :: ps)).dropLast with
  | nil => rfl
  | cons q qs => rfl

/-- What is read in a directory below the root lies below the root. -/
theorem isAbsolute_joinChars {base : List Char} (h : isAbsolute base = true) (path : List Char) :
    isAbsolute (joinChars base path) = true := by
  have hbase : base ≠ [] := by
    rintro rfl
    cases h
  have happend : ∀ cs, isAbsolute (base ++ cs) = true := by
    intro cs
    obtain ⟨c, base, rfl⟩ := List.exists_cons_of_ne_nil hbase
    exact h
  rw [joinChars, if_neg hbase]
  split_ifs with hpath
  · exact hpath
  · exact happend _
  · exact happend _

theorem ne_nil_of_isAbsolute {path : List Char} (h : isAbsolute path = true) : path ≠ [] := by
  rintro rfl
  cases h

end ConfigTree.FilePath
