import ConfigTree.Proofs.FilePath.Normal
import Mathlib.Data.List.TakeWhile

/-!
# The last name of a path

The file that a path names is told by its last name, and the extension of the file by what stands behind the
last dot of that name. This module reads both off a path that is put together: what stands before a slash does
not matter for the last name where a name follows (`fileNameChars_append`), a name that replaces the last one
decides it alone (`extensionChars_withFileNameChars`), and of a name with a dot only what follows the last dot
is its extension (`splitAtLastDot_append`).
-/

namespace ConfigTree.FilePath

variable {a b base name path p last before after cs : List Char} {ps : List (List Char)}

/-! ### Names of a path that is put together -/

/-- A text in which a character occurs ends in a part behind its last occurrence. -/
theorem exists_append_cons_of_mem {c : Char} (h : c ∈ cs) :
    ∃ before after, cs = before ++ c :: after ∧ c ∉ after := by
  obtain ⟨after, before, hcs, hafter⟩ := List.eq_append_cons_of_mem (List.mem_reverse.2 h)
  refine ⟨before.reverse, after.reverse, ?_, by simpa using hafter⟩
  rw [← List.reverse_reverse cs, hcs]
  simp

theorem subset_of_mem_pieces (h : p ∈ pieces cs) : p ⊆ cs := by
  induction cs generalizing p with
  | nil =>
    obtain rfl : p = [] := List.mem_singleton.1 h
    exact List.nil_subset _
  | cons c cs ih =>
    rw [pieces] at h
    split_ifs at h with hc
    · rcases List.mem_cons.1 h with rfl | h
      · exact List.nil_subset _
      · exact List.subset_cons_of_subset c (ih h)
    · obtain ⟨q, qs, hqs⟩ := List.exists_cons_of_ne_nil (pieces_ne_nil cs)
      rw [hqs] at h ih
      rcases List.mem_cons.1 h with rfl | h
      · exact List.cons_subset_cons c (ih List.mem_cons_self)
      · exact List.subset_cons_of_subset c (ih (List.mem_cons_of_mem q h))

/-- A text without a slash belongs to the first piece of what follows it. -/
theorem pieces_append_of_no_slash (ha : '/' ∉ a) (hb : pieces b = p :: ps) :
    pieces (a ++ b) = (a ++ p) :: ps := by
  induction a with
  | nil => exact hb
  | cons c a ih =>
    simp only [List.mem_cons, not_or] at ha
    rw [List.cons_append, pieces, if_neg (fun h => ha.1 h.symm), ih ha.2]
    rfl

/-- Names that follow a directory are the last ones of the path. -/
theorem getLast?_names_joinChars (base : List Char) (hne : names name ≠ []) (hrel : isAbsolute name = false) :
    (names (joinChars base name)).getLast? = (names name).getLast? := by
  have happend : ∀ a, (names a ++ names name).getLast? = (names name).getLast? := fun a => by
    rw [List.getLast?_append, List.getLast?_eq_some_getLast hne]
    rfl
  rw [joinChars, if_neg (by simp [hrel])]
  split_ifs with hnil hslash
  · rfl
  · obtain ⟨front, rfl⟩ := List.getLast?_eq_some_iff.1 hslash
    rw [List.append_assoc, List.singleton_append, names_append, happend]
  · rw [names_append, happend]

/-! ### The last name -/

theorem filter_bodyOf (path : List Char) : ((bodyOf path).2.filter fun p => !isIdle p) = names path := by
  have hempty : isIdle [] = true := rfl
  have hdot : isIdle ['.'] = true := rfl
  rw [names, bodyOf]
  split
  · next p ps h => rw [h, List.filter_cons_of_neg (a := []) (by simp [hempty])]
  · next ps h => rw [h, List.filter_cons_of_neg (by simp [hdot])]
  · rfl

/-- A path names a file by its last name, unless that is the step back. -/
theorem fileNameChars_eq (path : List Char) :
    fileNameChars path = (names path).getLast?.filter (· ≠ parentName) := by
  rw [fileNameChars, filter_bodyOf]
  cases (names path).getLast? with
  | none => rfl
  | some name =>
    by_cases hname : name = parentName <;> simp [hname, Option.filter]

theorem fileNameChars_append (a : List Char) (h : '/' ∉ name) (hidle : isIdle name = false)
    (hparent : name ≠ parentName) : fileNameChars (a ++ '/' :: name) = some name := by
  rw [fileNameChars_eq, names_append, names_of_no_slash h hidle, List.getLast?_concat]
  simp [Option.filter, hparent]

theorem fileNameChars_of_no_slash (h : '/' ∉ name) (hidle : isIdle name = false)
    (hparent : name ≠ parentName) : fileNameChars name = some name := by
  rw [fileNameChars_eq, names_of_no_slash h hidle]
  simp [Option.filter, hparent]

/-- A path that ends with the step back names no file. -/
theorem fileNameChars_append_parentName (a : List Char) : fileNameChars (a ++ '/' :: parentName) = none := by
  rw [fileNameChars_eq, names_append, names_parentName, List.getLast?_concat]
  simp [Option.filter]

/-- The name of a file is one of the pieces of its path. -/
theorem mem_pieces_of_fileNameChars (h : fileNameChars path = some name) : name ∈ pieces path := by
  rw [fileNameChars_eq, Option.filter_eq_some_iff] at h
  exact (List.mem_filter.1 (List.mem_of_getLast? h.1)).1

theorem slash_not_mem_of_fileNameChars (h : fileNameChars path = some name) : '/' ∉ name :=
  slash_not_mem_of_mem_pieces (mem_pieces_of_fileNameChars h)

/-- The text of a place ends with its last name. -/
theorem exists_ofNames_eq_append (ns : List (List Char)) (name : List Char) :
    ∃ a, ofNames (ns ++ [name]) = a ++ '/' :: name := by
  refine ⟨ns.flatMap ('/' :: ·), ?_⟩
  rw [ofNames_eq_flatMap (by simp), List.flatMap_append, List.flatMap_singleton]

/-- Normalising a path that names a file leaves the name. -/
theorem fileNameChars_normalizeChars (cwd : List Char) (h : fileNameChars path = some name) :
    fileNameChars (normalizeChars cwd path) = some name := by
  obtain ⟨hname, hparent⟩ := Option.filter_eq_some_iff.1 (fileNameChars_eq path ▸ h)
  have hparent : name ≠ parentName := by simpa using hparent
  have hproper := isProper_of_mem_names (List.mem_of_getLast? hname) hparent
  obtain ⟨ns, hns⟩ := List.getLast?_eq_some_iff.1 hname
  have hpath : path ≠ [] := by
    rintro rfl
    cases h
  obtain ⟨walked, hplace⟩ : ∃ walked, placeOf cwd path = name :: walked := by
    refine ⟨((if isAbsolute path then [] else names cwd) ++ ns).foldl step [], ?_⟩
    rw [placeOf, hns, ← List.append_assoc, List.foldl_append, List.foldl_cons, List.foldl_nil,
      step_of_isProper hproper]
  obtain ⟨a, ha⟩ := exists_ofNames_eq_append walked.reverse name
  rw [normalizeChars_of_ne_nil cwd hpath, hplace, List.reverse_cons, ha,
    fileNameChars_append a hproper.2.2 hproper.1 hparent]

/-- What replaces the last name of a path is read as the last name, whatever stands before it. -/
theorem extensionChars_withFileNameChars (path : List Char) (hne : names name ≠ [])
    (hrel : isAbsolute name = false) :
    extensionChars (withFileNameChars path name) = extensionChars name := by
  rw [extensionChars, extensionChars, fileNameChars_eq, fileNameChars_eq, withFileNameChars]
  split <;> rw [getLast?_names_joinChars _ hne hrel]

/-! ### The extension -/

/-- A name without a dot has no extension. -/
theorem splitAtLastDot_of_not_mem (h : '.' ∉ name) : splitAtLastDot name = (name, none) := by
  have hall : name.reverse.takeWhile (fun x => decide (x ≠ '.')) = name.reverse := by
    refine List.takeWhile_eq_self_iff.2 fun c hc => ?_
    have hne : c ≠ '.' := fun hdot => h (hdot ▸ List.mem_reverse.1 hc)
    simpa using hne
  rw [splitAtLastDot]
  simp only [hall, List.reverse_reverse, true_or, ↓reduceIte]

/-- A name is cut at its last dot, unless that dot comes first. -/
theorem splitAtLastDot_append (before : List Char) (h : '.' ∉ after) :
    splitAtLastDot (before ++ '.' :: after) =
      if before = [] then ('.' :: after, none) else (before, some after) := by
  have hafter : (before ++ '.' :: after).reverse.takeWhile (fun x => decide (x ≠ '.')) = after.reverse := by
    have hrev : (before ++ '.' :: after).reverse = after.reverse ++ '.' :: before.reverse := by simp
    rw [hrev, List.takeWhile_append_of_pos fun c hc => ?_]
    · simp
    · have hne : c ≠ '.' := fun hdot => h (hdot ▸ List.mem_reverse.1 hc)
      simpa using hne
  have hlength : (before ++ '.' :: after).length - after.length - 1 = before.length := by
    simp only [List.length_append, List.length_cons]
    omega
  have hlonger : after.length ≠ (before ++ '.' :: after).length := by
    simp only [List.length_append, List.length_cons]
    omega
  rw [splitAtLastDot]
  simp only [hafter, List.reverse_reverse, hlength, List.take_left, hlonger, false_or]
  split_ifs with hbefore
  · rw [hbefore, List.nil_append]
  · rfl

/-- A name begins with its stem. Behind that stand a dot and the extension, if there is one; if there is none,
the stem has no dot but a first one. -/
theorem splitAtLastDot_cases (name : List Char) :
    (∃ stem e, splitAtLastDot name = (stem, some e) ∧ name = stem ++ '.' :: e ∧ '.' ∉ e) ∨
      splitAtLastDot name = (name, none) ∧ '.' ∉ name.tail := by
  by_cases hdot : '.' ∈ name
  · obtain ⟨before, after, rfl, hafter⟩ := exists_append_cons_of_mem hdot
    rw [splitAtLastDot_append before hafter]
    split_ifs with hbefore
    · subst hbefore
      exact .inr ⟨rfl, hafter⟩
    · exact .inl ⟨before, after, rfl, rfl, hafter⟩
  · exact .inr ⟨splitAtLastDot_of_not_mem hdot, fun h => hdot (List.mem_of_mem_tail h)⟩

/-- What follows a stem without an extension brings its own, and the stem does not matter. -/
theorem extension_splitAtLastDot_append {stem : List Char} (hstem : '.' ∉ stem.tail) {c : Char} (hc : c ≠ '.')
    (rest : List Char) :
    (splitAtLastDot (stem ++ c :: rest)).2 = (splitAtLastDot (c :: rest)).2 := by
  by_cases hdot : '.' ∈ rest
  · obtain ⟨before, after, rfl, hafter⟩ := exists_append_cons_of_mem hdot
    rw [← List.cons_append, ← List.append_assoc, splitAtLastDot_append _ hafter,
      splitAtLastDot_append _ hafter]
    simp
  · have hrest : '.' ∉ c :: rest := by simp [hdot, Ne.symm hc]
    rw [splitAtLastDot_of_not_mem hrest]
    cases stem with
    | nil => rw [List.nil_append, splitAtLastDot_of_not_mem hrest]
    | cons d stem =>
      have htail : '.' ∉ stem ++ c :: rest := by
        rw [List.mem_append, not_or]
        exact ⟨hstem, hrest⟩
      by_cases hd : d = '.'
      · subst hd
        rw [List.cons_append, ← List.nil_append ('.' :: _), splitAtLastDot_append [] htail, if_pos rfl]
      · have hnone : '.' ∉ d :: stem ++ c :: rest := by
          simpa [Ne.symm hd] using htail
        rw [splitAtLastDot_of_not_mem hnone]

/-- A path without a dot has no extension. -/
theorem extensionChars_of_not_mem (h : '.' ∉ path) : extensionChars path = none := by
  rw [extensionChars]
  cases hname : fileNameChars path with
  | none => rfl
  | some name =>
    have hdot : '.' ∉ name := fun hmem => h (subset_of_mem_pieces (mem_pieces_of_fileNameChars hname) hmem)
    rw [Option.bind_some, splitAtLastDot_of_not_mem hdot]

/-- The extension of a file is read off its name, and holds neither a slash nor a dot. -/
theorem extensionChars_eq_some {e : List Char} (h : extensionChars path = some e) : '/' ∉ e ∧ '.' ∉ e := by
  obtain ⟨name, hname, he⟩ := Option.bind_eq_some_iff.1 h
  have hslash := slash_not_mem_of_fileNameChars hname
  rcases splitAtLastDot_cases name with ⟨stem, e', hsplit, rfl, hdot⟩ | ⟨hsplit, -⟩
  · rw [hsplit] at he
    obtain rfl : e' = e := Option.some.inj he
    simp only [List.mem_append, List.mem_cons, not_or] at hslash
    exact ⟨hslash.2.2, hdot⟩
  · rw [hsplit] at he
    cases he

/-- The stem of a file holds no slash, and without an extension no dot but a first one. -/
theorem stemChars_eq (path : List Char) :
    '/' ∉ stemChars path ∧ (extensionChars path = none → '.' ∉ (stemChars path).tail) := by
  rw [stemChars, extensionChars]
  cases hname : fileNameChars path with
  | none => simp
  | some name =>
    have hslash := slash_not_mem_of_fileNameChars hname
    rcases splitAtLastDot_cases name with ⟨stem, e, hsplit, rfl, -⟩ | ⟨hsplit, hdot⟩
    · simp only [List.mem_append, not_or] at hslash
      simp [hsplit, hslash.1]
    · simp [hsplit, hslash, hdot]

/-- What stands behind the last dot of the last name is the extension of the path, unless that name is the step
back. -/
theorem extensionChars_append {stem e : List Char} (hstem : stem ≠ []) (hslash : '/' ∉ stem ++ '.' :: e)
    (hdot : '.' ∉ e) (hparent : stem ++ '.' :: e ≠ parentName) :
    extensionChars (stem ++ '.' :: e) = some e ∧
      ∀ a, extensionChars (a ++ '/' :: (stem ++ '.' :: e)) = some e := by
  have hidle : isIdle (stem ++ '.' :: e) = false := by
    obtain ⟨c, rest, rfl⟩ := List.exists_cons_of_ne_nil hstem
    simp [isIdle]
  have hsplit : (splitAtLastDot (stem ++ '.' :: e)).2 = some e := by
    rw [splitAtLastDot_append stem hdot, if_neg hstem]
  refine ⟨?_, fun a => ?_⟩
  · rw [extensionChars, fileNameChars_of_no_slash hslash hidle hparent, Option.bind_some, hsplit]
  · rw [extensionChars, fileNameChars_append a hslash hidle hparent, Option.bind_some, hsplit]

end ConfigTree.FilePath
