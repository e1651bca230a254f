import ConfigTree.Proofs.Extension.Normal
import ConfigTree.Proofs.FilePath.LastName

/-!
# The extension of an environment file

An environment file is handed to the loader of the file that it stands beside, without another look into the
registry. Is it a file for this loader, that is, does it have the same extension?

It has, where the name of the environment is a plain one (`ofPath_sibling`). The name is put between the stem and
the extension, and any text will do for it. One that ends with a slash cuts the extension off: what is left of it
behind the slash is a name that begins with a dot, and such a name has no extension
(`ofPath_sibling_of_named`). And where a file has no extension that could follow it, the name of the environment
can bring one itself (`ofPath_sibling_of_bare`).
-/

namespace ConfigTree.Extension

open FilePath

variable {path environment : String} {e : List Char}

theorem ofPath_eq (path : String) :
    ofPath path = String.ofList ((extensionChars path.toList).elim [] normalizeChars) := by
  rw [ofPath]
  cases extensionChars path.toList <;> rfl

theorem extensionChars_of_ofPath_ne_empty (h : ofPath path ≠ "") :
    ∃ e, extensionChars path.toList = some e ∧ e ≠ [] := by
  rw [ofPath_eq] at h
  cases he : extensionChars path.toList with
  | none => exact absurd (by rw [he]; rfl) h
  | some e =>
    refine ⟨e, rfl, ?_⟩
    rintro rfl
    exact absurd (by rw [he]; rfl) h

/-! ### The name of an environment file -/

/-- What has the separator in it is a name. -/
theorem isIdle_of_separator_mem {name : List Char} (h : environmentSeparator ∈ name) :
    isIdle name = false ∧ name ≠ parentName := by
  have hdot : environmentSeparator ∉ ['.'] := by decide
  have hparent : environmentSeparator ∉ parentName := by decide
  refine ⟨?_, fun hname => hparent (hname ▸ h)⟩
  rw [isIdle, Bool.or_eq_false_iff, beq_eq_false_iff_ne, beq_eq_false_iff_ne]
  exact ⟨List.ne_nil_of_mem h, fun hname => hdot (hname ▸ h)⟩

/-- The first name of an environment file begins with the stem and the separator. -/
theorem names_stem_append (path cs : List Char) :
    ∃ p ps, pieces cs = p :: ps ∧ names (stemChars path ++ environmentSeparator :: cs) =
      (stemChars path ++ environmentSeparator :: p) :: ps.filter fun q => !isIdle q := by
  obtain ⟨p, ps, hps⟩ := List.exists_cons_of_ne_nil (pieces_ne_nil cs)
  have hslash : '/' ∉ stemChars path ++ [environmentSeparator] := by
    rw [List.mem_append, not_or]
    exact ⟨(stemChars_eq path).1, by decide⟩
  have hpieces := pieces_append_of_no_slash hslash hps
  simp only [List.append_assoc, List.singleton_append] at hpieces
  have hmem : environmentSeparator ∈ stemChars path ++ environmentSeparator :: p := by simp
  refine ⟨p, ps, hps, ?_⟩
  rw [names, hpieces, List.filter_cons_of_pos]
  simp [(isIdle_of_separator_mem hmem).1]

theorem siblingName_eq (path environment : List Char) :
    ∃ cs, siblingName path environment = stemChars path ++ environmentSeparator :: cs := by
  rw [siblingName, List.append_assoc]
  exact ⟨_, by rw [List.cons_append]⟩

theorem isAbsolute_siblingName (path environment : List Char) :
    isAbsolute (siblingName path environment) = false := by
  obtain ⟨cs, hcs⟩ := siblingName_eq path environment
  have hslash := (stemChars_eq path).1
  rw [hcs, isAbsolute]
  cases hstem : stemChars path with
  | nil => rfl
  | cons c rest =>
    rw [hstem, List.mem_cons, not_or] at hslash
    simpa using Ne.symm hslash.1

/-- The extension of an environment file is told by its name, wherever the file stands. -/
theorem extensionChars_sibling (path environment : String) :
    extensionChars (sibling path environment).toList =
      extensionChars (siblingName path.toList environment.toList) := by
  obtain ⟨cs, hcs⟩ := siblingName_eq path.toList environment.toList
  obtain ⟨p, ps, -, hnames⟩ := names_stem_append path.toList cs
  rw [sibling, String.toList_ofList]
  refine extensionChars_withFileNameChars _ ?_ (isAbsolute_siblingName _ _)
  rw [hcs, hnames]
  exact List.cons_ne_nil _ _

/-! ### Files with an extension -/

/-- An extension that follows the name of the environment is the extension of the environment file, unless a
slash stands between them. -/
theorem ofPath_sibling_of_some (he : extensionChars path.toList = some e)
    (hslash : environment.toList.getLast? ≠ some '/') :
    ofPath (sibling path environment) = ofPath path := by
  obtain ⟨heslash, hedot⟩ := extensionChars_eq_some he
  have hname : siblingName path.toList environment.toList =
      stemChars path.toList ++ environmentSeparator :: environment.toList ++ '.' :: e := by
    rw [siblingName, he]
  rw [ofPath_eq, ofPath_eq path, extensionChars_sibling, hname, he]
  by_cases hmem : '/' ∈ environment.toList
  · obtain ⟨front, last, henv, hlast⟩ := exists_append_cons_of_mem hmem
    have hne : last ≠ [] := by
      rintro rfl
      rw [henv, List.getLast?_concat] at hslash
      exact hslash rfl
    have hcut : stemChars path.toList ++ environmentSeparator :: environment.toList ++ '.' :: e =
        (stemChars path.toList ++ environmentSeparator :: front) ++ '/' :: (last ++ '.' :: e) := by
      rw [henv]
      simp
    rw [hcut]
    by_cases hparent : last ++ '.' :: e = parentName
    · -- The extension is empty, and its dot makes a step back of the last name.
      obtain ⟨c, rest, rfl⟩ := List.exists_cons_of_ne_nil hne
      obtain rfl : e = [] := by
        have hlength := congrArg List.length hparent
        simp only [parentName, List.length_append, List.length_cons, List.length_nil] at hlength
        exact List.eq_nil_of_length_eq_zero (by omega)
      rw [hparent, extensionChars, fileNameChars_append_parentName]
      rfl
    · have hslash' : '/' ∉ last ++ '.' :: e := by simp [hlast, heslash]
      rw [(extensionChars_append hne hslash' hedot hparent).2]
  · have hstem : stemChars path.toList ++ environmentSeparator :: environment.toList ≠ [] := by simp
    have hslash' : '/' ∉ stemChars path.toList ++ environmentSeparator :: environment.toList ++ '.' :: e := by
      simp [(stemChars_eq path.toList).1, hmem, heslash, environmentSeparator]
    have hparent : stemChars path.toList ++ environmentSeparator :: environment.toList ++ '.' :: e ≠ parentName :=
      (isIdle_of_separator_mem (by simp)).2
    rw [(extensionChars_append hstem hslash' hedot hparent).1]

/-- A slash between the name of the environment and the extension leaves a name that begins with a dot. -/
theorem ofPath_sibling_of_slash (he : extensionChars path.toList = some e) (hne : e ≠ [])
    (hslash : environment.toList.getLast? = some '/') : ofPath (sibling path environment) = "" := by
  obtain ⟨heslash, hedot⟩ := extensionChars_eq_some he
  obtain ⟨front, hfront⟩ := List.getLast?_eq_some_iff.1 hslash
  have hname : siblingName path.toList environment.toList =
      (stemChars path.toList ++ environmentSeparator :: front) ++ '/' :: ('.' :: e) := by
    rw [siblingName, he, hfront]
    simp
  have hidle : isIdle ('.' :: e) = false := by simp [isIdle, hne]
  have hparent : '.' :: e ≠ parentName := by
    rintro h
    obtain rfl : e = ['.'] := by simpa [parentName] using h
    simp at hedot
  have hnone : extensionChars ((stemChars path.toList ++ environmentSeparator :: front) ++ '/' :: ('.' :: e)) =
      none := by
    rw [extensionChars, fileNameChars_append _ (by simp [heslash]) hidle hparent, Option.bind_some,
      ← List.nil_append ('.' :: e), splitAtLastDot_append [] hedot, if_pos rfl]
  rw [ofPath_eq, extensionChars_sibling, hname, hnone]
  rfl

/-- **The environment file of a file with an extension has this extension, unless the name of the environment
ends with a slash.** Then it has none. -/
theorem ofPath_sibling_of_named (h : ofPath path ≠ "") (environment : String) :
    ofPath (sibling path environment) =
      if environment.toList.getLast? = some '/' then "" else ofPath path := by
  obtain ⟨e, he, hne⟩ := extensionChars_of_ofPath_ne_empty h
  split_ifs with hslash
  · exact ofPath_sibling_of_slash he hne hslash
  · exact ofPath_sibling_of_some he hslash

/-! ### Files without an extension -/

/-- **The environment file of a file without an extension has the one that the name of the environment brings.** -/
theorem ofPath_sibling_of_bare (h : extensionChars path.toList = none) (environment : String) :
    ofPath (sibling path environment) =
      ofPath (String.ofList (environmentSeparator :: environment.toList)) := by
  have hname : siblingName path.toList environment.toList =
      stemChars path.toList ++ environmentSeparator :: environment.toList := by
    rw [siblingName, h, List.append_nil]
  obtain ⟨p, ps, hps, hnames⟩ := names_stem_append path.toList environment.toList
  obtain ⟨p', ps', hps', hnames'⟩ := names_stem_append [] environment.toList
  obtain ⟨rfl, rfl⟩ : p = p' ∧ ps = ps' := List.cons.inj (hps.symm.trans hps')
  have hstem : stemChars [] = [] := rfl
  rw [hstem, List.nil_append] at hnames'
  have hfirst : ∀ stem : List Char, stem ++ environmentSeparator :: p ≠ parentName := fun stem =>
    (isIdle_of_separator_mem (by simp)).2
  have hbare : ∀ stem : List Char, '.' ∉ stem.tail → (splitAtLastDot (stem ++ environmentSeparator :: p)).2 =
      (splitAtLastDot (environmentSeparator :: p)).2 := fun stem hstem =>
    extension_splitAtLastDot_append hstem (by decide) p
  rw [ofPath_eq, ofPath_eq (String.ofList _), extensionChars_sibling, hname, String.toList_ofList]
  congr 2
  rw [extensionChars, extensionChars, fileNameChars_eq, fileNameChars_eq, hnames, hnames']
  cases ps.filter fun q => !isIdle q with
  | nil =>
    have hfirst' := hfirst []
    rw [List.nil_append] at hfirst'
    simp [Option.filter, hfirst, hfirst', hbare _ ((stemChars_eq path.toList).2 h)]
  | cons q qs => rw [List.getLast?_cons_cons, List.getLast?_cons_cons]

/-- **An environment file has the extension of the file that it stands beside,** where the name of the
environment neither ends with a slash nor has a dot in it. -/
theorem ofPath_sibling (path : String) (hslash : environment.toList.getLast? ≠ some '/')
    (hdot : '.' ∉ environment.toList) : ofPath (sibling path environment) = ofPath path := by
  cases he : extensionChars path.toList with
  | some e => exact ofPath_sibling_of_some he hslash
  | none =>
    have hnone : extensionChars (environmentSeparator :: environment.toList) = none :=
      extensionChars_of_not_mem (by simp [hdot, environmentSeparator])
    rw [ofPath_sibling_of_bare he, ofPath_eq, ofPath_eq path, String.toList_ofList, hnone, he]

end ConfigTree.Extension
