import ConfigTree.Proofs.FilePath.Spelling
import Mathlib.Logic.Relation

/-!
# Texts of one place

A place can be written in many ways. When do two texts name the same place, and what does normalising make of
them?

A text keeps its place when something that leads nowhere is put in behind one of its slashes: a dot, another
slash, or a name and the step back; also when a step back is put in at the root, when a slash is put last, and
when a path is written out from the root. Two texts are of the same place when one comes from the other by such
steps, taken forwards and back (`SamePlace`). Nothing is said of walking along names there.

Each of these steps leaves the names that are walked along as they are, so texts of the same place are
normalised to the same path (`SamePlace.normalizeChars_eq`). The other way round, walking along a path is
itself a sequence of such steps: what has been walked along and what is still to come make up a text of the same
place at any time (`samePlace_asDirectory`). So every path is another text of the place of its normalised path,
and normalised paths tell places apart (`samePlace_iff`).
-/

namespace ConfigTree.FilePath

open Relation

variable {cwd path a b u : List Char} {ps : List (List Char)}

/-- What stands between two slashes and leads nowhere. -/
inductive LeadsNowhere : List Char → Prop
  /-- Nothing, so that the slash is repeated. -/
  | nothing : LeadsNowhere []
  /-- A dot. -/
  | dot : LeadsNowhere ['.']
  /-- A name and the step back. -/
  | back {name : List Char} (h : IsProper name) : LeadsNowhere (name ++ '/' :: parentName)

/-- The second path is the first one with something that leads nowhere put in behind one of its slashes. -/
inductive Inserts : List Char → List Char → Prop
  /-- It is put in there. -/
  | intro (u v : List Char) {f : List Char} (h : LeadsNowhere f) :
      Inserts (u ++ '/' :: v) (u ++ '/' :: (f ++ '/' :: v))

/-- One step from a text to another one of the same place, when paths are read in a working directory. -/
inductive Respells (cwd : List Char) : List Char → List Char → Prop
  /-- Something that leads nowhere is put in. -/
  | inserts {a b : List Char} (h : Inserts a b) : Respells cwd a b
  /-- A step back is put in at the root. -/
  | absorbed (v : List Char) : Respells cwd ('/' :: v) ('/' :: (parentName ++ '/' :: v))
  /-- A slash is put last. -/
  | trailing {a : List Char} (h : a ≠ []) : Respells cwd a (a ++ ['/'])
  /-- The working directory is put before a path that does not begin at the root. -/
  | located {a : List Char} (h : a ≠ []) (hrel : isAbsolute a = false) : Respells cwd a (cwd ++ '/' :: a)

/-- Two texts of the same place: one comes from the other by such steps, forwards and back. -/
def SamePlace (cwd : List Char) : List Char → List Char → Prop := EqvGen (Respells cwd)

/-! ### Walking along a path that is put together -/

/-- Two paths are normalised to the same one if the same names lead to their places. -/
theorem normalizeChars_eq_iff_placeOf (ha : a ≠ []) (hb : b ≠ []) :
    normalizeChars cwd a = normalizeChars cwd b ↔ placeOf cwd a = placeOf cwd b := by
  have hnames : ∀ path, names (ofNames (placeOf cwd path).reverse) = (placeOf cwd path).reverse :=
    fun path => names_ofNames fun _ => isProper_of_mem_reverse_placeOf
  rw [normalizeChars_of_ne_nil cwd ha, normalizeChars_of_ne_nil cwd hb]
  refine ⟨fun h => ?_, fun h => by rw [h]⟩
  rw [← List.reverse_inj, ← hnames a, h, hnames b]

/-- What follows a slash is walked along from the place before it. -/
theorem placeOf_append_slash (cwd u v : List Char) :
    placeOf cwd (u ++ '/' :: v) = (names v).foldl step (placeOf cwd (u ++ ['/'])) := by
  have habs : isAbsolute (u ++ '/' :: v) = isAbsolute (u ++ ['/']) := by
    cases u <;> rfl
  have hnil : names [] = [] := rfl
  rw [placeOf, placeOf, habs, names_append, names_append u [], hnil, List.append_nil, ← List.append_assoc,
    List.foldl_append]

theorem placeOf_concat_slash (cwd : List Char) (h : u ≠ []) : placeOf cwd (u ++ ['/']) = placeOf cwd u := by
  have habs : isAbsolute (u ++ ['/']) = isAbsolute u := by
    obtain ⟨c, u, rfl⟩ := List.exists_cons_of_ne_nil h
    rfl
  have hnil : names [] = [] := rfl
  rw [placeOf, placeOf, habs, names_append u [], hnil, List.append_nil]

theorem placeOf_joinChars (cwd : List Char) (h : a ≠ []) (hrel : isAbsolute b = false) :
    placeOf cwd (joinChars a b) = (names b).foldl step (placeOf cwd a) := by
  rw [joinChars, if_neg (by simp [hrel]), if_neg h]
  split_ifs with hslash
  · obtain ⟨u, rfl⟩ := List.getLast?_eq_some_iff.1 hslash
    rw [List.append_assoc, List.singleton_append, placeOf_append_slash]
  · rw [placeOf_append_slash, placeOf_concat_slash cwd h]

theorem placeOf_normalizeChars (cwd : List Char) (h : path ≠ []) :
    placeOf cwd (normalizeChars cwd path) = placeOf cwd path := by
  have hne : normalizeChars cwd path ≠ [] := mt normalizeChars_eq_nil_iff.1 h
  rw [← normalizeChars_eq_iff_placeOf hne h, normalizeChars_of_ne_nil cwd h]
  exact normalizeChars_ofNames cwd fun _ => isProper_of_mem_reverse_placeOf

theorem joinChars_ne_nil (h : a ≠ []) : joinChars a b ≠ [] := by
  rw [joinChars, if_neg h]
  split_ifs with habs
  · exact ne_nil_of_isAbsolute habs
  · exact List.append_ne_nil_of_left_ne_nil h _
  · exact List.append_ne_nil_of_left_ne_nil h _

/-- A directory may be normalised before a path is read in it. -/
theorem normalizeChars_joinChars (cwd a b : List Char) :
    normalizeChars cwd (joinChars (normalizeChars cwd a) b) = normalizeChars cwd (joinChars a b) := by
  by_cases ha : a = []
  · rw [normalizeChars_eq_nil_iff.2 ha, ha]
  cases hb : isAbsolute b with
  | true => simp only [joinChars, hb, ↓reduceIte]
  | false =>
    have hnormal : normalizeChars cwd a ≠ [] := mt normalizeChars_eq_nil_iff.1 ha
    rw [normalizeChars_eq_iff_placeOf (joinChars_ne_nil hnormal) (joinChars_ne_nil ha),
      placeOf_joinChars cwd hnormal hb, placeOf_joinChars cwd ha hb, placeOf_normalizeChars cwd ha]

/-! ### What is put in leaves the place -/

theorem LeadsNowhere.foldl_step {f : List Char} (h : LeadsNowhere f) (walked : List (List Char)) :
    (names f).foldl step walked = walked := by
  cases h with
  | nothing => rfl
  | dot => rfl
  | @back name h =>
    have hnames : names (name ++ '/' :: parentName) = [name, parentName] := by
      rw [names_append, names_of_no_slash h.2.2 h.1, names_parentName, List.singleton_append]
    rw [hnames, List.foldl_cons, List.foldl_cons, List.foldl_nil, step_of_isProper h, step_parentName,
      List.tail_cons]

/-- What is put in behind a slash leaves the path if walking along it comes back to where it began. -/
theorem normalizeChars_insert {f : List Char} (u v : List Char)
    (h : (names f).foldl step (placeOf cwd (u ++ ['/'])) = placeOf cwd (u ++ ['/'])) :
    normalizeChars cwd (u ++ '/' :: (f ++ '/' :: v)) = normalizeChars cwd (u ++ '/' :: v) := by
  rw [normalizeChars_eq_iff_placeOf (by simp) (by simp), placeOf_append_slash, names_append,
    List.foldl_append, h, ← placeOf_append_slash]

theorem Inserts.normalizeChars_eq (h : Inserts a b) (cwd : List Char) :
    normalizeChars cwd b = normalizeChars cwd a := by
  obtain ⟨u, v, hf⟩ := h
  exact normalizeChars_insert u v (hf.foldl_step _)

/-- There is nothing to step back from at the root. -/
theorem normalizeChars_absorbed (v : List Char) (h : normalizeChars cwd (u ++ ['/']) = ['/']) :
    normalizeChars cwd (u ++ '/' :: (parentName ++ '/' :: v)) = normalizeChars cwd (u ++ '/' :: v) := by
  have hroot : placeOf cwd (u ++ ['/']) = [] :=
    (normalizeChars_eq_iff_placeOf (b := ['/']) (by simp) (by simp)).1 h
  refine normalizeChars_insert u v ?_
  rw [hroot, names_parentName]
  rfl

theorem Respells.normalizeChars_eq (hcwd : isAbsolute cwd = true) (h : Respells cwd a b) :
    normalizeChars cwd a = normalizeChars cwd b := by
  cases h with
  | inserts h => exact (h.normalizeChars_eq cwd).symm
  | absorbed v => exact (normalizeChars_absorbed (u := []) v rfl).symm
  | trailing h => rw [normalizeChars_eq_iff_placeOf h (by simp), placeOf_concat_slash cwd h]
  | located h hrel =>
    have hhere : placeOf cwd (cwd ++ ['/']) = (names cwd).foldl step [] := by
      rw [placeOf_concat_slash cwd (ne_nil_of_isAbsolute hcwd), placeOf, if_pos hcwd, List.nil_append]
    rw [normalizeChars_eq_iff_placeOf h (by simp), placeOf_append_slash, hhere, placeOf, hrel,
      if_neg (by decide), List.foldl_append]

theorem SamePlace.normalizeChars_eq (hcwd : isAbsolute cwd = true) (h : SamePlace cwd a b) :
    normalizeChars cwd a = normalizeChars cwd b := by
  induction h with
  | rel a b h => exact h.normalizeChars_eq hcwd
  | refl a => rfl
  | symm a b _ ih => exact ih.symm
  | trans a b c _ _ ihab ihbc => exact ihab.trans ihbc

/-! ### Walking is taking out -/

/-- The text of pieces from the root on, with a slash behind the last of them. -/
def asDirectory (ps : List (List Char)) : List Char := ps.flatMap ('/' :: ·) ++ ['/']

theorem asDirectory_append (ps qs : List (List Char)) :
    asDirectory (ps ++ qs) = ps.flatMap ('/' :: ·) ++ asDirectory qs := by
  simp [asDirectory]

theorem exists_asDirectory_eq (ps : List (List Char)) : ∃ v, asDirectory ps = '/' :: v := by
  cases ps <;> simp [asDirectory]

theorem samePlace_ofNames_asDirectory (cwd : List Char) (ps : List (List Char)) :
    SamePlace cwd (ofNames ps) (asDirectory ps) := by
  by_cases hne : ps = []
  · subst hne
    exact .refl _
  · rw [asDirectory, ← ofNames_eq_flatMap hne]
    exact .rel _ _ (.trailing (by simp [ofNames]))

/-- Pieces that lead nowhere are taken out. -/
theorem samePlace_of_leadsNowhere (cwd : List Char) {f : List Char} (h : LeadsNowhere f)
    (ps fs qs : List (List Char)) (hf : fs.flatMap ('/' :: ·) = '/' :: f) :
    SamePlace cwd (asDirectory (ps ++ (fs ++ qs))) (asDirectory (ps ++ qs)) := by
  obtain ⟨v, hv⟩ := exists_asDirectory_eq qs
  rw [asDirectory_append, asDirectory_append, asDirectory_append, hf, hv]
  exact .symm _ _ (.rel _ _ (.inserts (.intro _ v h)))

/-- A step back at the root is taken out. -/
theorem samePlace_of_absorbed (cwd : List Char) (ps : List (List Char)) :
    SamePlace cwd (asDirectory (parentName :: ps)) (asDirectory ps) := by
  obtain ⟨v, hv⟩ := exists_asDirectory_eq ps
  have hcons : asDirectory (parentName :: ps) = '/' :: (parentName ++ '/' :: v) := by
    rw [← hv]
    simp [asDirectory]
  rw [hcons, hv]
  exact .symm _ _ (.rel _ _ (.absorbed v))

/-- What has been walked along and the pieces still to come make up a text of the same place, until none is
left. -/
theorem samePlace_asDirectory (hps : ∀ p ∈ ps, '/' ∉ p) (walked : List (List Char))
    (hw : ∀ n ∈ walked, IsProper n) :
    SamePlace cwd (asDirectory (walked.reverse ++ ps))
      (asDirectory ((ps.filter fun p => !isIdle p).foldl step walked).reverse) := by
  induction ps generalizing walked with
  | nil =>
    rw [List.append_nil]
    exact .refl _
  | cons p ps ih =>
    have ih := ih fun q hq => hps q (List.mem_cons_of_mem p hq)
    cases hidle : isIdle p with
    | true =>
      have hnowhere : LeadsNowhere p := by
        simp only [isIdle, Bool.or_eq_true, beq_iff_eq] at hidle
        rcases hidle with rfl | rfl
        · exact .nothing
        · exact .dot
      rw [List.filter_cons_of_neg (by simp [hidle])]
      have hout := samePlace_of_leadsNowhere cwd hnowhere walked.reverse [p] ps (by simp)
      exact .trans _ _ _ hout (ih walked hw)
    | false =>
      rw [List.filter_cons_of_pos (by simp [hidle]), List.foldl_cons]
      by_cases hparent : p = parentName
      · -- The step back goes out with the last name walked along, if there is one.
        subst hparent
        rw [step_parentName]
        cases walked with
        | nil => exact .trans _ _ _ (samePlace_of_absorbed cwd ps) (ih [] hw)
        | cons n walked =>
          have hback := LeadsNowhere.back (hw n List.mem_cons_self)
          have hout := samePlace_of_leadsNowhere cwd hback walked.reverse [n, parentName] ps (by simp)
          rw [List.reverse_cons, List.append_assoc]
          exact .trans _ _ _ hout (ih walked fun m hm => hw m (List.mem_cons_of_mem n hm))
      · have hp : IsProper p := ⟨hidle, hparent, hps p List.mem_cons_self⟩
        rw [step_of_isProper hp, List.append_cons, ← List.reverse_cons]
        refine ih (p :: walked) fun n hn => ?_
        rcases List.mem_cons.1 hn with rfl | hn
        · exact hp
        · exact hw n hn

theorem samePlace_normalizeChars_of_isAbsolute (cwd : List Char) (h : isAbsolute path = true) :
    SamePlace cwd path (normalizeChars cwd path) := by
  have hpath := ne_nil_of_isAbsolute h
  obtain ⟨cs, hcs, hofNames⟩ := exists_eq_ofNames_of_isAbsolute h
  have hplace : placeOf cwd path = ((pieces cs).filter fun p => !isIdle p).foldl step [] := by
    rw [placeOf, if_pos h, List.nil_append, names, hcs, pieces, if_pos rfl,
      List.filter_cons_of_neg (by decide)]
  have hbegin : SamePlace cwd path (asDirectory (pieces cs)) := by
    rw [hofNames]
    exact samePlace_ofNames_asDirectory cwd (pieces cs)
  have hwalk : SamePlace cwd (asDirectory (pieces cs)) (asDirectory (placeOf cwd path).reverse) := by
    rw [hplace]
    exact samePlace_asDirectory (fun p hp => slash_not_mem_of_mem_pieces hp) [] (by simp)
  have hend := samePlace_ofNames_asDirectory cwd (placeOf cwd path).reverse
  rw [normalizeChars_of_ne_nil cwd hpath]
  exact .trans _ _ _ hbegin (.trans _ _ _ hwalk (.symm _ _ hend))

/-- Every path is another text of the place of its normalised path. -/
theorem samePlace_normalizeChars (hcwd : isAbsolute cwd = true) (path : List Char) :
    SamePlace cwd path (normalizeChars cwd path) := by
  by_cases hpath : path = []
  · rw [normalizeChars_eq_nil_iff.2 hpath, hpath]
    exact .refl _
  cases hrel : isAbsolute path with
  | true => exact samePlace_normalizeChars_of_isAbsolute cwd hrel
  | false =>
    have hlocated : Respells cwd path (cwd ++ '/' :: path) := .located hpath hrel
    have habs : isAbsolute (cwd ++ '/' :: path) = true := by
      obtain ⟨c, cs, rfl⟩ := List.exists_cons_of_ne_nil (ne_nil_of_isAbsolute hcwd)
      exact hcwd
    rw [hlocated.normalizeChars_eq hcwd]
    exact .trans _ _ _ (.rel _ _ hlocated) (samePlace_normalizeChars_of_isAbsolute cwd habs)

/-- Two texts are of the same place exactly if they are normalised to the same path. -/
theorem samePlace_iff (hcwd : isAbsolute cwd = true) :
    SamePlace cwd a b ↔ normalizeChars cwd a = normalizeChars cwd b := by
  refine ⟨fun h => h.normalizeChars_eq hcwd, fun h => ?_⟩
  have hb := samePlace_normalizeChars hcwd b
  rw [← h] at hb
  exact .trans _ _ _ (samePlace_normalizeChars hcwd a) (.symm _ _ hb)

/-! ### One spelling -/

/-- **Normalising gives one spelling for each place.** Paths are read in a working directory below the root. A
normalised path that is not empty begins at the root and has no dots, no steps back, no repeated slashes and,
but for the root, none at its end. Normalising it again, in whichever working directory, leaves it, and a
directory may be normalised before a path is read in it. A dot, a slash or a name with the step back that are
put in behind a slash change nothing, nor does a step back at the root. Two texts are normalised to the same path
exactly if they are of the same place, and the spellings of places are what normalising leaves. -/
theorem normalize_one_spelling {cwd : String} (hcwd : isAbsolute cwd.toList = true) :
    (∀ a, a ≠ "" → IsSpelling (normalize cwd a).toList) ∧
    (∀ other a, normalize other (normalize cwd a) = normalize cwd a) ∧
    (∀ a b, normalize cwd (join (normalize cwd a) b) = normalize cwd (join a b)) ∧
    (∀ a b, Inserts a.toList b.toList → normalize cwd b = normalize cwd a) ∧
    (∀ u v, normalize cwd (u ++ "/") = "/" →
      normalize cwd (u ++ "/../" ++ v) = normalize cwd (u ++ "/" ++ v)) ∧
    (∀ a b, normalize cwd a = normalize cwd b ↔ SamePlace cwd.toList a.toList b.toList) ∧
    (∀ s, IsSpelling s.toList → normalize cwd s = s) := by
  refine ⟨fun a ha => ?_, fun other a => ?_, fun a b => ?_, fun a b h => ?_, fun u v h => ?_, fun a b => ?_,
    fun s hs => ?_⟩
  · rw [normalize, String.toList_ofList, normalizeChars_of_ne_nil _ (by simpa using ha)]
    exact isSpelling_ofNames fun _ => isProper_of_mem_reverse_placeOf
  · exact normalize_normalize other cwd a
  · simp only [normalize, join, String.toList_ofList, normalizeChars_joinChars]
  · rw [normalize, normalize, h.normalizeChars_eq]
  · have hroot : normalizeChars cwd.toList (u.toList ++ ['/']) = ['/'] := by
      have htext := congrArg String.toList h
      rwa [normalize, String.toList_ofList, String.toList_append] at htext
    have hslash : "/".toList = ['/'] := rfl
    have hback : "/../".toList = '/' :: (parentName ++ ['/']) := rfl
    have hinsert := normalizeChars_absorbed v.toList hroot
    rw [normalize, normalize]
    simp only [String.toList_append, hslash, hback, List.append_assoc, List.cons_append, List.nil_append,
      hinsert]
  · rw [samePlace_iff hcwd, normalize, normalize, String.ofList_inj]
  · obtain ⟨ns, hns, heq⟩ := exists_ofNames_of_isSpelling hs
    rw [normalize, heq, normalizeChars_ofNames _ hns, ← heq, String.ofList_toList]

/-- Paths that lead up from a working directory, past the root too. -/
theorem normalize_upwards :
    isAbsolute "/srv/app".toList = true ∧
    ("../base.json" ≠ "" ∧ IsSpelling (normalize "/srv/app" "../base.json").toList) ∧
    (Inserts "../base.json".toList "../conf/../base.json".toList ∧
      normalize "/srv/app" "../conf/../base.json" = normalize "/srv/app" "../base.json") ∧
    (normalize "/srv/app" ("../.." ++ "/") = "/" ∧
      normalize "/srv/app" ("../.." ++ "/../" ++ "etc") = normalize "/srv/app" ("../.." ++ "/" ++ "etc")) ∧
    SamePlace "/srv/app".toList "..//base.json".toList "/../srv/./base.json".toList ∧
    (IsSpelling "/srv/base.json".toList ∧ normalize "/srv/app" "/srv/base.json" = "/srv/base.json") := by
  have hcwd : isAbsolute "/srv/app".toList = true := by decide +kernel
  have hinserts : Inserts "../base.json".toList "../conf/../base.json".toList := by
    have hbefore : "../base.json".toList = ['.', '.'] ++ '/' :: "base.json".toList := by decide +kernel
    have hafter : "../conf/../base.json".toList =
        ['.', '.'] ++ '/' :: (("conf".toList ++ '/' :: parentName) ++ '/' :: "base.json".toList) := by
      decide +kernel
    rw [hbefore, hafter]
    exact .intro _ _ (.back ⟨by decide +kernel, by decide +kernel, by decide +kernel⟩)
  have hroot : normalize "/srv/app" ("../.." ++ "/") = "/" := by decide +kernel
  have hplace : normalize "/srv/app" "..//base.json" = normalize "/srv/app" "/../srv/./base.json" := by
    decide +kernel
  have hspelling : IsSpelling "/srv/base.json".toList :=
    ⟨⟨by decide +kernel, by decide +kernel⟩, by decide +kernel, by decide +kernel⟩
  obtain ⟨spelled, -, -, inserted, absorbed, place, kept⟩ := normalize_one_spelling hcwd
  exact ⟨hcwd, ⟨by decide +kernel, spelled _ (by decide +kernel)⟩, ⟨hinserts, inserted _ _ hinserts⟩,
    ⟨hroot, absorbed _ "etc" hroot⟩, (place _ _).1 hplace, ⟨hspelling, kept _ hspelling⟩⟩

end ConfigTree.FilePath
