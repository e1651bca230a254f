import ConfigTree.Proofs.FilePath.Normal
import Mathlib.Data.List.Infix
import Mathlib.Tactic.ByContra

/-!
# The spelling of a place

The text of a place is made from its names: `ofNames` puts a slash before each of them. Which texts are made in
this way?

They begin at the root and have no dots and no steps back; no slash is repeated in them, and none comes last,
but the root's own (`isSpelling_ofNames`). These properties are read off the text and do not speak of names, and
they are enough: a text that has them is the text of a place (`exists_ofNames_of_isSpelling`). What has to be
seen for both is where the empty pieces of a text come from (`nil_mem_tail_pieces_iff`).
-/

namespace ConfigTree.FilePath

variable {path : List Char} {ns : List (List Char)}

/-- A path from the root without dots and steps back, in which no slash is repeated and none comes last, unless
the path is the root. -/
structure IsSpelling (path : List Char) : Prop where
  /-- It begins at the root and has no dots and no steps back. -/
  normal : IsNormal path
  /-- No slash is repeated. -/
  not_repeated : ¬ ['/', '/'] <:+: path
  /-- Only the root ends with a slash. -/
  not_trailing : path.getLast? = some '/' → path = ['/']

/-! ### Pieces and their text -/

/-- No character is lost when a text is cut into pieces. -/
theorem joinPieces_pieces (cs : List Char) : joinPieces (pieces cs) = cs := by
  induction cs with
  | nil => rfl
  | cons c cs ih =>
    obtain ⟨p, ps, hps⟩ := List.exists_cons_of_ne_nil (pieces_ne_nil cs)
    rw [pieces, hps]
    rw [hps] at ih
    split_ifs with hc
    · rw [joinPieces, ih, hc, List.nil_append]
    · rw [← ih]
      cases ps <;> rfl

/-- What follows the first slash of a path from the root is cut into pieces that follow a slash each. -/
theorem exists_eq_ofNames_of_isAbsolute (h : isAbsolute path = true) :
    ∃ cs, path = '/' :: cs ∧ path = ofNames (pieces cs) := by
  cases path with
  | nil => cases h
  | cons c cs =>
    obtain rfl : c = '/' := by simpa [isAbsolute] using h
    exact ⟨cs, rfl, by rw [ofNames, joinPieces_pieces]⟩

/-- Behind the first piece there is an empty one where a slash is repeated or comes last. -/
theorem nil_mem_tail_pieces_iff (cs : List Char) :
    [] ∈ (pieces cs).tail ↔ ['/', '/'] <:+: cs ∨ cs.getLast? = some '/' := by
  constructor
  · induction cs with
    | nil => simp [pieces]
    | cons c cs ih =>
      intro h
      have hcons : [] ∈ (pieces cs).tail → ['/', '/'] <:+: c :: cs ∨ (c :: cs).getLast? = some '/' := by
        intro htail
        refine (ih htail).imp List.infix_cons fun hlast => ?_
        obtain ⟨u, rfl⟩ := List.getLast?_eq_some_iff.1 hlast
        exact List.getLast?_concat (l := c :: u)
      obtain ⟨p, ps, hps⟩ := List.exists_cons_of_ne_nil (pieces_ne_nil cs)
      by_cases hc : c = '/'
      · -- The empty piece follows this slash at once, or comes further on.
        subst hc
        rw [pieces, if_pos rfl, List.tail_cons, hps, List.mem_cons] at h
        rcases h with rfl | h
        · cases cs with
          | nil => exact .inr rfl
          | cons d cs =>
            have hd : d = '/' := by
              by_contra hd
              rw [pieces, if_neg hd] at hps
              split at hps <;> cases hps
            subst hd
            exact .inl ⟨[], cs, rfl⟩
        · exact hcons (by rw [hps]; exact h)
      · rw [pieces, if_neg hc, hps] at h
        exact hcons (by rw [hps]; exact h)
  · have hmem : ∀ before after : List Char,
        [] ∈ pieces after → [] ∈ (pieces (before ++ '/' :: after)).tail := by
      intro before after h
      rw [pieces_append, List.tail_append_of_ne_nil (pieces_ne_nil before)]
      exact List.mem_append_right _ h
    rintro (⟨before, after, h⟩ | h)
    · have hcs : cs = before ++ '/' :: '/' :: after := by rw [← h]; simp
      rw [hcs]
      exact hmem before ('/' :: after) (by simp [pieces])
    · obtain ⟨before, rfl⟩ := List.getLast?_eq_some_iff.1 h
      exact hmem before [] (by simp [pieces])

/-! ### The texts of places -/

theorem isSpelling_ofNames (h : ∀ n ∈ ns, IsProper n) : IsSpelling (ofNames ns) := by
  by_cases hne : ns = []
  · subst hne
    exact ⟨isNormal_ofNames h, by decide, fun _ => rfl⟩
  · have hnil : [] ∉ (pieces (ofNames ns)).tail := by
      rw [pieces_ofNames hne h]
      exact fun hmem => by cases (h [] hmem).1
    rw [nil_mem_tail_pieces_iff, not_or] at hnil
    exact ⟨isNormal_ofNames h, hnil.1, fun hlast => absurd hlast hnil.2⟩

theorem exists_ofNames_of_isSpelling (h : IsSpelling path) :
    ∃ ns, (∀ n ∈ ns, IsProper n) ∧ path = ofNames ns := by
  obtain ⟨cs, hcs, hpath⟩ := exists_eq_ofNames_of_isAbsolute h.normal.1
  by_cases hroot : cs = []
  · exact ⟨[], by simp, by rw [hcs, hroot]; rfl⟩
  have hpieces : pieces path = [] :: pieces cs := by rw [hcs, pieces, if_pos rfl]
  have hnil : [] ∉ pieces cs := by
    intro hmem
    have htail : [] ∈ (pieces path).tail := by rwa [hpieces]
    rcases (nil_mem_tail_pieces_iff path).1 htail with hrepeated | hlast
    · exact h.not_repeated hrepeated
    · exact hroot (List.cons.inj (hcs.symm.trans (h.not_trailing hlast))).2
  refine ⟨pieces cs, fun n hn => ?_, hpath⟩
  obtain ⟨hdot, hparent⟩ := h.normal.2 n (hpieces ▸ List.mem_cons_of_mem _ hn)
  have hempty : n ≠ [] := fun hempty => hnil (hempty ▸ hn)
  exact ⟨by simp [isIdle, hempty, hdot], hparent, slash_not_mem_of_mem_pieces hn⟩

end ConfigTree.FilePath
