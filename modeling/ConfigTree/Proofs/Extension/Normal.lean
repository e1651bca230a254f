import ConfigTree.Extension.Name
import ConfigTree.Proofs.Text.Trimmed

/-!
# Extensions in normal form

An extension may be written with or without its dot, in letters of either case and between blanks, and it is
normalised wherever it is used: when a loader is registered, when one is looked up, and when the extension of a
file is read. So one that is looked up may have been normalised before. Is it still the same then?

It is. Trimming an extension in normal form finds no blanks, and behind its dot there is no other
(`normalizeChars_normalizeChars`).
-/

namespace ConfigTree

/-! ### Letters in lower case -/

/-- An ASCII letter in upper case goes thirty-two places on, and every other character stays. -/
theorem toLower_cases (c : Char) :
    (65 ≤ c.toNat ∧ c.toNat ≤ 90) ∧ c.toLower.toNat = c.toNat + 32 ∨
      ¬ (65 ≤ c.toNat ∧ c.toNat ≤ 90) ∧ c.toLower = c := by
  have hupper : (c.val ≥ 'A'.val ∧ c.val ≤ 'Z'.val) ↔ 65 ≤ c.toNat ∧ c.toNat ≤ 90 := by
    simp only [ge_iff_le, UInt32.le_iff_toNat_le]
    rfl
  delta Char.toLower
  split
  · next h =>
    obtain ⟨hlo, hhi⟩ := hupper.1 h
    refine .inl ⟨⟨hlo, hhi⟩, ?_⟩
    have hval : (c.val + ('a'.val - 'A'.val)).toNat = (c.val.toNat + 32) % 4294967296 := rfl
    have hnat : c.val.toNat = c.toNat := rfl
    rw [Char.toNat, hval]
    omega
  · next h => exact .inr ⟨fun hc => h (hupper.2 hc), rfl⟩

theorem toLower_toLower (c : Char) : c.toLower.toLower = c.toLower := by
  rcases toLower_cases c with ⟨hc, hlower⟩ | ⟨-, hlower⟩
  · rcases toLower_cases c.toLower with ⟨hc', -⟩ | ⟨-, hstays⟩
    · omega
    · exact hstays
  · rw [hlower, hlower]

theorem toLower_ne_dot {c : Char} (h : c ≠ '.') : c.toLower ≠ '.' := by
  rcases toLower_cases c with ⟨hc, hlower⟩ | ⟨-, hlower⟩
  · intro hdot
    rw [hdot] at hlower
    have hcode : '.'.toNat = 46 := rfl
    omega
  · rwa [hlower]

/-- Letters are not blank, in either case. -/
theorem Text.isBlank_toLower (c : Char) : isBlank c.toLower = isBlank c := by
  rcases toLower_cases c with ⟨hc, hlower⟩ | ⟨-, hlower⟩
  · rw [Bool.eq_iff_iff]
    simp only [isBlank, blankRanges, List.any_cons, List.any_nil, Bool.or_false, Bool.or_eq_true,
      decide_eq_true_eq, hlower]
    omega
  · rw [hlower]

/-! ### Normalising again -/

namespace Extension

theorem lower_lower (cs : List Char) : lower (lower cs) = lower cs := by
  rw [lower, lower, List.map_map]
  exact List.map_congr_left fun c _ => toLower_toLower c

/-- An extension is normalised to nothing, or to a dot and letters in lower case. Behind the dot there is no
other dot, and there is no blank at the end. -/
theorem normalizeChars_eq (cs : List Char) :
    normalizeChars cs = [] ∨ ∃ c rest, normalizeChars cs = '.' :: lower (c :: rest) ∧ c ≠ '.' ∧
      ∀ x ∈ (c :: rest).getLast?, Text.isBlank x = false := by
  rw [normalizeChars]
  cases hdrop : (Text.trimBoth cs).dropWhile (· == '.') with
  | nil => exact .inl rfl
  | cons c rest =>
    refine .inr ⟨c, rest, rfl, ?_, fun x hx => ?_⟩
    · have hdot := List.head?_dropWhile_not (· == '.') (Text.trimBoth cs)
      rw [hdrop] at hdot
      simpa using hdot
    · obtain ⟨-, -, -, -, -, -, hlast⟩ := Text.trimmed_trimBoth cs
      refine hlast x ?_
      rw [← List.takeWhile_append_dropWhile (p := (· == '.')) (l := Text.trimBoth cs), hdrop,
        List.getLast?_append, Option.mem_def.1 hx]
      rfl

/-- **An extension in normal form is not changed by normalising it again.** -/
theorem normalizeChars_normalizeChars (cs : List Char) :
    normalizeChars (normalizeChars cs) = normalizeChars cs := by
  rcases normalizeChars_eq cs with h | ⟨c, rest, h, hdot, hlast⟩
  · rw [h]
    rfl
  · have htrim : Text.trimBoth ('.' :: lower (c :: rest)) = '.' :: lower (c :: rest) := by
      refine Text.trimBoth_of_trimmed ⟨[], [], by simp, by simp, by simp, ?_, fun x hx => ?_⟩
      · simp only [List.head?_cons, Option.mem_def, Option.some.injEq, forall_eq']
        decide
      · rw [lower, List.map_cons, List.getLast?_cons_cons, ← List.map_cons, List.getLast?_map] at hx
        obtain ⟨y, hy, rfl⟩ := Option.map_eq_some_iff.1 hx
        rw [Text.isBlank_toLower]
        exact hlast y hy
    have hdrop : ('.' :: lower (c :: rest)).dropWhile (· == '.') = lower (c :: rest) := by
      rw [List.dropWhile_cons_of_pos rfl]
      exact List.dropWhile_cons_of_neg (by simpa using toLower_ne_dot hdot)
    have hcons : lower (c :: rest) = c.toLower :: lower rest := rfl
    rw [h, normalizeChars, htrim, hdrop, hcons]
    simp only
    rw [← hcons, lower_lower]

theorem normalize_normalize (s : String) : normalize (normalize s) = normalize s := by
  simp only [normalize, String.toList_ofList, normalizeChars_normalizeChars]

/-- The extension of a file is in normal form. -/
theorem normalize_ofPath (path : String) : normalize (ofPath path) = ofPath path := by
  rw [ofPath]
  split
  · simp only [normalize, String.toList_ofList, normalizeChars_normalizeChars]
  · rfl

end Extension

end ConfigTree
