import ConfigTree.Text.Blank
import Mathlib.Data.List.TakeWhile

/-!
# Texts without the blanks around them

What trimming leaves of a text can be told without trimming it (`Text.Trimmed`): there are only blanks before
it and behind it, and it has none at either end itself. Trimming gives this and nothing else
(`Text.trimBoth_eq_iff`).
-/

namespace ConfigTree.Text

variable {cs kept : List Char}

/-- The second text is the first one without the blanks at either end. -/
def Trimmed (cs kept : List Char) : Prop :=
  ∃ before after, cs = before ++ kept ++ after ∧ (∀ c ∈ before, isBlank c = true) ∧
    (∀ c ∈ after, isBlank c = true) ∧ (∀ c ∈ kept.head?, isBlank c = false) ∧
    ∀ c ∈ kept.getLast?, isBlank c = false

theorem dropWhile_append_of_head? {α : Type} {p : α → Bool} {l r : List α} (hl : ∀ a ∈ l, p a = true)
    (hr : ∀ a ∈ r.head?, p a = false) : (l ++ r).dropWhile p = r := by
  rw [List.dropWhile_append_of_pos hl]
  cases r with
  | nil => rfl
  | cons a r => simp [hr a rfl]

theorem trimBoth_of_trimmed (h : Trimmed cs kept) : trimBoth cs = kept := by
  obtain ⟨before, after, rfl, hbefore, hafter, hhead, hlast⟩ := h
  by_cases hkept : kept = []
  · subst hkept
    have hall : trimLeft (before ++ [] ++ after) = [] := by
      rw [trimLeft, List.append_nil, List.dropWhile_append_of_pos hbefore, List.dropWhile_eq_nil_iff]
      exact hafter
    rw [trimBoth, hall]
    rfl
  · obtain ⟨c, tail, rfl⟩ := List.exists_cons_of_ne_nil hkept
    have hleft : trimLeft (before ++ c :: tail ++ after) = c :: tail ++ after := by
      rw [trimLeft, List.append_assoc]
      exact dropWhile_append_of_head? hbefore (by simpa using hhead)
    have hright : ((c :: tail ++ after).reverse).dropWhile isBlank = (c :: tail).reverse := by
      rw [List.reverse_append]
      refine dropWhile_append_of_head? (fun x hx => hafter x (List.mem_reverse.1 hx)) ?_
      rwa [List.head?_reverse]
    rw [trimBoth, hleft, trimRight, hright, List.reverse_reverse]

theorem trimmed_trimBoth (cs : List Char) : Trimmed cs (trimBoth cs) := by
  have hstart : cs = cs.takeWhile isBlank ++ trimLeft cs := List.takeWhile_append_dropWhile.symm
  have hend : trimLeft cs = trimBoth cs ++ ((trimLeft cs).reverse.takeWhile isBlank).reverse := by
    rw [trimBoth, trimRight, ← List.reverse_append, List.takeWhile_append_dropWhile, List.reverse_reverse]
  refine ⟨cs.takeWhile isBlank, ((trimLeft cs).reverse.takeWhile isBlank).reverse, ?_,
    fun c hc => List.mem_takeWhile_imp hc, fun c hc => List.mem_takeWhile_imp (List.mem_reverse.1 hc),
    fun c hc => ?_, fun c hc => ?_⟩
  · rw [List.append_assoc, ← hend]
    exact hstart
  · have hhead : (trimLeft cs).head? = some c := by rw [hend, List.head?_append, Option.mem_def.1 hc]; rfl
    have hnot := List.head?_dropWhile_not isBlank cs
    rw [← trimLeft, hhead] at hnot
    simpa using hnot
  · have hnot := List.head?_dropWhile_not isBlank (trimLeft cs).reverse
    rw [trimBoth, trimRight, List.getLast?_reverse] at hc
    rw [Option.mem_def.1 hc] at hnot
    simpa using hnot

/-- Trimming gives the text without the blanks at either end. -/
theorem trimBoth_eq_iff : trimBoth cs = kept ↔ Trimmed cs kept :=
  ⟨fun h => h ▸ trimmed_trimBoth cs, trimBoth_of_trimmed⟩

/-- Trimming leaves nothing of blanks, and something of any other text. -/
theorem trimBoth_eq_nil_iff : trimBoth cs = [] ↔ ∀ c ∈ cs, isBlank c = true := by
  rw [trimBoth_eq_iff]
  constructor
  · rintro ⟨before, after, rfl, hbefore, hafter, -⟩ c hc
    rw [List.append_nil] at hc
    exact (List.mem_append.1 hc).elim (hbefore c) (hafter c)
  · intro h
    exact ⟨cs, [], by simp, h, by simp, by simp, by simp⟩

end ConfigTree.Text
