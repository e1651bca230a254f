import ConfigTree.Value
import Mathlib.Tactic.SplitIfs

/-!
# The text of a number

A number is written with digits, signs, a point and the letter `e`. What matters about this text where
it is put into a longer one is what it does not hold: a dollar sign.
-/

namespace ConfigTree

theorem dollar_not_mem_toDigits (n : Nat) : '$' ∉ Nat.toDigits 10 n := by
  intro h
  have hdigit := Nat.isDigit_of_mem_toDigits (by decide) (by decide) h
  revert hdigit
  decide

namespace Binary64

theorem dollar_not_mem_layOut (style : Layout) (d : Decimal) : '$' ∉ layOut style d := by
  have hdigits := dollar_not_mem_toDigits d.digits
  have htake : ∀ n, '$' ∉ (Nat.toDigits 10 d.digits).take n := fun n h =>
    hdigits (List.mem_of_mem_take h)
  have hdrop : ∀ n, '$' ∉ (Nat.toDigits 10 d.digits).drop n := fun n h =>
    hdigits (List.mem_of_mem_drop h)
  rw [layOut]
  simp only
  split_ifs
  · decide
  · simp [hdigits]
  · simp [htake, hdrop]
  · simp [hdigits]
  all_goals
    have hexponent := dollar_not_mem_toDigits (d.exponent + (Nat.toDigits 10 d.digits).length - 1).natAbs
    cases hds : Nat.toDigits 10 d.digits with
    | nil => simp_all
    | cons c cs => cases cs <;> simp_all

end Binary64

/-- No number is written with a dollar sign. -/
theorem Number.dollar_not_mem_text (n : Number) : '$' ∉ n.text.toList := by
  cases n with
  | int n =>
    have hrepr : ∀ m : Nat, '$' ∉ m.repr.toList := by
      intro m
      rw [Nat.toList_repr]
      exact dollar_not_mem_toDigits m
    cases n with
    | ofNat m => exact hrepr m
    | negSucc m =>
      intro h
      have h' : '$' ∈ ("-" ++ (m + 1).repr).toList := h
      rw [String.toList_append] at h'
      rcases List.mem_append.1 h' with h' | h'
      · revert h'
        decide
      · exact hrepr _ h'
  | float x =>
    rw [text, Binary64.render, String.toList_ofList, List.mem_append, not_or]
    refine ⟨?_, Binary64.dollar_not_mem_layOut _ _⟩
    split_ifs <;> decide

end ConfigTree
