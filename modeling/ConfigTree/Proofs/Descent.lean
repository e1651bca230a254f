import Mathlib.Data.List.Chain

/-!
# Descent along a relation

Imports lead from file to file and references from place to place. Whatever is done along such steps
comes to an end only if it takes fewer steps after each of them, and then no way leads back to where it
began.

Both computations remember the way they came. What is remembered leads to the present point, and goes
on to lead to the next one (`Way`). When the present point was met before, the way has closed: it is a
`Lasso`, and a lasso shows a cycle that can be reached (`Lasso.reachesCycle`).
-/

namespace ConfigTree

open Relation

variable {α : Type} {r : α → α → Prop} {P : Nat → α → Prop} {a b c : α} {n : Nat} {way : List α}

/-- What descends with each step descends along every way. -/
theorem exists_lt_of_transGen (hstep : ∀ n a b, P n a → r a b → ∃ m < n, P m b)
    (hab : TransGen r a b) (ha : P n a) : ∃ m < n, P m b := by
  induction hab with
  | single h => exact hstep _ _ _ ha h
  | tail _ h ih =>
    obtain ⟨m, hm, hb⟩ := ih
    obtain ⟨k, hk, hc⟩ := hstep _ _ _ hb h
    exact ⟨k, Nat.lt_trans hk hm, hc⟩

/-- Where something descends with each step, no way leads back. -/
theorem not_transGen_self (hstep : ∀ n a b, P n a → r a b → ∃ m < n, P m b) (ha : P n a) :
    ¬ TransGen r a a := by
  induction n using Nat.strongRecOn with
  | ind n ih =>
    intro haa
    obtain ⟨m, hm, ha'⟩ := exists_lt_of_transGen hstep haa ha
    exact ih m hm ha' haa

/-- Steps lead to a point from which they lead back to it. -/
def ReachesCycle (r : α → α → Prop) (a : α) : Prop :=
  ∃ b, ReflTransGen r a b ∧ TransGen r b b

/-- Where something descends with each step, no cycle can be reached. -/
theorem not_reachesCycle (hstep : ∀ n a b, P n a → r a b → ∃ m < n, P m b) (ha : P n a) :
    ¬ ReachesCycle r a := by
  rintro ⟨b, hab, hcycle⟩
  rcases reflTransGen_iff_eq_or_transGen.1 hab with rfl | hab
  · exact not_transGen_self hstep ha hcycle
  · obtain ⟨m, -, hb⟩ := exists_lt_of_transGen hstep hab ha
    exact not_transGen_self hstep hb hcycle

/-- The points that lead to one point, and that point, lead to the next. -/
theorem transGen_of_mem_append (hway : ∀ p ∈ way, TransGen r p a) (hab : r a b) :
    ∀ p ∈ way ++ [a], TransGen r p b := by
  intro p hp
  rcases List.mem_append.1 hp with hp | hp
  · exact (hway p hp).tail hab
  · rw [List.mem_singleton.1 hp]
    exact .single hab

/-! ### Ways that are remembered -/

theorem nodup_append_singleton (hnodup : way.Nodup) (ha : a ∉ way) : (way ++ [a]).Nodup := by
  rw [List.nodup_append]
  exact ⟨hnodup, by simp, fun x hx y hy => by rintro rfl; simp_all⟩

theorem append_singleton_subset {points : List α} (hway : way ⊆ points) (ha : a ∈ points) :
    way ++ [a] ⊆ points := by
  simp [hway, ha]

/-- The way from a first point to the present one, which are different but perhaps for the last. -/
structure Way (r : α → α → Prop) (start : α) (way : List α) (present : α) : Prop where
  /-- The points before the present one are all different. -/
  distinct : way.Nodup
  /-- Each point leads to the next one. -/
  steps : (way ++ [present]).IsChain r
  /-- The way begins at the first point. -/
  starts : (way ++ [present]).head? = some start

/-- A way that has closed: each point leads to the next one, and only the last point was met before. -/
structure Lasso (r : α → α → Prop) (start : α) (way : List α) : Prop where
  /-- The way begins at the first point. -/
  starts : way.head? = some start
  /-- Each point leads to the next one. -/
  steps : way.IsChain r
  /-- The points before the last one are all different. -/
  distinct : way.dropLast.Nodup
  /-- The last point is one of those before it. -/
  closes : ∃ a, way.getLast? = some a ∧ a ∈ way.dropLast

theorem Way.start (a : α) : Way r a [] a where
  distinct := List.nodup_nil
  steps := List.isChain_singleton a
  starts := rfl

/-- One step further to another point. -/
theorem Way.next (h : Way r a way b) (hb : b ∉ way) (hbc : r b c) : Way r a (way ++ [b]) c where
  distinct := nodup_append_singleton h.distinct hb
  steps := by
    rw [List.isChain_append]
    refine ⟨h.steps, List.isChain_singleton c, fun x hx y hy => ?_⟩
    obtain rfl : b = x := by simpa using hx
    obtain rfl : c = y := by simpa using hy
    exact hbc
  starts := by
    rw [List.head?_append, h.starts]
    rfl

/-- A way that comes to a point it has met has closed. -/
theorem Way.lasso (h : Way r a way b) (hb : b ∈ way) : Lasso r a (way ++ [b]) where
  starts := h.starts
  steps := h.steps
  distinct := by
    rw [List.dropLast_concat]
    exact h.distinct
  closes := ⟨b, by simp, by simpa using hb⟩

theorem reflTransGen_of_isChain (h : (way ++ [b]).IsChain r) (ha : (way ++ [b]).head? = some a) :
    ReflTransGen r a b := by
  have hne : way ++ [b] ≠ [] := by simp
  have hreach := List.relationReflTransGen_of_exists_isChain (way ++ [b]) h hne
  rw [List.head?_eq_some_head hne] at ha
  rw [List.getLast_append_singleton, Option.some.inj ha] at hreach
  exact hreach

/-- Where a way closes, a cycle can be reached. -/
theorem Lasso.reachesCycle (h : Lasso r a way) : ReachesCycle r a := by
  obtain ⟨b, hlast, hb⟩ := h.closes
  obtain ⟨before, between, hway⟩ := List.append_of_mem hb
  have hsplit : way = before ++ [b] ++ (between ++ [b]) := by
    rw [← List.dropLast_append_getLast? b hlast, hway]
    simp
  have hsteps := h.steps
  have hstarts := h.starts
  rw [hsplit] at hsteps hstarts
  obtain ⟨hfirst, hsecond, hstep⟩ := List.isChain_append.1 hsteps
  refine ⟨b, reflTransGen_of_isChain hfirst (by simpa using hstarts), ?_⟩
  obtain ⟨x, hx⟩ : ∃ x, (between ++ [b]).head? = some x := by
    cases between <;> exact ⟨_, rfl⟩
  exact .head' (hstep b (by simp) x hx) (reflTransGen_of_isChain hsecond hx)

end ConfigTree
