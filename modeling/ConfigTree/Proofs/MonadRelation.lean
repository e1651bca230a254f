/-!
# Relating computations of two monads

Many functions here are written for any monad: a visit to the strings of a value, the text of a
template, a load of several files in turn. When two such computations do the same steps, and the
steps are related, the whole computations are related too. What is needed of the relation is said in
`MonadRelation`: equal results are related, and so are related computations followed by related ones.
An `ExceptRelation` relates equal failures too.
-/

namespace ConfigTree

/-- A relation between computations of two monads that doing nothing and going on keep. -/
structure MonadRelation (m n : Type → Type) [Monad m] [Monad n] where
  /-- Which computations are related. -/
  Rel : {α : Type} → m α → n α → Prop
  /-- Doing nothing is related to doing nothing. -/
  of_pure : ∀ {α : Type} (a : α), Rel (pure a : m α) (pure a)
  /-- Related computations that go on in related ways are related. -/
  of_bind : ∀ {α β : Type} {x : m α} {y : n α} {f : α → m β} {g : α → n β},
    Rel x y → (∀ a, Rel (f a) (g a)) → Rel (x >>= f) (y >>= g)

/-- A relation between computations that may fail, which equal failures are in as well. -/
structure ExceptRelation (ε : Type) (m n : Type → Type) [Monad m] [Monad n] [MonadExceptOf ε m]
    [MonadExceptOf ε n] extends MonadRelation m n where
  /-- Failing is related to failing for the same reason. -/
  of_throw : ∀ {α : Type} (e : ε), Rel (throw e : m α) (throw e)

namespace MonadRelation

variable {m n : Type → Type} [Monad m] [Monad n]

/-- Equality of computations. -/
def eq (m : Type → Type) [Monad m] : MonadRelation m m where
  Rel := Eq
  of_pure _ := rfl
  of_bind := by
    rintro α β x _ f g rfl h
    rw [funext h]

theorem of_mapM [LawfulMonad m] [LawfulMonad n] (R : MonadRelation m n) {α β : Type}
    {f : α → m β} {g : α → n β} {xs : List α} (h : ∀ x ∈ xs, R.Rel (f x) (g x)) :
    R.Rel (xs.mapM f) (xs.mapM g) := by
  induction xs with
  | nil => simpa using R.of_pure ([] : List β)
  | cons x xs ih =>
    rw [List.mapM_cons, List.mapM_cons]
    refine R.of_bind (h x (by simp)) fun y => ?_
    refine R.of_bind (ih fun z hz => h z (by simp [hz])) fun ys => ?_
    exact R.of_pure _

end MonadRelation

end ConfigTree
