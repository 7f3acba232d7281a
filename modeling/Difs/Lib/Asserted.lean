import Mathlib

/-!
# Computations with assertions

A computation that goes on after an assertion that does not hold, with the assertions that failed
on the way.
-/

structure Asserted (φ α : Type) where
  value : α
  failed : List φ := []

namespace Asserted

variable {φ α β : Type}

instance : Monad (Asserted φ) where
  pure a := { value := a }
  bind x f := { value := (f x.value).value, failed := x.failed ++ (f x.value).failed }

def assert (holds : Bool) (what : φ) : Asserted φ Unit where
  value := ()
  failed := if holds then [] else [what]

@[simp] lemma value_pure (a : α) : (pure a : Asserted φ α).value = a := rfl

@[simp] lemma failed_pure (a : α) : (pure a : Asserted φ α).failed = [] := rfl

@[simp] lemma value_bind (x : Asserted φ α) (f : α → Asserted φ β) : (x >>= f).value = (f x.value).value := rfl

@[simp] lemma failed_bind (x : Asserted φ α) (f : α → Asserted φ β) :
    (x >>= f).failed = x.failed ++ (f x.value).failed := rfl

@[simp] lemma value_ite (c : Prop) [Decidable c] (x y : Asserted φ α) :
    (if c then x else y).value = if c then x.value else y.value := apply_ite value c x y

@[simp] lemma failed_ite (c : Prop) [Decidable c] (x y : Asserted φ α) :
    (if c then x else y).failed = if c then x.failed else y.failed := apply_ite failed c x y

@[simp] lemma failed_assert (holds : Bool) (what : φ) :
    (assert holds what).failed = if holds then [] else [what] := rfl

end Asserted
