import Mathlib.Data.List.Basic

/-! # How a Go call ends

A call of the hub's Go code returns a value, returns an `error`, or panics. A
loop is run on fuel, so a model of it can also stop without having finished;
each such loop comes with a lemma that enough fuel makes this impossible.
-/

namespace DcHub

/-- How a call ends when it does not return a value. `diverge` is the
fuel-bounded model of a loop that has not finished. -/
inductive Fault (ε : Type) where
  | error (e : ε)
  | panic
  | diverge
  deriving DecidableEq, Repr

/-- A Go call with error type `ε`. -/
abbrev Go (ε α : Type) := Except (Fault ε) α

section
variable {ε α β : Type}

/-! Proofs read `pure` and `throw` as the constructors of `Except`. -/

@[simp] theorem pure_eq_ok (a : α) : (pure a : Go ε α) = .ok a := rfl
@[simp] theorem throw_eq_error (e : Fault ε) : (throw e : Go ε α) = .error e := rfl
@[simp] theorem ok_bind (a : α) (f : α → Go ε β) : (Except.ok a >>= f : Go ε β) = f a := rfl
@[simp] theorem error_bind (e : Fault ε) (f : α → Go ε β) :
    (Except.error e >>= f : Go ε β) = .error e := rfl
@[simp] theorem map_ok (a : α) (f : α → β) : (f <$> (Except.ok a : Go ε α)) = .ok (f a) := rfl
@[simp] theorem map_error (e : Fault ε) (f : α → β) :
    (f <$> (Except.error e : Go ε α)) = .error e := rfl

end

end DcHub
