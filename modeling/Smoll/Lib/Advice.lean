/-
# `Smoll.Lib.Advice` — advice around calls

What an aspect does at a call is a piece of advice: `before` runs first and
the call goes on, `around` is given what would have happened (`proceed`) and
may run it or not.  `weave` puts the advice of a call around its body in
order of precedence, the highest outside:

    weave [a, b, c] body   =   a (b (c body))

Advice that never proceeds cuts off everything inside it, the body included:
`weave_of_blocking`.
-/
import Mathlib.Init

namespace Smoll

/-! ## Advice -/

/-- A piece of advice at a call with result `ρ`, over the state `σ`. -/
inductive Advice (σ ρ : Type) where
  | before (run : StateM σ Unit)
  | around (run : StateM σ ρ → StateM σ ρ)

variable {σ ρ : Type}

/-- The call with one piece of advice around it. -/
def Advice.apply : Advice σ ρ → StateM σ ρ → StateM σ ρ
  | .before run, body => do run; body
  | .around run, body => run body

/-- A call with its advice, in order of precedence. -/
def weave (advice : List (Advice σ ρ)) (body : StateM σ ρ) : StateM σ ρ :=
  advice.foldr Advice.apply body

/-- Advice that never proceeds. -/
def Advice.Blocks (a : Advice σ ρ) : Prop := ∀ body body', a.apply body = a.apply body'

/-- What is inside advice that never proceeds does not matter. -/
theorem weave_of_blocking {a : Advice σ ρ} (ha : a.Blocks) (outer inner inner' : List (Advice σ ρ))
    (body body' : StateM σ ρ) :
    weave (outer ++ a :: inner) body = weave (outer ++ a :: inner') body' := by
  induction outer with
  | nil => exact ha _ _
  | cons b outer ih => exact congrArg b.apply ih

end Smoll
