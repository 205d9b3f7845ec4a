/-
# `Smoll.Lib.Goals` — goals of a logic program that may raise an error

A goal finds solutions one after another, until it finds no more or raises an
error. What was found before an error is found, and nothing after it:

    p ; q            the solutions of `p`, then those of `q`    (`Outcome.or`)
    c -> p ; q       `p` if `c` has a solution, else `q`        (`Outcome.ifThenElse`)
    findall          the list of all solutions, or the error    (`Outcome.findall`)

A condition is left at its first solution: an error it might raise behind that
is not met.
-/
import Mathlib.Data.List.Basic

namespace Smoll.Goals

variable {ε α : Type}

structure Outcome (ε α : Type) where
  solutions : List α
  raised : Option ε
deriving DecidableEq

namespace Outcome

def fail : Outcome ε α := ⟨[], none⟩

/-- One solution, and no other. -/
def once (x : α) : Outcome ε α := ⟨[x], none⟩

def raise (e : ε) : Outcome ε α := ⟨[], some e⟩

def or (p q : Outcome ε α) : Outcome ε α :=
  match p.raised with
  | some e => ⟨p.solutions, some e⟩
  | none => ⟨p.solutions ++ q.solutions, q.raised⟩

def Succeeds (p : Outcome ε α) : Prop :=
  p.solutions ≠ []

def Fails (p : Outcome ε α) : Prop :=
  p.solutions = [] ∧ p.raised = none

def ifThenElse {β : Type} (c : Outcome ε β) (p q : Outcome ε α) : Outcome ε α :=
  match c.solutions, c.raised with
  | _ :: _, _ => p
  | [], some e => raise e
  | [], none => q

/-- `not`: as a condition with nothing to do. -/
def naf {β : Type} (c : Outcome ε β) : Outcome ε Unit :=
  ifThenElse c fail (once ())

def findall (p : Outcome ε α) : Outcome ε (List α) :=
  match p.raised with
  | some e => raise e
  | none => once p.solutions

instance instDecidableSucceeds (p : Outcome ε α) : Decidable p.Succeeds :=
  match h : p.solutions with
  | [] => isFalse fun hne => hne h
  | _ :: _ => isTrue (by rw [Succeeds, h]; exact List.cons_ne_nil _ _)

/-! ## Rules -/

theorem ifThenElse_of_succeeds {β : Type} {c : Outcome ε β} (hc : c.Succeeds)
    (p q : Outcome ε α) : ifThenElse c p q = p := by
  rw [ifThenElse]
  split
  · rfl
  · rename_i h _
    exact absurd h hc
  · rename_i h _
    exact absurd h hc

theorem ifThenElse_of_fails {β : Type} {c : Outcome ε β} (hc : c.Fails) (p q : Outcome ε α) :
    ifThenElse c p q = q := by
  rw [ifThenElse, hc.1, hc.2]

theorem not_succeeds_of_fails {p : Outcome ε α} (h : p.Fails) : ¬ p.Succeeds := by
  intro hp
  exact hp h.1

theorem or_once (x : α) (q : Outcome ε α) : or (once x) q = ⟨x :: q.solutions, q.raised⟩ :=
  rfl

theorem or_raise (e : ε) (q : Outcome ε α) : or (raise e) q = raise e :=
  rfl

/-- All solutions are collected exactly if no error is raised. -/
theorem findall_eq_once_iff {p : Outcome ε α} {xs : List α} :
    findall p = once xs ↔ p = ⟨xs, none⟩ := by
  rw [findall]
  split
  · rename_i e he
    constructor
    · intro h
      cases congrArg Outcome.raised h
    · intro h
      rw [h] at he
      cases he
  · rename_i hnone
    constructor
    · intro h
      rcases List.cons.inj (congrArg Outcome.solutions h) with ⟨hsolutions, _⟩
      rw [← hsolutions, ← hnone]
    · intro h
      rw [h]

end Outcome

end Smoll.Goals
