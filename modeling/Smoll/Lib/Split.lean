/-
# `Smoll.Lib.Split` — splitting a list at a separator

The separator is a list `x :: xs`, searched from the left; behind an occurrence
the search goes on with what is left, so occurrences that overlap one found
before do not count:

    a///b      split at //      a, /b

`First` says what an occurrence found from the left is, without a search.
-/
import Mathlib.Data.List.Infix

namespace Smoll.Split

variable {α : Type}

/-- `before` is in front of the first `sep` of `s`, and `after` behind it. -/
structure First (sep before s after : List α) : Prop where
  eq : s = before ++ (sep ++ after)
  least : ∀ b a, s = b ++ (sep ++ a) → before.length ≤ b.length

theorem First.unique {sep before before' s after after' : List α} (h : First sep before s after)
    (h' : First sep before' s after') : before = before' ∧ after = after' := by
  have hlength : before.length = before'.length :=
    Nat.le_antisymm (h.least _ _ h'.eq) (h'.least _ _ h.eq)
  have hsplit := List.append_inj (h.eq.symm.trans h'.eq) hlength
  exact ⟨hsplit.1, List.append_cancel_left hsplit.2⟩

theorem First.isInfix {sep before s after : List α} (h : First sep before s after) : sep <:+: s :=
  ⟨before, after, by rw [h.eq, List.append_assoc]⟩

variable [DecidableEq α]

/-- What is in front of the first separator, and behind it. -/
def splitOnce (x : α) (xs : List α) : List α → Option (List α × List α)
  | [] => none
  | c :: s =>
      if x :: xs <+: c :: s then some ([], s.drop xs.length)
      else (splitOnce x xs s).map fun p => (c :: p.1, p.2)

theorem splitOnce_cons_found {x c : α} {xs s : List α} (h : x :: xs <+: c :: s) :
    splitOnce x xs (c :: s) = some ([], s.drop xs.length) := if_pos h

theorem splitOnce_cons_other {x c : α} {xs s : List α} (h : ¬ x :: xs <+: c :: s) :
    splitOnce x xs (c :: s) = (splitOnce x xs s).map fun p => (c :: p.1, p.2) := if_neg h

theorem first_of_splitOnce {x : α} {xs : List α} (s : List α) :
    ∀ before after, splitOnce x xs s = some (before, after) →
      First (x :: xs) before s after := by
  induction s with
  | nil =>
      intro before after h
      cases h
  | cons c s ih =>
      intro before after h
      by_cases hfound : x :: xs <+: c :: s
      · rw [splitOnce_cons_found hfound] at h
        cases h
        obtain ⟨rest, hrest⟩ := hfound
        have htail : xs ++ rest = s := (List.cons.inj hrest).2
        refine ⟨?_, fun b _ _ => Nat.zero_le b.length⟩
        rw [← htail, List.drop_left, htail]
        exact hrest.symm
      · rw [splitOnce_cons_other hfound] at h
        obtain ⟨⟨b, a⟩, hb, hcons⟩ := Option.map_eq_some_iff.mp h
        cases hcons
        have hfirst := ih b a hb
        refine ⟨congrArg (List.cons c) hfirst.eq, ?_⟩
        intro b' a' heq
        cases b' with
        | nil => exact absurd ⟨a', heq.symm⟩ hfound
        | cons c' b' =>
            have htail : s = b' ++ (x :: xs ++ a') := (List.cons.inj heq).2
            exact Nat.succ_le_succ (hfirst.least b' a' htail)

theorem splitOnce_eq_none {x : α} {xs : List α} (s : List α) :
    splitOnce x xs s = none ↔ ¬ x :: xs <:+: s := by
  induction s with
  | nil =>
      refine ⟨fun _ h => ?_, fun _ => rfl⟩
      cases List.eq_nil_of_infix_nil h
  | cons c s ih =>
      rw [List.infix_cons_iff, not_or]
      by_cases hfound : x :: xs <+: c :: s
      · rw [splitOnce_cons_found hfound]
        exact ⟨nofun, fun h => absurd hfound h.1⟩
      · rw [splitOnce_cons_other hfound, Option.map_eq_none_iff, ih]
        exact ⟨fun h => ⟨hfound, h⟩, fun h => h.2⟩

theorem splitOnce_eq_some {x : α} {xs s before after : List α} :
    splitOnce x xs s = some (before, after) ↔ First (x :: xs) before s after := by
  refine ⟨first_of_splitOnce s before after, fun h => ?_⟩
  cases hsplit : splitOnce x xs s with
  | none => exact absurd h.isInfix ((splitOnce_eq_none s).mp hsplit)
  | some p =>
      obtain ⟨b, a⟩ := p
      obtain ⟨rfl, rfl⟩ := (first_of_splitOnce s b a hsplit).unique h
      rfl

theorem length_splitOnce {x : α} {xs s before after : List α}
    (h : splitOnce x xs s = some (before, after)) : after.length < s.length := by
  have hlength := congrArg List.length (first_of_splitOnce s before after h).eq
  rw [List.length_append, List.length_append, List.length_cons] at hlength
  omega

/-- All pieces. -/
def split (x : α) (xs s : List α) : List (List α) :=
  match _h : splitOnce x xs s with
  | none => [s]
  | some (before, after) => before :: split x xs after
termination_by s.length
decreasing_by exact length_splitOnce _h

/-- At most two pieces. -/
def splitMaxOne (x : α) (xs s : List α) : List (List α) :=
  match splitOnce x xs s with
  | none => [s]
  | some (before, after) => [before, after]

theorem split_of_none {x : α} {xs s : List α} (h : splitOnce x xs s = none) :
    split x xs s = [s] := by
  rw [split]
  split
  · rfl
  · next before after hsome =>
    rw [h] at hsome
    cases hsome

theorem split_of_some {x : α} {xs s before after : List α}
    (h : splitOnce x xs s = some (before, after)) :
    split x xs s = before :: split x xs after := by
  rw [split]
  split
  · next hnone =>
    rw [h] at hnone
    cases hnone
  · next b a hsome =>
    rw [h] at hsome
    cases hsome
    rfl

/-- The first piece. -/
theorem head?_split (x : α) (xs s : List α) :
    (split x xs s)[0]? = some (((splitOnce x xs s).map Prod.fst).getD s) := by
  cases h : splitOnce x xs s with
  | none =>
      rw [split_of_none h]
      rfl
  | some p =>
      obtain ⟨before, after⟩ := p
      rw [split_of_some h]
      rfl

end Smoll.Split
