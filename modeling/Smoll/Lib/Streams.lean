/-
# `Smoll.Lib.Streams` — a stream of items up to the one that ends it

A collector keeps the items of a stream until one comes that ends it, and
nothing afterwards.  What it has collected is a function of the stream alone:

    upTo ended l     the items up to the first that ends, `none` without one

`Phase` is the collector, `foldl_next` says that it computes `upTo`.
-/
import Mathlib.Data.List.Basic

namespace Smoll.Streams

variable {α : Type*} (ended : α → Bool)

def upTo : List α → Option (List α)
  | [] => none
  | a :: l => if ended a = true then some [a] else (upTo l).map (a :: ·)

/-- A collector, and what it has. -/
inductive Phase (α : Type*) where
  | collecting (l : List α)
  | closed (l : List α)

def Phase.next : Phase α → α → Phase α
  | .collecting l, a => if ended a = true then .closed (l ++ [a]) else .collecting (l ++ [a])
  | .closed l, _ => .closed l

/-- The answer of a collector, once it is closed. -/
def Phase.answer : Phase α → Option (List α)
  | .collecting _ => none
  | .closed l => some l

theorem foldl_closed (l m : List α) : m.foldl (Phase.next ended) (.closed l) = .closed l := by
  induction m with
  | nil => rfl
  | cons a m ih => exact ih

theorem answer_foldl_collecting (l : List α) :
    ∀ m, (m.foldl (Phase.next ended) (.collecting l)).answer = (upTo ended m).map (l ++ ·) := by
  intro m
  induction m generalizing l with
  | nil => rfl
  | cons a m ih =>
      rw [List.foldl_cons, Phase.next, upTo]
      by_cases ha : ended a = true
      · rw [if_pos ha, if_pos ha, foldl_closed]
        rfl
      · rw [if_neg ha, if_neg ha, ih, Option.map_map]
        congr 1
        funext r
        exact List.append_assoc l [a] r

/-- A collector computes `upTo`. -/
theorem answer_foldl (m : List α) :
    (m.foldl (Phase.next ended) (.collecting [])).answer = upTo ended m := by
  rw [answer_foldl_collecting]
  exact Option.map_id'

end Smoll.Streams
