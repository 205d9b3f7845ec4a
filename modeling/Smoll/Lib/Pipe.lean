/-
# `Smoll.Lib.Pipe` — a bounded pipeline through a stateful worker

A producer sends the items of a list into a bounded queue, a worker takes
them one at a time, turns each into a result with a transducer
`f : τ → α → τ × β` and puts the result into a second bounded queue, and a
consumer receives from there.  A state is the five places an item can be in

    unsent  ─send→  inQ  ─takeIn→  held  ─putOut→  outQ  ─receive→  received
                                  (work)

together with the worker's state.  The moves are the arrows; `send` and
`putOut` need room in their queue.

`Delivers f t as p` is the law of the pipeline: the items still on the input
side are a suffix of `as`, and everything on the output side is what `f`
makes of the rest, in order.  Every move keeps it (`Delivers.step`), every
move but `work` uses up one unit of `remaining` (`step_remaining`), and as
long as something is missing at the end some place still has work
(`Delivers.not_stuck`).
-/
import Mathlib.Data.List.Basic

namespace Smoll

/-! ## Running a transducer over a list -/

section Transduce

variable {α β τ : Type*}

/-- The transducer's state after a list, and its results. -/
def transduce (f : τ → α → τ × β) : τ → List α → τ × List β
  | t, [] => (t, [])
  | t, a :: as =>
      ((transduce f (f t a).1 as).1, (f t a).2 :: (transduce f (f t a).1 as).2)

variable {f : τ → α → τ × β}

@[simp] theorem transduce_nil (t : τ) : transduce f t [] = (t, []) := rfl

theorem transduce_append (t : τ) (as bs : List α) :
    transduce f t (as ++ bs)
      = ((transduce f (transduce f t as).1 bs).1,
         (transduce f t as).2 ++ (transduce f (transduce f t as).1 bs).2) := by
  induction as generalizing t with
  | nil => rfl
  | cons a as ih => simp [transduce, ih]

theorem transduce_concat (t : τ) (as : List α) (a : α) :
    transduce f t (as ++ [a])
      = ((f (transduce f t as).1 a).1,
         (transduce f t as).2 ++ [(f (transduce f t as).1 a).2]) := by
  rw [transduce_append]
  rfl

@[simp] theorem length_transduce (t : τ) (as : List α) :
    (transduce f t as).2.length = as.length := by
  induction as generalizing t with
  | nil => rfl
  | cons a as ih => simp [transduce, ih]

/-- What every result keeps of its item, the results of a run keep. -/
theorem map_transduce {γ : Type*} {g : α → γ} {g' : β → γ} (h : ∀ t a, g' (f t a).2 = g a)
    (t : τ) (as : List α) : (transduce f t as).2.map g' = as.map g := by
  induction as generalizing t with
  | nil => rfl
  | cons a as ih => simp [transduce, h, ih]

end Transduce

/-! ## The pipeline -/

/-- What the worker holds: nothing, an item, or the result for one. -/
inductive Held (α β : Type*) where
  | idle
  | raw (a : α)
  | cooked (b : β)

/-- The item the worker has still to work on. -/
def Held.rawList {α β : Type*} : Held α β → List α
  | .raw a => [a]
  | _ => []

/-- The result the worker has still to put out. -/
def Held.cookedList {α β : Type*} : Held α β → List β
  | .cooked b => [b]
  | _ => []

/-- The state of a pipeline. -/
structure Pipe (α β τ : Type*) where
  unsent : List α
  inQ : List α
  held : Held α β
  outQ : List β
  received : List β
  st : τ

namespace Pipe

/-- The moves of a pipeline. -/
inductive Move where
  | send | takeIn | work | putOut | receive
  deriving DecidableEq

variable {α β τ : Type*}

/-- All items unsent, the worker in state `t`. -/
def start (t : τ) (as : List α) : Pipe α β τ :=
  ⟨as, [], .idle, [], [], t⟩

/-- One move, with queues of capacity `cap`. -/
def step (cap : Nat) (f : τ → α → τ × β) : Move → Pipe α β τ → Option (Pipe α β τ)
  | .send, p =>
      match p.unsent with
      | a :: as =>
          if p.inQ.length < cap then some { p with unsent := as, inQ := p.inQ ++ [a] } else none
      | [] => none
  | .takeIn, p =>
      match p.held, p.inQ with
      | .idle, a :: q => some { p with inQ := q, held := .raw a }
      | _, _ => none
  | .work, p =>
      match p.held with
      | .raw a => some { p with held := .cooked (f p.st a).2, st := (f p.st a).1 }
      | _ => none
  | .putOut, p =>
      match p.held with
      | .cooked b =>
          if p.outQ.length < cap then some { p with held := .idle, outQ := p.outQ ++ [b] } else none
      | _ => none
  | .receive, p =>
      match p.outQ with
      | b :: q => some { p with outQ := q, received := p.received ++ [b] }
      | [] => none

/-- What each move does, and when it can be made. -/
theorem step_cases {cap : Nat} {f : τ → α → τ × β} {m : Move} {p p' : Pipe α β τ}
    (h : step cap f m p = some p') :
    (∃ a as, m = .send ∧ p.unsent = a :: as ∧ p.inQ.length < cap ∧
      p' = { p with unsent := as, inQ := p.inQ ++ [a] }) ∨
    (∃ a q, m = .takeIn ∧ p.held = .idle ∧ p.inQ = a :: q ∧
      p' = { p with inQ := q, held := .raw a }) ∨
    (∃ a, m = .work ∧ p.held = .raw a ∧
      p' = { p with held := .cooked (f p.st a).2, st := (f p.st a).1 }) ∨
    (∃ b, m = .putOut ∧ p.held = .cooked b ∧ p.outQ.length < cap ∧
      p' = { p with held := .idle, outQ := p.outQ ++ [b] }) ∨
    (∃ b q, m = .receive ∧ p.outQ = b :: q ∧
      p' = { p with outQ := q, received := p.received ++ [b] }) := by
  cases m with
  | send =>
      simp only [step] at h
      split at h
      · next a as heq =>
          split at h
          · next hroom =>
              exact .inl ⟨a, as, rfl, heq, hroom, (Option.some.inj h).symm⟩
          · cases h
      · cases h
  | takeIn =>
      simp only [step] at h
      split at h
      · next a q hheld hq =>
          exact .inr (.inl ⟨a, q, rfl, hheld, hq, (Option.some.inj h).symm⟩)
      · cases h
  | work =>
      simp only [step] at h
      split at h
      · next a hheld =>
          exact .inr (.inr (.inl ⟨a, rfl, hheld, (Option.some.inj h).symm⟩))
      · cases h
  | putOut =>
      simp only [step] at h
      split at h
      · next b hheld =>
          split at h
          · next hroom =>
              exact .inr (.inr (.inr (.inl ⟨b, rfl, hheld, hroom, (Option.some.inj h).symm⟩)))
          · cases h
      · cases h
  | receive =>
      simp only [step] at h
      split at h
      · next b q hq =>
          exact .inr (.inr (.inr (.inr ⟨b, q, rfl, hq, (Option.some.inj h).symm⟩)))
      · cases h

/-! ## The law of the pipeline -/

/-- The items on the input side are a suffix of `as`; the output side holds
what the transducer makes of the others. -/
def Delivers (f : τ → α → τ × β) (t : τ) (as : List α) (p : Pipe α β τ) : Prop :=
  ∃ taken, as = taken ++ p.held.rawList ++ p.inQ ++ p.unsent ∧
    transduce f t taken = (p.st, p.received ++ p.outQ ++ p.held.cookedList)

theorem delivers_start (f : τ → α → τ × β) (t : τ) (as : List α) :
    Delivers f t as (start t as) :=
  ⟨[], by simp [start, Held.rawList], by simp [start, Held.cookedList]⟩

variable {cap : Nat} {f : τ → α → τ × β} {t : τ} {as : List α} {p p' : Pipe α β τ}

/-- Every move keeps the law. -/
theorem Delivers.step {m : Move} (h : Delivers f t as p)
    (hm : Pipe.step cap f m p = some p') : Delivers f t as p' := by
  obtain ⟨taken, has, hrun⟩ := h
  rcases step_cases hm with ⟨a, u, -, hu, -, rfl⟩ | ⟨a, q, -, hheld, hq, rfl⟩ |
    ⟨a, -, hheld, rfl⟩ | ⟨b, -, hheld, -, rfl⟩ | ⟨b, q, -, hq, rfl⟩
  · exact ⟨taken, by simpa [hu] using has, hrun⟩
  · refine ⟨taken, ?_, ?_⟩
    · simpa [hheld, hq, Held.rawList] using has
    · simpa [hheld, Held.cookedList] using hrun
  · refine ⟨taken ++ [a], ?_, ?_⟩
    · simpa [hheld, Held.rawList] using has
    · have hcooked : p.held.cookedList = [] := by simp [hheld, Held.cookedList]
      rw [transduce_concat, hrun, hcooked]
      simp [Held.cookedList]
  · refine ⟨taken, ?_, ?_⟩
    · simpa [hheld, Held.rawList] using has
    · simpa [hheld, Held.cookedList] using hrun
  · exact ⟨taken, has, by simpa [hq] using hrun⟩

/-- How many results there are, and how many items they were made from. -/
theorem Delivers.length_eq (h : Delivers f t as p) :
    as.length = p.received.length + p.outQ.length + p.held.cookedList.length
      + p.held.rawList.length + p.inQ.length + p.unsent.length := by
  obtain ⟨taken, has, hrun⟩ := h
  have hlen : taken.length
      = (p.received ++ p.outQ ++ p.held.cookedList).length := by
    rw [← length_transduce (f := f) t taken, hrun]
  rw [has]
  simp only [List.length_append] at hlen ⊢
  omega

/-- The results received so far are those of the first items. -/
theorem Delivers.received_initial (h : Delivers f t as p) :
    p.received <+: (transduce f t as).2 := by
  obtain ⟨taken, has, hrun⟩ := h
  have hout : (transduce f t taken).2 = p.received ++ p.outQ ++ p.held.cookedList := by
    rw [hrun]
  rw [has, List.append_assoc, List.append_assoc, transduce_append, hout]
  exact ⟨p.outQ ++ p.held.cookedList ++ _, by simp only [List.append_assoc]; rfl⟩

/-- The worker's state is what the items it has worked on leave: one for each result. -/
theorem Delivers.st_eq (h : Delivers f t as p) :
    p.st = (transduce f t
      (as.take (p.received.length + p.outQ.length + p.held.cookedList.length))).1 := by
  obtain ⟨taken, has, hrun⟩ := h
  have hlen : taken.length = (p.received ++ p.outQ ++ p.held.cookedList).length := by
    rw [← length_transduce (f := f) t taken, hrun]
  rw [List.length_append, List.length_append] at hlen
  rw [← hlen, has, List.append_assoc, List.append_assoc, List.take_left', hrun]
  rfl

/-- When everything has been received, nothing is left anywhere else and the
worker's state is that after all items. -/
theorem Delivers.complete (h : Delivers f t as p) (hall : as.length ≤ p.received.length) :
    p.outQ = [] ∧ p.held = .idle ∧ p.inQ = [] ∧ p.unsent = [] ∧
      p.st = (transduce f t as).1 ∧ p.received = (transduce f t as).2 := by
  have hlen := h.length_eq
  obtain ⟨taken, has, hrun⟩ := h
  have hout : p.outQ = [] := List.length_eq_zero_iff.mp (by omega)
  have hin : p.inQ = [] := List.length_eq_zero_iff.mp (by omega)
  have hun : p.unsent = [] := List.length_eq_zero_iff.mp (by omega)
  have hheld : p.held = .idle := by
    cases hp : p.held with
    | idle => rfl
    | raw a => rw [hp] at hlen; simp [Held.rawList] at hlen; omega
    | cooked b => rw [hp] at hlen; simp [Held.cookedList] at hlen; omega
  have htaken : as = taken := by simpa [hheld, hin, hun, Held.rawList] using has
  subst htaken
  refine ⟨hout, hheld, hin, hun, ?_, ?_⟩
  · rw [hrun]
  · rw [hrun]
    simp [hout, hheld, Held.cookedList]

/-! ## Progress -/

/-- As long as a result is missing, some place has work that can be done:
the consumer has a result waiting, or the worker holds something and its
output queue is empty, or an idle worker has an item waiting, or the input
queue is empty and there is an item to send. -/
theorem Delivers.not_stuck (h : Delivers f t as p) (hless : p.received.length < as.length) :
    p.outQ ≠ [] ∨ (p.outQ = [] ∧ p.held ≠ .idle) ∨ (p.held = .idle ∧ p.inQ ≠ []) ∨
      (p.inQ = [] ∧ p.unsent ≠ []) := by
  by_cases hout : p.outQ = []
  · by_cases hheld : p.held = .idle
    · by_cases hin : p.inQ = []
      · refine .inr (.inr (.inr ⟨hin, fun hun => ?_⟩))
        have hlen := h.length_eq
        simp [hout, hheld, hin, hun, Held.rawList, Held.cookedList] at hlen
        omega
      · exact .inr (.inr (.inl ⟨hheld, hin⟩))
    · exact .inr (.inl ⟨hout, hheld⟩)
  · exact .inl hout

/-- The number of queue operations still to come. -/
def remaining (p : Pipe α β τ) : Nat :=
  4 * p.unsent.length + 3 * p.inQ.length + 2 * p.held.rawList.length
    + 2 * p.held.cookedList.length + p.outQ.length

/-- The queue operations a move stands for. -/
def Move.cost : Move → Nat
  | .work => 0
  | _ => 1

/-- Every queue operation uses up one unit of `remaining`. -/
theorem step_remaining {m : Move} (hm : Pipe.step cap f m p = some p') :
    p'.remaining + m.cost = p.remaining := by
  rcases step_cases hm with ⟨a, u, rfl, hu, -, rfl⟩ | ⟨a, q, rfl, hheld, hq, rfl⟩ |
    ⟨a, rfl, hheld, rfl⟩ | ⟨b, rfl, hheld, -, rfl⟩ | ⟨b, q, rfl, hq, rfl⟩
  · simp only [remaining, Move.cost, hu, List.length_append, List.length_cons, List.length_nil]
    omega
  · simp only [remaining, Move.cost, hheld, hq, Held.rawList, Held.cookedList, List.length_cons,
      List.length_nil]
    omega
  · simp only [remaining, Move.cost, hheld, Held.rawList, Held.cookedList, List.length_cons,
      List.length_nil]
    omega
  · simp only [remaining, Move.cost, hheld, Held.rawList, Held.cookedList, List.length_append,
      List.length_cons, List.length_nil]
    omega
  · simp only [remaining, Move.cost, hq, List.length_cons]
    omega

end Pipe
end Smoll
