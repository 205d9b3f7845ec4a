/-
# `Smoll.Lib.Reorder` — inputs with different keys in another order

A transducer `f : τ → α → τ × β` runs over a list of inputs, each of which has
a key.  If two inputs with different keys never disturb each other
(`Commutes`),

    f t a  then  b     gives the result of  f t b  for b
    f t a  then  b     leaves the state of  f t b  then  a

then only the order among the inputs of one key matters: two lists in which
every key has the same inputs in the same order (`SameOrder`) leave the same
state and give every input the same result (`Commutes.reorder`).

The first input of the one list is found in the other behind inputs with
other keys only (`SameOrder.uncons`), and is moved over these to the front
(`Commutes.move`).
-/
import Smoll.Lib.Pipe

namespace Smoll

variable {α β κ τ : Type*} [DecidableEq κ]

/-! ## The order within each key -/

/-- Both lists have the same entries of each key, in the same order. -/
def SameOrder (key : α → κ) (as bs : List α) : Prop :=
  ∀ k, as.filter (key · = k) = bs.filter (key · = k)

namespace SameOrder

variable {key : α → κ} {a : α} {as bs before after : List α}

theorem filter_cons_self (a : α) (as : List α) :
    (a :: as).filter (key · = key a) = a :: as.filter (key · = key a) :=
  List.filter_cons_of_pos (decide_eq_true rfl)

theorem filter_cons_ne {k : κ} (h : key a ≠ k) (as : List α) :
    (a :: as).filter (key · = k) = as.filter (key · = k) :=
  List.filter_cons_of_neg (by simpa using h)

theorem eq_nil (h : SameOrder key [] bs) : bs = [] := by
  cases bs with
  | nil => rfl
  | cons b bs =>
      have hb := h (key b)
      rw [filter_cons_self] at hb
      cases hb

theorem mem_iff (h : SameOrder key as bs) : a ∈ as ↔ a ∈ bs := by
  have hmem : ∀ l : List α, a ∈ l ↔ a ∈ l.filter (key · = key a) := by
    intro l
    rw [List.mem_filter, decide_eq_true_eq]
    exact (and_iff_left rfl).symm
  rw [hmem as, hmem bs, h (key a)]

/-- An entry behind others of other keys may stand at the front. -/
theorem insert_iff (hother : ∀ b ∈ before, key b ≠ key a) :
    SameOrder key (a :: as) (before ++ a :: after) ↔ SameOrder key as (before ++ after) := by
  apply forall_congr'
  intro k
  by_cases hk : key a = k
  · subst hk
    have hnone : before.filter (key · = key a) = [] :=
      List.filter_eq_nil_iff.mpr fun b hb => by simpa using hother b hb
    rw [List.filter_append, List.filter_append, hnone, List.nil_append, List.nil_append,
      filter_cons_self, filter_cons_self]
    exact List.cons_inj_right a
  · rw [List.filter_append, List.filter_append, filter_cons_ne hk, filter_cons_ne hk]

/-- The first entry of the one list stands in the other behind entries of other keys. -/
theorem uncons (h : SameOrder key (a :: as) bs) :
    ∃ before after, bs = before ++ a :: after ∧ (∀ b ∈ before, key b ≠ key a) ∧
      SameOrder key as (before ++ after) := by
  have ha := h (key a)
  rw [filter_cons_self] at ha
  rcases List.filter_eq_cons_iff.mp ha.symm with ⟨before, after, rfl, hother, -, -⟩
  have hkeys : ∀ b ∈ before, key b ≠ key a := fun b hb => by simpa using hother b hb
  exact ⟨before, after, rfl, hkeys, (insert_iff hkeys).mp h⟩

end SameOrder

/-! ## Inputs that do not disturb each other -/

/-- Of two inputs with different keys, neither sees the other, and their order does not
matter to the state. -/
structure Commutes (f : τ → α → τ × β) (key : α → κ) : Prop where
  result : ∀ t a b, key a ≠ key b → (f (f t a).1 b).2 = (f t b).2
  state : ∀ t a b, key a ≠ key b → (f (f t a).1 b).1 = (f (f t b).1 a).1

/-- Each input of a run with its result. -/
def results (f : τ → α → τ × β) (t : τ) (as : List α) : List (α × β) :=
  as.zip (transduce f t as).2

theorem results_cons (f : τ → α → τ × β) (t : τ) (a : α) (as : List α) :
    results f t (a :: as) = (a, (f t a).2) :: results f (f t a).1 as := rfl

namespace Commutes

variable {f : τ → α → τ × β} {key : α → κ}

omit [DecidableEq κ] in
/-- An input may be processed before others with other keys. -/
theorem move (h : Commutes f key) {a : α} (after : List α) :
    ∀ (before : List α) (t : τ), (∀ b ∈ before, key b ≠ key a) →
      (transduce f t (before ++ a :: after)).1 = (transduce f (f t a).1 (before ++ after)).1 ∧
      ∃ rs rs', results f (f t a).1 (before ++ after) = rs ++ rs' ∧
        results f t (before ++ a :: after) = rs ++ (a, (f t a).2) :: rs' ∧
        ∀ r ∈ rs, key r.1 ≠ key a := by
  intro before
  induction before with
  | nil =>
      intro t _
      exact ⟨rfl, [], _, rfl, rfl, fun r hr => (List.not_mem_nil hr).elim⟩
  | cons b before ih =>
      intro t hother
      have hb : key b ≠ key a := hother b List.mem_cons_self
      rcases ih (f t b).1 fun c hc => hother c (List.mem_cons_of_mem b hc) with
        ⟨hstate, rs, rs', hmoved, hstayed, hrs⟩
      -- `b` and `a` change places
      rw [h.state t b a hb] at hstate hmoved
      rw [h.result t b a hb] at hstayed
      refine ⟨hstate, (b, (f t b).2) :: rs, rs', ?_, ?_, ?_⟩
      · rw [List.cons_append, results_cons, h.result t a b hb.symm, hmoved]
        rfl
      · rw [List.cons_append, results_cons, hstayed]
        rfl
      · intro r hr
        rcases List.mem_cons.mp hr with rfl | hr
        · exact hb
        · exact hrs r hr

/-- **Only the order within each key matters.** -/
theorem reorder (h : Commutes f key) (as : List α) :
    ∀ (bs : List α) (t : τ), SameOrder key as bs →
      (transduce f t as).1 = (transduce f t bs).1 ∧
        SameOrder (fun r => key r.1) (results f t as) (results f t bs) := by
  induction as with
  | nil =>
      intro bs t horder
      rw [horder.eq_nil]
      exact ⟨rfl, fun _ => rfl⟩
  | cons a as ih =>
      intro bs t horder
      rcases horder.uncons with ⟨before, after, rfl, hother, hrest⟩
      rcases ih (before ++ after) (f t a).1 hrest with ⟨hstate, hresults⟩
      rcases h.move after before t hother with ⟨hmove, rs, rs', hmoved, hstayed, hrs⟩
      refine ⟨hstate.trans hmove.symm, ?_⟩
      rw [results_cons, hstayed, SameOrder.insert_iff hrs, ← hmoved]
      exact hresults

end Commutes

end Smoll
