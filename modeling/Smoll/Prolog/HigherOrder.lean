/-
# `Smoll.Prolog.HigherOrder` — `mutate` and `mutate_if`

Both collect with `findall` what a recursive goal finds, one solution for each
element of the list. Where the test fails `mutate_list_if` gives the element
back with `is`, which evaluates it: a number is itself, and any other term is
another one or an error, which takes the whole list with it.

So `mutate_if` is the conditional map exactly on lists whose elements fail the
test only if they are numbers (`mutate_if_iff`).
-/
import Smoll.Lib.Goals

namespace Smoll.Prolog.HigherOrder

open Goals Outcome

/-! ## Terms and arithmetic -/

/-- A term without variables. -/
inductive Term (Number : Type) where
  | number (n : Number)
  | atom (name : String)
  | compound (functor : String) (args : List (Term Number))

/-- `is`: the number an arithmetic expression stands for, or an error. -/
structure Arithmetic (Number ε : Type) where
  eval : Term Number → Except ε Number
  eval_number : ∀ n, eval (.number n) = .ok n

variable {Number ε : Type}

/-- `Y is X`, for a free `Y`. -/
def Arithmetic.is (arithmetic : Arithmetic Number ε) (x : Term Number) :
    Outcome ε (Term Number) :=
  match arithmetic.eval x with
  | .ok n => once (.number n)
  | .error e => raise e

/-! ## The source -/

section Source

variable (arithmetic : Arithmetic Number ε) (p : Term Number → Outcome ε Unit)
  (op : Term Number → Outcome ε (Term Number))

def mutateList : List (Term Number) → Outcome ε (Term Number)
  | [] => fail
  | l1h :: l1t => (op l1h).or (mutateList l1t)

def mutate (l1 : List (Term Number)) : Outcome ε (List (Term Number)) :=
  findall (mutateList op l1)

def mutateListIf : List (Term Number) → Outcome ε (Term Number)
  | [] => fail
  | l1h :: l1t =>
      ifThenElse (p l1h)
        ((op l1h).or (mutateListIf l1t))
        ((arithmetic.is l1h).or (mutateListIf l1t))

def mutateIf (l1 : List (Term Number)) : Outcome ε (List (Term Number)) :=
  findall (mutateListIf arithmetic p op l1)

end Source

/-- `add_one(X, Y) :- Y is (X + 1).` -/
def addOne (arithmetic : Arithmetic Int ε) (x : Term Int) : Outcome ε (Term Int) :=
  arithmetic.is (.compound "+" [x, .number 1])

/-- `is_even(X) :- 0 is X mod 2.` -/
def isEven (arithmetic : Arithmetic Int ε) (x : Term Int) : Outcome ε Unit :=
  match arithmetic.eval (.compound "mod" [x, .number 2]) with
  | .ok n => if n = 0 then once () else fail
  | .error e => raise e

def isOdd (arithmetic : Arithmetic Int ε) (x : Term Int) : Outcome ε Unit :=
  naf (isEven arithmetic x)

/-! ## The conditional map -/

/-- The operation where the test holds, and the element where it does not. -/
def mapIf (p : Term Number → Outcome ε Unit) (result : Term Number → Term Number)
    (l1 : List (Term Number)) : List (Term Number) :=
  l1.map fun x => if (p x).Succeeds then result x else x

/-- What `mutate_if` is for. -/
structure ConditionalMap (arithmetic : Arithmetic Number ε) (p : Term Number → Outcome ε Unit)
    (op : Term Number → Outcome ε (Term Number)) (result : Term Number → Term Number)
    (l1 : List (Term Number)) : Prop where
  map : mutateIf arithmetic p op l1 = once (mapIf p result l1)
  length : (mapIf p result l1).length = l1.length
  all : (∀ x ∈ l1, (p x).Succeeds) → mutate op l1 = once (mapIf p result l1)

variable {p : Term Number → Outcome ε Unit}
  {op : Term Number → Outcome ε (Term Number)} {result : Term Number → Term Number}

theorem is_cases (arithmetic : Arithmetic Number ε) (x : Term Number) :
    (∃ m, arithmetic.is x = once (.number m)) ∨ ∃ e, arithmetic.is x = raise e := by
  rw [Arithmetic.is]
  cases arithmetic.eval x with
  | ok m => exact Or.inl ⟨m, rfl⟩
  | error e => exact Or.inr ⟨e, rfl⟩

theorem is_number (arithmetic : Arithmetic Number ε) (n : Number) :
    arithmetic.is (.number n) = once (.number n) := by
  rw [Arithmetic.is, arithmetic.eval_number]

/-- `is` gives a term back, before anything else, exactly if it is a number. -/
theorem is_or_iff (arithmetic : Arithmetic Number ε) (x : Term Number)
    (q : Outcome ε (Term Number)) (xs : List (Term Number)) :
    (arithmetic.is x).or q = ⟨x :: xs, none⟩ ↔ (∃ n, x = .number n) ∧ q = ⟨xs, none⟩ := by
  constructor
  · intro h
    rcases is_cases arithmetic x with ⟨m, hm⟩ | ⟨e, he⟩
    · rw [hm, or_once] at h
      have hraised : q.raised = none := congrArg Outcome.raised h
      rcases List.cons.inj (congrArg Outcome.solutions h) with ⟨hx, hxs⟩
      refine ⟨⟨m, hx.symm⟩, ?_⟩
      rw [← hxs, ← hraised]
    · rw [he, or_raise] at h
      cases congrArg Outcome.raised h
  · rintro ⟨⟨n, rfl⟩, rfl⟩
    rw [is_number]
    rfl

theorem mutateListIf_iff (arithmetic : Arithmetic Number ε) {l1 : List (Term Number)} :
    (∀ x ∈ l1, (p x).Succeeds ∨ (p x).Fails) →
    (∀ x ∈ l1, (p x).Succeeds → op x = once (result x)) →
      (mutateListIf arithmetic p op l1 = ⟨mapIf p result l1, none⟩ ↔
        ∀ x ∈ l1, (p x).Fails → ∃ n, x = .number n) := by
  induction l1 with
  | nil =>
      intro _ _
      constructor
      · intro _ x hx
        cases hx
      · intro _
        rfl
  | cons x l1 ih =>
      intro hp hop
      have hrest := ih (fun y hy => hp y (List.mem_cons_of_mem x hy))
        (fun y hy => hop y (List.mem_cons_of_mem x hy))
      rw [mutateListIf, mapIf, List.map_cons, List.forall_mem_cons]
      rcases hp x List.mem_cons_self with hx | hx
      · rw [ifThenElse_of_succeeds hx, if_pos hx, hop x List.mem_cons_self hx, or_once]
        constructor
        · intro h
          have hsolutions := congrArg Outcome.solutions h
          have hraised : (mutateListIf arithmetic p op l1).raised = none :=
            congrArg Outcome.raised h
          have htail := (List.cons.inj hsolutions).2
          refine ⟨?_, hrest.mp ?_⟩
          · intro hfails
            exact absurd hx (not_succeeds_of_fails hfails)
          · rw [mapIf, ← htail, ← hraised]
        · rintro ⟨_, h⟩
          rw [hrest.mpr h]
          rfl
      · rw [ifThenElse_of_fails hx, if_neg (not_succeeds_of_fails hx), is_or_iff]
        constructor
        · rintro ⟨hnumber, h⟩
          exact ⟨fun _ => hnumber, hrest.mp h⟩
        · rintro ⟨hnumber, h⟩
          exact ⟨hnumber hx, hrest.mpr h⟩

theorem mutateList_eq {l1 : List (Term Number)} :
    (∀ x ∈ l1, (p x).Succeeds → op x = once (result x)) → (∀ x ∈ l1, (p x).Succeeds) →
      mutateList op l1 = ⟨mapIf p result l1, none⟩ := by
  induction l1 with
  | nil =>
      intro _ _
      rfl
  | cons x l1 ih =>
      intro hop hall
      have hrest := ih (fun y hy => hop y (List.mem_cons_of_mem x hy))
        (fun y hy => hall y (List.mem_cons_of_mem x hy))
      have hx := hall x List.mem_cons_self
      rw [mutateList, hop x List.mem_cons_self hx, or_once, hrest, mapIf, mapIf, List.map_cons, if_pos hx]

/-- `mutate_if` is the conditional map exactly if only numbers fail the test. -/
theorem mutate_if_iff (arithmetic : Arithmetic Number ε) (p : Term Number → Outcome ε Unit)
    (op : Term Number → Outcome ε (Term Number)) (result : Term Number → Term Number)
    (l1 : List (Term Number)) (hp : ∀ x ∈ l1, (p x).Succeeds ∨ (p x).Fails)
    (hop : ∀ x ∈ l1, (p x).Succeeds → op x = once (result x)) :
    ConditionalMap arithmetic p op result l1 ↔
      ∀ x ∈ l1, (p x).Fails → ∃ n, x = .number n := by
  rw [← mutateListIf_iff arithmetic hp hop, ← findall_eq_once_iff]
  constructor
  · intro h
    exact h.map
  · intro h
    refine ⟨h, List.length_map _, ?_⟩
    intro hall
    exact findall_eq_once_iff.mpr (mutateList_eq hop hall)

/-- Sums and remainders of two integers; other terms are type errors. -/
def integers : Arithmetic Int String where
  eval
    | .number n => .ok n
    | .compound "+" [.number m, .number n] => .ok (m + n)
    | .compound "mod" [.number m, .number n] => .ok (m % n)
    | _ => .error "type_error(evaluable)"
  eval_number _ := rfl

/-- `add_one` of the odd elements. -/
theorem mutate_if_iff_addOne :
    ConditionalMap integers (isOdd integers) (addOne integers)
      (fun x => match x with | .number n => .number (n + 1) | _ => x)
      [.number 1, .number 2, .number 3] := by
  refine (mutate_if_iff integers (isOdd integers) (addOne integers) _ _ ?_ ?_).mpr ?_
  · intro x hx
    simp only [List.mem_cons, List.not_mem_nil, or_false] at hx
    rcases hx with rfl | rfl | rfl
    · exact Or.inl (List.cons_ne_nil _ _)
    · exact Or.inr ⟨rfl, rfl⟩
    · exact Or.inl (List.cons_ne_nil _ _)
  · intro x hx _
    simp only [List.mem_cons, List.not_mem_nil, or_false] at hx
    rcases hx with rfl | rfl | rfl <;> rfl
  · intro x hx _
    simp only [List.mem_cons, List.not_mem_nil, or_false] at hx
    rcases hx with rfl | rfl | rfl <;> exact ⟨_, rfl⟩

/-- `number/1` -/
def isNumber (x : Term Int) : Outcome String Unit :=
  match x with
  | .number _ => once ()
  | _ => fail

/-- `mutate_if(number, add_one, [foo], L)` raises an error. -/
theorem not_mutate_if :
    ¬ ∀ (arithmetic : Arithmetic Int String) (p : Term Int → Outcome String Unit)
        (op : Term Int → Outcome String (Term Int)) (result : Term Int → Term Int)
        (l1 : List (Term Int)), (∀ x ∈ l1, (p x).Succeeds ∨ (p x).Fails) →
        (∀ x ∈ l1, (p x).Succeeds → op x = once (result x)) →
        ConditionalMap arithmetic p op result l1 := by
  intro h
  have hfoo := h integers isNumber (addOne integers) id [.atom "foo"]
    (fun x hx => by
      rw [List.mem_singleton.mp hx]
      exact Or.inr ⟨rfl, rfl⟩)
    (fun x hx hsucceeds => by
      rw [List.mem_singleton.mp hx] at hsucceeds
      exact absurd rfl hsucceeds)
  cases congrArg Outcome.raised hfoo.map

end Smoll.Prolog.HigherOrder
