/-
# `Smoll.Lib.Solutions` — solution sequences of logic programs

A goal of a logic program has a sequence of solutions, in the order in which
resolution finds them.  A goal that is asked with a bound on the depth of its
calls answers with that sequence, or with `none` when the bound is too small.

    p ; q      the solutions of `p`, then those of `q`            (`Answers.or`)
    p , q      for each solution of `p` in turn those of `q`      (`Answers.and`)
    findall    one solution: the list of all solutions            (`Answers.findall`)

A recursive predicate of the shape

    walk(X, Y) :- base(X, Y).
    walk(X, Y) :- next(X, Z), walk(Z, Y).

is `descend base next`.  When no path along `next` is infinite it has finitely
many solutions (`exists_solutions`), and those are the solutions of `base` at
whatever can be reached along `next` (`mem_solutions`).
-/
import Mathlib.Data.Set.Finite.Basic
import Mathlib.Order.WellFoundedSet
import Mathlib.Logic.Relation

namespace Smoll.Solutions

variable {α β γ : Type}

/-- The solutions of a goal, if the bound on the depth was enough. -/
abbrev Answers (α : Type) := Option (List α)

namespace Answers

/-- `p ; q`, or two clauses. -/
def or (p q : Answers α) : Answers α := p.bind fun xs => q.map fun ys => xs ++ ys

/-- The goal for one value after another. -/
def each (goal : α → Answers β) : List α → Answers β
  | [] => some []
  | x :: xs => or (goal x) (each goal xs)

/-- `p , q`. -/
def and (p : Answers α) (goal : α → Answers β) : Answers β := p.bind (each goal)

/-- `findall(X, p(X), Xs)`. -/
def findall (p : Answers α) : Answers (List α) := p.map fun xs => [xs]

theorem or_some (xs ys : List α) : or (some xs) (some ys) = some (xs ++ ys) := rfl

theorem each_some {goal : α → Answers β} {f : α → List β} (xs : List α) :
    (∀ x ∈ xs, goal x = some (f x)) → each goal xs = some (xs.flatMap f) := by
  induction xs with
  | nil =>
      intro _
      rfl
  | cons x xs ih =>
      intro h
      rw [each, h x (List.mem_cons_self ..), ih fun y hy => h y (List.mem_cons_of_mem x hy),
        or_some, List.flatMap_cons]

theorem and_some {goal : α → Answers β} {f : α → List β} {xs : List α}
    (h : ∀ x ∈ xs, goal x = some (f x)) : and (some xs) goal = some (xs.flatMap f) :=
  each_some xs h

/-- The values of the solutions. -/
theorem and_pure (p : Answers α) (f : α → β) :
    and p (fun x => some [f x]) = p.map fun xs => xs.map f := by
  cases p with
  | none => rfl
  | some xs =>
      rw [and_some (f := fun x => [f x]) fun _ _ => rfl]
      show some _ = some (xs.map f)
      rw [List.map_eq_flatMap]

theorem or_map (f : α → β) (p q : Answers α) :
    or (p.map (List.map f)) (q.map (List.map f)) = (or p q).map (List.map f) := by
  cases p with
  | none => rfl
  | some xs =>
      cases q with
      | none => rfl
      | some ys => exact congrArg some List.map_append.symm

/-- Values can be taken after the search. -/
theorem each_map (f : β → γ) (goal : α → Answers β) (xs : List α) :
    each (fun x => (goal x).map (List.map f)) xs = (each goal xs).map (List.map f) := by
  induction xs with
  | nil => rfl
  | cons x xs ih => rw [each, ih, or_map, each]

theorem each_comp (f : α → β) (goal : β → Answers γ) (xs : List α) :
    each (fun x => goal (f x)) xs = each goal (xs.map f) := by
  induction xs with
  | nil => rfl
  | cons x xs ih => rw [each, ih, List.map_cons, each]

end Answers

/-! ## Depth -/

/-- The goal has these solutions, for every bound from some number on. -/
def Settles (goal : Nat → Answers β) (solutions : List β) : Prop :=
  ∃ n, ∀ depth, n ≤ depth → goal depth = some solutions

theorem Settles.map {goal : Nat → Answers β} {solutions : List β} (h : Settles goal solutions)
    (f : List β → List γ) : Settles (fun depth => (goal depth).map f) (f solutions) := by
  rcases h with ⟨n, hn⟩
  refine ⟨n, fun depth hdepth => ?_⟩
  show (goal depth).map f = _
  rw [hn depth hdepth]
  rfl

/-- Finitely many goals settle together. -/
theorem settles_all {goal : Nat → α → Answers β} {solutions : α → List β} (xs : List α) :
    (∀ x ∈ xs, Settles (goal · x) (solutions x)) →
      ∃ n, ∀ depth, n ≤ depth → ∀ x ∈ xs, goal depth x = some (solutions x) := by
  induction xs with
  | nil =>
      intro _
      exact ⟨0, fun _ _ _ hx => (List.not_mem_nil hx).elim⟩
  | cons x xs ih =>
      intro h
      rcases h x (List.mem_cons_self ..) with ⟨n, hn⟩
      rcases ih fun y hy => h y (List.mem_cons_of_mem x hy) with ⟨m, hm⟩
      refine ⟨max n m, fun depth hdepth y hy => ?_⟩
      rcases List.mem_cons.mp hy with rfl | hy
      · exact hn depth (Nat.le_trans (Nat.le_max_left n m) hdepth)
      · exact hm depth (Nat.le_trans (Nat.le_max_right n m) hdepth) y hy

/-! ## A recursive predicate -/

/-- `walk`, with the base clause first. -/
def descend (base : α → List β) (next : α → List α) : Nat → α → Answers β
  | 0, _ => none
  | depth + 1, x =>
      Answers.or (some (base x)) (Answers.and (some (next x)) (descend base next depth))

variable {base : α → List β} {next : α → List α}

/-- **Solutions.**  Where no path is infinite, the predicate has finitely many solutions. -/
theorem exists_solutions (base : α → List β) (hwf : WellFounded fun y x => y ∈ next x) :
    ∃ solutions : α → List β,
      (∀ x, Settles (descend base next · x) (solutions x)) ∧
      ∀ x, solutions x = base x ++ (next x).flatMap solutions := by
  have hsettles : ∀ x, ∃ s, Settles (descend base next · x) s := by
    intro x
    induction x using hwf.induction with
    | _ x ih =>
        -- a function of the children only, chosen by the induction hypothesis
        classical
        let f : α → List β := fun y => if hy : y ∈ next x then (ih y hy).choose else []
        have hf : ∀ y ∈ next x, Settles (descend base next · y) (f y) := by
          intro y hy
          show Settles _ (if hy : y ∈ next x then (ih y hy).choose else [])
          rw [dif_pos hy]
          exact (ih y hy).choose_spec
        rcases settles_all (next x) hf with ⟨n, hn⟩
        refine ⟨base x ++ (next x).flatMap f, n + 1, fun depth hdepth => ?_⟩
        cases depth with
        | zero => omega
        | succ depth =>
            show Answers.or _ _ = _
            rw [Answers.and_some (hn depth (Nat.le_of_succ_le_succ hdepth)), Answers.or_some]
  choose solutions hsolutions using hsettles
  refine ⟨solutions, hsolutions, fun x => ?_⟩
  rcases hsolutions x with ⟨m, hm⟩
  rcases settles_all (next x) fun y _ => hsolutions y with ⟨n, hn⟩
  have hx := hm (max m n + 1) (by omega)
  have hstep : descend base next (max m n + 1) x =
      some (base x ++ (next x).flatMap solutions) := by
    show Answers.or _ _ = _
    rw [Answers.and_some (hn (max m n) (Nat.le_max_right m n)), Answers.or_some]
  exact Option.some.inj (hx.symm.trans hstep)

/-- The solutions are those of `base` at whatever is reached. -/
theorem mem_solutions {solutions : α → List β} (hwf : WellFounded fun y x => y ∈ next x)
    (heq : ∀ x, solutions x = base x ++ (next x).flatMap solutions) (b : β) (x : α) :
    b ∈ solutions x ↔
      ∃ z, Relation.ReflTransGen (fun a c => c ∈ next a) x z ∧ b ∈ base z := by
  constructor
  · induction x using hwf.induction with
    | _ x ih =>
        intro hb
        rw [heq x] at hb
        rcases List.mem_append.mp hb with hbase | hnext
        · exact ⟨x, .refl, hbase⟩
        · rcases List.mem_flatMap.mp hnext with ⟨y, hy, hby⟩
          rcases ih y hy hby with ⟨z, hreach, hz⟩
          exact ⟨z, .head hy hreach, hz⟩
  · rintro ⟨z, hreach, hz⟩
    induction hreach using Relation.ReflTransGen.head_induction_on with
    | refl =>
        rw [heq z]
        exact List.mem_append_left _ hz
    | head hstep _ ih =>
        rw [heq]
        exact List.mem_append_right _ (List.mem_flatMap.mpr ⟨_, hstep, ih⟩)

/-- A check of each value leaves those that pass. -/
theorem flatMap_guard (l : List α) (p : α → Prop) [DecidablePred p] :
    (l.flatMap fun x => if p x then [x] else []) = l.filter fun x => decide (p x) := by
  induction l with
  | nil => rfl
  | cons x l ih =>
      rw [List.flatMap_cons, ih, List.filter_cons]
      rcases Decidable.em (p x) with hp | hp
      · rw [if_pos hp, if_pos (decide_eq_true hp)]
        rfl
      · rw [if_neg hp, if_neg (by rw [decide_eq_false hp]; nofun)]
        rfl

/-! ## Facts without a cycle -/

/-- A finite relation without a cycle has no infinite path. -/
theorem wellFounded_of_acyclic (facts : List (α × α))
    (h : ∀ a, ¬ Relation.TransGen (fun a b => (a, b) ∈ facts) a a) :
    WellFounded fun b a => (a, b) ∈ facts := by
  let above : α → α → Prop := fun b a => Relation.TransGen (fun a b => (a, b) ∈ facts) a b
  let named : Set α := {a | a ∈ facts.map Prod.fst ++ facts.map Prod.snd}
  have hnamed : named.Finite := List.finite_toSet _
  have hstrict : IsStrictOrder α above :=
    { irrefl := h
      trans := fun _ _ _ hab hbc => hbc.trans hab }
  have hwf := Set.wellFoundedOn_iff.mp (Set.Finite.wellFoundedOn (r := above) hnamed)
  refine Subrelation.wf ?_ hwf
  intro b a hfact
  refine ⟨.single hfact, ?_, ?_⟩
  · exact List.mem_append_right _ (List.mem_map_of_mem (f := Prod.snd) hfact)
  · exact List.mem_append_left _ (List.mem_map_of_mem (f := Prod.fst) hfact)

end Smoll.Solutions
