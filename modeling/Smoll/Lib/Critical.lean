/-
# `Smoll.Lib.Critical` — critical sections

Threads over one shared state, with one semaphore.  A thread is described by
its next move, a function of where it is and of the shared state:

| | |
| :-- | :-- |
| `skip l`     | go to `l`, outside the section |
| `acquire l`  | wait for the semaphore, take it and go to `l` |
| `work l g`   | go to `l` within the section, the shared state becomes `g` |
| `release l`  | leave the section for `l`, the semaphore is given back |

When every section is bracketed by an `acquire` and a `release`, at most one
thread is inside.  So it is enough to know an invariant `J` of the shared state
while nobody is inside, and an assertion `A` for each place inside:
`Rule` is what has to be shown of single moves, `exclusive_of_reaches` is the
conclusion for every reachable state.  A section whose places go down in rank
is left again (`Rule.released`).
-/
import Smoll.Lib.Sched
import Mathlib.Logic.Function.Basic

namespace Smoll.Critical

variable {T L G : Type}

inductive Move (L G : Type) where
  | skip (l : L)
  | acquire (l : L)
  | work (l : L) (shared : G)
  | release (l : L)

structure System (T L G : Type) where
  semaphore : Nat
  pc : T → L
  shared : G

variable [DecidableEq T]

/-- The move of a thread; `none` while it waits. -/
def step (move : T → L → G → Move L G) (t : T) (s : System T L G) : Option (System T L G) :=
  match move t (s.pc t) s.shared with
  | .skip l => some { s with pc := Function.update s.pc t l }
  | .acquire l =>
      if 0 < s.semaphore then
        some { s with semaphore := s.semaphore - 1, pc := Function.update s.pc t l }
      else none
  | .work l shared => some { s with pc := Function.update s.pc t l, shared }
  | .release l => some { s with semaphore := s.semaphore + 1, pc := Function.update s.pc t l }

/-- What has to be shown of a move from `l` in `g`. -/
def Obligation (inside : L → Prop) (J : G → Prop) (A : L → G → Prop) (l : L) (g : G) :
    Move L G → Prop
  | .skip l' => ¬ inside l ∧ ¬ inside l'
  | .acquire l' => ¬ inside l ∧ inside l' ∧ (J g → A l' g)
  | .work l' g' => inside l ∧ inside l' ∧ (A l g → A l' g')
  | .release l' => inside l ∧ ¬ inside l' ∧ (A l g → J g)

def Rule (move : T → L → G → Move L G) (inside : L → Prop) (J : G → Prop)
    (A : T → L → G → Prop) : Prop :=
  ∀ t l g, Obligation inside J (A t) l g (move t l g)

/-- Nobody is inside and `J` holds, or one thread is inside and its assertion holds. -/
inductive Exclusive (inside : L → Prop) (J : G → Prop) (A : T → L → G → Prop)
    (s : System T L G) : Prop
  | free : s.semaphore = 1 → (∀ t, ¬ inside (s.pc t)) → J s.shared → Exclusive inside J A s
  | held (t : T) : s.semaphore = 0 → inside (s.pc t) → (∀ u, inside (s.pc u) → u = t) →
      A t (s.pc t) s.shared → Exclusive inside J A s

variable {move : T → L → G → Move L G} {inside : L → Prop} {J : G → Prop}
  {A : T → L → G → Prop}

/-- A thread that moves outside. -/
theorem update_outside {pc : T → L} {t : T} {l : L} (hl : ¬ inside l) {u : T}
    (hu : inside (Function.update pc t l u)) : u ≠ t ∧ inside (pc u) := by
  have hne : u ≠ t := by
    rintro rfl
    rw [Function.update_self] at hu
    exact hl hu
  rw [Function.update_of_ne hne] at hu
  exact ⟨hne, hu⟩

omit [DecidableEq T] in
/-- A thread that is inside is the one that holds the semaphore. -/
theorem Exclusive.of_inside {s : System T L G} (h : Exclusive inside J A s) {t : T}
    (ht : inside (s.pc t)) :
    s.semaphore = 0 ∧ (∀ u, inside (s.pc u) → u = t) ∧ A t (s.pc t) s.shared := by
  cases h with
  | free _ hnone _ => exact absurd ht (hnone t)
  | held t' hzero _ honly hA =>
      have heq := honly t ht
      subst heq
      exact ⟨hzero, honly, hA⟩

/-- One thread has moved to a place inside, and the others are outside. -/
theorem Exclusive.entered {s : System T L G} {pc : T → L} {t : T} {l : L}
    (hpc : s.pc = Function.update pc t l) (hzero : s.semaphore = 0) (hl : inside l)
    (honly : ∀ u, inside (pc u) → u = t) (hA : A t l s.shared) : Exclusive inside J A s := by
  have hself : s.pc t = l := by rw [hpc, Function.update_self]
  refine .held t hzero (hself ▸ hl) ?_ (hself ▸ hA)
  intro u hu
  by_contra hne
  rw [hpc, Function.update_of_ne hne] at hu
  exact hne (honly u hu)

/-- One thread has moved to a place outside, and the others are outside. -/
theorem Exclusive.left {s : System T L G} {pc : T → L} {t : T} {l : L}
    (hpc : s.pc = Function.update pc t l) (hone : s.semaphore = 1) (hl : ¬ inside l)
    (honly : ∀ u, inside (pc u) → u = t) (hJ : J s.shared) : Exclusive inside J A s := by
  refine .free hone ?_ hJ
  intro u hu
  rw [hpc] at hu
  rcases update_outside hl hu with ⟨hne, hu⟩
  exact hne (honly u hu)

theorem step_work {t : T} {s : System T L G} {l : L} {g : G}
    (hmove : move t (s.pc t) s.shared = .work l g) :
    step move t s = some { s with pc := Function.update s.pc t l, shared := g } := by
  rw [step, hmove]

theorem step_release {t : T} {s : System T L G} {l : L}
    (hmove : move t (s.pc t) s.shared = .release l) :
    step move t s =
      some { s with semaphore := s.semaphore + 1, pc := Function.update s.pc t l } := by
  rw [step, hmove]

/-- A move keeps the section exclusive. -/
theorem Rule.step (rule : Rule move inside J A) {t : T} {s s' : System T L G}
    (h : Exclusive inside J A s) (hstep : step move t s = some s') :
    Exclusive inside J A s' := by
  have hrule := rule t (s.pc t) s.shared
  cases hmove : move t (s.pc t) s.shared with
  | skip l =>
      rw [Critical.step, hmove] at hstep
      rw [hmove] at hrule
      cases hstep
      rcases hrule with ⟨hout, hout'⟩
      cases h with
      | free hone hnone hJ =>
          exact .left rfl hone hout' (fun u hu => absurd hu (hnone u)) hJ
      | held t' hzero hin honly hA =>
          have hne : t' ≠ t := fun heq => hout (heq ▸ hin)
          have hpc : Function.update s.pc t l t' = s.pc t' := Function.update_of_ne hne l s.pc
          refine .held t' hzero ?_ (fun u hu => honly u (update_outside hout' hu).2) ?_
          · show inside (Function.update s.pc t l t')
            rwa [hpc]
          · show A t' (Function.update s.pc t l t') s.shared
            rwa [hpc]
  | acquire l =>
      rw [Critical.step, hmove] at hstep
      rw [hmove] at hrule
      rcases hrule with ⟨_, hin', hA'⟩
      rcases Option.ite_none_right_eq_some.mp hstep with ⟨htake, hstate⟩
      cases hstate
      cases h with
      | held t' hzero _ _ _ => omega
      | free hone hnone hJ =>
          have hzero : s.semaphore - 1 = 0 := by omega
          exact .entered rfl hzero hin' (fun u hu => absurd hu (hnone u)) (hA' hJ)
  | work l g =>
      rw [step_work hmove] at hstep
      rw [hmove] at hrule
      cases hstep
      rcases hrule with ⟨hin, hin', hA'⟩
      rcases h.of_inside hin with ⟨hzero, honly, hA⟩
      exact .entered rfl hzero hin' honly (hA' hA)
  | release l =>
      rw [step_release hmove] at hstep
      rw [hmove] at hrule
      cases hstep
      rcases hrule with ⟨hin, hout', hJ⟩
      rcases h.of_inside hin with ⟨hzero, honly, hA⟩
      have hone : s.semaphore + 1 = 1 := by omega
      exact .left rfl hone hout' honly (hJ hA)

theorem exclusive_of_reaches (rule : Rule move inside J A) {s s' : System T L G}
    (h : Exclusive inside J A s) (hreach : Sched.Reaches (step move) s s') :
    Exclusive inside J A s' :=
  hreach.invariant (fun hs hstep => rule.step hs hstep) h

/-! ## Leaving the section -/

/-- A thread inside gets out by its own moves, and gives the semaphore back. -/
theorem Rule.released (rule : Rule move inside J A) (rank : L → Nat)
    (hrank : ∀ {t l g l' g'}, move t l g = .work l' g' → rank l' < rank l) (n : Nat) :
    ∀ {s : System T L G} {t : T}, Exclusive inside J A s → inside (s.pc t) →
      rank (s.pc t) < n →
      ∃ k s', Sched.run (Critical.step move) (List.replicate k t) s = some s' ∧
        ¬ inside (s'.pc t) ∧ s'.semaphore = 1 := by
  induction n with
  | zero =>
      intro s t _ _ hlt
      cases hlt
  | succ n ih =>
      intro s t h hin hlt
      have hrule := rule t (s.pc t) s.shared
      cases hmove : move t (s.pc t) s.shared with
      | skip l =>
          rw [hmove] at hrule
          exact absurd hin hrule.1
      | acquire l =>
          rw [hmove] at hrule
          exact absurd hin hrule.1
      | work l g =>
          rw [hmove] at hrule
          have hstep := step_work hmove
          have hin' : inside (Function.update s.pc t l t) := by
            rw [Function.update_self]
            exact hrule.2.1
          have hlt' : rank (Function.update s.pc t l t) < n := by
            rw [Function.update_self]
            have := hrank hmove
            omega
          rcases ih (rule.step h hstep) hin' hlt' with ⟨k, s', hrun, hout, hone⟩
          refine ⟨k + 1, s', ?_, hout, hone⟩
          rw [List.replicate_succ, Sched.run_cons, hstep]
          exact hrun
      | release l =>
          rw [hmove] at hrule
          have hstep := step_release hmove
          refine ⟨1, { s with semaphore := s.semaphore + 1, pc := Function.update s.pc t l },
            ?_, ?_, ?_⟩
          · rw [List.replicate_succ, Sched.run_cons, hstep]
            rfl
          · show ¬ inside (Function.update s.pc t l t)
            rw [Function.update_self]
            exact hrule.2.1
          · show s.semaphore + 1 = 1
            rw [(h.of_inside hin).1]

end Smoll.Critical
