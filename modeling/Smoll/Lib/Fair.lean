/-
# `Smoll.Lib.Fair` — what a fair run must bring about

Safety says of every interleaving what never happens (`Smoll.Lib.Sched`);
liveness says what must happen, and needs that no agent is left out for ever.
A schedule here is an infinite sequence of agents; an agent whose turn comes
while it cannot move lets the turn pass, so turns of a finished agent are
harmless.

| | |
| :-- | :-- |
| `trace step sched s n`        | the state after the first `n` turns |
| `EveryTurn sched`             | every agent has its turn again and again |
| `WeaklyFair step sched s`     | an agent that can move from some turn on has another turn |
| `StronglyFair step sched s`   | an agent that can move again and again moves again and again |
| `LeadsTo step P Q`            | in every weakly fair run, a state with `P` is followed by one with `Q` |
| `StronglyLeadsTo step P Q`    | the same in every strongly fair run |
| `Stable step P`               | no move ends `P` |

`LeadsTo.of_rank` is the rule for weak fairness: in every state there is one
agent, the helper, whose move lowers a rank, and no other move raises the
rank or, leaving it as it is, changes the helper.  Sooner or later the
helper has its turn.  An agent that waits for what others take and give back
is no such helper, for it cannot move all the time; `StronglyLeadsTo.of_waiting` is
the rule for it.
-/
import Smoll.Lib.Sched
import Mathlib.Order.Filter.AtTopBot.Basic

namespace Smoll.Sched

variable {ι σ : Type*} {step : ι → σ → Option σ}

/-! ## Infinite schedules -/

/-- The state after `n` turns; a turn in which the agent cannot move passes. -/
def trace (step : ι → σ → Option σ) (sched : ℕ → ι) (s : σ) : ℕ → σ
  | 0 => s
  | n + 1 => (step (sched n) (trace step sched s n)).getD (trace step sched s n)

@[simp] theorem trace_zero (sched : ℕ → ι) (s : σ) : trace step sched s 0 = s := rfl

theorem trace_succ (sched : ℕ → ι) (s : σ) (n : ℕ) :
    trace step sched s (n + 1)
      = (step (sched n) (trace step sched s n)).getD (trace step sched s n) := rfl

/-- What comes after `k` turns is the trace of the rest of the schedule. -/
theorem trace_add (sched : ℕ → ι) (s : σ) (k n : ℕ) :
    trace step sched s (k + n)
      = trace step (fun m => sched (k + m)) (trace step sched s k) n := by
  induction n with
  | zero => rfl
  | succ n ih =>
      have hlast : k + (n + 1) = k + n + 1 := rfl
      rw [hlast, trace_succ, trace_succ, ih]

/-- After the first turn the rest of the schedule goes on from where its move led. -/
theorem trace_of_move {sched : ℕ → ι} {s s' : σ} (hmove : step (sched 0) s = some s') (n : ℕ) :
    trace step sched s (1 + n) = trace step (fun k => sched (1 + k)) s' n := by
  rw [trace_add, trace_succ, trace_zero, hmove]
  rfl

/-- A turn that passes changes nothing. -/
theorem trace_of_pass {sched : ℕ → ι} {s : σ} (hpass : step (sched 0) s = none) (n : ℕ) :
    trace step sched s (1 + n) = trace step (fun k => sched (1 + k)) s n := by
  rw [trace_add, trace_succ, trace_zero, hpass]
  rfl

/-! ## What no move ends -/

/-- No move ends `P`. -/
def Stable (step : ι → σ → Option σ) (P : σ → Prop) : Prop :=
  ∀ {i s s'}, P s → step i s = some s' → P s'

theorem Stable.trace {P : σ → Prop} (hP : Stable step P) {sched : ℕ → ι} {s : σ} (hs : P s)
    (n : ℕ) : P (trace step sched s n) := by
  induction n with
  | zero => exact hs
  | succ n ih =>
      rw [trace_succ]
      cases hstep : step (sched n) (Sched.trace step sched s n) with
      | none => exact ih
      | some s' => exact hP ih hstep

/-- What never comes back once it is lost, and holds again and again, holds always. -/
theorem always_of_frequently {P : σ → Prop} (hlost : Stable step fun s => ¬ P s) {sched : ℕ → ι}
    {s : σ} (hlate : ∀ k, ∃ n, k ≤ n ∧ P (trace step sched s n)) (k : ℕ) :
    P (trace step sched s k) := by
  by_contra hnot
  obtain ⟨n, hn, hp⟩ := hlate k
  obtain ⟨m, rfl⟩ := Nat.exists_eq_add_of_le hn
  rw [trace_add] at hp
  exact hlost.trace hnot m hp

theorem reaches_trace (sched : ℕ → ι) (s : σ) (n : ℕ) : Reaches step s (trace step sched s n) := by
  have hstable : Stable step (Reaches step s) := fun hs hstep => hs.tail hstep
  exact hstable.trace (.refl s) n

theorem Stable.and {P Q : σ → Prop} (hP : Stable step P) (hQ : Stable step Q) :
    Stable step fun s => P s ∧ Q s :=
  fun hs hstep => ⟨hP hs.1 hstep, hQ hs.2 hstep⟩

/-! ## Fairness -/

/-- Every agent has its turn again and again. -/
def EveryTurn (sched : ℕ → ι) : Prop := ∀ i, ∃ᶠ n in Filter.atTop, sched n = i

/-- Again and again an agent has its turn or cannot move. -/
def WeaklyFair (step : ι → σ → Option σ) (sched : ℕ → ι) (s : σ) : Prop :=
  ∀ i, ∃ᶠ n in Filter.atTop, sched n = i ∨ step i (trace step sched s n) = none

/-- An agent that can move again and again does so. -/
def StronglyFair (step : ι → σ → Option σ) (sched : ℕ → ι) (s : σ) : Prop :=
  ∀ i, (∃ᶠ n in Filter.atTop, step i (trace step sched s n) ≠ none) →
    ∃ᶠ n in Filter.atTop, sched n = i ∧ step i (trace step sched s n) ≠ none

theorem EveryTurn.weaklyFair {sched : ℕ → ι} (hturn : EveryTurn sched) (s : σ) :
    WeaklyFair step sched s :=
  fun i => (hturn i).mono fun _ => .inl

theorem StronglyFair.weaklyFair {sched : ℕ → ι} {s : σ} (hfair : StronglyFair step sched s) :
    WeaklyFair step sched s := by
  intro i
  by_cases hmoves : ∃ᶠ n in Filter.atTop, step i (trace step sched s n) ≠ none
  · exact (hfair i hmoves).mono fun _ h => .inl h.1
  · have hnever := Filter.not_frequently.mp hmoves
    exact (hnever.mono fun _ h => .inr (not_not.mp h)).frequently

theorem frequently_shift {p : ℕ → Prop} (k : ℕ) :
    (∃ᶠ n in Filter.atTop, p (k + n)) ↔ ∃ᶠ n in Filter.atTop, p n := by
  simp only [Filter.frequently_atTop]
  constructor
  · intro h a
    obtain ⟨n, hn, hp⟩ := h a
    exact ⟨k + n, Nat.le_add_left_of_le hn, hp⟩
  · intro h a
    obtain ⟨n, hn, hp⟩ := h (k + a)
    obtain ⟨m, rfl⟩ := Nat.exists_eq_add_of_le (Nat.le_of_add_right_le hn)
    exact ⟨m, Nat.le_of_add_le_add_left hn, hp⟩

/-- A fair run is fair from any turn on. -/
theorem WeaklyFair.shift {sched : ℕ → ι} {s : σ} (hfair : WeaklyFair step sched s) (k : ℕ) :
    WeaklyFair step (fun n => sched (k + n)) (trace step sched s k) := by
  intro i
  have hlate := (frequently_shift k).mpr (hfair i)
  simpa only [trace_add] using hlate

theorem StronglyFair.shift {sched : ℕ → ι} {s : σ} (hfair : StronglyFair step sched s) (k : ℕ) :
    StronglyFair step (fun n => sched (k + n)) (trace step sched s k) := by
  intro i hmoves
  simp only [← trace_add] at hmoves ⊢
  exact (frequently_shift (p := fun n => sched n = i ∧ step i (trace step sched s n) ≠ none) k).mpr
    (hfair i ((frequently_shift (p := fun n => step i (trace step sched s n) ≠ none) k).mp hmoves))

/-! ## Leading to -/

/-- In every weakly fair run, a state with `P` is followed by one with `Q`. -/
def LeadsTo (step : ι → σ → Option σ) (P Q : σ → Prop) : Prop :=
  ∀ (sched : ℕ → ι) (s : σ), WeaklyFair step sched s → P s → ∃ n, Q (trace step sched s n)

variable {P Q R : σ → Prop}

theorem LeadsTo.trans (h : LeadsTo step P Q) (h' : LeadsTo step Q R) : LeadsTo step P R := by
  intro sched s hfair hs
  obtain ⟨k, hk⟩ := h sched s hfair hs
  obtain ⟨n, hn⟩ := h' _ _ (hfair.shift k) hk
  exact ⟨k + n, by rwa [trace_add]⟩

/-- What holds until something else comes in between is carried along. -/
theorem LeadsTo.carry {B : σ → Prop} (h : LeadsTo step P Q)
    (hkeep : ∀ {i s s'}, R s → step i s = some s' → B s' ∨ R s') :
    LeadsTo step (fun s => P s ∧ R s) (fun s => B s ∨ Q s ∧ R s) := by
  rintro sched s hfair ⟨hp, hr⟩
  obtain ⟨n, hn⟩ := h sched s hfair hp
  have hcarried : (∃ k, B (trace step sched s k)) ∨ R (trace step sched s n) := by
    clear hn
    induction n with
    | zero => exact .inr hr
    | succ n ih =>
        rcases ih with hb | hr'
        · exact .inl hb
        · cases hstep : step (sched n) (trace step sched s n) with
          | none => exact .inr (by rwa [trace_succ, hstep])
          | some s' =>
              have hnext : trace step sched s (n + 1) = s' := by
                rw [trace_succ, hstep]
                rfl
              rw [← hnext] at hstep
              exact (hkeep hr' hstep).imp (fun hb => ⟨n + 1, hb⟩) id
  rcases hcarried with ⟨k, hk⟩ | hr'
  · exact ⟨k, .inl hk⟩
  · exact ⟨n, .inr ⟨hn, hr'⟩⟩

/-- What no move ends, once reached, stays. -/
theorem LeadsTo.forever (h : LeadsTo step P Q) (hQ : Stable step Q) {sched : ℕ → ι} {s : σ}
    (hfair : WeaklyFair step sched s) (hs : P s) :
    ∃ n, ∀ m, n ≤ m → Q (trace step sched s m) := by
  obtain ⟨n, hn⟩ := h sched s hfair hs
  refine ⟨n, fun m hm => ?_⟩
  obtain ⟨k, rfl⟩ := Nat.exists_eq_add_of_le hm
  rw [trace_add]
  exact hQ.trace hn k

/-! ## The helper -/

section Rank

variable {ρ : Type*} [Preorder ρ] {help : σ → ι} {rank : σ → ρ}

/-- Until the helper has its turn the rank does not rise; then it falls. -/
theorem descends_by_turn
    (hmove : ∀ {s}, P s → ¬ Q s → ∃ s', step (help s) s = some s' ∧ (Q s' ∨ rank s' < rank s))
    (hkeep : ∀ {i s s'}, P s → ¬ Q s → step i s = some s' →
      Q s' ∨ P s' ∧ (rank s' < rank s ∨ rank s' = rank s ∧ help s' = help s))
    (m : ℕ) (sched : ℕ → ι) {s : σ} {r : ρ} (hs : P s) (hr : rank s = r)
    (hturn : sched m = help s ∨ step (help s) (trace step sched s m) = none) :
    ∃ n, Q (trace step sched s n) ∨
      P (trace step sched s n) ∧ rank (trace step sched s n) < r := by
  induction m generalizing sched s with
  | zero =>
      by_cases hq : Q s
      · exact ⟨0, .inl hq⟩
      obtain ⟨s', hstep, hlow⟩ := hmove hs hq
      rcases hturn with hturn | hpass
      · have hfirst := trace_of_move (hturn ▸ hstep) 0
        refine ⟨1 + 0, ?_⟩
        rw [hfirst, trace_zero]
        rcases hkeep hs hq hstep with hq' | ⟨hp', -⟩
        · exact .inl hq'
        · exact hlow.imp id fun hlt => ⟨hp', hr ▸ hlt⟩
      · -- the helper can move
        rw [trace_zero, hstep] at hpass
        cases hpass
  | succ m ih =>
      by_cases hq : Q s
      · exact ⟨0, .inl hq⟩
      rw [Nat.add_comm m 1] at hturn
      cases hstep : step (sched 0) s with
      | none =>
          rw [trace_of_pass hstep] at hturn
          obtain ⟨n, hn⟩ := ih (fun k => sched (1 + k)) hs hr hturn
          exact ⟨1 + n, by rwa [trace_of_pass hstep]⟩
      | some s' =>
          rw [trace_of_move hstep] at hturn
          rcases hkeep hs hq hstep with hq' | ⟨hp', hlt | ⟨heq, hhelp⟩⟩
          · exact ⟨1 + 0, .inl (by rwa [trace_of_move hstep])⟩
          · exact ⟨1 + 0, .inr (by rw [trace_of_move hstep]; exact ⟨hp', hr ▸ hlt⟩)⟩
          · rw [← hhelp] at hturn
            obtain ⟨n, hn⟩ := ih (fun k => sched (1 + k)) hp' (heq.trans hr) hturn
            exact ⟨1 + n, by rwa [trace_of_move hstep]⟩

/-- If in every state one agent can lower the rank, and no move of another raises
it or makes a different agent the helper at the same rank, the goal is reached. -/
theorem LeadsTo.of_rank [WellFoundedLT ρ] (help : σ → ι) (rank : σ → ρ)
    (hmove : ∀ {s}, P s → ¬ Q s → ∃ s', step (help s) s = some s' ∧ (Q s' ∨ rank s' < rank s))
    (hkeep : ∀ {i s s'}, P s → ¬ Q s → step i s = some s' →
      Q s' ∨ P s' ∧ (rank s' < rank s ∨ rank s' = rank s ∧ help s' = help s)) :
    LeadsTo step P Q := by
  intro sched s hfair hs
  induction hr : rank s using WellFoundedLT.induction generalizing sched s with
  | ind r ih =>
      obtain ⟨m, hturn⟩ := (hfair (help s)).exists
      obtain ⟨n, hq | ⟨hp, hlt⟩⟩ := descends_by_turn hmove hkeep m sched hs rfl hturn
      · exact ⟨n, hq⟩
      · obtain ⟨k, hk⟩ := ih _ (hr ▸ hlt) _ _ (hfair.shift n) hp rfl
        exact ⟨n + k, by rwa [trace_add]⟩

/-- One agent that comes nearer to the goal with each of its moves, whatever the
others do meanwhile. -/
theorem LeadsTo.of_agent [WellFoundedLT ρ] (i : ι) (rank : σ → ρ)
    (hmove : ∀ {s}, P s → ¬ Q s → ∃ s', step i s = some s' ∧ (Q s' ∨ rank s' < rank s))
    (hkeep : ∀ {j s s'}, P s → ¬ Q s → step j s = some s' → Q s' ∨ P s')
    (hother : ∀ {j s s'}, P s → j ≠ i → step j s = some s' → rank s' = rank s) :
    LeadsTo step P Q := by
  refine .of_rank (fun _ => i) rank hmove fun {j s s'} hs hq hstep => ?_
  rcases hkeep hs hq hstep with hq' | hp'
  · exact .inl hq'
  by_cases hj : j = i
  · subst hj
    obtain ⟨s₁, hstep₁, hlow⟩ := hmove hs hq
    obtain rfl : s₁ = s' := Option.some.inj (hstep₁.symm.trans hstep)
    exact hlow.imp id fun hlt => ⟨hp', .inl hlt⟩
  · exact .inr ⟨hp', .inr ⟨hother hs hj hstep, rfl⟩⟩

end Rank

/-! ## An agent that waits for the others -/

/-- In every strongly fair run, a state with `P` is followed by one with `Q`. -/
def StronglyLeadsTo (step : ι → σ → Option σ) (P Q : σ → Prop) : Prop :=
  ∀ (sched : ℕ → ι) (s : σ), StronglyFair step sched s → P s → ∃ n, Q (trace step sched s n)

theorem LeadsTo.strongly (h : LeadsTo step P Q) : StronglyLeadsTo step P Q :=
  fun sched s hfair hs => h sched s hfair.weaklyFair hs

/-- If `P` leads to the goal or else to `Q`, and `Q` to the goal, then `P` does. -/
theorem StronglyLeadsTo.or_else (h : StronglyLeadsTo step P fun s => R s ∨ Q s)
    (h' : StronglyLeadsTo step Q R) : StronglyLeadsTo step P R := by
  intro sched s hfair hs
  obtain ⟨k, hr | hq⟩ := h sched s hfair hs
  · exact ⟨k, hr⟩
  · obtain ⟨n, hn⟩ := h' _ _ (hfair.shift k) hq
    exact ⟨k + n, by rwa [trace_add]⟩

/-- If under `P` an agent can move again and again, and its move brings about the goal,
while the others keep `P`, then the goal is reached. -/
theorem StronglyLeadsTo.of_waiting (i : ι) (hcan : LeadsTo step P fun s => Q s ∨ step i s ≠ none)
    (hmove : ∀ {s s'}, P s → step i s = some s' → Q s')
    (hkeep : ∀ {j s s'}, P s → step j s = some s' → Q s' ∨ P s') : StronglyLeadsTo step P Q := by
  intro sched s hfair hs
  by_contra hnever
  have hnot : ∀ n, ¬ Q (trace step sched s n) := fun n hq => hnever ⟨n, hq⟩
  have hstays : ∀ n, P (trace step sched s n) := by
    intro n
    induction n with
    | zero => exact hs
    | succ n ih =>
        have hlast := hnot (n + 1)
        rw [trace_succ] at hlast ⊢
        cases hstep : step (sched n) (trace step sched s n) with
        | none => exact ih
        | some s' =>
            rw [hstep] at hlast
            exact (hkeep ih hstep).resolve_left hlast
  have hmoves : ∃ᶠ n in Filter.atTop, step i (trace step sched s n) ≠ none := by
    refine Filter.frequently_atTop.mpr fun a => ?_
    obtain ⟨n, hn⟩ := hcan _ _ (hfair.weaklyFair.shift a) (hstays a)
    rw [← trace_add] at hn
    exact ⟨a + n, Nat.le_add_right a n, hn.resolve_left (hnot _)⟩
  obtain ⟨n, hturn, hgo⟩ := (hfair i hmoves).exists
  obtain ⟨s', hstep⟩ := Option.ne_none_iff_exists'.mp hgo
  apply hnot (n + 1)
  rw [trace_succ, hturn, hstep]
  exact hmove (hstays n) hstep

/-! ## Making fair schedules -/

/-- The agents of a list in turn, for ever. -/
def roundRobin (is : List ι) (h : 0 < is.length) (n : ℕ) : ι :=
  is.get ⟨n % is.length, Nat.mod_lt n h⟩

theorem everyTurn_roundRobin {is : List ι} (h : 0 < is.length) (hall : ∀ i, i ∈ is) :
    EveryTurn (roundRobin is h) := by
  intro i
  obtain ⟨k, hk⟩ := List.mem_iff_get.mp (hall i)
  refine Filter.frequently_atTop.mpr fun a => ⟨k + a * is.length, ?_, ?_⟩
  · exact (Nat.le_mul_of_pos_right a h).trans (Nat.le_add_left _ _)
  · rw [← hk]
    refine congrArg is.get (Fin.ext ?_)
    simp [Nat.mod_eq_of_lt k.isLt]

/-- A finite schedule, and then an infinite one. -/
def before (is : List ι) (sched : ℕ → ι) : ℕ → ι :=
  match is with
  | [] => sched
  | i :: is => fun
    | 0 => i
    | n + 1 => before is sched n

theorem EveryTurn.before {sched : ℕ → ι} (hturn : EveryTurn sched) (is : List ι) :
    EveryTurn (before is sched) := by
  induction is with
  | nil => exact hturn
  | cons i is ih =>
      intro j
      refine Filter.frequently_atTop.mpr fun a => ?_
      obtain ⟨n, hle, hn⟩ := Filter.frequently_atTop.mp (ih j) a
      exact ⟨n + 1, Nat.le_succ_of_le hle, hn⟩

/-- The state after the turns of a list. -/
def turns (step : ι → σ → Option σ) (is : List ι) (s : σ) : σ :=
  is.foldl (fun s i => (step i s).getD s) s

theorem turns_append (is js : List ι) (s : σ) :
    turns step (is ++ js) s = turns step js (turns step is s) := List.foldl_append

/-- A schedule without a turn in vain. -/
theorem turns_of_run {is : List ι} {s s' : σ} (hrun : run step is s = some s') :
    turns step is s = s' := by
  induction is generalizing s with
  | nil =>
      obtain rfl : s = s' := by simpa using hrun
      rfl
  | cons i is ih =>
      obtain ⟨s₁, h₁, h₂⟩ := Option.bind_eq_some_iff.mp hrun
      show turns step is ((step i s).getD s) = s'
      rw [h₁]
      exact ih h₂

/-- Agents that cannot move change nothing. -/
theorem turns_of_pass {is : List ι} {s : σ} (hpass : ∀ i ∈ is, step i s = none) :
    turns step is s = s := by
  induction is with
  | nil => rfl
  | cons i is ih =>
      show turns step is ((step i s).getD s) = s
      rw [hpass i List.mem_cons_self]
      exact ih fun j hj => hpass j (List.mem_cons_of_mem _ hj)

/-- After the finite schedule the infinite one takes over. -/
theorem trace_before (is : List ι) (sched : ℕ → ι) (s : σ) (n : ℕ) :
    trace step (before is sched) s (is.length + n) = trace step sched (turns step is s) n := by
  induction is generalizing s with
  | nil =>
      rw [List.length_nil, Nat.zero_add]
      rfl
  | cons i is ih =>
      have hsplit : (i :: is).length + n = 1 + (is.length + n) := by
        rw [List.length_cons]
        omega
      have hrest : (fun m => before (i :: is) sched (1 + m)) = before is sched := by
        funext m
        rw [Nat.add_comm]
        rfl
      rw [hsplit, trace_add, hrest]
      exact ih _

theorem before_of_lt {is : List ι} (sched : ℕ → ι) {n : ℕ} (hn : n < is.length) :
    before is sched n = is.get ⟨n, hn⟩ := by
  induction is generalizing n with
  | nil => exact absurd hn (Nat.not_lt_zero n)
  | cons i is ih =>
      cases n with
      | zero => rfl
      | succ n => exact ih (Nat.lt_of_succ_lt_succ hn)

theorem before_length_add (is : List ι) (sched : ℕ → ι) (n : ℕ) :
    before is sched (is.length + n) = sched n := by
  induction is with
  | nil =>
      rw [List.length_nil, Nat.zero_add]
      rfl
  | cons i is ih =>
      have hsplit : (i :: is).length + n = is.length + n + 1 := by
        rw [List.length_cons]
        omega
      rw [hsplit]
      exact ih

theorem before_roundRobin {is : List ι} (h : 0 < is.length) :
    before is (roundRobin is h) = roundRobin is h := by
  funext n
  rcases Nat.lt_or_ge n is.length with hlt | hge
  · rw [before_of_lt _ hlt]
    refine congrArg is.get (Fin.ext ?_)
    exact (Nat.mod_eq_of_lt hlt).symm
  · obtain ⟨m, rfl⟩ := Nat.exists_eq_add_of_le hge
    rw [before_length_add]
    refine congrArg is.get (Fin.ext ?_)
    exact (Nat.add_mod_left _ _).symm

/-- What a round keeps holds at the beginning of every round. -/
theorem trace_roundRobin {is : List ι} (h : 0 < is.length)
    (hround : ∀ {s}, P s → P (turns step is s)) {s : σ} (hs : P s) (k : ℕ) :
    P (trace step (roundRobin is h) s (k * is.length)) := by
  induction k generalizing s with
  | zero =>
      rw [Nat.zero_mul]
      exact hs
  | succ k ih =>
      rw [Nat.succ_mul, Nat.add_comm, ← before_roundRobin h, trace_before]
      exact ih (hround hs)

/-- No turn of a finite schedule that can be run is in vain. -/
theorem moves_of_run {is : List ι} (sched : ℕ → ι) {s s' : σ} (hrun : run step is s = some s')
    {k : ℕ} (hk : k < is.length) :
    step (before is sched k) (trace step (before is sched) s k) ≠ none := by
  induction is generalizing s k with
  | nil => exact absurd hk (Nat.not_lt_zero k)
  | cons i is ih =>
      obtain ⟨s₁, h₁, h₂⟩ := Option.bind_eq_some_iff.mp hrun
      have hfirst : step (before (i :: is) sched 0) s = some s₁ := h₁
      cases k with
      | zero =>
          rw [trace_zero, hfirst]
          nofun
      | succ k =>
          have hrest : (fun m => before (i :: is) sched (1 + m)) = before is sched := by
            funext m
            rw [Nat.add_comm]
            rfl
          have hlater := ih h₂ (Nat.lt_of_succ_lt_succ hk)
          rw [Nat.add_comm k 1, trace_of_move hfirst, hrest, Nat.add_comm 1 k]
          exact hlater

/-- If every round can be run, no turn at all is in vain. -/
theorem moves_of_rounds {is : List ι} (h : 0 < is.length)
    (hround : ∀ {s}, P s → ∃ s', run step is s = some s' ∧ P s') {s : σ} (hs : P s) (k : ℕ) :
    step (roundRobin is h k) (trace step (roundRobin is h) s k) ≠ none := by
  induction k using Nat.strongRecOn generalizing s with
  | ind k ih =>
      obtain ⟨s', hrun, hs'⟩ := hround hs
      rcases Nat.lt_or_ge k is.length with hlt | hge
      · have hmoves := moves_of_run (roundRobin is h) hrun hlt
        rwa [before_roundRobin h] at hmoves
      · obtain ⟨j, rfl⟩ := Nat.exists_eq_add_of_le hge
        have hlater := ih j (by omega) hs'
        rw [← before_roundRobin h, before_length_add, trace_before, turns_of_run hrun]
        exact hlater

/-- A schedule without a turn in vain is strongly fair if every agent has its turns. -/
theorem EveryTurn.stronglyFair {sched : ℕ → ι} (hturn : EveryTurn sched) {s : σ}
    (hmoves : ∀ n, step (sched n) (trace step sched s n) ≠ none) : StronglyFair step sched s :=
  fun i _ => (hturn i).mono fun n hn => ⟨hn, hn ▸ hmoves n⟩

end Smoll.Sched
