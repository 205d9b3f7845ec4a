/-
# `Smoll.Buffer.Fairness` — whether the buffer is ever used again

A thread that finds the buffer full or empty leaves its section by `continue`
and comes back to `with s` at once, so the semaphore changes hands for ever
even when no item moves.  What moves the items is that a thread which can do
something gets the semaphore.

`goes_on_forever`: when the run is strongly fair, that is, a thread that finds
the semaphore free again and again takes it again and again, one producer and
one consumer are enough for any number of items to go through, whatever the
other threads are.  A full buffer is a chance for the consumer, any other one a
chance for the producer (`Ready`), and it stays one until somebody uses it.

`may_stall` says that turns alone do not do: there is a schedule on which every
thread has its turn again and again, each of the others just then when
a producer is inside, and nothing is ever consumed.
-/
import Smoll.Buffer.Semaphore
import Smoll.Lib.Entering
import Mathlib.Data.Finset.Dedup
import Mathlib.Data.Fintype.Basic

namespace Smoll.Buffer

open Critical Sched

variable {T : Type} [DecidableEq T] {target : T → Target} {n : Nat} {s s' : System T Pc Globals}

/-! ## The items that have moved -/

/-- The items ever put in, and those ever taken out. -/
def Globals.moved (g : Globals) : Nat := g.produced + g.consumed

/-- A move leaves the items alone, or it is the `store` of one. -/
theorem moved_step {t : T} (h : step (move target n) t s = some s') :
    (s'.shared.produced = s.shared.produced ∧ s'.shared.consumed = s.shared.consumed) ∨
    (s.pc t = .store ∧ target t = .produce ∧ s'.shared.produced = s.shared.produced + 1 ∧
      s'.shared.consumed = s.shared.consumed) ∨
    (s.pc t = .store ∧ target t = .consume ∧ s'.shared.produced = s.shared.produced ∧
      s'.shared.consumed = s.shared.consumed + 1) := by
  rcases step_cases h with ⟨l, -, rfl⟩ | ⟨l, -, -, rfl⟩ | ⟨l, g, hmove, rfl⟩ | ⟨l, -, rfl⟩
  · exact .inl ⟨rfl, rfl⟩
  · exact .inl ⟨rfl, rfl⟩
  · unfold move at hmove
    cases htarget : target t with
    | produce =>
        rw [htarget] at hmove
        cases hpc : s.pc t <;> rw [hpc] at hmove
        case check =>
          simp only [produce] at hmove
          split at hmove <;> cases hmove <;> exact .inl ⟨rfl, rfl⟩
        case store =>
          cases hmove
          exact .inr (.inl ⟨rfl, rfl, rfl, rfl⟩)
        all_goals
          cases hmove
          try exact .inl ⟨rfl, rfl⟩
    | consume =>
        rw [htarget] at hmove
        cases hpc : s.pc t <;> rw [hpc] at hmove
        case check =>
          simp only [consume] at hmove
          split at hmove <;> cases hmove <;> exact .inl ⟨rfl, rfl⟩
        case store =>
          cases hmove
          exact .inr (.inr ⟨rfl, rfl, rfl, rfl⟩)
        all_goals
          cases hmove
          try exact .inl ⟨rfl, rfl⟩
  · exact .inl ⟨rfl, rfl⟩

/-- The numbers of items only grow. -/
theorem stable_moved (b c : Nat) : Stable (step (move target n))
    (fun s : System T Pc Globals => b ≤ s.shared.produced ∧ c ≤ s.shared.consumed) := by
  rintro t s s' ⟨hp, hq⟩ hstep
  rcases moved_step hstep with ⟨hp', hq'⟩ | ⟨-, -, hp', hq'⟩ | ⟨-, -, hp', hq'⟩ <;> omega

/-! ## A chance -/

/-- There is room for a producer, or an item for a consumer.  This is told by the items that have
moved, which are what they are from one `store` to the next. -/
def Ready (n : Nat) (g : Globals) : Target → Prop
  | .produce => g.produced ≠ g.consumed + n
  | .consume => g.produced ≠ g.consumed

/-- `m` items have moved, and the thread could move the next one. -/
def Chance (target : T → Target) (n m : Nat) (t : T) (s : System T Pc Globals) : Prop :=
  s.shared.moved = m ∧ Ready n s.shared (target t)

/-- More than `m` items have moved. -/
def Used (m : Nat) (s : System T Pc Globals) : Prop := m < s.shared.moved

/-- A chance stays one until it is used. -/
theorem Chance.step {m : Nat} {t u : T} (h : Chance target n m t s)
    (hstep : Critical.step (move target n) u s = some s') : Used m s' ∨ Chance target n m t s' := by
  obtain ⟨hmoved, hready⟩ := h
  unfold Used Chance Globals.moved at *
  rcases moved_step hstep with ⟨hp, hq⟩ | ⟨-, -, hp, hq⟩ | ⟨-, -, hp, hq⟩
  · refine .inr ⟨by omega, ?_⟩
    unfold Ready at *
    rw [hp, hq]
    exact hready
  · exact .inl (by omega)
  · exact .inl (by omega)

/-- On its way from the check to the store. -/
def Pc.working : Pc → Bool
  | .check | .store => true
  | _ => false

omit [DecidableEq T] in
/-- A thread with a chance passes the check, and stores. -/
theorem Ready.move {t : T} {l : Pc} {g : Globals} (hready : Ready n g (target t))
    (hpc : l.working) (hknows : Knows target n t l g) :
    ∃ l' g', Buffer.move target n t l g = .work l' g' ∧ (l'.working ∨ g.moved < g'.moved) := by
  unfold Buffer.move Ready Knows at *
  cases htarget : target t with
  | produce =>
      rw [htarget] at hready hknows
      cases l with
      | check =>
          obtain ⟨k, hk⟩ := hknows
          have hroom : ¬ g.counter = n := by
            have haccount := hk.account
            omega
          exact ⟨.store, g, if_neg hroom, .inl rfl⟩
      | store =>
          refine ⟨_, _, rfl, .inr ?_⟩
          simp only [Globals.moved]
          omega
      | _ => cases hpc
  | consume =>
      rw [htarget] at hready hknows
      cases l with
      | check =>
          obtain ⟨k, hk⟩ := hknows
          have hitem : ¬ g.counter = 0 := by
            have haccount := hk.account
            omega
          exact ⟨.store, g, if_neg hitem, .inl rfl⟩
      | store =>
          refine ⟨_, _, rfl, .inr ?_⟩
          simp only [Globals.moved]
          omega
      | _ => cases hpc

/-- Every run keeps the sections exclusive. -/
abbrev Apart (target : T → Target) (n : Nat) (s : System T Pc Globals) : Prop :=
  Exclusive Inside (Free n) (Knows target n) s

theorem inside_of_working {l : Pc} (h : l.working) : Inside l := by
  cases l <;> trivial

/-- A thread that has come in with a chance uses it, if nobody has before. -/
theorem Chance.work {m : Nat} {t u : T} (h : Chance target n m t s) (hapart : Apart target n s)
    (hpc : (s.pc t).working) (hstep : Critical.step (move target n) u s = some s') :
    Used m s' ∨ Chance target n m t s' ∧ (s'.pc t).working := by
  rcases h.step hstep with hused | hchance
  · exact .inl hused
  rcases Classical.em (u = t) with rfl | hne
  · have hknows := (hapart.of_inside (inside_of_working hpc)).2.2
    obtain ⟨l, g, hmove, hkind⟩ := h.2.move hpc hknows
    rw [step_work hmove] at hstep
    cases hstep
    rcases hkind with hworking | hmoved
    · refine .inr ⟨hchance, ?_⟩
      show (Function.update s.pc u l u).working
      rw [Function.update_self]
      exact hworking
    · exact .inl (h.1 ▸ hmoved)
  · refine .inr ⟨hchance, ?_⟩
    rw [step_pc hstep (Ne.symm hne)]
    exact hpc

/-! ## Every chance is used -/

theorem Apart.step {u : T} (h : Apart target n s)
    (hstep : Critical.step (move target n) u s = some s') : Apart target n s' :=
  (rule target n).step h hstep

omit [DecidableEq T] in
theorem move_acquire (t : T) (g : Globals) : move target n t .acquire g = .acquire .check := by
  unfold move
  cases target t <;> rfl

omit [DecidableEq T] in
theorem move_sleep (t : T) (g : Globals) : move target n t .sleep g = .skip .acquire := by
  unfold move
  cases target t <;> rfl

omit [DecidableEq T] in
/-- Some thread has a chance. -/
theorem exists_chance {p c : T} (hn : 1 ≤ n) (hp : target p = .produce) (hc : target c = .consume)
    (s : System T Pc Globals) : ∃ t, Chance target n s.shared.moved t s := by
  rcases Classical.em (s.shared.produced = s.shared.consumed + n) with hfull | hroom
  · refine ⟨c, rfl, ?_⟩
    rw [hc]
    show s.shared.produced ≠ s.shared.consumed
    omega
  · refine ⟨p, rfl, ?_⟩
    rw [hp]
    exact hroom

/-- What a thread that has a chance counts on. -/
def Counting (target : T → Target) (n m : Nat) (t : T) (s : System T Pc Globals) : Prop :=
  Apart target n s ∧ Chance target n m t s

theorem Counting.step {m : Nat} {t u : T} (h : Counting target n m t s)
    (hstep : Critical.step (move target n) u s = some s') :
    Used m s' ∨ Counting target n m t s' :=
  (h.2.step hstep).imp id fun hchance => ⟨h.1.step hstep, hchance⟩

/-- A chance is used once the thread has come in. -/
theorem working_uses {m : Nat} (t : T) :
    LeadsTo (step (move target n))
      (fun s => Counting target n m t s ∧ (s.pc t).working) (Used m) := by
  refine (rule target n).finishes rank rank_lt (fun h => inside_of_working h.2) ?_
  rintro u s s' ⟨hcount, hpc⟩ hstep
  exact (hcount.2.work hcount.1 hpc hstep).imp id fun ⟨hchance, hpc'⟩ =>
    ⟨⟨hcount.1.step hstep, hchance⟩, hpc'⟩

/-- A chance of a thread outside is used. -/
theorem chance_uses {m : Nat} (t : T) :
    StronglyLeadsTo (step (move target n))
      (fun s => Counting target n m t s ∧ ¬ Inside (s.pc t)) (Used m) := by
  have : Nonempty T := ⟨t⟩
  have hin : StronglyLeadsTo (step (move target n))
      (fun s => Counting target n m t s ∧ s.pc t = .acquire) (Used m) := by
    refine ((rule target n).enters rank rank_lt (move_acquire t) Counting.step).or_else ?_
    intro sched s hfair hs
    exact (working_uses t).strongly sched s hfair ⟨hs.1, by rw [hs.2]; rfl⟩
  have hwake : StronglyLeadsTo (step (move target n))
      (fun s => Counting target n m t s ∧ s.pc t = .sleep) (Used m) :=
    (leadsTo_skip (move_sleep t) Counting.step).strongly.or_else hin
  rintro sched s hfair ⟨hcount, hout⟩
  cases hpc : s.pc t with
  | acquire => exact hin sched s hfair ⟨hcount, hpc⟩
  | sleep => exact hwake sched s hfair ⟨hcount, hpc⟩
  | _ => exact absurd (by rw [hpc]; trivial) hout

/-- In a strongly fair run another item moves. -/
theorem another_moves {p c : T} (hn : 1 ≤ n) (hp : target p = .produce)
    (hc : target c = .consume) (m : Nat) :
    StronglyLeadsTo (step (move target n)) (fun s => Apart target n s ∧ m ≤ s.shared.moved)
      (Used m) := by
  have : Nonempty T := ⟨p⟩
  have hmore : ∀ {t : T} {s s' : System T Pc Globals}, m ≤ s.shared.moved →
      step (move target n) t s = some s' → False ∨ m ≤ s'.shared.moved := by
    intro t s s' hm hstep
    unfold Globals.moved at *
    rcases moved_step hstep with ⟨hp, hq⟩ | ⟨-, -, hp, hq⟩ | ⟨-, -, hp, hq⟩ <;>
      exact .inr (by omega)
  have hopens := (((rule target n).opens rank rank_lt).carry (B := fun _ => False) hmore).strongly
  intro sched s hfair hs
  obtain ⟨k, hk⟩ := hopens sched s hfair hs
  obtain ⟨⟨hapart, hopen⟩, hm⟩ := hk.resolve_left id
  obtain ⟨t, ht⟩ := exists_chance hn hp hc (trace (step (move target n)) sched s k)
  obtain ⟨j, hj⟩ := chance_uses t _ _ (hfair.shift k) ⟨⟨hapart, ht⟩, hopen t⟩
  rw [← trace_add] at hj
  exact ⟨k + j, Nat.lt_of_le_of_lt hm hj⟩

/-- Any number of items moves. -/
theorem many_move {p c : T} (hn : 1 ≤ n) (hp : target p = .produce) (hc : target c = .consume)
    (m : Nat) : StronglyLeadsTo (step (move target n)) (Apart target n)
      (fun s => Apart target n s ∧ m ≤ s.shared.moved) := by
  induction m with
  | zero => exact fun _ _ _ hs => ⟨0, hs, Nat.zero_le _⟩
  | succ m ih =>
      intro sched s hfair hs
      obtain ⟨k, hk⟩ := ih sched s hfair hs
      obtain ⟨j, hj⟩ := another_moves hn hp hc m _ _ (hfair.shift k) hk
      have hapart : Stable (step (move target n)) (Apart target n) := Apart.step
      exact ⟨k + j, hapart.trace hs _, by rw [trace_add]; exact hj⟩

/-- In every strongly fair run with a producer and a consumer, any number of items is
produced, and consumed, sooner or later. -/
theorem goes_on_forever (target : T → Target) {n : Nat} (hn : 1 ≤ n) {p c : T}
    (hp : target p = .produce) (hc : target c = .consume) {sched : ℕ → T}
    (hfair : StronglyFair (step (move target n)) sched (start n)) (b : Nat) :
    ∃ k, ∀ k', k ≤ k' → b ≤ (trace (step (move target n)) sched (start n) k').shared.produced ∧
      b ≤ (trace (step (move target n)) sched (start n) k').shared.consumed := by
  obtain ⟨k, hapart, hmany⟩ := many_move hn hp hc (2 * b + n) sched _ hfair (exclusive hn (.refl _))
  have hrange := (inRange_of_exclusive hapart).moved
  unfold Globals.moved at hmany
  have hboth : b ≤ (trace (step (move target n)) sched (start n) k).shared.produced ∧
      b ≤ (trace (step (move target n)) sched (start n) k).shared.consumed := by omega
  refine ⟨k, fun k' hk' => ?_⟩
  obtain ⟨j, rfl⟩ := Nat.exists_eq_add_of_le hk'
  rw [trace_add]
  exact Stable.trace (stable_moved b b) hboth j

/-- Thread 0 produces, thread 1 consumes. -/
def twoThreads : Fin 2 → Target
  | 0 => .produce
  | 1 => .consume

/-- One slot and two threads, between two items. -/
def atRest (a b : Nat) : System (Fin 2) Pc Globals :=
  { semaphore := 1
    pc := fun _ => .acquire
    shared := ⟨[" "], 0, 0, 0, a, b⟩ }

/-- Each of the two threads through its loop. -/
def oneEach : List (Fin 2) := List.replicate 7 0 ++ List.replicate 7 1

theorem run_oneEach (a b : Nat) :
    run (step (move twoThreads 1)) oneEach (atRest a b) = some (atRest (a + 1) (b + 1)) := by
  simp [oneEach, List.replicate, step, move, twoThreads, produce, consume, atRest]

/-- By turns, one item and then the next. -/
theorem goes_on_forever_oneEach :
    ∃ k, ∀ k', k ≤ k' →
      20 ≤ (trace (step (move twoThreads 1)) (roundRobin oneEach (by decide)) (start 1)
        k').shared.produced ∧
      20 ≤ (trace (step (move twoThreads 1)) (roundRobin oneEach (by decide)) (start 1)
        k').shared.consumed := by
  have hround : ∀ {s : System (Fin 2) Pc Globals}, (∃ a b, s = atRest a b) →
      ∃ s', run (step (move twoThreads 1)) oneEach s = some s' ∧ ∃ a b, s' = atRest a b := by
    rintro s ⟨a, b, rfl⟩
    exact ⟨_, run_oneEach a b, a + 1, b + 1, rfl⟩
  have hturn : EveryTurn (roundRobin oneEach (by decide)) :=
    everyTurn_roundRobin _ (by decide)
  have hmoves := moves_of_rounds (by decide) hround ⟨0, 0, rfl⟩
  exact goes_on_forever twoThreads (Nat.le_refl 1) (p := 0) (c := 1) rfl rfl
    (hturn.stronglyFair hmoves) 20

/-! ## Turns alone -/

/-- Nobody is inside or asleep, and `k` items have been put in. -/
structure Waiting (k : Nat) (s : System T Pc Globals) : Prop where
  free : s.semaphore = 1
  pc : ∀ t, s.pc t = .acquire
  counter : s.shared.counter = k
  consumed : s.shared.consumed = 0

/-- One producer fills the next slot. -/
theorem Waiting.produces {k : Nat} (h : Waiting k s) (hk : k < n) {p : T}
    (hp : target p = .produce) :
    ∃ s', run (step (move target n)) (List.replicate 7 p) s = some s' ∧ Waiting (k + 1) s' := by
  obtain ⟨semaphore, pc, g⟩ := s
  obtain ⟨rfl, hpc, hcounter, hconsumed⟩ := h
  obtain rfl : pc = fun _ => .acquire := funext hpc
  have hcount : g.counter = k := hcounter
  have hroom : ¬ g.counter = n := by
    rw [hcount]
    omega
  have hrun : run (step (move target n)) (List.replicate 7 p)
      { semaphore := 1, pc := fun _ => .acquire, shared := g } =
      some { semaphore := 1, pc := fun _ => .acquire, shared := g.produced' n } := by
    simp [List.replicate, step, move, hp, produce, hroom, Globals.produced']
  refine ⟨_, hrun, rfl, fun _ => rfl, ?_, hconsumed⟩
  show g.counter + 1 = _
  rw [hcount]
  rfl

/-- The producer fills the buffer. -/
theorem exists_filled (target : T → Target) {p : T} (hp : target p = .produce) (k : Nat)
    (hk : k ≤ n) :
    ∃ is s, run (step (move target n)) is (start n) = some s ∧ Waiting k s := by
  induction k with
  | zero => exact ⟨[], start n, rfl, rfl, fun _ => rfl, rfl, rfl⟩
  | succ k ih =>
      obtain ⟨is, s, hrun, hs⟩ := ih (Nat.le_of_succ_le hk)
      obtain ⟨s', hrun', hs'⟩ := hs.produces hk hp
      exact ⟨_, s', run_append.mpr ⟨s, hrun, hrun'⟩, hs'⟩

/-- A producer comes in, every other thread has its turn in vain, and the producer,
which finds the buffer full, goes out again. -/
def spin (p : T) (others : List T) : List T := [p] ++ others ++ [p, p]

theorem Waiting.spins (h : Waiting n s) {p : T} (hp : target p = .produce) {others : List T}
    (hothers : p ∉ others) : Waiting n (turns (step (move target n)) (spin p others) s) := by
  obtain ⟨semaphore, pc, g⟩ := s
  obtain ⟨rfl, hpc, hcounter, hconsumed⟩ := h
  obtain rfl : pc = fun _ => .acquire := funext hpc
  have hfull : g.counter = n := hcounter
  -- the producer comes in
  have hin : turns (step (move target n)) [p]
      { semaphore := 1, pc := fun _ => .acquire, shared := g } =
      { semaphore := 0, pc := Function.update (fun _ => .acquire) p .check, shared := g } := by
    refine turns_of_run ?_
    simp [step, move, hp, produce]
  -- the others wait
  have hpass : turns (step (move target n)) others
      { semaphore := 0, pc := Function.update (fun _ => .acquire) p .check, shared := g } =
      { semaphore := 0, pc := Function.update (fun _ => .acquire) p .check, shared := g } := by
    refine turns_of_pass fun t ht => ?_
    have hne : t ≠ p := fun heq => hothers (heq ▸ ht)
    have hwaits : move target n t (Function.update (fun _ => Pc.acquire) p Pc.check t) g
        = .acquire .check := by
      rw [Function.update_of_ne hne]
      exact move_acquire t g
    exact step_wait hwaits rfl
  -- and it goes out
  have hout : turns (step (move target n)) [p, p]
      { semaphore := 0, pc := Function.update (fun _ => .acquire) p .check, shared := g } =
      { semaphore := 1, pc := fun _ => .acquire, shared := g } := by
    refine turns_of_run ?_
    simp [step, move, hp, produce, hfull]
  unfold spin
  rw [turns_append, turns_append, hin, hpass, hout]
  exact ⟨rfl, fun _ => rfl, hcounter, hconsumed⟩

/-- However many threads there are, there is a schedule on which each of them has its
turn again and again and nothing is ever consumed. -/
theorem may_stall [Fintype T] (target : T → Target) {n : Nat} (hn : 1 ≤ n) {p : T}
    (hp : target p = .produce) :
    ∃ sched : ℕ → T, EveryTurn sched ∧
      ∀ k, (trace (step (move target n)) sched (start n) k).shared.consumed = 0 ∧
        (trace (step (move target n)) sched (start n) k).shared.produced ≤ n := by
  obtain ⟨is, s, hrun, hs⟩ := exists_filled target hp n (Nat.le_refl n)
  let others := Finset.univ.toList.filter (· ≠ p)
  have hlength : 0 < (spin p others).length := by simp [spin]
  have hmem : ∀ t, t ∈ spin p others := by
    intro t
    rcases Classical.em (t = p) with rfl | hne
    · simp [spin]
    · simp [spin, others, hne]
  have hothers : p ∉ others := by simp [others]
  let sched := before is (roundRobin (spin p others) hlength)
  have hlate : ∀ k, ∃ j, k ≤ j ∧
      (trace (step (move target n)) sched (start n) j).shared.consumed = 0 := by
    intro k
    refine ⟨is.length + k * (spin p others).length, ?_, ?_⟩
    · exact Nat.le_add_left_of_le (Nat.le_mul_of_pos_right k hlength)
    · rw [trace_before, turns_of_run hrun]
      exact (trace_roundRobin hlength (fun hs => hs.spins hp hothers) hs k).consumed
  have hlost : Stable (step (move target n))
      (fun s : System T Pc Globals => ¬ s.shared.consumed = 0) := by
    intro t s s' hsome hstep
    obtain ⟨-, hgrows⟩ := stable_moved 0 1 ⟨Nat.zero_le _, Nat.one_le_iff_ne_zero.mpr hsome⟩ hstep
    exact Nat.one_le_iff_ne_zero.mp hgrows
  refine ⟨sched, (everyTurn_roundRobin hlength hmem).before is, fun k => ?_⟩
  have hnone : (trace (step (move target n)) sched (start n) k).shared.consumed = 0 :=
    always_of_frequently hlost hlate k
  have hreach : Reaches (step (move target n)) (start n)
      (trace (step (move target n)) sched (start n) k) := reaches_trace sched (start n) k
  have hrange := (inRange_of_exclusive (exclusive hn hreach)).moved
  exact ⟨hnone, by omega⟩

/-- Three producers and a consumer. -/
theorem may_stall_four :
    ∃ sched : ℕ → Fin 4, EveryTurn sched ∧ ∀ k,
      (trace (step (move (fun t => if t = 3 then .consume else .produce) 10)) sched (start 10)
        k).shared.consumed = 0 ∧
      (trace (step (move (fun t => if t = 3 then .consume else .produce) 10)) sched (start 10)
        k).shared.produced ≤ 10 :=
  may_stall (fun t : Fin 4 => if t = 3 then .consume else .produce) (by decide) (p := 0) rfl

end Smoll.Buffer
