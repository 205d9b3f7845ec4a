/-
# `Smoll.Buffer.Semaphore` — the bounded buffer of `boundedbuffer_semaphore.py`

Threads that produce and threads that consume, over one ring of slots; every
access is inside a `with s:`, which a full or an empty buffer leaves at once by
`continue`.  Each statement is a move of its own, and the threads are
interleaved in any way.

`Settled n k` is the buffer between two sections, with `k` items: the slots
with an `x` are the `k` slots from the consumer index on.  Full and empty have
the same indices and are told apart by the counter only.
-/
import Smoll.Lib.Critical
import Mathlib.Data.List.Basic
import Mathlib.Data.Nat.ModEq

namespace Smoll.Buffer

open Critical

/-! ## The source -/

/-- The globals, with the number of items ever put into a slot and taken out of one. -/
structure Globals where
  buf : List String
  producerIdx : Nat
  consumerIdx : Nat
  counter : Int
  produced : Nat
  consumed : Nat
  deriving DecidableEq, Repr

def Globals.init (bufSize : Nat) : Globals :=
  { buf := List.replicate bufSize " "
    producerIdx := 0
    consumerIdx := 0
    counter := 0
    produced := 0
    consumed := 0 }

/-- Where a thread is: at `with s`, at the check, at the three statements of the section, at
`continue`, at the end of the section, in `sleep`. -/
inductive Pc where
  | acquire
  | check
  | store
  | advance
  | count
  | continue'
  | leave
  | sleep
  deriving DecidableEq, Repr

def produce (bufSize : Nat) : Pc → Globals → Move Pc Globals
  | .acquire, _ => .acquire .check
  | .check, g => if g.counter = bufSize then .work .continue' g else .work .store g
  | .store, g =>
      .work .advance { g with buf := g.buf.set g.producerIdx "x", produced := g.produced + 1 }
  | .advance, g => .work .count { g with producerIdx := (g.producerIdx + 1) % bufSize }
  | .count, g => .work .leave { g with counter := g.counter + 1 }
  | .continue', _ => .release .acquire
  | .leave, _ => .release .sleep
  | .sleep, _ => .skip .acquire

def consume (bufSize : Nat) : Pc → Globals → Move Pc Globals
  | .acquire, _ => .acquire .check
  | .check, g => if g.counter = 0 then .work .continue' g else .work .store g
  | .store, g =>
      .work .advance { g with buf := g.buf.set g.consumerIdx " ", consumed := g.consumed + 1 }
  | .advance, g => .work .count { g with consumerIdx := (g.consumerIdx + 1) % bufSize }
  | .count, g => .work .leave { g with counter := g.counter - 1 }
  | .continue', _ => .release .acquire
  | .leave, _ => .release .sleep
  | .sleep, _ => .skip .acquire

/-- What a thread runs. -/
inductive Target where
  | produce
  | consume
  deriving DecidableEq, Repr

variable {T : Type}

/-- Any number of threads, each with its target. -/
def move (target : T → Target) (bufSize : Nat) (t : T) : Pc → Globals → Move Pc Globals :=
  match target t with
  | .produce => produce bufSize
  | .consume => consume bufSize

def start (bufSize : Nat) : System T Pc Globals :=
  { semaphore := 1, pc := fun _ => .acquire, shared := .init bufSize }

/-! ## The ring -/

/-- Between two sections, with `k` items in `n` slots. -/
structure Settled (n k : Nat) (g : Globals) : Prop where
  le : k ≤ n
  counter : g.counter = k
  account : g.counter = g.produced - g.consumed
  length : g.buf.length = n
  consumer : g.consumerIdx < n
  producer : g.producerIdx = (g.consumerIdx + k) % n
  slots : ∀ j < n, g.buf[(g.consumerIdx + j) % n]? = some (if j < k then "x" else " ")

/-- Places less than a turn apart are different slots. -/
theorem place_inj {n c i j : Nat} (hi : i < n) (hj : j < n) (h : (c + i) % n = (c + j) % n) :
    i = j := by
  have hmod : i % n = j % n := Nat.ModEq.add_left_cancel' c h
  rwa [Nat.mod_eq_of_lt hi, Nat.mod_eq_of_lt hj] at hmod

theorem settled_init {n : Nat} (hn : 0 < n) : Settled n 0 (.init n) where
  le := Nat.zero_le n
  counter := rfl
  account := rfl
  length := List.length_replicate
  consumer := hn
  producer := (Nat.zero_mod n).symm
  slots := by
    intro j hj
    have hj' : (0 + j) % n < n := Nat.mod_lt _ hn
    show (List.replicate n " ")[(0 + j) % n]? = some " "
    rw [List.getElem?_replicate, if_pos hj']

/-- The three statements of `produce`. -/
def Globals.produced' (n : Nat) (g : Globals) : Globals :=
  { g with
    buf := g.buf.set g.producerIdx "x"
    producerIdx := (g.producerIdx + 1) % n
    counter := g.counter + 1
    produced := g.produced + 1 }

/-- The three statements of `consume`. -/
def Globals.consumed' (n : Nat) (g : Globals) : Globals :=
  { g with
    buf := g.buf.set g.consumerIdx " "
    consumerIdx := (g.consumerIdx + 1) % n
    counter := g.counter - 1
    consumed := g.consumed + 1 }

namespace Settled

variable {n k : Nat} {g : Globals}

/-- The slot of the producer index is free unless the buffer is full. -/
theorem producer_slot (h : Settled n k g) (hk : k < n) : g.buf[g.producerIdx]? = some " " := by
  rw [h.producer, h.slots k hk, if_neg (Nat.lt_irrefl k)]

/-- The slot of the consumer index has an item unless the buffer is empty. -/
theorem consumer_slot (h : Settled n k g) (hk : 0 < k) : g.buf[g.consumerIdx]? = some "x" := by
  have hslot := h.slots 0 (Nat.lt_of_lt_of_le hk h.le)
  rw [Nat.add_zero, Nat.mod_eq_of_lt h.consumer, if_pos hk] at hslot
  exact hslot

theorem producer_lt (h : Settled n k g) : g.producerIdx < n := by
  rw [h.producer]
  exact Nat.mod_lt _ (Nat.zero_lt_of_lt h.consumer)

/-- Producing puts an item behind the last one. -/
theorem produce (h : Settled n k g) (hk : k < n) : Settled n (k + 1) (g.produced' n) where
  le := hk
  counter := by
    show g.counter + 1 = _
    rw [h.counter]
    rfl
  account := by
    show g.counter + 1 = ((g.produced + 1 : Nat) : Int) - g.consumed
    rw [h.account]
    omega
  length := (List.length_set ..).trans h.length
  consumer := h.consumer
  producer := by
    show (g.producerIdx + 1) % n = (g.consumerIdx + (k + 1)) % n
    rw [h.producer, Nat.mod_add_mod, Nat.add_assoc]
  slots := by
    intro j hj
    show (g.buf.set g.producerIdx "x")[(g.consumerIdx + j) % n]? = _
    rcases Nat.lt_trichotomy j k with hlt | rfl | hgt
    · have hne : g.producerIdx ≠ (g.consumerIdx + j) % n := by
        rw [h.producer]
        intro heq
        exact Nat.ne_of_gt hlt (place_inj hk hj heq)
      rw [List.getElem?_set_ne hne, h.slots j hj, if_pos hlt, if_pos (Nat.lt_succ_of_lt hlt)]
    · have hlength : (g.consumerIdx + j) % n < g.buf.length := by
        rw [h.length]
        exact Nat.mod_lt _ (Nat.zero_lt_of_lt hj)
      rw [h.producer, List.getElem?_set_self hlength, if_pos (Nat.lt_succ_self j)]
    · have hne : g.producerIdx ≠ (g.consumerIdx + j) % n := by
        rw [h.producer]
        intro heq
        exact Nat.ne_of_lt hgt (place_inj hk hj heq)
      rw [List.getElem?_set_ne hne, h.slots j hj, if_neg (Nat.not_lt_of_gt hgt),
        if_neg (Nat.not_lt_of_le hgt)]

/-- Consuming removes the first item. -/
theorem consume (h : Settled n (k + 1) g) : Settled n k (g.consumed' n) where
  le := Nat.le_of_succ_le h.le
  counter := by
    show g.counter - 1 = _
    rw [h.counter]
    omega
  account := by
    show g.counter - 1 = g.produced - ((g.consumed + 1 : Nat) : Int)
    rw [h.account]
    omega
  length := (List.length_set ..).trans h.length
  consumer := Nat.mod_lt _ (Nat.zero_lt_of_lt h.consumer)
  producer := by
    show g.producerIdx = ((g.consumerIdx + 1) % n + k) % n
    rw [h.producer, Nat.mod_add_mod, Nat.add_assoc, Nat.add_comm 1 k]
  slots := by
    intro j hj
    show (g.buf.set g.consumerIdx " ")[((g.consumerIdx + 1) % n + j) % n]? = _
    rw [Nat.mod_add_mod, Nat.add_assoc, Nat.add_comm 1 j]
    rcases Nat.lt_or_eq_of_le (Nat.succ_le_of_lt hj) with hlt | hlast
    · have hne : g.consumerIdx ≠ (g.consumerIdx + (j + 1)) % n := by
        intro heq
        have hzero : (g.consumerIdx + 0) % n = (g.consumerIdx + (j + 1)) % n := by
          rw [Nat.add_zero, Nat.mod_eq_of_lt h.consumer]
          exact heq
        exact Nat.succ_ne_zero j (place_inj (Nat.zero_lt_of_lt hj) hlt hzero).symm
      rw [List.getElem?_set_ne hne, h.slots (j + 1) hlt]
      simp only [Nat.add_lt_add_iff_right]
    · -- the slot that was cleared is the last one from the new index on
      have hlast : j + 1 = n := hlast
      have hturn : (g.consumerIdx + (j + 1)) % n = g.consumerIdx := by
        rw [hlast, Nat.add_mod_right, Nat.mod_eq_of_lt h.consumer]
      have hlength : g.consumerIdx < g.buf.length := h.length ▸ h.consumer
      have hempty : ¬ j < k := by
        have := h.le
        omega
      rw [hturn, List.getElem?_set_self hlength, if_neg hempty]

/-- Every slot is some places from the consumer index on. -/
theorem exists_place (h : Settled n k g) {i : Nat} (hi : i < n) :
    ∃ j < n, i = (g.consumerIdx + j) % n := by
  refine ⟨(i + n - g.consumerIdx) % n, Nat.mod_lt _ (Nat.zero_lt_of_lt hi), ?_⟩
  have hle : g.consumerIdx ≤ i + n := Nat.le_trans (Nat.le_of_lt h.consumer) (Nat.le_add_left n i)
  rw [Nat.add_mod_mod, Nat.add_sub_of_le hle, Nat.add_mod_right, Nat.mod_eq_of_lt hi]

/-- The slots with an item are the `k` slots from the consumer index on; the others are free. -/
theorem slot_iff (h : Settled n k g) {i : Nat} (hi : i < n) :
    (g.buf[i]? = some "x" ↔ ∃ j < k, i = (g.consumerIdx + j) % n) ∧
      (g.buf[i]? = some " " ↔ ¬ ∃ j < k, i = (g.consumerIdx + j) % n) := by
  rcases h.exists_place hi with ⟨j, hj, hplace⟩
  have hwindow : (∃ j' < k, i = (g.consumerIdx + j') % n) ↔ j < k := by
    constructor
    · rintro ⟨j', hj', hplace'⟩
      have heq := place_inj hj (Nat.lt_of_lt_of_le hj' h.le) (hplace.symm.trans hplace')
      rw [heq]
      exact hj'
    · intro hjk
      exact ⟨j, hjk, hplace⟩
  have hslot := h.slots j hj
  rw [← hplace] at hslot
  rw [hwindow, hslot]
  rcases Nat.lt_or_ge j k with hlt | hge
  · rw [if_pos hlt]
    exact ⟨iff_of_true rfl hlt, iff_of_false (by decide) (not_not_intro hlt)⟩
  · rw [if_neg (Nat.not_lt_of_le hge)]
    exact ⟨iff_of_false (by decide) (Nat.not_lt_of_le hge), iff_of_true rfl (Nat.not_lt_of_le hge)⟩

end Settled

/-! ## The sections -/

/-- Within the section. -/
def Inside : Pc → Prop
  | .acquire | .sleep => False
  | _ => True

/-- What a producer knows at each place of its section. -/
def Producing (n : Nat) : Pc → Globals → Prop
  | .store, g => ∃ k, k < n ∧ Settled n k g
  | .advance, g => ∃ k g₀, k < n ∧ Settled n k g₀ ∧
      g = { g₀ with buf := g₀.buf.set g₀.producerIdx "x", produced := g₀.produced + 1 }
  | .count, g => ∃ k g₀, k < n ∧ Settled n k g₀ ∧
      g = { g₀ with
        buf := g₀.buf.set g₀.producerIdx "x"
        producerIdx := (g₀.producerIdx + 1) % n
        produced := g₀.produced + 1 }
  | _, g => ∃ k, Settled n k g

/-- What a consumer knows. -/
def Consuming (n : Nat) : Pc → Globals → Prop
  | .store, g => ∃ k, Settled n (k + 1) g
  | .advance, g => ∃ k g₀, Settled n (k + 1) g₀ ∧
      g = { g₀ with buf := g₀.buf.set g₀.consumerIdx " ", consumed := g₀.consumed + 1 }
  | .count, g => ∃ k g₀, Settled n (k + 1) g₀ ∧
      g = { g₀ with
        buf := g₀.buf.set g₀.consumerIdx " "
        consumerIdx := (g₀.consumerIdx + 1) % n
        consumed := g₀.consumed + 1 }
  | _, g => ∃ k, Settled n k g

def Knows (target : T → Target) (n : Nat) (t : T) : Pc → Globals → Prop :=
  match target t with
  | .produce => Producing n
  | .consume => Consuming n

/-- Nobody is inside. -/
def Free (n : Nat) (g : Globals) : Prop := ∃ k, Settled n k g

theorem rule_produce (n : Nat) (l : Pc) (g : Globals) :
    Obligation Inside (Free n) (Producing n) l g (produce n l g) := by
  cases l with
  | acquire => exact ⟨id, trivial, id⟩
  | check =>
      rw [produce]
      split
      · exact ⟨trivial, trivial, id⟩
      · rename_i hroom
        refine ⟨trivial, trivial, ?_⟩
        rintro ⟨k, hk⟩
        have hne : k ≠ n := fun heq => hroom (by rw [hk.counter, heq])
        exact ⟨k, Nat.lt_of_le_of_ne hk.le hne, hk⟩
  | store =>
      refine ⟨trivial, trivial, ?_⟩
      rintro ⟨k, hroom, hk⟩
      exact ⟨k, g, hroom, hk, rfl⟩
  | advance =>
      refine ⟨trivial, trivial, ?_⟩
      rintro ⟨k, g₀, hroom, hk, rfl⟩
      exact ⟨k, g₀, hroom, hk, rfl⟩
  | count =>
      refine ⟨trivial, trivial, ?_⟩
      rintro ⟨k, g₀, hroom, hk, rfl⟩
      exact ⟨k + 1, hk.produce hroom⟩
  | continue' => exact ⟨trivial, id, id⟩
  | leave => exact ⟨trivial, id, id⟩
  | sleep => exact ⟨id, id⟩

theorem rule_consume (n : Nat) (l : Pc) (g : Globals) :
    Obligation Inside (Free n) (Consuming n) l g (consume n l g) := by
  cases l with
  | acquire => exact ⟨id, trivial, id⟩
  | check =>
      rw [consume]
      split
      · exact ⟨trivial, trivial, id⟩
      · rename_i hitem
        refine ⟨trivial, trivial, ?_⟩
        rintro ⟨k, hk⟩
        cases k with
        | zero => exact absurd hk.counter hitem
        | succ k => exact ⟨k, hk⟩
  | store =>
      refine ⟨trivial, trivial, ?_⟩
      rintro ⟨k, hk⟩
      exact ⟨k, g, hk, rfl⟩
  | advance =>
      refine ⟨trivial, trivial, ?_⟩
      rintro ⟨k, g₀, hk, rfl⟩
      exact ⟨k, g₀, hk, rfl⟩
  | count =>
      refine ⟨trivial, trivial, ?_⟩
      rintro ⟨k, g₀, hk, rfl⟩
      exact ⟨k, hk.consume⟩
  | continue' => exact ⟨trivial, id, id⟩
  | leave => exact ⟨trivial, id, id⟩
  | sleep => exact ⟨id, id⟩

theorem rule (target : T → Target) (n : Nat) :
    Rule (move target n) Inside (Free n) (Knows target n) := by
  intro t l g
  unfold move Knows
  cases target t with
  | produce => exact rule_produce n l g
  | consume => exact rule_consume n l g

/-- The moves of a section still to come, at most. -/
def rank : Pc → Nat
  | .check => 4
  | .store => 3
  | .advance => 2
  | .count => 1
  | _ => 0

theorem rank_lt {target : T → Target} {n : Nat} {t : T} {l l' : Pc} {g g' : Globals}
    (h : move target n t l g = .work l' g') : rank l' < rank l := by
  have hproduce : ∀ {l : Pc}, produce n l g = .work l' g' → rank l' < rank l := by
    intro l hl
    cases l with
    | check =>
        rw [produce] at hl
        split at hl
        · cases hl
          decide
        · cases hl
          decide
    | store | advance | count =>
        cases hl
        decide
    | acquire | continue' | leave | sleep => cases hl
  have hconsume : ∀ {l : Pc}, consume n l g = .work l' g' → rank l' < rank l := by
    intro l hl
    cases l with
    | check =>
        rw [consume] at hl
        split at hl
        · cases hl
          decide
        · cases hl
          decide
    | store | advance | count =>
        cases hl
        decide
    | acquire | continue' | leave | sleep => cases hl
  unfold move at h
  cases htarget : target t with
  | produce =>
      rw [htarget] at h
      exact hproduce h
  | consume =>
      rw [htarget] at h
      exact hconsume h

/-! ## Every reachable state -/

/-- The bounds hold within a section too. -/
structure InRange (n : Nat) (g : Globals) : Prop where
  counter : 0 ≤ g.counter ∧ g.counter ≤ n
  moved : g.consumed ≤ g.produced ∧ g.produced ≤ g.consumed + n
  producer : g.producerIdx < n
  consumer : g.consumerIdx < n

theorem Settled.inRange {n k : Nat} {g : Globals} (h : Settled n k g) : InRange n g := by
  have hle := h.le
  have hcounter := h.counter
  have haccount := h.account
  exact ⟨by omega, by omega, h.producer_lt, h.consumer⟩

/-- One item more, or less. -/
theorem Settled.moved_succ {n k : Nat} {g : Globals} (h : Settled n k g) (hk : k < n) :
    g.consumed ≤ g.produced + 1 ∧ g.produced + 1 ≤ g.consumed + n := by
  have hcounter := h.counter
  have haccount := h.account
  omega

theorem Settled.moved_pred {n k : Nat} {g : Globals} (h : Settled n (k + 1) g) :
    g.consumed + 1 ≤ g.produced ∧ g.produced ≤ g.consumed + 1 + n := by
  have hle := h.le
  have hcounter := h.counter
  have haccount := h.account
  omega

theorem inRange_produce {n : Nat} {l : Pc} {g : Globals} (h : Producing n l g) :
    InRange n g := by
  cases l with
  | store =>
      rcases h with ⟨k, _, hk⟩
      exact hk.inRange
  | advance =>
      rcases h with ⟨k, g₀, hroom, hk, rfl⟩
      exact ⟨hk.inRange.counter, hk.moved_succ hroom, hk.inRange.producer, hk.inRange.consumer⟩
  | count =>
      rcases h with ⟨k, g₀, hroom, hk, rfl⟩
      exact ⟨hk.inRange.counter, hk.moved_succ hroom,
        Nat.mod_lt _ (Nat.zero_lt_of_lt hk.consumer), hk.inRange.consumer⟩
  | acquire | check | continue' | leave | sleep =>
      rcases h with ⟨k, hk⟩
      exact hk.inRange

theorem inRange_consume {n : Nat} {l : Pc} {g : Globals} (h : Consuming n l g) :
    InRange n g := by
  cases l with
  | store =>
      rcases h with ⟨k, hk⟩
      exact hk.inRange
  | advance =>
      rcases h with ⟨k, g₀, hk, rfl⟩
      exact ⟨hk.inRange.counter, hk.moved_pred, hk.inRange.producer, hk.inRange.consumer⟩
  | count =>
      rcases h with ⟨k, g₀, hk, rfl⟩
      exact ⟨hk.inRange.counter, hk.moved_pred, hk.inRange.producer,
        Nat.mod_lt _ (Nat.zero_lt_of_lt hk.consumer)⟩
  | acquire | check | continue' | leave | sleep =>
      rcases h with ⟨k, hk⟩
      exact hk.inRange

theorem inRange_of_knows {target : T → Target} {n : Nat} {t : T} {l : Pc} {g : Globals}
    (h : Knows target n t l g) : InRange n g := by
  unfold Knows at h
  cases htarget : target t with
  | produce =>
      rw [htarget] at h
      exact inRange_produce h
  | consume =>
      rw [htarget] at h
      exact inRange_consume h

variable [DecidableEq T]

theorem exclusive {target : T → Target} {n : Nat} (hn : 0 < n) {s : System T Pc Globals}
    (h : Sched.Reaches (step (move target n)) (start n) s) :
    Exclusive Inside (Free n) (Knows target n) s :=
  exclusive_of_reaches (rule target n)
    (.free rfl (fun _ => id) ⟨0, settled_init hn⟩) h

variable {target : T → Target} {n : Nat} {s : System T Pc Globals}

omit [DecidableEq T] in
theorem inRange_of_exclusive (h : Exclusive Inside (Free n) (Knows target n) s) :
    InRange n s.shared := by
  cases h with
  | free _ _ hfree =>
      rcases hfree with ⟨k, hk⟩
      exact hk.inRange
  | held t _ _ _ hknows => exact inRange_of_knows hknows

omit [DecidableEq T] in
/-- Between two sections. -/
theorem settled_of_outside (h : Exclusive Inside (Free n) (Knows target n) s)
    (hnone : ∀ t, ¬ Inside (s.pc t)) :
    s.semaphore = 1 ∧ Settled n s.shared.counter.toNat s.shared := by
  cases h with
  | held t _ hin _ _ => exact absurd hin (hnone t)
  | free hone _ hfree =>
      rcases hfree with ⟨k, hk⟩
      have hcounter : s.shared.counter.toNat = k := by
        rw [hk.counter]
        rfl
      rw [hcounter]
      exact ⟨hone, hk⟩

omit [DecidableEq T] in
/-- At the access to a slot: it is free for a producer, and has an item for a consumer. -/
theorem slot_of_store (h : Exclusive Inside (Free n) (Knows target n) s) {t : T}
    (hstore : s.pc t = .store) :
    (target t = .produce → s.shared.buf[s.shared.producerIdx]? = some " ") ∧
      (target t = .consume → s.shared.buf[s.shared.consumerIdx]? = some "x") := by
  have hin : Inside (s.pc t) := by
    rw [hstore]
    trivial
  have hknows := (h.of_inside hin).2.2
  rw [hstore] at hknows
  unfold Knows at hknows
  constructor
  · intro htarget
    rw [htarget] at hknows
    rcases hknows with ⟨k, hroom, hk⟩
    exact hk.producer_slot hroom
  · intro htarget
    rw [htarget] at hknows
    rcases hknows with ⟨k, hk⟩
    exact hk.consumer_slot (Nat.succ_pos k)

/-- **The bounded buffer.**  In every reachable state the counter and the indices are in range
and at most one thread is inside; between two sections the items are the `counter` slots from
the consumer index on; a slot that is filled was free and a slot that is cleared had an item;
and a thread inside gets out by itself and gives the semaphore back. -/
theorem bounded_buffer (target : T → Target) {n : Nat} (hn : 1 ≤ n) {s : System T Pc Globals}
    (h : Sched.Reaches (step (move target n)) (start n) s) :
    (0 ≤ s.shared.counter ∧ s.shared.counter ≤ n ∧
      s.shared.producerIdx < n ∧ s.shared.consumerIdx < n) ∧
    (∀ t u, Inside (s.pc t) → Inside (s.pc u) → t = u) ∧
    ((∀ t, ¬ Inside (s.pc t)) →
      s.semaphore = 1 ∧
      s.shared.counter = s.shared.produced - s.shared.consumed ∧
      s.shared.producerIdx = (s.shared.consumerIdx + s.shared.counter.toNat) % n ∧
      s.shared.buf.length = n ∧
      ∀ i < n,
        (s.shared.buf[i]? = some "x" ↔
          ∃ j < s.shared.counter.toNat, i = (s.shared.consumerIdx + j) % n) ∧
        (s.shared.buf[i]? = some " " ↔
          ¬ ∃ j < s.shared.counter.toNat, i = (s.shared.consumerIdx + j) % n)) ∧
    (∀ t, s.pc t = .store →
      (target t = .produce → s.shared.buf[s.shared.producerIdx]? = some " ") ∧
      (target t = .consume → s.shared.buf[s.shared.consumerIdx]? = some "x")) ∧
    ∀ t, Inside (s.pc t) →
      ∃ moves s', Sched.run (step (move target n)) (List.replicate moves t) s = some s' ∧
        ¬ Inside (s'.pc t) ∧ s'.semaphore = 1 := by
  have hex := exclusive hn h
  refine ⟨?_, ?_, ?_, ?_, ?_⟩
  · have hrange := inRange_of_exclusive hex
    exact ⟨hrange.counter.1, hrange.counter.2, hrange.producer, hrange.consumer⟩
  · intro t u ht hu
    exact ((hex.of_inside ht).2.1 u hu).symm
  · intro hnone
    rcases settled_of_outside hex hnone with ⟨hone, hk⟩
    exact ⟨hone, hk.account, hk.producer, hk.length, fun i hi => hk.slot_iff hi⟩
  · intro t hstore
    exact slot_of_store hex hstore
  · intro t hin
    exact (rule target n).released rank rank_lt _ hex hin (Nat.lt_succ_self _)

/-- Three items through two slots, by one thread for each target: two are put in, one is taken out,
and the third comes into the slot that is free again. -/
def threeItems : List Target :=
  List.replicate 13 .produce ++ List.replicate 6 .consume ++ List.replicate 7 .produce

theorem bounded_buffer_twoSlots :
    ∃ s : System Target Pc Globals,
      Sched.run (step (move id 2)) threeItems (start 2) = some s ∧
      (s.shared.produced = 3 ∧ s.shared.consumed = 1 ∧ s.shared.producerIdx = 1) ∧
      s.semaphore = 1 ∧ s.shared.counter = s.shared.produced - s.shared.consumed ∧
      s.shared.producerIdx = (s.shared.consumerIdx + s.shared.counter.toNat) % 2 := by
  have hrun : ∃ s : System Target Pc Globals,
      Sched.run (step (move id 2)) threeItems (start 2) = some s ∧
      (s.shared.produced = 3 ∧ s.shared.consumed = 1 ∧ s.shared.producerIdx = 1) ∧
      ∀ t, s.pc t = .sleep := by
    refine ⟨_, rfl, ⟨rfl, rfl, rfl⟩, fun t => ?_⟩
    cases t with
    | produce => rfl
    | consume => rfl
  rcases hrun with ⟨s, hs, hmoved, hsleep⟩
  rcases bounded_buffer id (Nat.le_succ 1) (Sched.reaches_of_run hs) with
    ⟨_, _, hbetween, _⟩
  have hout : ∀ t, ¬ Inside (s.pc t) := by
    intro t
    rw [hsleep]
    exact id
  rcases hbetween hout with ⟨hone, hcounter, hproducer, _⟩
  exact ⟨s, hs, hmoved, hone, hcounter, hproducer⟩

end Smoll.Buffer
