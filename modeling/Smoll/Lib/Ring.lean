/-
# `Smoll.Lib.Ring` — circular buffers as FIFO queues

A ring of capacity `cap` is an array of `cap` slots with an input and an
output index; both advance by one modulo `cap`.  The indices are `Fin cap`,
so an index out of range cannot be written down, and a ring with `cap = 0`
does not exist.

`Holds r l` says that the ring stores the queue `l`: the slots from the
output index on, going round, are the elements of `l`, and the input index
is `l.length` slots further.  The two operations refine the queue operations

    put   Holds r l         ⟹  Holds (r.put x) (l ++ [x])     (room left)
    take  Holds r (x :: l)  ⟹  r.front = x,  Holds r.take l

and equal indices mean empty or full (`Holds.input_eq_output`), which is the
one thing a ring without a counter cannot tell apart by itself.
-/
import Mathlib.Data.Fin.Basic
import Mathlib.Data.List.Basic
import Mathlib.Logic.Function.Basic

namespace Smoll

/-- A circular buffer: slots and the two indices. -/
structure Ring (α : Type*) (cap : Nat) where
  slot : Fin cap → α
  input : Fin cap
  output : Fin cap

namespace Ring

variable {α : Type*} {cap : Nat}

/-! ## Index arithmetic -/

/-- The index `k` places after `i`, going round. -/
def advance (i : Fin cap) (k : Nat) : Fin cap :=
  ⟨(i + k) % cap, Nat.mod_lt _ i.pos⟩

/-- The next index: `(i + 1) % cap`. -/
def next (i : Fin cap) : Fin cap := advance i 1

@[simp] theorem advance_zero (i : Fin cap) : advance i 0 = i :=
  Fin.ext (Nat.mod_eq_of_lt i.isLt)

theorem advance_advance (i : Fin cap) (j k : Nat) :
    advance (advance i j) k = advance i (j + k) := by
  apply Fin.ext
  simp only [advance, Nat.mod_add_mod, Nat.add_assoc]

theorem next_advance (i : Fin cap) (k : Nat) : next (advance i k) = advance i (k + 1) :=
  advance_advance i k 1

/-- Within one turn, two places coincide only if they are equally far, or one
is a full turn further. -/
theorem advance_eq_iff (i : Fin cap) {j k : Nat} (hjk : j ≤ k) (hk : k ≤ j + cap) :
    advance i j = advance i k ↔ k = j ∨ k = j + cap := by
  have hcap : 0 < cap := i.pos
  constructor
  · intro h
    have hmod : (i + j) % cap = (i + k) % cap := congrArg Fin.val h
    have hdvd : cap ∣ (i + k) - (i + j) :=
      Nat.dvd_of_mod_eq_zero (Nat.sub_mod_eq_zero_of_mod_eq hmod.symm)
    obtain ⟨c, hc⟩ := hdvd
    rcases c with _ | _ | c
    · omega
    · omega
    · have : cap * 2 ≤ cap * (c + 1 + 1) := Nat.mul_le_mul_left cap (by omega)
      omega
  · rintro (rfl | rfl)
    · rfl
    · apply Fin.ext
      simp [advance, ← Nat.add_assoc]

/-- The number of places from an index to one less than a turn further on. -/
theorem advance_sub (i : Fin cap) {k : Nat} (hk : k < cap) :
    ((advance i k : Nat) + cap - i) % cap = k := by
  have hi := i.isLt
  show ((i + k) % cap + cap - i) % cap = k
  rcases Nat.lt_or_ge (i + k) cap with hlt | hge
  · rw [Nat.mod_eq_of_lt hlt, show (i : Nat) + k + cap - i = k + cap by omega,
      Nat.add_mod_right, Nat.mod_eq_of_lt hk]
  · have hwrap : (i + k : Nat) % cap = i + k - cap := by
      rw [Nat.mod_eq_sub_mod hge]
      exact Nat.mod_eq_of_lt (by omega)
    rw [hwrap, show (i : Nat) + k - cap + cap - i = k by omega, Nat.mod_eq_of_lt hk]

/-! ## The operations -/

/-- Store an element in the input slot and advance the input index. -/
def put (r : Ring α cap) (x : α) : Ring α cap :=
  { r with slot := Function.update r.slot r.input x, input := next r.input }

/-- The element in the output slot. -/
def front (r : Ring α cap) : α := r.slot r.output

/-- Advance the output index; the slot keeps its stale content. -/
def take (r : Ring α cap) : Ring α cap :=
  { r with output := next r.output }

/-- The `n` slots from the output index on. -/
def window (r : Ring α cap) (n : Nat) : List α :=
  (List.range n).map fun k => r.slot (advance r.output k)

/-! ## A ring that stores a queue -/

/-- The ring stores the queue `l`. -/
structure Holds (r : Ring α cap) (l : List α) : Prop where
  length_le : l.length ≤ cap
  input_eq : r.input = advance r.output l.length
  slot_eq : ∀ (k : Nat) (h : k < l.length), r.slot (advance r.output k) = l[k]

/-- A ring whose indices coincide stores the empty queue. -/
theorem holds_nil {r : Ring α cap} (h : r.input = r.output) : Holds r [] where
  length_le := Nat.zero_le _
  input_eq := by simpa using h
  slot_eq := fun _ hk => absurd hk (Nat.not_lt_zero _)

variable {r : Ring α cap} {l : List α} {x : α}

theorem Holds.window_eq (h : Holds r l) : window r l.length = l := by
  apply List.ext_getElem
  · simp [window]
  · intro k h₁ h₂
    simp [window, h.slot_eq k h₂]

/-- Equal indices: the queue is empty or full. -/
theorem Holds.input_eq_output (h : Holds r l) :
    r.input = r.output ↔ l.length = 0 ∨ l.length = cap := by
  have key := advance_eq_iff r.output (Nat.zero_le l.length)
    (by simpa using h.length_le)
  rw [advance_zero] at key
  rw [h.input_eq, eq_comm, key, Nat.zero_add]

/-- Putting into a ring with room left appends to the queue. -/
theorem Holds.put (h : Holds r l) (hroom : l.length < cap) (x : α) :
    Holds (r.put x) (l ++ [x]) where
  length_le := by simp; omega
  input_eq := by
    simp only [Ring.put, List.length_append, List.length_singleton]
    rw [h.input_eq, next_advance]
  slot_eq := by
    intro k hk
    have hk' : k ≤ l.length := by simp at hk; omega
    simp only [Ring.put]
    rcases Nat.lt_or_eq_of_le hk' with hlt | heq
    · have hne : advance r.output k ≠ r.input := by
        rw [h.input_eq, Ne, advance_eq_iff _ hk' (by omega)]
        omega
      rw [Function.update_of_ne hne, List.getElem_append_left hlt]
      exact h.slot_eq k hlt
    · subst heq
      rw [← h.input_eq, Function.update_self]
      simp

theorem Holds.front_eq (h : Holds r (x :: l)) : r.front = x := by
  have := h.slot_eq 0 (Nat.succ_pos _)
  simpa [Ring.front] using this

/-- Taking from a ring removes the head of the queue. -/
theorem Holds.take (h : Holds r (x :: l)) : Holds r.take l where
  length_le := by
    have := h.length_le
    simp only [List.length_cons] at this
    omega
  input_eq := by
    have := h.input_eq
    simp only [List.length_cons] at this
    simp only [Ring.take, next, advance_advance]
    rw [this, Nat.add_comm]
  slot_eq := by
    intro k hk
    have := h.slot_eq (k + 1) (by simpa using hk)
    simp only [List.getElem_cons_succ] at this
    simp only [Ring.take, next, advance_advance]
    rw [Nat.add_comm, this]

/-- After a put, equal indices mean full. -/
theorem Holds.put_input_eq_output (h : Holds r l) (hroom : l.length < cap) (x : α) :
    (r.put x).input = (r.put x).output ↔ (l ++ [x]).length = cap := by
  rw [(h.put hroom x).input_eq_output]
  simp

/-- After a take, equal indices mean empty. -/
theorem Holds.take_output_eq_input (h : Holds r (x :: l)) :
    r.take.output = r.take.input ↔ l.length = 0 := by
  have hlen := h.length_le
  simp only [List.length_cons] at hlen
  rw [eq_comm, h.take.input_eq_output]
  omega

end Ring
end Smoll
