/-
# `Smoll.Bank.Objects` — the buffers with their packets as objects

`Network.lean` treats a packet as a value.  In the code it is an object, the
slots of a buffer are references that the constructor fills once, and a caller
passes its own object, which it goes on using afterwards.  Here the packets
are objects in a memory, and a call copies field by field from one to the
other.  The references of the slots are never handed out (`Separate`), so
what the methods do to the values is what `Buffer.put` and `Buffer.take` say
(`Slots.put_view`, `Slots.take_view`), and nothing else reaches a slot.

`Queues` says what the two buffers are for: two FIFO queues of bounded length.
Any sequence of calls does the same to both (`step_refines`, `run_refines`).
-/
import Smoll.Bank.Network
import Smoll.Lib.Sched

namespace Smoll.Bank

variable {M : Type} {maxNbPackets : Nat}

/-! ## Objects -/

/-- The six setter calls of a method, from one object to another. -/
def copyObject (object : Nat → Transactions M) (dst src : Nat) (stamp : String)
    (fields : List Transactions.Field) : Nat → Transactions M :=
  fields.foldl
    (fun object f => Function.update object dst (f.copy stamp (object src) (object dst))) object

/-- Between two objects it is the copy of their values. -/
theorem copyObject_eq {dst src : Nat} (hne : src ≠ dst) (stamp : String)
    (fields : List Transactions.Field) :
    ∀ object : Nat → Transactions M, copyObject object dst src stamp fields =
      Function.update object dst
        (Transactions.copyFields stamp (object src) fields (object dst)) := by
  induction fields with
  | nil =>
      intro object
      exact (Function.update_eq_self dst object).symm
  | cons f fields ih =>
      intro object
      have hrest := ih (Function.update object dst (f.copy stamp (object src) (object dst)))
      rw [Function.update_of_ne hne, Function.update_self, Function.update_idem] at hrest
      exact hrest

/-- The references, indices and status of one buffer. -/
structure Slots (maxNbPackets : Nat) where
  packet : Fin maxNbPackets → Nat
  input : Fin maxNbPackets
  output : Fin maxNbPackets
  status : BufferStatus

namespace Slots

/-- The buffer with its packets as values. -/
def view (b : Slots maxNbPackets) (object : Nat → Transactions M) : Buffer M maxNbPackets :=
  ⟨⟨fun i => object (b.packet i), b.input, b.output⟩, b.status⟩

/-- `send` and `transferOut`: the objects and the buffer after the call. -/
def put (b : Slots maxNbPackets) (object : Nat → Transactions M) (packet : Nat)
    (stamp : String) : (Nat → Transactions M) × Slots maxNbPackets :=
  let input := Ring.next b.input
  (copyObject object (b.packet b.input) packet stamp Transactions.Field.all,
   { b with input, status := if input = b.output then .full else .normal })

/-- `transferIn` and `receive`. -/
def take (b : Slots maxNbPackets) (object : Nat → Transactions M) (packet : Nat)
    (stamp : String) : (Nat → Transactions M) × Slots maxNbPackets :=
  let output := Ring.next b.output
  (copyObject object packet (b.packet b.output) stamp Transactions.Field.all,
   { b with output, status := if output = b.input then .empty else .normal })

/-- No slot of the buffer is this object. -/
def Avoids (b : Slots maxNbPackets) (r : Nat) : Prop := ∀ i, b.packet i ≠ r

variable {b b' : Slots maxNbPackets} {object : Nat → Transactions M} {r : Nat}

/-- An object that is no slot may change. -/
theorem view_update (h : b.Avoids r) (t : Transactions M) :
    b.view (Function.update object r t) = b.view object := by
  have hslots : (fun i => Function.update object r t (b.packet i)) =
      fun i => object (b.packet i) := funext fun i => Function.update_of_ne (h i) t object
  rw [view, hslots]
  rfl

/-- On the values, `put` is `Buffer.put`. -/
theorem put_view (hinj : Function.Injective b.packet) (h : b.Avoids r) (stamp : String) :
    (b.put object r stamp).2.view (b.put object r stamp).1 =
      (b.view object).put (object r) stamp := by
  have hobjects : (b.put object r stamp).1 = Function.update object (b.packet b.input)
      ((object (b.packet b.input)).copyFrom (object r) stamp) :=
    copyObject_eq (h b.input).symm stamp _ object
  have hslots : (fun i => (b.put object r stamp).1 (b.packet i)) =
      Function.update (fun i => object (b.packet i)) b.input
        ((object (b.packet b.input)).copyFrom (object r) stamp) := by
    rw [hobjects]
    exact Function.update_comp_eq_of_injective object hinj b.input _
  show (⟨⟨fun i => (b.put object r stamp).1 (b.packet i), _, _⟩, _⟩ : Buffer M maxNbPackets) = _
  rw [hslots]
  rfl

/-- It changes one object, a slot of this buffer. -/
theorem put_object (h : b.Avoids r) (stamp : String) {u : Nat} (hu : u ≠ b.packet b.input) :
    (b.put object r stamp).1 u = object u := by
  have hobjects := copyObject_eq (h b.input).symm stamp Transactions.Field.all object
  show copyObject object _ r stamp _ u = _
  rw [hobjects, Function.update_of_ne hu]

/-- The slots of another buffer stay. -/
theorem put_other (h : b.Avoids r) (stamp : String) (hapart : ∀ i j, b.packet i ≠ b'.packet j) :
    b'.view (b.put object r stamp).1 = b'.view object := by
  have hslots : (fun j => (b.put object r stamp).1 (b'.packet j)) =
      fun j => object (b'.packet j) := funext fun j => put_object h stamp (hapart b.input j).symm
  rw [view, hslots]
  rfl

/-- On the values, `take` is `Buffer.take`. -/
theorem take_view (h : b.Avoids r) (stamp : String) :
    (b.take object r stamp).1 =
        Function.update object r ((b.view object).take (object r) stamp).1 ∧
      (b.take object r stamp).2.view (b.take object r stamp).1 =
        ((b.view object).take (object r) stamp).2 := by
  have hobjects : (b.take object r stamp).1 =
      Function.update object r ((object r).copyFrom (object (b.packet b.output)) stamp) :=
    copyObject_eq (h b.output) stamp _ object
  refine ⟨hobjects, ?_⟩
  have hview : (b.take object r stamp).2.view (Function.update object r
      ((object r).copyFrom (object (b.packet b.output)) stamp)) =
        (b.take object r stamp).2.view object :=
    view_update (b := (b.take object r stamp).2) h _
  rw [hobjects, hview]
  rfl

end Slots

/-! ## The network -/

/-- The objects, the next reference, the references that the callers have got from
`new Transactions()`, and the two buffers. -/
structure Memory (M : Type) (maxNbPackets : Nat) where
  object : Nat → Transactions M
  fresh : Nat
  held : List Nat
  inComing : Slots maxNbPackets
  outGoing : Slots maxNbPackets

/-- What callers do: create an object, set its fields, or pass it to a method. -/
inductive Use (M : Type) where
  | new
  | set (r : Nat) (t : Transactions M)
  | send (inPacket : Nat)
  | transferIn (inPacket : Nat)
  | transferOut (outPacket : Nat)
  | receive (outPacket : Nat)

namespace Memory

/-- After the constructor, whose loop creates the objects of the slots in turn. -/
def start [Zero M] (h : 0 < maxNbPackets) : Memory M maxNbPackets where
  object := fun _ => Transactions.new
  fresh := 2 * maxNbPackets
  held := []
  inComing := ⟨fun i => 2 * i, ⟨0, h⟩, ⟨0, h⟩, .empty⟩
  outGoing := ⟨fun i => 2 * i + 1, ⟨0, h⟩, ⟨0, h⟩, .empty⟩

variable (mem : Memory M maxNbPackets)

def send (inPacket : Nat) : Memory M maxNbPackets :=
  let done := mem.inComing.put mem.object inPacket "transferred"
  { mem with object := done.1, inComing := done.2 }

def transferIn (inPacket : Nat) : Memory M maxNbPackets :=
  let done := mem.inComing.take mem.object inPacket "received"
  { mem with object := done.1, inComing := done.2 }

def transferOut (outPacket : Nat) : Memory M maxNbPackets :=
  let done := mem.outGoing.put mem.object outPacket "transferred"
  { mem with object := done.1, outGoing := done.2 }

def receive (outPacket : Nat) : Memory M maxNbPackets :=
  let done := mem.outGoing.take mem.object outPacket "done"
  { mem with object := done.1, outGoing := done.2 }

/-- A caller uses its own objects, and calls only when the status allows it. -/
def step [Zero M] : Use M → Memory M maxNbPackets → Option (Memory M maxNbPackets)
  | .new, mem =>
      some { mem with
        object := Function.update mem.object mem.fresh Transactions.new
        fresh := mem.fresh + 1
        held := mem.fresh :: mem.held }
  | .set r t, mem =>
      if r ∈ mem.held then some { mem with object := Function.update mem.object r t } else none
  | .send r, mem =>
      if r ∈ mem.held ∧ mem.inComing.status ≠ .full then some (mem.send r) else none
  | .transferIn r, mem =>
      if r ∈ mem.held ∧ mem.inComing.status ≠ .empty then some (mem.transferIn r) else none
  | .transferOut r, mem =>
      if r ∈ mem.held ∧ mem.outGoing.status ≠ .full then some (mem.transferOut r) else none
  | .receive r, mem =>
      if r ∈ mem.held ∧ mem.outGoing.status ≠ .empty then some (mem.receive r) else none

/-- The two buffers with their packets as values. -/
def inBuffer : Buffer M maxNbPackets := mem.inComing.view mem.object

def outBuffer : Buffer M maxNbPackets := mem.outGoing.view mem.object

end Memory

/-! ## What the buffers are for -/

/-- Two queues, and what the callers' objects carry. -/
structure Queues (M : Type) where
  object : Nat → Transactions.Content M
  fresh : Nat
  held : List Nat
  inComing : List (Transactions.Content M)
  outGoing : List (Transactions.Content M)

namespace Queues

def start [Zero M] (maxNbPackets : Nat) : Queues M where
  object := fun _ => (Transactions.new : Transactions M).content
  fresh := 2 * maxNbPackets
  held := []
  inComing := []
  outGoing := []

/-- A packet is put at the end of a queue that is not full, and taken from the front of one
that is not empty. -/
def step [Zero M] (maxNbPackets : Nat) : Use M → Queues M → Option (Queues M)
  | .new, q =>
      some { q with
        object := Function.update q.object q.fresh (Transactions.new : Transactions M).content
        fresh := q.fresh + 1
        held := q.fresh :: q.held }
  | .set r t, q =>
      if r ∈ q.held then some { q with object := Function.update q.object r t.content }
      else none
  | .send r, q =>
      if r ∈ q.held ∧ q.inComing.length ≠ maxNbPackets then
        some { q with inComing := q.inComing ++ [q.object r] }
      else none
  | .transferIn r, q =>
      match q.inComing with
      | [] => none
      | c :: rest =>
          if r ∈ q.held then
            some { q with object := Function.update q.object r c, inComing := rest }
          else none
  | .transferOut r, q =>
      if r ∈ q.held ∧ q.outGoing.length ≠ maxNbPackets then
        some { q with outGoing := q.outGoing ++ [q.object r] }
      else none
  | .receive r, q =>
      match q.outGoing with
      | [] => none
      | c :: rest =>
          if r ∈ q.held then
            some { q with object := Function.update q.object r c, outGoing := rest }
          else none

end Queues

/-! ## The simulation -/

/-- The slots are objects of their own, which no caller has got. -/
structure Separate (mem : Memory M maxNbPackets) : Prop where
  inComing : Function.Injective mem.inComing.packet
  outGoing : Function.Injective mem.outGoing.packet
  apart : ∀ i j, mem.inComing.packet i ≠ mem.outGoing.packet j
  older : ∀ i, mem.inComing.packet i < mem.fresh ∧ mem.outGoing.packet i < mem.fresh
  held : ∀ r ∈ mem.held, mem.inComing.Avoids r ∧ mem.outGoing.Avoids r

/-- The buffer stores a queue with these contents. -/
def Queue (b : Buffer M maxNbPackets) (q : List (Transactions.Content M)) : Prop :=
  ∃ l, b.Stores l ∧ l.map Transactions.content = q

structure Refines (mem : Memory M maxNbPackets) (q : Queues M) : Prop where
  separate : Separate mem
  fresh : q.fresh = mem.fresh
  held : q.held = mem.held
  object : ∀ r ∈ mem.held, q.object r = (mem.object r).content
  inComing : Queue mem.inBuffer q.inComing
  outGoing : Queue mem.outBuffer q.outGoing

namespace Queue

variable {b : Buffer M maxNbPackets} {q : List (Transactions.Content M)}

theorem length_eq (h : Queue b q) : ∃ l, b.Stores l ∧ q.length = l.length := by
  rcases h with ⟨l, hstores, rfl⟩
  exact ⟨l, hstores, List.length_map _⟩

theorem full_iff (h : Queue b q) : b.status = .full ↔ q.length = maxNbPackets := by
  rcases h.length_eq with ⟨l, hstores, hlen⟩
  rw [hstores.full_iff, hlen]

theorem empty_iff (h : Queue b q) : b.status = .empty ↔ q = [] := by
  rcases h.length_eq with ⟨l, hstores, hlen⟩
  rw [hstores.empty_iff, ← hlen, List.length_eq_zero_iff]

theorem put (h : Queue b q) (hroom : q.length ≠ maxNbPackets) (packet : Transactions M)
    (stamp : String) : Queue (b.put packet stamp) (q ++ [packet.content]) := by
  rcases h with ⟨l, hstores, rfl⟩
  rw [List.length_map] at hroom
  refine ⟨_, hstores.put (Nat.lt_of_le_of_ne hstores.holds.length_le hroom) packet stamp, ?_⟩
  rw [List.map_append, List.map_singleton, Transactions.content_copyFrom]

theorem take {c : Transactions.Content M} (h : Queue b (c :: q)) (packet : Transactions M)
    (stamp : String) :
    (b.take packet stamp).1.content = c ∧ Queue (b.take packet stamp).2 q := by
  rcases h with ⟨l, hstores, hl⟩
  cases l with
  | nil => cases hl
  | cons x l =>
      cases hl
      rcases hstores.take packet stamp with ⟨hcontent, hrest⟩
      exact ⟨hcontent, l, hrest, rfl⟩

/-- An object that is no slot may change. -/
theorem update {b : Slots maxNbPackets} {object : Nat → Transactions M} {r : Nat}
    (h : Queue (b.view object) q) (havoid : b.Avoids r) (t : Transactions M) :
    Queue (b.view (Function.update object r t)) q := by
  rw [Slots.view_update havoid]
  exact h

end Queue

/-- The next reference is no slot. -/
theorem Separate.avoids_fresh {mem : Memory M maxNbPackets} (h : Separate mem) :
    mem.inComing.Avoids mem.fresh ∧ mem.outGoing.Avoids mem.fresh :=
  ⟨fun i => Nat.ne_of_lt (h.older i).1, fun i => Nat.ne_of_lt (h.older i).2⟩

/-! The two buffers are alike. -/

def Memory.swap (mem : Memory M maxNbPackets) : Memory M maxNbPackets :=
  { mem with inComing := mem.outGoing, outGoing := mem.inComing }

def Queues.swap (q : Queues M) : Queues M :=
  { q with inComing := q.outGoing, outGoing := q.inComing }

namespace Refines

variable {mem : Memory M maxNbPackets} {q : Queues M}

theorem swap (h : Refines mem q) : Refines mem.swap q.swap where
  separate :=
    { inComing := h.separate.outGoing
      outGoing := h.separate.inComing
      apart := fun i j heq => h.separate.apart j i heq.symm
      older := fun i => (h.separate.older i).symm
      held := fun r hr => (h.separate.held r hr).symm }
  fresh := h.fresh
  held := h.held
  object := h.object
  inComing := h.outGoing
  outGoing := h.inComing

/-- An object changes, and what it carries. -/
theorem content_update {object : Nat → Transactions M} {carried : Nat → Transactions.Content M}
    {r u : Nat} {t : Transactions M} {c : Transactions.Content M} (hc : t.content = c)
    (hu : u ≠ r → carried u = (object u).content) :
    Function.update carried r c u = (Function.update object r t u).content := by
  rcases Decidable.em (u = r) with rfl | hne
  · rw [Function.update_self, Function.update_self, hc]
  · rw [Function.update_of_ne hne, Function.update_of_ne hne, hu hne]

theorem new [Zero M] (h : Refines mem q) :
    Refines
      { mem with
        object := Function.update mem.object mem.fresh Transactions.new
        fresh := mem.fresh + 1
        held := mem.fresh :: mem.held }
      { q with
        object := Function.update q.object q.fresh (Transactions.new : Transactions M).content
        fresh := q.fresh + 1
        held := q.fresh :: q.held } where
  separate :=
    { inComing := h.separate.inComing
      outGoing := h.separate.outGoing
      apart := h.separate.apart
      older := fun i =>
        ⟨Nat.lt_succ_of_lt (h.separate.older i).1, Nat.lt_succ_of_lt (h.separate.older i).2⟩
      held := by
        intro r hr
        rcases List.mem_cons.mp hr with rfl | hr
        · exact h.separate.avoids_fresh
        · exact h.separate.held r hr }
  fresh := congrArg (· + 1) h.fresh
  held := by rw [h.fresh, h.held]
  object := by
    intro u hu
    rw [h.fresh]
    exact content_update rfl fun hne => h.object u ((List.mem_cons.mp hu).resolve_left hne)
  inComing := h.inComing.update h.separate.avoids_fresh.1 _
  outGoing := h.outGoing.update h.separate.avoids_fresh.2 _

theorem set (h : Refines mem q) {r : Nat} (hr : r ∈ mem.held) (t : Transactions M) :
    Refines { mem with object := Function.update mem.object r t }
      { q with object := Function.update q.object r t.content } where
  separate := ⟨h.separate.inComing, h.separate.outGoing, h.separate.apart, h.separate.older,
    h.separate.held⟩
  fresh := h.fresh
  held := h.held
  object := fun u hu => content_update rfl fun _ => h.object u hu
  inComing := h.inComing.update (h.separate.held r hr).1 t
  outGoing := h.outGoing.update (h.separate.held r hr).2 t

/-- A put into the incoming buffer. -/
theorem put (h : Refines mem q) {r : Nat} (hr : r ∈ mem.held)
    (hroom : q.inComing.length ≠ maxNbPackets) (stamp : String) :
    Refines
      { mem with
        object := (mem.inComing.put mem.object r stamp).1
        inComing := (mem.inComing.put mem.object r stamp).2 }
      { q with inComing := q.inComing ++ [q.object r] } where
  separate := ⟨h.separate.inComing, h.separate.outGoing, h.separate.apart, h.separate.older,
    h.separate.held⟩
  fresh := h.fresh
  held := h.held
  object := by
    intro u hu
    have hslot := (h.separate.held u hu).1 mem.inComing.input
    show q.object u = ((mem.inComing.put mem.object r stamp).1 u).content
    rw [Slots.put_object (h.separate.held r hr).1 stamp hslot.symm]
    exact h.object u hu
  inComing := by
    show Queue ((mem.inComing.put mem.object r stamp).2.view _) _
    rw [Slots.put_view h.separate.inComing (h.separate.held r hr).1, h.object r hr]
    exact h.inComing.put hroom _ stamp
  outGoing := by
    show Queue (mem.outGoing.view _) _
    rw [Slots.put_other (h.separate.held r hr).1 stamp h.separate.apart]
    exact h.outGoing

/-- A take from the incoming buffer. -/
theorem take (h : Refines mem q) {r : Nat} (hr : r ∈ mem.held)
    {c : Transactions.Content M} {rest : List (Transactions.Content M)}
    (hq : q.inComing = c :: rest) (stamp : String) :
    Refines
      { mem with
        object := (mem.inComing.take mem.object r stamp).1
        inComing := (mem.inComing.take mem.object r stamp).2 }
      { q with object := Function.update q.object r c, inComing := rest } := by
  have htake : (mem.inComing.take mem.object r stamp).1 =
        Function.update mem.object r (mem.inBuffer.take (mem.object r) stamp).1 ∧
      (mem.inComing.take mem.object r stamp).2.view (mem.inComing.take mem.object r stamp).1 =
        (mem.inBuffer.take (mem.object r) stamp).2 :=
    Slots.take_view (h.separate.held r hr).1 stamp
  rcases htake with ⟨hobject, hview⟩
  have hqueue : Queue mem.inBuffer (c :: rest) := hq ▸ h.inComing
  rcases hqueue.take (mem.object r) stamp with ⟨hcontent, hrest⟩
  exact
    { separate := ⟨h.separate.inComing, h.separate.outGoing, h.separate.apart, h.separate.older,
        h.separate.held⟩
      fresh := h.fresh
      held := h.held
      object := by
        show ∀ u ∈ mem.held, _ = ((mem.inComing.take mem.object r stamp).1 u).content
        rw [hobject]
        exact fun u hu => content_update hcontent fun _ => h.object u hu
      inComing := by
        show Queue ((mem.inComing.take mem.object r stamp).2.view _) _
        rw [hview]
        exact hrest
      outGoing := by
        show Queue (mem.outGoing.view (mem.inComing.take mem.object r stamp).1) _
        rw [hobject]
        exact h.outGoing.update (h.separate.held r hr).2 _ }

end Refines

variable [Zero M] {mem : Memory M maxNbPackets} {q : Queues M}

theorem refines_start (h : 0 < maxNbPackets) :
    Refines (Memory.start h : Memory M maxNbPackets) (Queues.start maxNbPackets) where
  separate :=
    { inComing := fun i j hij => Fin.ext (Nat.eq_of_mul_eq_mul_left Nat.two_pos hij)
      outGoing := fun i j hij =>
        Fin.ext (Nat.eq_of_mul_eq_mul_left Nat.two_pos (Nat.succ.inj hij))
      apart := by
        intro i j heq
        have heq : 2 * (i : Nat) = 2 * (j : Nat) + 1 := heq
        omega
      older := by
        intro i
        have hi := i.isLt
        show 2 * (i : Nat) < 2 * maxNbPackets ∧ 2 * (i : Nat) + 1 < 2 * maxNbPackets
        omega
      held := fun r hr => (List.not_mem_nil hr).elim }
  fresh := rfl
  held := rfl
  object := fun _ _ => rfl
  inComing := ⟨[], Network.new_inComing_stores h, rfl⟩
  outGoing := ⟨[], Network.new_outGoing_stores h, rfl⟩

/-- Two calls with equivalent guards. -/
theorem rel_guard {α β : Type} {R : α → β → Prop} {p p' : Prop} [Decidable p] [Decidable p']
    {a : α} {b : β} (hp : p ↔ p') (h : p → R a b) :
    Option.Rel R (if p then some a else none) (if p' then some b else none) := by
  rcases Decidable.em p with hyes | hno
  · rw [if_pos hyes, if_pos (hp.mp hyes)]
    exact .some (h hyes)
  · rw [if_neg hno, if_neg fun h' => hno (hp.mpr h')]
    exact .none

/-- **One call.**  It is possible for the buffers exactly when it is possible for the queues, and
does the same to both. -/
theorem step_refines (h : Refines mem q) (call : Use M) :
    Option.Rel Refines (Memory.step call mem) (Queues.step maxNbPackets call q) := by
  have hheld : ∀ r, r ∈ mem.held ↔ r ∈ q.held := fun r => by rw [h.held]
  cases call with
  | new => exact .some h.new
  | set r t => exact rel_guard (hheld r) fun hr => h.set hr t
  | send r =>
      have hguard : mem.inComing.status ≠ .full ↔ q.inComing.length ≠ maxNbPackets :=
        not_congr h.inComing.full_iff
      exact rel_guard (and_congr (hheld r) hguard) fun hcall =>
        h.put hcall.1 (hguard.mp hcall.2) "transferred"
  | transferOut r =>
      have hguard : mem.outGoing.status ≠ .full ↔ q.outGoing.length ≠ maxNbPackets :=
        not_congr h.outGoing.full_iff
      exact rel_guard (and_congr (hheld r) hguard) fun hcall =>
        (h.swap.put hcall.1 (hguard.mp hcall.2) "transferred").swap
  | transferIn r =>
      have hguard : mem.inComing.status ≠ .empty ↔ q.inComing ≠ [] :=
        not_congr h.inComing.empty_iff
      rw [Memory.step, Queues.step]
      cases hq : q.inComing with
      | nil =>
          rw [if_neg fun hcall => hguard.mp hcall.2 hq]
          exact .none
      | cons c rest =>
          have hsome : q.inComing ≠ [] := fun hnil => by cases hq.symm.trans hnil
          refine rel_guard ?_ fun hcall => h.take hcall.1 hq "received"
          exact (and_iff_left (hguard.mpr hsome)).trans (hheld r)
  | receive r =>
      have hguard : mem.outGoing.status ≠ .empty ↔ q.outGoing ≠ [] :=
        not_congr h.outGoing.empty_iff
      rw [Memory.step, Queues.step]
      cases hq : q.outGoing with
      | nil =>
          rw [if_neg fun hcall => hguard.mp hcall.2 hq]
          exact .none
      | cons c rest =>
          have hsome : q.outGoing ≠ [] := fun hnil => by cases hq.symm.trans hnil
          refine rel_guard ?_ fun hcall => (h.swap.take hcall.1 hq "done").swap
          exact (and_iff_left (hguard.mpr hsome)).trans (hheld r)

/-- **Any sequence of calls.** -/
theorem run_refines (calls : List (Use M)) :
    ∀ {mem : Memory M maxNbPackets} {q : Queues M}, Refines mem q →
      Option.Rel Refines (Sched.run Memory.step calls mem)
        (Sched.run (Queues.step maxNbPackets) calls q) := by
  induction calls with
  | nil =>
      intro mem q h
      exact .some h
  | cons call calls ih =>
      intro mem q h
      rw [Sched.run_cons, Sched.run_cons]
      have hstep := step_refines h call
      generalize Memory.step call mem = mem' at hstep
      generalize Queues.step maxNbPackets call q = q' at hstep
      cases hstep with
      | none => exact .none
      | some hcall => exact ih hcall

/-! ## What a call leaves alone -/

/-- What is left of a buffer by a call that does not work on it. -/
def Use.Leaves (mem mem' : Memory M maxNbPackets) : Use M → Prop
  | .send _ | .transferIn _ => mem'.outBuffer = mem.outBuffer
  | .transferOut _ | .receive _ => mem'.inBuffer = mem.inBuffer
  | .new | .set _ _ => mem'.inBuffer = mem.inBuffer ∧ mem'.outBuffer = mem.outBuffer

omit [Zero M] in
/-- A put or take on the incoming buffer. -/
theorem Separate.outGoing_stays (h : Separate mem) {r : Nat} (hr : r ∈ mem.held)
    (stamp : String) :
    mem.outGoing.view (mem.inComing.put mem.object r stamp).1 = mem.outBuffer ∧
      mem.outGoing.view (mem.inComing.take mem.object r stamp).1 = mem.outBuffer := by
  refine ⟨Slots.put_other (h.held r hr).1 stamp h.apart, ?_⟩
  rw [(Slots.take_view (h.held r hr).1 stamp).1, Slots.view_update (h.held r hr).2]
  rfl

omit [Zero M] in
/-- A put or take on the outgoing buffer. -/
theorem Separate.inComing_stays (h : Separate mem) {r : Nat} (hr : r ∈ mem.held)
    (stamp : String) :
    mem.inComing.view (mem.outGoing.put mem.object r stamp).1 = mem.inBuffer ∧
      mem.inComing.view (mem.outGoing.take mem.object r stamp).1 = mem.inBuffer := by
  refine ⟨Slots.put_other (h.held r hr).2 stamp fun i j heq => h.apart j i heq.symm, ?_⟩
  rw [(Slots.take_view (h.held r hr).2 stamp).1, Slots.view_update (h.held r hr).1]
  rfl

/-- No call changes the other buffer, and a caller's own changes reach no queued packet. -/
theorem step_leaves (h : Separate mem) {mem' : Memory M maxNbPackets} {call : Use M}
    (hstep : Memory.step call mem = some mem') : call.Leaves mem mem' := by
  cases call with
  | new =>
      cases hstep
      exact ⟨Slots.view_update h.avoids_fresh.1 _, Slots.view_update h.avoids_fresh.2 _⟩
  | set r t =>
      rcases Option.ite_none_right_eq_some.mp hstep with ⟨hr, hmem⟩
      cases hmem
      exact ⟨Slots.view_update (h.held r hr).1 _, Slots.view_update (h.held r hr).2 _⟩
  | send r =>
      rcases Option.ite_none_right_eq_some.mp hstep with ⟨hr, hmem⟩
      cases hmem
      exact (h.outGoing_stays hr.1 "transferred").1
  | transferIn r =>
      rcases Option.ite_none_right_eq_some.mp hstep with ⟨hr, hmem⟩
      cases hmem
      exact (h.outGoing_stays hr.1 "received").2
  | transferOut r =>
      rcases Option.ite_none_right_eq_some.mp hstep with ⟨hr, hmem⟩
      cases hmem
      exact (h.inComing_stays hr.1 "transferred").1
  | receive r =>
      rcases Option.ite_none_right_eq_some.mp hstep with ⟨hr, hmem⟩
      cases hmem
      exact (h.inComing_stays hr.1 "done").2

/-! ## Bounded queues -/

/-- The buffer is the queue: contents in order, status and indices exact. -/
structure IsQueue (b : Buffer M maxNbPackets) (q : List (Transactions.Content M)) : Prop where
  contents : b.queued.map Transactions.content = q
  bounded : q.length ≤ maxNbPackets
  empty : b.status = .empty ↔ q.length = 0
  full : b.status = .full ↔ q.length = maxNbPackets
  normal : b.status = .normal ↔ q.length ≠ 0 ∧ q.length ≠ maxNbPackets
  input : (b.ring.input : Nat) = (b.ring.output + q.length) % maxNbPackets

omit [Zero M] in
theorem Queue.isQueue {b : Buffer M maxNbPackets} {q : List (Transactions.Content M)}
    (h : Queue b q) : IsQueue b q := by
  have hempty : b.status = .empty ↔ q.length = 0 := h.empty_iff.trans List.length_eq_zero_iff.symm
  have hfull := h.full_iff
  rcases h with ⟨l, hstores, rfl⟩
  refine ⟨by rw [hstores.queued_eq], ?_, hempty, hfull, ?_, ?_⟩
  · rw [List.length_map]
    exact hstores.holds.length_le
  · rw [Ne, Ne, ← hempty, ← hfull]
    cases b.status with
    | normal => exact iff_of_true rfl ⟨nofun, nofun⟩
    | full => exact iff_of_false nofun fun hne => hne.2 rfl
    | empty => exact iff_of_false nofun fun hne => hne.1 rfl
  · rw [hstores.holds.input_eq, List.length_map]
    rfl

/-- **The network buffers are bounded queues.**  After any sequence of calls that keeps to the
status, each buffer is the queue that the same calls give, the callers' objects carry what the
queues have given them, the same calls are possible next, and none of them changes the other
buffer or, in a caller's own object, a queued packet. -/
theorem buffers_are_bounded_queues (h : 1 ≤ maxNbPackets) (calls : List (Use M))
    (hrun : Sched.run Memory.step calls (Memory.start h) = some mem) :
    ∃ q, Sched.run (Queues.step maxNbPackets) calls (Queues.start maxNbPackets) = some q ∧
      IsQueue mem.inBuffer q.inComing ∧ IsQueue mem.outBuffer q.outGoing ∧
      (∀ r ∈ mem.held, (mem.object r).content = q.object r) ∧
      (∀ call, (Memory.step call mem).isSome = (Queues.step maxNbPackets call q).isSome) ∧
      ∀ call mem', Memory.step call mem = some mem' → call.Leaves mem mem' := by
  have hall := run_refines calls (refines_start (M := M) h)
  rw [hrun] at hall
  generalize Sched.run (Queues.step maxNbPackets) calls (Queues.start maxNbPackets) = q' at hall
  cases hall with
  | some hrefines =>
      refine ⟨_, rfl, hrefines.inComing.isQueue, hrefines.outGoing.isQueue,
        fun r hr => (hrefines.object r hr).symm, fun call => ?_,
        fun call mem' hstep => step_leaves hrefines.separate hstep⟩
      have hstep := step_refines hrefines call
      generalize Memory.step call mem = mem' at hstep
      generalize Queues.step maxNbPackets call _ = q'' at hstep
      cases hstep with
      | none => rfl
      | some _ => rfl

def deposited (amount : Int) : Transactions.Content Int := ⟨"31718", "DEPOSIT", amount, 0⟩

/-- Three packets go through two slots, in one object that is changed after each `send`; another
object takes two of them out, and goes on to the other buffer with the second. -/
def wrapAround : List (Use Int) :=
  [.new, .new, .set 4 ⟨"31718", "DEPOSIT", 5, 0, "none", " "⟩, .send 4,
    .set 4 ⟨"31718", "DEPOSIT", 6, 0, "none", " "⟩, .send 4, .transferIn 5,
    .set 4 ⟨"31718", "DEPOSIT", 7, 0, "none", " "⟩, .send 4, .set 4 Transactions.new,
    .transferIn 5, .transferOut 5]

theorem buffers_are_bounded_queues_twoSlots :
    ∃ mem : Memory Int 2, Sched.run Memory.step wrapAround (Memory.start Nat.two_pos) = some mem ∧
      IsQueue mem.inBuffer [deposited 7] ∧ IsQueue mem.outBuffer [deposited 6] ∧
      (mem.object 5).content = deposited 6 := by
  have hrun : ∃ mem : Memory Int 2,
      Sched.run Memory.step wrapAround (Memory.start Nat.two_pos) = some mem ∧ 5 ∈ mem.held :=
    ⟨_, rfl, List.mem_cons_self⟩
  rcases hrun with ⟨mem, hmem, hheld⟩
  rcases buffers_are_bounded_queues (Nat.le_succ 1) wrapAround hmem with
    ⟨q, hq, hin, hout, hobject, _⟩
  have hqueue : (Sched.run (Queues.step 2) wrapAround (Queues.start 2)).map
      (fun q => (q.inComing, q.outGoing, q.object 5)) =
      some ([deposited 7], [deposited 6], deposited 6) := rfl
  rw [hq] at hqueue
  have hvalues := Option.some.inj hqueue
  simp only [Prod.mk.injEq] at hvalues
  rcases hvalues with ⟨hcoming, hgoing, hfive⟩
  exact ⟨mem, hmem, hcoming ▸ hin, hgoing ▸ hout, (hobject 5 hheld).trans hfive⟩

end Smoll.Bank
