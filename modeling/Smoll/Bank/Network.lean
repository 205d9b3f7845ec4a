/-
# `Smoll.Bank.Network` — the static state of the network and its methods

`Network.java` keeps all its state in static fields: two packet buffers with
two indices and a status text each, two connection statuses, and constants.
A buffer is one structure here; the source's names for its parts are

| | `inComing` | `outGoing` |
| :-- | :-- | :-- |
| slots         | `inComingPacket`    | `outGoingPacket`    |
| input index   | `inputIndexClient`  | `inputIndexServer`  |
| output index  | `outputIndexServer` | `outputIndexClient` |
| status        | `inBufferStatus`    | `outBufferStatus`   |

This module gives each method its meaning as one call that nobody
interrupts.  `send` and `transferOut` are `Buffer.put` on the one and the
other buffer, `transferIn` and `receive` are `Buffer.take`; the DEBUG output
is left out.  A buffer that stores a queue `l` with a status that fits
(`Buffer.Stores`) goes on doing so under both operations, as long as they
are called as the waiting loops of the callers promise.
-/
import Smoll.Bank.Transactions
import Smoll.Lib.Ring

namespace Smoll.Bank

/-! ## The status texts -/

/-- Status of a network buffer. -/
inductive BufferStatus where
  | normal | full | empty
  deriving DecidableEq, Repr

/-- Status of the client's or the server's connection. -/
inductive ConnectionStatus where
  | connected | disconnected | idle
  deriving DecidableEq, Repr

/-- Status of the network. -/
inductive NetworkStatus where
  | active | inactive
  deriving DecidableEq, Repr

/-- The status that fits a buffer with `n` of `cap` slots in use. -/
def statusOf (cap n : Nat) : BufferStatus :=
  if n = 0 then .empty else if n = cap then .full else .normal

theorem statusOf_eq_empty {cap n : Nat} : statusOf cap n = .empty ↔ n = 0 := by
  unfold statusOf
  by_cases h0 : n = 0
  · simp [h0]
  · by_cases hc : n = cap <;> simp [h0, hc]

theorem statusOf_eq_full {cap n : Nat} (hcap : 0 < cap) : statusOf cap n = .full ↔ n = cap := by
  unfold statusOf
  by_cases h0 : n = 0
  · simp [h0]
    omega
  · by_cases hc : n = cap <;> simp [h0, hc]
    omega

/-! ## One buffer -/

/-- A network buffer: packet slots with their two indices, and the status. -/
structure Buffer (M : Type) (maxNbPackets : Nat) where
  ring : Ring (Transactions M) maxNbPackets
  status : BufferStatus

namespace Buffer

variable {M : Type} {maxNbPackets : Nat}

/-- Copy a packet into the slot at the input index, advance this index and
set the status: `full` when the indices meet. -/
def put (b : Buffer M maxNbPackets) (packet : Transactions M) (stamp : String) :
    Buffer M maxNbPackets :=
  let ring := b.ring.put ((b.ring.slot b.ring.input).copyFrom packet stamp)
  { ring := ring
    status := if ring.input = ring.output then .full else .normal }

/-- Copy the slot at the output index into a packet, advance this index and
set the status: `empty` when the indices meet. -/
def take (b : Buffer M maxNbPackets) (packet : Transactions M) (stamp : String) :
    Transactions M × Buffer M maxNbPackets :=
  let ring := b.ring.take
  (packet.copyFrom b.ring.front stamp,
   { ring := ring
     status := if ring.output = ring.input then .empty else .normal })

/-- The number of packets between the indices; `full` tells a full buffer
from an empty one. -/
def count (b : Buffer M maxNbPackets) : Nat :=
  if b.status = .full then maxNbPackets
  else (b.ring.input + maxNbPackets - b.ring.output) % maxNbPackets

/-- The packets in the buffer, oldest first. -/
def queued (b : Buffer M maxNbPackets) : List (Transactions M) :=
  b.ring.window b.count

/-- The buffer stores the queue `l`, and its status fits. -/
structure Stores (b : Buffer M maxNbPackets) (l : List (Transactions M)) : Prop where
  holds : b.ring.Holds l
  status_eq : b.status = statusOf maxNbPackets l.length

variable {b : Buffer M maxNbPackets} {l : List (Transactions M)}
  {x : Transactions M}

theorem cap_pos (b : Buffer M maxNbPackets) : 0 < maxNbPackets :=
  b.ring.input.pos

theorem Stores.empty_iff (h : b.Stores l) : b.status = .empty ↔ l.length = 0 := by
  rw [h.status_eq, statusOf_eq_empty]

theorem Stores.full_iff (h : b.Stores l) : b.status = .full ↔ l.length = maxNbPackets := by
  rw [h.status_eq, statusOf_eq_full b.cap_pos]

/-- What is read off indices and status is the queue. -/
theorem Stores.queued_eq (h : b.Stores l) : b.queued = l := by
  have hcount : b.count = l.length := by
    unfold count
    split
    · next hfull => exact (h.full_iff.mp hfull).symm
    · next hfull =>
        have hlt : l.length < maxNbPackets :=
          lt_of_le_of_ne h.holds.length_le (fun heq => hfull (h.full_iff.mpr heq))
        rw [h.holds.input_eq]
        exact Ring.advance_sub b.ring.output hlt
  unfold queued
  rw [hcount]
  exact h.holds.window_eq

/-- Putting into a buffer with room left appends to its queue. -/
theorem Stores.put (h : b.Stores l) (hroom : l.length < maxNbPackets)
    (packet : Transactions M) (stamp : String) :
    (b.put packet stamp).Stores
      (l ++ [(b.ring.slot b.ring.input).copyFrom packet stamp]) := by
  refine ⟨h.holds.put hroom _, ?_⟩
  have hmeet := h.holds.put_input_eq_output hroom
    ((b.ring.slot b.ring.input).copyFrom packet stamp)
  simp only [Buffer.put, hmeet, statusOf]
  simp

/-- Taking from a buffer with a packet in it removes the oldest. -/
theorem Stores.take (h : b.Stores (x :: l)) (packet : Transactions M) (stamp : String) :
    (b.take packet stamp).1.content = x.content ∧ (b.take packet stamp).2.Stores l := by
  have hlen := h.holds.length_le
  simp only [List.length_cons] at hlen
  refine ⟨?_, h.holds.take, ?_⟩
  · simp [Buffer.take, h.holds.front_eq]
  · simp only [Buffer.take, h.holds.take_output_eq_input, statusOf]
    split
    · rfl
    · rw [if_neg (by omega)]

/-- The buffer stores the packets read off its indices and its status. -/
def Exact (b : Buffer M maxNbPackets) : Prop := b.Stores b.queued

theorem Stores.exact (h : b.Stores l) : b.Exact := by
  unfold Exact
  rw [h.queued_eq]
  exact h

/-- Putting into an exact buffer that is not full. -/
theorem Exact.put (h : b.Exact) (hfull : b.status ≠ .full) (packet : Transactions M)
    (stamp : String) :
    (b.put packet stamp).Exact ∧
      (b.put packet stamp).queued
        = b.queued ++ [(b.ring.slot b.ring.input).copyFrom packet stamp] := by
  have hroom : b.queued.length < maxNbPackets :=
    lt_of_le_of_ne h.holds.length_le fun heq => hfull (h.full_iff.mpr heq)
  have hput := Stores.put h hroom packet stamp
  exact ⟨hput.exact, hput.queued_eq⟩

/-- Taking from an exact buffer that is not empty. -/
theorem Exact.take (h : b.Exact) (hempty : b.status ≠ .empty) (packet : Transactions M)
    (stamp : String) :
    ∃ x rest, b.queued = x :: rest ∧ (b.take packet stamp).1.content = x.content ∧
      (b.take packet stamp).2.Exact ∧ (b.take packet stamp).2.queued = rest := by
  cases hq : b.queued with
  | nil => exact absurd (h.empty_iff.mpr (by simp [hq])) hempty
  | cons x rest =>
      have hst : b.Stores (x :: rest) := hq ▸ h
      have htake := hst.take packet stamp
      exact ⟨x, rest, rfl, htake.1, htake.2.exact, htake.2.queued_eq⟩

/-- A put leaves no empty buffer. -/
theorem put_status_ne_empty (b : Buffer M maxNbPackets) (packet : Transactions M)
    (stamp : String) : (b.put packet stamp).status ≠ .empty := by
  simp only [Buffer.put]
  split <;> nofun

/-- A take leaves no full buffer. -/
theorem take_status_ne_full (b : Buffer M maxNbPackets) (packet : Transactions M)
    (stamp : String) : (b.take packet stamp).2.status ≠ .full := by
  simp only [Buffer.take]
  split <;> nofun

end Buffer

/-! ## The network -/

/-- The static fields of `Network`, `maxNbPackets` being the capacity. -/
structure Network (M : Type) (maxNbPackets : Nat) where
  clientIP : String
  serverIP : String
  portID : Nat
  clientConnectionStatus : ConnectionStatus
  serverConnectionStatus : ConnectionStatus
  inComing : Buffer M maxNbPackets
  outGoing : Buffer M maxNbPackets
  networkStatus : NetworkStatus

namespace Network

variable {M : Type} {maxNbPackets : Nat}

/-- The statics after `new Network("network")`. -/
def new [Zero M] (h : 0 < maxNbPackets) : Network M maxNbPackets where
  clientIP := "192.168.2.0"
  serverIP := "216.120.40.10"
  portID := 0
  clientConnectionStatus := .idle
  serverConnectionStatus := .idle
  inComing := ⟨⟨fun _ => Transactions.new, ⟨0, h⟩, ⟨0, h⟩⟩, .empty⟩
  outGoing := ⟨⟨fun _ => Transactions.new, ⟨0, h⟩, ⟨0, h⟩⟩, .empty⟩
  networkStatus := .active

/-! ### The four transfers -/

/-- From the sending client into the incoming buffer. -/
def send (net : Network M maxNbPackets) (inPacket : Transactions M) : Network M maxNbPackets :=
  { net with inComing := net.inComing.put inPacket "transferred" }

/-- From the outgoing buffer to the receiving client. -/
def receive (net : Network M maxNbPackets) (outPacket : Transactions M) :
    Transactions M × Network M maxNbPackets :=
  let (p, b) := net.outGoing.take outPacket "done"
  (p, { net with outGoing := b })

/-- From the server into the outgoing buffer. -/
def transferOut (net : Network M maxNbPackets) (outPacket : Transactions M) :
    Network M maxNbPackets :=
  { net with outGoing := net.outGoing.put outPacket "transferred" }

/-- From the incoming buffer to the server. -/
def transferIn (net : Network M maxNbPackets) (inPacket : Transactions M) :
    Transactions M × Network M maxNbPackets :=
  let (p, b) := net.inComing.take inPacket "received"
  (p, { net with inComing := b })

/-! ### Connections -/

/-- Record a connection of the given address, if the network is up. -/
def connect (net : Network M maxNbPackets) (IP : String) : Bool × Network M maxNbPackets :=
  if net.networkStatus = .active then
    if net.clientIP = IP then
      (true, { net with clientConnectionStatus := .connected, portID := 0 })
    else if net.serverIP = IP then
      (true, { net with serverConnectionStatus := .connected })
    else (true, net)
  else (false, net)

/-- Record a disconnection of the given address, if the network is up. -/
def disconnect (net : Network M maxNbPackets) (IP : String) : Bool × Network M maxNbPackets :=
  if net.networkStatus = .active then
    if net.clientIP = IP then
      (true, { net with clientConnectionStatus := .disconnected })
    else if net.serverIP = IP then
      (true, { net with serverConnectionStatus := .disconnected })
    else (true, net)
  else (false, net)

theorem new_inComing_stores [Zero M] (h : 0 < maxNbPackets) :
    (new (M := M) h).inComing.Stores [] := ⟨Ring.holds_nil rfl, rfl⟩

theorem new_outGoing_stores [Zero M] (h : 0 < maxNbPackets) :
    (new (M := M) h).outGoing.Stores [] := ⟨Ring.holds_nil rfl, rfl⟩

end Network
end Smoll.Bank
