/-
# `Smoll.Bank.Locks` — the bank with network calls as single accesses

Every method of `Network` is `synchronized`, which excludes two calls on one
object.  There are three objects over the one static state: the network
thread runs on the first, the server (and `main`, while it constructs the
server) calls through `Server.objNetwork`, and the two clients (and `main`,
while it constructs the sending one) through the static `Client.objNetwork`.
So a call of the server and a call of a client run side by side.

Here a call is the sequence of its reads and writes of the static fields.
A transfer is, for each of the six setter calls and then for the advancing
of the index, a read of the index and a write; then it reads its own index,
reads the peer's index, and writes the status:

    copy (f :: fs) → copyField f fs i → copy fs → … → copy []
      → writeIndex i → readOwn → readPeer a → writeStatus a b

Left out are the accesses whose value nothing depends on: the reads of the
DEBUG output, and those of `maxNbPackets` and of the array references, which
nobody writes any more when the threads run.

A thread starts a call only when no other thread is inside a call on the
same object; a getter is one read under the same rule.  The threads are the
automata of `Smoll.Bank.Threads`, unchanged.  A call that nobody interrupts
does what `Smoll.Bank.Atomic` says (`Alone.of_perform`), so every run of
that model is one of this (`reaches_of_atomic`).
-/
import Smoll.Bank.Atomic

namespace Smoll.Bank

open Transactions

variable {M : Type} {maxNbPackets : Nat}

/-! ## What a transfer works on -/

/-- The two packet buffers. -/
inductive Side where
  | inComing | outGoing
  deriving DecidableEq, Repr

/-- Putting packets into a buffer or taking them out of it. -/
inductive Role where
  | put | take
  deriving DecidableEq, Repr

def Role.other : Role → Role
  | .put => .take
  | .take => .put

/-- The status a call writes when the indices meet. -/
def Role.atMeet : Role → BufferStatus
  | .put => .full
  | .take => .empty

theorem Role.other_other (r : Role) : r.other.other = r := by
  cases r <;> rfl

/-- A role and its other are both of them. -/
theorem Role.forall_of (r : Role) {P : Role → Prop} (h : P r) (hother : P r.other) :
    ∀ q, P q := by
  intro q
  cases r <;> cases q <;> assumption

namespace Transfer

def side : Transfer → Side
  | .send | .transferIn => .inComing
  | .receive | .transferOut => .outGoing

def role : Transfer → Role
  | .send | .transferOut => .put
  | .receive | .transferIn => .take

/-- The transfer of a role on a side. -/
def ofSide : Side → Role → Transfer
  | .inComing, .put => .send
  | .inComing, .take => .transferIn
  | .outGoing, .put => .transferOut
  | .outGoing, .take => .receive

/-- The status text of the copied packet. -/
def stamp : Transfer → String
  | .send | .transferOut => "transferred"
  | .receive => "done"
  | .transferIn => "received"

/-- The thread that makes these calls. -/
def thread : Transfer → Thread
  | .send => .sender
  | .receive => .receiver
  | .transferIn | .transferOut => .server

/-- The transfer at the other end of the buffer. -/
def peer : Transfer → Transfer
  | .send => .transferIn
  | .transferIn => .send
  | .receive => .transferOut
  | .transferOut => .receive

theorem ofSide_side_role (d : Transfer) : ofSide d.side d.role = d := by
  cases d <;> rfl

theorem ofSide_side_other (d : Transfer) : ofSide d.side d.role.other = d.peer := by
  cases d <;> rfl

theorem side_ofSide (side : Side) (r : Role) : (ofSide side r).side = side := by
  cases side <;> cases r <;> rfl

theorem role_ofSide (side : Side) (r : Role) : (ofSide side r).role = r := by
  cases side <;> cases r <;> rfl

theorem peer_ne (d : Transfer) : d.peer ≠ d := by
  cases d <;> nofun

end Transfer

namespace Buffer

/-- The index that a role advances. -/
def own (b : Buffer M maxNbPackets) : Role → Fin maxNbPackets
  | .put => b.ring.input
  | .take => b.ring.output

def setOwn (b : Buffer M maxNbPackets) (i : Fin maxNbPackets) : Role → Buffer M maxNbPackets
  | .put => { b with ring := { b.ring with input := i } }
  | .take => { b with ring := { b.ring with output := i } }

def setSlot (b : Buffer M maxNbPackets) (i : Fin maxNbPackets) (x : Transactions M) :
    Buffer M maxNbPackets :=
  { b with ring := { b.ring with slot := Function.update b.ring.slot i x } }

def setStatus (b : Buffer M maxNbPackets) (status : BufferStatus) : Buffer M maxNbPackets :=
  { b with status := status }

end Buffer

namespace Network

def buffer (net : Network M maxNbPackets) : Side → Buffer M maxNbPackets
  | .inComing => net.inComing
  | .outGoing => net.outGoing

def setBuffer (net : Network M maxNbPackets) (b : Buffer M maxNbPackets) :
    Side → Network M maxNbPackets
  | .inComing => { net with inComing := b }
  | .outGoing => { net with outGoing := b }

end Network

/-! ## The accesses of a call -/

/-- The next access of a transfer. -/
inductive TransferPc (maxNbPackets : Nat) where
  | copy (fs : List Field)
  | copyField (f : Field) (fs : List Field) (i : Fin maxNbPackets)
  | writeIndex (i : Fin maxNbPackets)
  | readOwn
  | readPeer (a : Fin maxNbPackets)
  | writeStatus (a b : Fin maxNbPackets)
  deriving DecidableEq

/-- One access of a transfer: what comes next (nothing after the last), the
caller's packet and the buffer. -/
def TransferPc.step (d : Transfer) (b : Buffer M maxNbPackets) (packet : Transactions M) :
    TransferPc maxNbPackets →
      Option (TransferPc maxNbPackets) × Transactions M × Buffer M maxNbPackets
  | .copy (f :: fs) => (some (.copyField f fs (b.own d.role)), packet, b)
  | .copy [] => (some (.writeIndex (b.own d.role)), packet, b)
  | .copyField f fs i =>
      match d.role with
      | .put => (some (.copy fs), packet, b.setSlot i (f.copy d.stamp packet (b.ring.slot i)))
      | .take => (some (.copy fs), f.copy d.stamp (b.ring.slot i) packet, b)
  | .writeIndex i => (some .readOwn, packet, b.setOwn (Ring.next i) d.role)
  | .readOwn => (some (.readPeer (b.own d.role)), packet, b)
  | .readPeer a => (some (.writeStatus a (b.own d.role.other)), packet, b)
  | .writeStatus a c =>
      (none, packet, b.setStatus (if a = c then d.role.atMeet else .normal))

/-- The index has been advanced and the status not yet written. -/
def TransferPc.advanced : TransferPc maxNbPackets → Bool
  | .readOwn | .readPeer _ | .writeStatus _ _ => true
  | _ => false

/-- The next access of a connection request. -/
inductive LinkPc where
  | networkStatus
  | clientIP
  | client
  | port
  | serverIP
  | server
  deriving DecidableEq, Repr

/-- The status a connection request leaves. -/
def Link.status : Link → ConnectionStatus
  | .connect => .connected
  | .disconnect => .disconnected

/-- One access of a connection request: what comes next or the answer, and the
network. -/
def LinkPc.step (d : Link) (IP : String) (net : Network M maxNbPackets) :
    LinkPc → (LinkPc ⊕ Bool) × Network M maxNbPackets
  | .networkStatus =>
      if net.networkStatus = .active then (.inl .clientIP, net) else (.inr false, net)
  | .clientIP => if net.clientIP = IP then (.inl .client, net) else (.inl .serverIP, net)
  | .client =>
      match d with
      | .connect => (.inl .port, { net with clientConnectionStatus := d.status })
      | .disconnect => (.inr true, { net with clientConnectionStatus := d.status })
  | .port => (.inr true, { net with portID := 0 })
  | .serverIP => if net.serverIP = IP then (.inl .server, net) else (.inr true, net)
  | .server => (.inr true, { net with serverConnectionStatus := d.status })

/-! ## A thread and its call -/

/-- Where a thread is in a call. -/
inductive Call (M : Type) (maxNbPackets : Nat) where
  | idle
  | transfer (pc : TransferPc maxNbPackets) (packet : Transactions M)
  | link (pc : LinkPc)

def Call.busy : Call M maxNbPackets → Bool
  | .idle => false
  | _ => true

/-- A thread: its automaton, and the call it is in. -/
structure Task (M : Type) (maxNbPackets : Nat) (L : Type) where
  state : L
  call : Call M maxNbPackets

/-- The next access of a thread in state `l` with this action; `free` says that no
other thread is inside a call on its network object. -/
def Act.access {L : Type} (free : Bool) (net : Network M maxNbPackets) (l : L) :
    Act M maxNbPackets L → Call M maxNbPackets → Option (Network M maxNbPackets × Task M maxNbPackets L)
  | .read k, .idle => if free then some (net, ⟨k net, .idle⟩) else none
  | .work l', .idle => some (net, ⟨l', .idle⟩)
  | .transfer _ packet _, .idle =>
      if free then some (net, ⟨l, .transfer (.copy Field.all) packet⟩) else none
  | .link _ _ _, .idle => if free then some (net, ⟨l, .link .networkStatus⟩) else none
  | .transfer d _ k, .transfer pc packet =>
      match pc.step d (net.buffer d.side) packet with
      | (some pc', packet', b) => some (net.setBuffer b d.side, ⟨l, .transfer pc' packet'⟩)
      | (none, packet', b) => some (net.setBuffer b d.side, ⟨k packet', .idle⟩)
  | .link d IP k, .link pc =>
      match pc.step d IP net with
      | (.inl pc', net') => some (net', ⟨l, .link pc'⟩)
      | (.inr ok, net') => some (net', ⟨k ok, .idle⟩)
  | _, _ => none

/-- Everything an access can do: a step of the automaton without a call, the start
of a call, one access inside a call, and the last one. -/
theorem Act.access_cases {L : Type} {free : Bool} {net net' : Network M maxNbPackets} {l : L}
    {a : Act M maxNbPackets L} {call : Call M maxNbPackets} {t : Task M maxNbPackets L}
    (h : a.access free net l call = some (net', t)) :
    ((∃ l', a.perform net = some (net', l') ∧ t = ⟨l', .idle⟩) ∧ net' = net ∧ call = .idle ∧
      (∀ d packet k, a ≠ .transfer d packet k) ∧ (∀ d IP k, a ≠ .link d IP k)) ∨
    (∃ d packet k, a = .transfer d packet k ∧ call = .idle ∧ net' = net ∧
      t = ⟨l, .transfer (.copy Field.all) packet⟩) ∨
    (∃ d IP k, a = .link d IP k ∧ call = .idle ∧ net' = net ∧ t = ⟨l, .link .networkStatus⟩) ∨
    (∃ d packet₀ k pc packet pc' packet' b, a = .transfer d packet₀ k ∧
      call = .transfer pc packet ∧
      pc.step d (net.buffer d.side) packet = (some pc', packet', b) ∧
      net' = net.setBuffer b d.side ∧ t = ⟨l, .transfer pc' packet'⟩) ∨
    (∃ d packet₀ k pc packet packet' b, a = .transfer d packet₀ k ∧ call = .transfer pc packet ∧
      pc.step d (net.buffer d.side) packet = (none, packet', b) ∧
      net' = net.setBuffer b d.side ∧ t = ⟨k packet', .idle⟩) ∨
    (∃ d IP k pc pc', a = .link d IP k ∧ call = .link pc ∧
      pc.step d IP net = (.inl pc', net') ∧ t = ⟨l, .link pc'⟩) ∨
    (∃ d IP k pc ok, a = .link d IP k ∧ call = .link pc ∧
      pc.step d IP net = (.inr ok, net') ∧ t = ⟨k ok, .idle⟩) := by
  cases a with
  | read k =>
      cases call with
      | idle =>
          simp only [access, Option.ite_none_right_eq_some, Option.some.injEq, Prod.mk.injEq] at h
          obtain ⟨-, rfl, rfl⟩ := h
          exact .inl ⟨⟨_, rfl, rfl⟩, rfl, rfl, nofun, nofun⟩
      | transfer pc packet => cases h
      | link pc => cases h
  | work l' =>
      cases call with
      | idle =>
          simp only [access, Option.some.injEq, Prod.mk.injEq] at h
          obtain ⟨rfl, rfl⟩ := h
          exact .inl ⟨⟨_, rfl, rfl⟩, rfl, rfl, nofun, nofun⟩
      | transfer pc packet => cases h
      | link pc => cases h
  | stop => cases call <;> cases h
  | transfer d packet₀ k =>
      refine .inr ?_
      cases call with
      | idle =>
          simp only [access, Option.ite_none_right_eq_some, Option.some.injEq, Prod.mk.injEq] at h
          obtain ⟨-, rfl, rfl⟩ := h
          exact .inl ⟨d, packet₀, k, rfl, rfl, rfl, rfl⟩
      | transfer pc packet =>
          simp only [access] at h
          rcases hstep : pc.step d (net.buffer d.side) packet with ⟨_ | pc', packet', b⟩
          · rw [hstep] at h
            obtain ⟨rfl, rfl⟩ := Prod.mk.inj (Option.some.inj h)
            exact .inr (.inr (.inr (.inl ⟨d, packet₀, k, pc, packet, packet', b, rfl, rfl, hstep,
              rfl, rfl⟩)))
          · rw [hstep] at h
            obtain ⟨rfl, rfl⟩ := Prod.mk.inj (Option.some.inj h)
            exact .inr (.inr (.inl ⟨d, packet₀, k, pc, packet, pc', packet', b, rfl, rfl, hstep,
              rfl, rfl⟩))
      | link pc => cases h
  | link d IP k =>
      refine .inr ?_
      cases call with
      | idle =>
          simp only [access, Option.ite_none_right_eq_some, Option.some.injEq, Prod.mk.injEq] at h
          obtain ⟨-, rfl, rfl⟩ := h
          exact .inr (.inl ⟨d, IP, k, rfl, rfl, rfl, rfl⟩)
      | transfer pc packet => cases h
      | link pc =>
          simp only [access] at h
          rcases hstep : pc.step d IP net with ⟨pc' | ok, net₁⟩
          · rw [hstep] at h
            obtain ⟨rfl, rfl⟩ := Prod.mk.inj (Option.some.inj h)
            exact .inr (.inr (.inr (.inr (.inl ⟨d, IP, k, pc, pc', rfl, rfl, hstep, rfl⟩))))
          · rw [hstep] at h
            obtain ⟨rfl, rfl⟩ := Prod.mk.inj (Option.some.inj h)
            exact .inr (.inr (.inr (.inr (.inr ⟨d, IP, k, pc, ok, rfl, rfl, hstep, rfl⟩))))

/-! ## The program -/

/-- The objects of class `Network`. -/
inductive NetObject where
  | network | server | client
  deriving DecidableEq, Repr

/-- The object `main` calls on: that of the server or the client it constructs. -/
def MainPc.object : MainPc → NetObject
  | .startNetwork | .getServerIP | .connectServer _ => .server
  | _ => .client

namespace Locks

/-- The static state of the network, and the threads with their calls. -/
structure State (M : Type) (maxNbPackets : Nat) where
  net : Network M maxNbPackets
  main : Task M maxNbPackets MainPc
  network : Task M maxNbPackets NetworkPc
  server : Task M maxNbPackets (ServerThread M)
  sender : Task M maxNbPackets (Sender M)
  receiver : Task M maxNbPackets (Receiver M)

/-- A state of `Smoll.Bank.Atomic`, with no call in progress. -/
def State.rest (s : Bank.State M maxNbPackets) : State M maxNbPackets where
  net := s.net
  main := ⟨s.main, .idle⟩
  network := ⟨s.network, .idle⟩
  server := ⟨s.server, .idle⟩
  sender := ⟨s.sender, .idle⟩
  receiver := ⟨s.receiver, .idle⟩

/-- The beginning of `main`. -/
def State.init [Zero M] (h : 0 < maxNbPackets) (table : AccountsTable M)
    (transaction : List (Transactions M)) : State M maxNbPackets :=
  .rest (Bank.State.init h table transaction)

/-- The thread is inside a call. -/
def State.busy (s : State M maxNbPackets) : Thread → Bool
  | .main => s.main.call.busy
  | .network => s.network.call.busy
  | .server => s.server.call.busy
  | .sender => s.sender.call.busy
  | .receiver => s.receiver.call.busy

/-- The object a thread makes its calls on. -/
def State.object (s : State M maxNbPackets) : Thread → NetObject
  | .main => s.main.state.object
  | .network => .network
  | .server => .server
  | .sender | .receiver => .client

/-- No thread but `t` is inside a call on the object of `t`. -/
def State.free (s : State M maxNbPackets) (t : Thread) : Bool :=
  [Thread.main, .network, .server, .sender, .receiver].all fun u =>
    u = t || !s.busy u || s.object u ≠ s.object t

/-- The next access of a thread, if `main` has started it and it is not done. -/
def step [Add M] [Sub M] (t : Thread) (s : State M maxNbPackets) :
    Option (State M maxNbPackets) :=
  if s.main.state.started t then
    match t with
    | .main =>
        (s.main.state.act.access (s.free .main) s.net s.main.state s.main.call).map
          fun r => { s with net := r.1, main := r.2 }
    | .network =>
        (s.network.state.act.access (s.free .network) s.net s.network.state s.network.call).map
          fun r => { s with net := r.1, network := r.2 }
    | .server =>
        (s.server.state.act.access (s.free .server) s.net s.server.state s.server.call).map
          fun r => { s with net := r.1, server := r.2 }
    | .sender =>
        (s.sender.state.act.access (s.free .sender) s.net s.sender.state s.sender.call).map
          fun r => { s with net := r.1, sender := r.2 }
    | .receiver =>
        (s.receiver.state.act.access (s.free .receiver) s.net s.receiver.state
          s.receiver.call).map fun r => { s with net := r.1, receiver := r.2 }
  else none

/-- What a step of each thread is. -/
theorem step_cases [Add M] [Sub M] {t : Thread} {s s' : State M maxNbPackets}
    (h : step t s = some s') :
    s.main.state.started t ∧
    ((∃ net m, t = .main ∧ s.main.state.act.access (s.free .main) s.net s.main.state s.main.call
        = some (net, m) ∧ s' = { s with net := net, main := m }) ∨
     (∃ net w, t = .network ∧ s.network.state.act.access (s.free .network) s.net s.network.state
        s.network.call = some (net, w) ∧ s' = { s with net := net, network := w }) ∨
     (∃ net v, t = .server ∧ s.server.state.act.access (s.free .server) s.net s.server.state
        s.server.call = some (net, v) ∧ s' = { s with net := net, server := v }) ∨
     (∃ net c, t = .sender ∧ s.sender.state.act.access (s.free .sender) s.net s.sender.state
        s.sender.call = some (net, c) ∧ s' = { s with net := net, sender := c }) ∨
     (∃ net c, t = .receiver ∧ s.receiver.state.act.access (s.free .receiver) s.net
        s.receiver.state s.receiver.call = some (net, c) ∧
        s' = { s with net := net, receiver := c })) := by
  unfold step at h
  split at h
  · next hstarted =>
      refine ⟨hstarted, ?_⟩
      cases t with
      | main =>
          obtain ⟨⟨net, m⟩, hp, rfl⟩ := Option.map_eq_some_iff.mp h
          exact .inl ⟨net, m, rfl, hp, rfl⟩
      | network =>
          obtain ⟨⟨net, w⟩, hp, rfl⟩ := Option.map_eq_some_iff.mp h
          exact .inr (.inl ⟨net, w, rfl, hp, rfl⟩)
      | server =>
          obtain ⟨⟨net, v⟩, hp, rfl⟩ := Option.map_eq_some_iff.mp h
          exact .inr (.inr (.inl ⟨net, v, rfl, hp, rfl⟩))
      | sender =>
          obtain ⟨⟨net, c⟩, hp, rfl⟩ := Option.map_eq_some_iff.mp h
          exact .inr (.inr (.inr (.inl ⟨net, c, rfl, hp, rfl⟩)))
      | receiver =>
          obtain ⟨⟨net, c⟩, hp, rfl⟩ := Option.map_eq_some_iff.mp h
          exact .inr (.inr (.inr (.inr ⟨net, c, rfl, hp, rfl⟩)))
  · cases h

end Locks

/-! ## A call that nobody interrupts -/

/-- A thread with automaton `act` goes from `p` to `q` while no other thread moves. -/
def Alone {L : Type} (act : L → Act M maxNbPackets L) :
    Network M maxNbPackets × Task M maxNbPackets L →
      Network M maxNbPackets × Task M maxNbPackets L → Prop :=
  Relation.ReflTransGen fun p q => (act p.2.state).access true p.1 p.2.state p.2.call = some q

section Alone

variable {L : Type} {act : L → Act M maxNbPackets L} {net net' : Network M maxNbPackets} {l l' : L}
  {d : Transfer} {packet₀ : Transactions M} {k : Transactions M → L}

theorem Alone.trans {p q r : Network M maxNbPackets × Task M maxNbPackets L}
    (h : Alone act p q) (h' : Alone act q r) : Alone act p r := Relation.ReflTransGen.trans h h'

theorem Network.setBuffer_buffer (net : Network M maxNbPackets) (side : Side) :
    net.setBuffer (net.buffer side) side = net := by
  cases side <;> rfl

@[simp] theorem Network.buffer_setBuffer (net : Network M maxNbPackets)
    (b : Buffer M maxNbPackets) (side : Side) : (net.setBuffer b side).buffer side = b := by
  cases side <;> rfl

@[simp] theorem Network.setBuffer_setBuffer (net : Network M maxNbPackets)
    (b c : Buffer M maxNbPackets) (side : Side) :
    (net.setBuffer b side).setBuffer c side = net.setBuffer c side := by
  cases side <;> rfl

/-- One more access of a transfer. -/
theorem Alone.access (hact : act l = .transfer d packet₀ k)
    {pc pc' : TransferPc maxNbPackets} {packet packet' : Transactions M}
    {b b' : Buffer M maxNbPackets}
    (hstep : pc.step d b packet = (some pc', packet', b')) :
    Alone act (net.setBuffer b d.side, ⟨l, .transfer pc packet⟩)
      (net.setBuffer b' d.side, ⟨l, .transfer pc' packet'⟩) := by
  refine Relation.ReflTransGen.single ?_
  simp only [hact, Act.access, Network.buffer_setBuffer, hstep, Network.setBuffer_setBuffer]

/-- The six setter calls of a transfer that puts. -/
theorem Alone.copy_put (hact : act l = .transfer d packet₀ k) (net : Network M maxNbPackets)
    (hrole : d.role = .put) (packet : Transactions M) (fs : List Field) (b : Buffer M maxNbPackets) :
    Alone act (net.setBuffer b d.side, ⟨l, .transfer (.copy fs) packet⟩)
      (net.setBuffer (b.setSlot b.ring.input
        (copyFields d.stamp packet fs (b.ring.slot b.ring.input))) d.side,
        ⟨l, .transfer (.copy []) packet⟩) := by
  induction fs generalizing b with
  | nil =>
      have hself : b.setSlot b.ring.input (copyFields d.stamp packet [] (b.ring.slot b.ring.input))
          = b := by
        simp [Buffer.setSlot, copyFields]
      rw [hself]
      exact .refl
  | cons f fs ih =>
      have hread : (TransferPc.copy (f :: fs)).step d b packet
          = (some (.copyField f fs b.ring.input), packet, b) := by
        simp [TransferPc.step, hrole, Buffer.own]
      have hwrite : (TransferPc.copyField f fs b.ring.input).step d b packet
          = (some (.copy fs), packet,
             b.setSlot b.ring.input (f.copy d.stamp packet (b.ring.slot b.ring.input))) := by
        simp [TransferPc.step, hrole]
      refine (Alone.access hact hread).trans ((Alone.access hact hwrite).trans ?_)
      have hrest := ih (b.setSlot b.ring.input (f.copy d.stamp packet (b.ring.slot b.ring.input)))
      simpa [Buffer.setSlot, copyFields] using hrest

/-- The six setter calls of a transfer that takes. -/
theorem Alone.copy_take (hact : act l = .transfer d packet₀ k) (net : Network M maxNbPackets)
    (hrole : d.role = .take) (packet : Transactions M) (fs : List Field) (b : Buffer M maxNbPackets) :
    Alone act (net.setBuffer b d.side, ⟨l, .transfer (.copy fs) packet⟩)
      (net.setBuffer b d.side,
        ⟨l, .transfer (.copy []) (copyFields d.stamp b.ring.front fs packet)⟩) := by
  induction fs generalizing packet with
  | nil => exact .refl
  | cons f fs ih =>
      have hread : (TransferPc.copy (f :: fs)).step d b packet
          = (some (.copyField f fs b.ring.output), packet, b) := by
        simp [TransferPc.step, hrole, Buffer.own]
      have hcopy : (TransferPc.copyField f fs b.ring.output).step d b packet
          = (some (.copy fs), f.copy d.stamp b.ring.front packet, b) := by
        simp [TransferPc.step, hrole, Ring.front]
      refine (Alone.access hact hread).trans ((Alone.access hact hcopy).trans ?_)
      simpa [copyFields] using ih (f.copy d.stamp b.ring.front packet)

/-- From the advancing of the index to the status write. -/
theorem Alone.compare (hact : act l = .transfer d packet₀ k) (net : Network M maxNbPackets)
    (packet : Transactions M) (b : Buffer M maxNbPackets) :
    Alone act (net.setBuffer b d.side, ⟨l, .transfer (.copy []) packet⟩)
      (net.setBuffer (b.setOwn (Ring.next (b.own d.role)) d.role) d.side,
        ⟨l, .transfer (.writeStatus ((b.setOwn (Ring.next (b.own d.role)) d.role).own d.role)
          ((b.setOwn (Ring.next (b.own d.role)) d.role).own d.role.other)) packet⟩) :=
  (Alone.access hact rfl).trans ((Alone.access hact rfl).trans ((Alone.access hact rfl).trans
    (Alone.access hact rfl)))

/-- The buffer and the caller's packet after a call, but for the status. -/
def Buffer.moved (b : Buffer M maxNbPackets) (d : Transfer) (packet : Transactions M) :
    Buffer M maxNbPackets :=
  match d.role with
  | .put => { b with ring := b.ring.put ((b.ring.slot b.ring.input).copyFrom packet d.stamp) }
  | .take => { b with ring := b.ring.take }

/-- The caller's packet after a call. -/
def Buffer.taken (b : Buffer M maxNbPackets) (d : Transfer) (packet : Transactions M) :
    Transactions M :=
  match d.role with
  | .put => packet
  | .take => packet.copyFrom b.ring.front d.stamp

/-- A call that nobody interrupts comes to its status write with the two indices
it has left. -/
theorem Alone.to_status (hact : act l = .transfer d packet₀ k) (net : Network M maxNbPackets) :
    Alone act (net, ⟨l, .idle⟩)
      (net.setBuffer ((net.buffer d.side).moved d packet₀) d.side,
        ⟨l, .transfer (.writeStatus (((net.buffer d.side).moved d packet₀).own d.role)
          (((net.buffer d.side).moved d packet₀).own d.role.other))
          ((net.buffer d.side).taken d packet₀)⟩) := by
  have hstart : Alone act (net, ⟨l, .idle⟩)
      (net.setBuffer (net.buffer d.side) d.side, ⟨l, .transfer (.copy Field.all) packet₀⟩) := by
    rw [net.setBuffer_buffer]
    refine Relation.ReflTransGen.single ?_
    simp only [hact, Act.access, if_true]
  refine hstart.trans ?_
  rcases hrole : d.role with _ | _
  · have hcopy := Alone.copy_put hact net hrole packet₀ Field.all (net.buffer d.side)
    have hcompare := Alone.compare hact net packet₀
      ((net.buffer d.side).setSlot (net.buffer d.side).ring.input
        (copyFields d.stamp packet₀ Field.all
          ((net.buffer d.side).ring.slot (net.buffer d.side).ring.input)))
    rw [hrole] at hcompare
    simp only [Buffer.moved, Buffer.taken, hrole]
    exact hcopy.trans hcompare
  · have hcopy := Alone.copy_take hact net hrole packet₀ Field.all (net.buffer d.side)
    have hcompare := Alone.compare hact net
      (copyFields d.stamp (net.buffer d.side).ring.front Field.all packet₀) (net.buffer d.side)
    rw [hrole] at hcompare
    simp only [Buffer.moved, Buffer.taken, hrole]
    exact hcopy.trans hcompare

/-- The status write completes the call. -/
theorem Network.transfer_eq (net : Network M maxNbPackets) (d : Transfer)
    (packet : Transactions M) :
    net.transfer d packet = ((net.buffer d.side).taken d packet,
      net.setBuffer (((net.buffer d.side).moved d packet).setStatus
        (if ((net.buffer d.side).moved d packet).own d.role
            = ((net.buffer d.side).moved d packet).own d.role.other
          then d.role.atMeet else .normal)) d.side) := by
  cases d <;> rfl

/-- A connection request that nobody interrupts. -/
theorem Alone.of_link {d : Link} {IP : String} {k : Bool → L} (hact : act l = .link d IP k)
    (net : Network M maxNbPackets) :
    Alone act (net, ⟨l, .idle⟩) ((net.link d IP).2, ⟨k (net.link d IP).1, .idle⟩) := by
  have hmove : ∀ {n n' : Network M maxNbPackets} {pc pc' : LinkPc},
      pc.step d IP n = (.inl pc', n') → Alone act (n, ⟨l, .link pc⟩) (n', ⟨l, .link pc'⟩) := by
    intro n n' pc pc' hstep
    refine Relation.ReflTransGen.single ?_
    simp only [hact, Act.access, hstep]
  have hend : ∀ {n n' : Network M maxNbPackets} {pc : LinkPc} {ok : Bool},
      pc.step d IP n = (.inr ok, n') → Alone act (n, ⟨l, .link pc⟩) (n', ⟨k ok, .idle⟩) := by
    intro n n' pc ok hstep
    refine Relation.ReflTransGen.single ?_
    simp only [hact, Act.access, hstep]
  have hstart : Alone act (net, ⟨l, .idle⟩) (net, ⟨l, .link .networkStatus⟩) := by
    refine Relation.ReflTransGen.single ?_
    simp only [hact, Act.access, if_true]
  refine hstart.trans ?_
  rcases Decidable.em (net.networkStatus = .active) with hactive | hactive
  · refine (hmove (show LinkPc.networkStatus.step d IP net = (.inl .clientIP, net) from
      if_pos hactive)).trans ?_
    rcases Decidable.em (net.clientIP = IP) with hclient | hclient
    · refine (hmove (show LinkPc.clientIP.step d IP net = (.inl .client, net) from
        if_pos hclient)).trans ?_
      cases d with
      | connect =>
          have hlink : net.link .connect IP
              = (true, { net with clientConnectionStatus := .connected, portID := 0 }) :=
            (if_pos hactive).trans (if_pos hclient)
          rw [hlink]
          exact (hmove rfl).trans (hend rfl)
      | disconnect =>
          have hlink : net.link .disconnect IP
              = (true, { net with clientConnectionStatus := .disconnected }) :=
            (if_pos hactive).trans (if_pos hclient)
          rw [hlink]
          exact hend rfl
    · refine (hmove (show LinkPc.clientIP.step d IP net = (.inl .serverIP, net) from
        if_neg hclient)).trans ?_
      rcases Decidable.em (net.serverIP = IP) with hserver | hserver
      · have hlink : net.link d IP = (true, { net with serverConnectionStatus := d.status }) := by
          cases d <;> exact (if_pos hactive).trans ((if_neg hclient).trans (if_pos hserver))
        rw [hlink]
        exact (hmove (show LinkPc.serverIP.step d IP net = (.inl .server, net) from
          if_pos hserver)).trans (hend rfl)
      · have hlink : net.link d IP = (true, net) := by
          cases d <;> exact (if_pos hactive).trans ((if_neg hclient).trans (if_neg hserver))
        rw [hlink]
        exact hend (show LinkPc.serverIP.step d IP net = (.inr true, net) from if_neg hserver)
  · have hlink : net.link d IP = (false, net) := by
      cases d <;> exact if_neg hactive
    rw [hlink]
    exact hend (show LinkPc.networkStatus.step d IP net = (.inr false, net) from if_neg hactive)

/-- A thread that nobody interrupts does what the atomic model says. -/
theorem Alone.of_perform (h : (act l).perform net = some (net', l')) :
    Alone act (net, ⟨l, .idle⟩) (net', ⟨l', .idle⟩) := by
  cases hact : act l with
  | read k =>
      rw [hact] at h
      obtain ⟨rfl, rfl⟩ := Prod.mk.inj (Option.some.inj h)
      refine Relation.ReflTransGen.single ?_
      simp only [hact, Act.access, if_true]
  | work l₁ =>
      rw [hact] at h
      obtain ⟨rfl, rfl⟩ := Prod.mk.inj (Option.some.inj h)
      refine Relation.ReflTransGen.single ?_
      simp only [hact, Act.access]
  | stop =>
      rw [hact] at h
      cases h
  | link d IP k =>
      rw [hact] at h
      obtain ⟨rfl, rfl⟩ := Prod.mk.inj (Option.some.inj h)
      exact Alone.of_link hact net
  | transfer d packet k =>
      rw [hact] at h
      obtain ⟨rfl, rfl⟩ := Prod.mk.inj (Option.some.inj h)
      refine (Alone.to_status hact net).trans (Relation.ReflTransGen.single ?_)
      rw [Network.transfer_eq]
      simp only [hact, Act.access, TransferPc.step, Network.buffer_setBuffer,
        Network.setBuffer_setBuffer]

end Alone

/-! ## The atomic runs among all runs -/

namespace Locks

theorem free_of_idle {s : State M maxNbPackets} {t : Thread}
    (h : ∀ u, u ≠ t → s.busy u = false ∨ s.object u ≠ s.object t) : s.free t = true := by
  simp only [State.free, List.all_eq_true]
  intro u _
  rcases Decidable.em (u = t) with hu | hu
  · simp [hu]
  · rcases h u hu with hidle | hother
    · simp [hidle]
    · simp [hother]

variable [Add M] [Sub M]

/-- What a thread does alone is a run, if the accesses it makes with its object
free are steps. -/
theorem reaches_of_alone {L : Type} {act : L → Act M maxNbPackets L} (t : Thread)
    (f : Network M maxNbPackets × Task M maxNbPackets L → State M maxNbPackets)
    (hstep : ∀ p q, (act p.2.state).access true p.1 p.2.state p.2.call = some q →
      step t (f p) = some (f q))
    {p q : Network M maxNbPackets × Task M maxNbPackets L} (h : Alone act p q) :
    Sched.Reaches step (f p) (f q) := by
  induction h with
  | refl => exact .refl _
  | tail _ haccess ih => exact ih.tail (hstep _ _ haccess)

/-- The sending client alone, when the client's object is free. -/
theorem reaches_of_sender {s : State M maxNbPackets} (hstarted : s.main.state.started .sender)
    (hfree : ∀ u, u ≠ .sender → s.busy u = false ∨ s.object u ≠ .client)
    {net : Network M maxNbPackets} {c : Task M maxNbPackets (Sender M)}
    (h : Alone Sender.act (s.net, s.sender) (net, c)) :
    Sched.Reaches step s { s with net := net, sender := c } := by
  refine reaches_of_alone .sender (fun p => { s with net := p.1, sender := p.2 }) ?_ h
  intro p q haccess
  have hfree' : State.free { s with net := p.1, sender := p.2 } .sender = true := by
    refine free_of_idle fun u hu => ?_
    cases u with
    | sender => exact absurd rfl hu
    | _ => exact hfree _ hu
  simp only [step, hstarted, if_true, hfree', haccess, Option.map_some]

/-- The server alone, when the server's object is free. -/
theorem reaches_of_server {s : State M maxNbPackets} (hstarted : s.main.state.started .server)
    (hfree : ∀ u, u ≠ .server → s.busy u = false ∨ s.object u ≠ .server)
    {net : Network M maxNbPackets} {v : Task M maxNbPackets (ServerThread M)}
    (h : Alone ServerThread.act (s.net, s.server) (net, v)) :
    Sched.Reaches step s { s with net := net, server := v } := by
  refine reaches_of_alone .server (fun p => { s with net := p.1, server := p.2 }) ?_ h
  intro p q haccess
  have hfree' : State.free { s with net := p.1, server := p.2 } .server = true := by
    refine free_of_idle fun u hu => ?_
    cases u with
    | server => exact absurd rfl hu
    | _ => exact hfree _ hu
  simp only [step, hstarted, if_true, hfree', haccess, Option.map_some]

/-- A step of the atomic model is a run: the call, from its start to its end. -/
theorem reaches_of_step {t : Thread} {s s' : Bank.State M maxNbPackets}
    (h : Bank.step t s = some s') : Sched.Reaches step (State.rest s) (State.rest s') := by
  obtain ⟨hstarted, h⟩ := Bank.step_cases h
  rcases h with ⟨net, m, rfl, hp, rfl⟩ | ⟨net, w, rfl, hp, rfl⟩ | ⟨net, v, rfl, hp, rfl⟩ |
    ⟨net, c, rfl, hp, rfl⟩ | ⟨net, c, rfl, hp, rfl⟩
  · have halone : Alone MainPc.act (s.net, ⟨s.main, .idle⟩) (net, ⟨m, .idle⟩) :=
      Alone.of_perform hp
    refine reaches_of_alone .main (fun p => { State.rest s with net := p.1, main := p.2 }) ?_ halone
    intro p q haccess
    have hfree : State.free { State.rest s with net := p.1, main := p.2 } .main = true := by
      refine free_of_idle fun u hu => .inl ?_
      cases u with
      | main => exact absurd rfl hu
      | _ => rfl
    have hmain : p.2.state.started .main := Nat.zero_le _
    simp only [step, hmain, if_true, hfree, haccess, Option.map_some]
  · have halone : Alone NetworkPc.act (s.net, ⟨s.network, .idle⟩) (net, ⟨w, .idle⟩) :=
      Alone.of_perform hp
    refine reaches_of_alone .network (fun p => { State.rest s with net := p.1, network := p.2 }) ?_
      halone
    intro p q haccess
    have hfree : State.free { State.rest s with net := p.1, network := p.2 } .network = true := by
      refine free_of_idle fun u hu => .inl ?_
      cases u with
      | network => exact absurd rfl hu
      | _ => rfl
    have hmain : (State.rest s).main.state.started .network := hstarted
    simp only [step, hmain, if_true, hfree, haccess, Option.map_some]
  · refine reaches_of_server (s := State.rest s) hstarted (fun u hu => .inl ?_)
      (Alone.of_perform hp)
    cases u <;> rfl
  · refine reaches_of_sender (s := State.rest s) hstarted (fun u hu => .inl ?_)
      (Alone.of_perform hp)
    cases u <;> rfl
  · have halone : Alone Receiver.act (s.net, ⟨s.receiver, .idle⟩) (net, ⟨c, .idle⟩) :=
      Alone.of_perform hp
    refine reaches_of_alone .receiver (fun p => { State.rest s with net := p.1, receiver := p.2 })
      ?_ halone
    intro p q haccess
    have hfree : State.free { State.rest s with net := p.1, receiver := p.2 } .receiver = true := by
      refine free_of_idle fun u hu => .inl ?_
      cases u with
      | receiver => exact absurd rfl hu
      | _ => rfl
    have hmain : (State.rest s).main.state.started .receiver := hstarted
    simp only [step, hmain, if_true, hfree, haccess, Option.map_some]

/-- Every run with atomic calls is a run here. -/
theorem reaches_of_atomic {s s' : Bank.State M maxNbPackets} (h : Sched.Reaches Bank.step s s') :
    Sched.Reaches step (State.rest s) (State.rest s') := by
  induction h with
  | refl => exact .refl _
  | tail _ hnext ih =>
      obtain ⟨t, hstep⟩ := hnext
      exact ih.trans (reaches_of_step hstep)

end Locks
end Smoll.Bank
