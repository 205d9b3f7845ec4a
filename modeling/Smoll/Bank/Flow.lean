/-
# `Smoll.Bank.Flow` — the bank is a pipeline

The five threads, seen from where they keep their packets, are a bounded
pipeline (`Smoll.Lib.Pipe`): the sending client's transactions go through
the incoming buffer to the server, which answers them from its accounts, and
the answers go through the outgoing buffer to the receiving client.
`State.pipe` reads this pipeline off a state of the program, packets being
reduced to what transport must not change.

`step_simulates`: every step of every thread is one move of the pipeline or
none, and it makes a packet transfer exactly when its move is a queue
operation.  The reason is `Inv`: each buffer is exact, and between the test
that lets a thread through to its call and the call itself no other thread
can take back what the test has seen.

From the pipeline's law follows the delivery of the bank's packets
(`packets_in_order`).
-/
import Smoll.Bank.Atomic
import Smoll.Lib.Pipe

namespace Smoll.Bank

open Transactions

variable {M : Type} {maxNbPackets : Nat}

/-! ## The server as a transducer -/

/-- A packet with this content. -/
def Transactions.Content.packet (c : Content M) : Transactions M :=
  ⟨c.accountNumber, c.operationType, c.transactionAmount, c.transactionBalance, "", ""⟩

namespace AccountsTable

theorem content_reply {t u : Transactions M} (h : t.content = u.content) (bal : M) :
    (reply t bal).content = (reply u bal).content := by
  have hop : t.operationType = u.operationType := congrArg Content.operationType h
  simp only [content, Content.mk.injEq] at h
  unfold reply
  rw [hop]
  split
  · simp [content, setTransactionBalance, setTransactionStatus, h]
  · simpa [content] using h

theorem request_reply (t : Transactions M) (bal : M) : (reply t bal).request = t.request := by
  unfold reply
  split <;> rfl

variable [Add M] [Sub M] {tbl tbl' : AccountsTable M}

/-- What the server makes of the content of a packet. -/
def serve (tbl : AccountsTable M) (c : Content M) : AccountsTable M × Content M :=
  match tbl.process c.packet with
  | .ok (answer, tbl') => (tbl', answer.content)
  | .error _ => (tbl, c)

/-- `serve` is what `process` does to the content of a packet. -/
theorem serve_of_process {t answer : Transactions M}
    (h : tbl.process t = .ok (answer, tbl')) : tbl.serve t.content = (tbl', answer.content) := by
  have hknown : tbl.Known t.accountNumber := by
    by_contra hun
    rw [process_of_unknown hun] at h
    cases h
  obtain ⟨a, ha, hproc⟩ := process_of_known hknown
  have hknown' : tbl.Known t.content.packet.accountNumber := hknown
  obtain ⟨a', ha', hproc'⟩ := process_of_known hknown'
  obtain rfl : a = a' := Option.some.inj (ha.symm.trans ha')
  rw [hproc] at h
  cases h
  unfold serve
  rw [hproc']
  have hcontent : t.content.packet.content = t.content := rfl
  exact congrArg (Prod.mk _) (content_reply hcontent _)

theorem process_request {t answer : Transactions M} (h : tbl.process t = .ok (answer, tbl')) :
    answer.request = t.request := by
  by_cases hknown : tbl.Known t.accountNumber
  · obtain ⟨a, -, hproc⟩ := process_of_known hknown
    rw [hproc] at h
    cases h
    exact request_reply _ _
  · rw [process_of_unknown hknown] at h
    cases h

/-- The server leaves the client's part of a packet alone. -/
theorem serve_request (tbl : AccountsTable M) (c : Content M) :
    (tbl.serve c).2.request = c.request := by
  unfold serve
  split
  · next h => exact process_request h
  · rfl

/-- Serving one content after another is processing the packets one after
another. -/
theorem transduce_of_processAll {ts answers : List (Transactions M)}
    (h : tbl.processAll ts = .ok (answers, tbl')) :
    transduce serve tbl (ts.map content) = (tbl', answers.map content) := by
  induction ts generalizing tbl answers with
  | nil =>
      cases h
      rfl
  | cons t ts ih =>
      cases hproc : tbl.process t with
      | error e =>
          rw [processAll_cons_error hproc] at h
          cases h
      | ok r =>
          obtain ⟨answer, tbl₁⟩ := r
          rw [processAll_cons hproc] at h
          cases hrest : tbl₁.processAll ts with
          | error e =>
              rw [hrest] at h
              cases h
          | ok q =>
              obtain ⟨rest, tbl₂⟩ := q
              rw [hrest] at h
              cases h
              simp only [List.map_cons, transduce, serve_of_process hproc, ih hrest]

end AccountsTable

/-! ## The pipeline of a state -/

/-- Where the packets are. -/
def State.pipe (s : State M maxNbPackets) : Pipe (Content M) (Content M) (AccountsTable M) where
  unsent := s.sender.unsent.map content
  inQ := s.net.inComing.queued.map content
  held := s.server.held
  outQ := s.net.outGoing.queued.map content
  received := s.receiver.received.map content
  st := s.server.table

/-- Both buffers are exact, and a thread that has come to its call still finds
the packet or the room its test has seen. -/
structure Inv (s : State M maxNbPackets) : Prop where
  inExact : s.net.inComing.Exact
  outExact : s.net.outGoing.Exact
  sendRoom : s.sender.pc = .send → s.net.inComing.status ≠ .full
  takeReady : s.server.pc = .transferIn → s.net.inComing.status ≠ .empty
  putRoom : s.server.pc = .transferOut → s.net.outGoing.status ≠ .full
  receiveReady : s.receiver.pc = .receive → s.net.outGoing.status ≠ .empty

/-- The packet transfers the next step of a thread makes. -/
def Act.transfers {L : Type} : Act M maxNbPackets L → Nat
  | .transfer .. => 1
  | _ => 0

/-- The packet transfers the next step of a thread of the program makes. -/
def State.transfers [Add M] [Sub M] (t : Thread) (s : State M maxNbPackets) : Nat :=
  match t with
  | .main => (s.main.act : Act M maxNbPackets _).transfers
  | .network => (s.network.act : Act M maxNbPackets _).transfers
  | .server => (s.server.act : Act M maxNbPackets _).transfers
  | .sender => (s.sender.act : Act M maxNbPackets _).transfers
  | .receiver => (s.receiver.act : Act M maxNbPackets _).transfers

theorem Sender.transfers_eq_zero {c : Sender M} (h : c.pc ≠ .send) :
    (c.act : Act M maxNbPackets _).transfers = 0 := by
  obtain ⟨pc, sent, unsent⟩ := c
  cases pc with
  | send => exact absurd rfl h
  | loopTest => cases unsent <;> rfl
  | _ => rfl

theorem Receiver.transfers_eq_zero {c : Receiver M} (h : c.pc ≠ .receive) :
    (c.act : Act M maxNbPackets _).transfers = 0 := by
  obtain ⟨pc, transact, received, n⟩ := c
  cases pc with
  | receive => exact absurd rfl h
  | loopTest =>
      simp only [Receiver.act]
      split <;> rfl
  | _ => rfl

theorem ServerThread.transfers_eq_zero [Add M] [Sub M] {v : ServerThread M}
    (h : v.pc ≠ .transferIn) (h' : v.pc ≠ .transferOut) :
    (v.act : Act M maxNbPackets _).transfers = 0 := by
  obtain ⟨pc, packet, table, n⟩ := v
  cases pc with
  | transferIn => exact absurd rfl h
  | transferOut => exact absurd rfl h'
  | process =>
      simp only [ServerThread.act]
      split <;> rfl
  | _ => rfl

/-! ## Every step is a move of the pipeline, or none -/

section Simulation

variable [Add M] [Sub M] {s s' : State M maxNbPackets}

/-- One move of the pipeline worth `n` queue operations, or none. -/
def Simulates (s s' : State M maxNbPackets) (n : Nat) : Prop :=
  (s'.pipe = s.pipe ∧ n = 0) ∨
    ∃ m, Pipe.step maxNbPackets AccountsTable.serve m s.pipe = some s'.pipe ∧ m.cost = n

omit [Add M] [Sub M] in
/-- A change that leaves the buffers alone and brings no thread to a call it
may not make keeps the invariant. -/
theorem Inv.of_sameBuffers (hI : Inv s) (hsame : s.net.SameBuffers s'.net)
    (hsend : s'.sender.pc = .send → s.sender.pc = .send ∨ s.net.inComing.status ≠ .full)
    (htake : s'.server.pc = .transferIn →
      s.server.pc = .transferIn ∨ s.net.inComing.status ≠ .empty)
    (hput : s'.server.pc = .transferOut →
      s.server.pc = .transferOut ∨ s.net.outGoing.status ≠ .full)
    (hreceive : s'.receiver.pc = .receive →
      s.receiver.pc = .receive ∨ s.net.outGoing.status ≠ .empty) : Inv s' where
  inExact := hsame.inComing ▸ hI.inExact
  outExact := hsame.outGoing ▸ hI.outExact
  sendRoom := fun h => hsame.inComing ▸ (hsend h).elim hI.sendRoom id
  takeReady := fun h => hsame.inComing ▸ (htake h).elim hI.takeReady id
  putRoom := fun h => hsame.outGoing ▸ (hput h).elim hI.putRoom id
  receiveReady := fun h => hsame.outGoing ▸ (hreceive h).elim hI.receiveReady id

theorem sim_main {net : Network M maxNbPackets} {m : MainPc} (hI : Inv s)
    (h : s.main.act.perform s.net = some (net, m)) :
    Inv { s with net := net, main := m } ∧
      Simulates s { s with net := net, main := m }
        (s.main.act : Act M maxNbPackets _).transfers := by
  obtain ⟨hsame, -⟩ := MainPc.perform_cases h
  refine ⟨hI.of_sameBuffers hsame .inl .inl .inl .inl, .inl ⟨?_, ?_⟩⟩
  · simp only [State.pipe, hsame.inComing, hsame.outGoing]
  · cases s.main <;> rfl

theorem sim_network {net : Network M maxNbPackets} {w : NetworkPc} (hI : Inv s)
    (h : s.network.act.perform s.net = some (net, w)) :
    Inv { s with net := net, network := w } ∧
      Simulates s { s with net := net, network := w }
        (s.network.act : Act M maxNbPackets _).transfers := by
  obtain rfl := NetworkPc.perform_cases h
  refine ⟨hI.of_sameBuffers (.refl _) .inl .inl .inl .inl, .inl ⟨rfl, ?_⟩⟩
  cases s.network <;> rfl

theorem sim_sender {net : Network M maxNbPackets} {c : Sender M} (hI : Inv s)
    (h : s.sender.act.perform s.net = some (net, c)) :
    Inv { s with net := net, sender := c } ∧
      Simulates s { s with net := net, sender := c }
        (s.sender.act : Act M maxNbPackets _).transfers := by
  rcases Sender.perform_cases h with ⟨hpc, hsame, -, -, hunsent, hroom, -⟩ |
    ⟨t, rest, hpc, hunsent, rfl, rfl⟩
  · refine ⟨hI.of_sameBuffers hsame (fun hs => .inr (hroom hs)) .inl .inl .inl, .inl ⟨?_, ?_⟩⟩
    · simp only [State.pipe, hsame.inComing, hsame.outGoing, hunsent]
    · exact Sender.transfers_eq_zero hpc
  · have hfull := hI.sendRoom hpc
    obtain ⟨hexact, hqueued⟩ := hI.inExact.put hfull (t.setTransactionStatus "sent") "transferred"
    refine ⟨⟨hexact, hI.outExact, nofun, fun _ => Buffer.put_status_ne_empty _ _ _, hI.putRoom,
      hI.receiveReady⟩, .inr ⟨.send, ?_, ?_⟩⟩
    · have hroom : (s.net.inComing.queued.map content).length < maxNbPackets := by
        rw [List.length_map]
        exact lt_of_le_of_ne hI.inExact.holds.length_le
          fun heq => hfull (hI.inExact.full_iff.mpr heq)
      simp only [State.pipe, Pipe.step, hunsent, List.map_cons, if_pos hroom, Network.send,
        hqueued, List.map_append, content_copyFrom, content_setTransactionStatus, List.map_nil]
    · simp [Sender.act, hpc, hunsent, Act.transfers, Pipe.Move.cost]

theorem sim_receiver {net : Network M maxNbPackets} {c : Receiver M} (hI : Inv s)
    (h : s.receiver.act.perform s.net = some (net, c)) :
    Inv { s with net := net, receiver := c } ∧
      Simulates s { s with net := net, receiver := c }
        (s.receiver.act : Act M maxNbPackets _).transfers := by
  rcases Receiver.perform_cases h with ⟨hpc, hsame, -, hreceived, -, hready, -⟩ |
    ⟨hpc, rfl, rfl⟩
  · refine ⟨hI.of_sameBuffers hsame .inl .inl .inl (fun hs => .inr (hready hs)),
      .inl ⟨?_, ?_⟩⟩
    · simp only [State.pipe, hsame.inComing, hsame.outGoing, hreceived]
    · exact Receiver.transfers_eq_zero hpc
  · obtain ⟨x, rest, hqueued, hcontent, hexact, hrest⟩ :=
      hI.outExact.take (hI.receiveReady hpc) s.receiver.transact "done"
    refine ⟨⟨hI.inExact, hexact, hI.sendRoom, hI.takeReady,
      fun _ => Buffer.take_status_ne_full s.net.outGoing s.receiver.transact "done", nofun⟩,
      .inr ⟨.receive, ?_, ?_⟩⟩
    · simp only [State.pipe, Pipe.step, Network.receive, hqueued, hrest, hcontent, List.map_cons,
        List.map_append, List.map_nil]
    · simp [Receiver.act, hpc, Act.transfers, Pipe.Move.cost]

theorem sim_server {net : Network M maxNbPackets} {v : ServerThread M} (hI : Inv s)
    (h : s.server.act.perform s.net = some (net, v)) :
    Inv { s with net := net, server := v } ∧
      Simulates s { s with net := net, server := v }
        (s.server.act : Act M maxNbPackets _).transfers := by
  rcases ServerThread.perform_cases h with
    ⟨hpc₁, hpc₂, hpc₃, hsame, -, -, htable, -, hheld, -, -, htake, hput, -⟩ |
    ⟨hpc, rfl, rfl⟩ | ⟨t, tbl, hpc, hproc, rfl, rfl⟩ | ⟨e, hpc, hproc, rfl, rfl⟩ |
    ⟨hpc, rfl, rfl⟩
  · refine ⟨hI.of_sameBuffers hsame .inl (fun hs => .inr (htake hs)) (fun hs => .inr (hput hs))
      .inl, .inl ⟨?_, ?_⟩⟩
    · simp only [State.pipe, hsame.inComing, hsame.outGoing, htable, hheld]
    · exact ServerThread.transfers_eq_zero hpc₁ hpc₃
  · obtain ⟨x, rest, hqueued, hcontent, hexact, hrest⟩ :=
      hI.inExact.take (hI.takeReady hpc) s.server.trans "received"
    refine ⟨⟨hexact, hI.outExact,
      fun _ => Buffer.take_status_ne_full s.net.inComing s.server.trans "received",
      (fun hpc => by cases hpc), (fun hpc => by cases hpc), hI.receiveReady⟩, .inr ⟨.takeIn, ?_, ?_⟩⟩
    · simp only [State.pipe, Pipe.step, ServerThread.held, hpc, Network.transferIn, hqueued,
        hrest, hcontent, List.map_cons]
    · simp [ServerThread.act, hpc, Act.transfers, Pipe.Move.cost]
  · refine ⟨⟨hI.inExact, hI.outExact, hI.sendRoom, (fun hpc => by cases hpc),
      (fun hpc => by cases hpc), hI.receiveReady⟩, .inr ⟨.work, ?_, ?_⟩⟩
    · simp only [State.pipe, Pipe.step, ServerThread.held, hpc,
        AccountsTable.serve_of_process hproc]
    · simp [ServerThread.act, hpc, hproc, Act.transfers, Pipe.Move.cost]
  · refine ⟨⟨hI.inExact, hI.outExact, hI.sendRoom, (fun hpc => by cases hpc),
      (fun hpc => by cases hpc), hI.receiveReady⟩, .inl ⟨?_, ?_⟩⟩
    · simp only [State.pipe, ServerThread.held, hpc]
    · simp [ServerThread.act, hpc, hproc, Act.transfers]
  · have hfull := hI.putRoom hpc
    obtain ⟨hexact, hqueued⟩ := hI.outExact.put hfull s.server.trans "transferred"
    refine ⟨⟨hI.inExact, hexact, hI.sendRoom, (fun hpc => by cases hpc), (fun hpc => by cases hpc),
      fun _ => Buffer.put_status_ne_empty s.net.outGoing _ _⟩, .inr ⟨.putOut, ?_, ?_⟩⟩
    · have hroom : (s.net.outGoing.queued.map content).length < maxNbPackets := by
        rw [List.length_map]
        exact lt_of_le_of_ne hI.outExact.holds.length_le
          fun heq => hfull (hI.outExact.full_iff.mpr heq)
      simp only [State.pipe, Pipe.step, ServerThread.held, hpc, if_pos hroom,
        Network.transferOut, hqueued, List.map_append, content_copyFrom, List.map_cons,
        List.map_nil]
    · simp [ServerThread.act, hpc, Act.transfers, Pipe.Move.cost]

/-- Every step of every thread keeps the invariant and is one move of the
pipeline or none. -/
theorem step_simulates {t : Thread} (hI : Inv s) (h : step t s = some s') :
    Inv s' ∧ Simulates s s' (State.transfers t s) := by
  obtain ⟨-, h⟩ := step_cases h
  rcases h with ⟨net, m, rfl, hp, rfl⟩ | ⟨net, w, rfl, hp, rfl⟩ | ⟨net, v, rfl, hp, rfl⟩ |
    ⟨net, c, rfl, hp, rfl⟩ | ⟨net, c, rfl, hp, rfl⟩
  · exact sim_main hI hp
  · exact sim_network hI hp
  · exact sim_server hI hp
  · exact sim_sender hI hp
  · exact sim_receiver hI hp

end Simulation

end Smoll.Bank
