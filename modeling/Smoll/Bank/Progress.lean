/-
# `Smoll.Bank.Progress` — the pipeline never deadlocks

The sender waits while the incoming buffer is full, the server while it is
empty and then while the outgoing buffer is full, the receiver while that one
is empty.  `pipeline_never_deadlocks` says that these waits never close a
circle: as long as a packet is missing at the receiving client, one of the
three parties can go on by itself to its next packet transfer, and every
transfer uses up one of the `4 * n` that `n` transactions need.

Which party it is the pipeline tells (`Pipe.Delivers.not_stuck`).  What is
left is that a party whose wait is over walks to its call: `rank` counts the
steps from each program counter on, and `Sender.advances` and its siblings
say that each step lowers it.  A party that `main` has not started yet needs
the rest of the start-up first (`MainPc.advances`).
-/
import Smoll.Bank.Delivery

namespace Smoll.Bank

open Transactions

variable {M : Type} {maxNbPackets : Nat}

/-! ## The way to the next transfer -/

/-- Steps from here to the next `send`, while there is something to send. -/
def SenderPc.rank : SenderPc → Nat
  | .awaitNetwork => 6
  | .getClientIP => 5
  | .connect _ => 4
  | .loopTest => 3
  | .awaitSlot => 2
  | .send => 1
  | .done => 0

/-- Steps from here to the next `receive`, while packets are missing. -/
def ReceiverPc.rank : ReceiverPc → Nat
  | .awaitNetwork => 6
  | .getClientIP => 5
  | .connect _ => 4
  | .loopTest => 3
  | .awaitPacket => 2
  | .receive => 1
  | .getIPToLeave | .disconnect _ | .done => 0

/-- Steps from here to the next `transferIn` or `transferOut`, while there is a
packet to take or room to put one. -/
def ServerPc.rank : ServerPc → Nat
  | .count => 8
  | .awaitNetwork => 8
  | .getServerIP => 7
  | .connect _ => 6
  | .loopTest => 5
  | .pollConnection => 5
  | .pollStatus => 4
  | .checkStatus => 3
  | .transferIn => 2
  | .process => 3
  | .awaitSlot => 2
  | .transferOut => 1
  | .getIPToLeave | .disconnect _ | .done | .crashed _ => 0

/-- The action makes a transfer, or leads on to a state with a smaller rank. -/
def Act.Advances {L : Type} (a : Act M maxNbPackets L) (net : Network M maxNbPackets)
    (rank : L → Nat) (n : Nat) : Prop :=
  ∃ net' l, a.perform net = some (net', l) ∧ (a.transfers = 1 ∨ (a.transfers = 0 ∧ rank l < n))

/-- The sending client with room in the buffer and something to send. -/
theorem Sender.advances {net : Network M maxNbPackets} {c : Sender M}
    (hactive : net.networkStatus = .active) (hroom : net.inComing.status ≠ .full)
    (hunsent : c.unsent ≠ []) (hdone : c.pc ≠ .done) :
    c.act.Advances net (fun c => c.pc.rank) c.pc.rank := by
  obtain ⟨pc, sent, unsent⟩ := c
  obtain ⟨t, rest, rfl⟩ := List.exists_cons_of_ne_nil hunsent
  cases pc with
  | done => exact absurd rfl hdone
  | send => exact ⟨_, _, rfl, .inl rfl⟩
  | awaitNetwork =>
      refine ⟨_, _, rfl, .inr ⟨rfl, ?_⟩⟩
      simp [hactive, SenderPc.rank]
  | awaitSlot =>
      refine ⟨_, _, rfl, .inr ⟨rfl, ?_⟩⟩
      simp [hroom, SenderPc.rank]
  | _ => exact ⟨_, _, rfl, .inr ⟨rfl, Nat.lt_succ_self _⟩⟩

/-- The receiving client with a packet in the buffer that it still misses. -/
theorem Receiver.advances {net : Network M maxNbPackets} {c : Receiver M}
    (hactive : net.networkStatus = .active) (hready : net.outGoing.status ≠ .empty)
    (hless : c.received.length < c.numberOfTransactions) (hleft : ¬ c.pc.left) :
    c.act.Advances net (fun c => c.pc.rank) c.pc.rank := by
  obtain ⟨pc, transact, received, n⟩ := c
  cases pc with
  | awaitNetwork =>
      refine ⟨_, _, rfl, .inr ⟨rfl, ?_⟩⟩
      simp [hactive, ReceiverPc.rank]
  | loopTest =>
      have hact : (Receiver.mk .loopTest transact received n).act
          = (.work ⟨.awaitPacket, transact, received, n⟩ : Act M maxNbPackets _) := if_pos hless
      rw [hact]
      exact ⟨_, _, rfl, .inr ⟨rfl, Nat.lt_succ_self _⟩⟩
  | awaitPacket =>
      refine ⟨_, _, rfl, .inr ⟨rfl, ?_⟩⟩
      simp [hready, ReceiverPc.rank]
  | receive => exact ⟨_, _, rfl, .inl rfl⟩
  | getIPToLeave => exact absurd rfl hleft
  | disconnect IP => exact absurd rfl hleft
  | done => exact absurd rfl hleft
  | _ => exact ⟨_, _, rfl, .inr ⟨rfl, Nat.lt_succ_self _⟩⟩

/-- The server with a packet to take in, or with one it holds and room to put
it, or else it crashes on that packet. -/
theorem ServerThread.advances [Add M] [Sub M] {net : Network M maxNbPackets}
    {v : ServerThread M} (hactive : net.networkStatus = .active)
    (hconnected : net.clientConnectionStatus ≠ .disconnected) (hleft : ¬ v.pc.left)
    (hok : ∀ e, v.pc ≠ .crashed e) (htake : v.holding = [] → net.inComing.status ≠ .empty)
    (hput : v.holding ≠ [] → net.outGoing.status ≠ .full) :
    v.act.Advances net (fun v => v.pc.rank) v.pc.rank := by
  obtain ⟨pc, trans, table, n⟩ := v
  cases pc with
  | awaitNetwork =>
      refine ⟨_, _, rfl, .inr ⟨rfl, ?_⟩⟩
      simp [hactive, ServerPc.rank]
  | loopTest =>
      refine ⟨_, _, rfl, .inr ⟨rfl, ?_⟩⟩
      simp [hconnected, ServerPc.rank]
  | pollConnection =>
      refine ⟨_, _, rfl, .inr ⟨rfl, ?_⟩⟩
      simp [hconnected, ServerPc.rank]
  | pollStatus =>
      refine ⟨_, _, rfl, .inr ⟨rfl, ?_⟩⟩
      simp [htake rfl, ServerPc.rank]
  | checkStatus =>
      refine ⟨_, _, rfl, .inr ⟨rfl, ?_⟩⟩
      simp [htake rfl, ServerPc.rank]
  | transferIn => exact ⟨_, _, rfl, .inl rfl⟩
  | process =>
      cases hproc : table.process trans with
      | ok r =>
          obtain ⟨answer, tbl'⟩ := r
          have hact : (ServerThread.mk .process trans table n).act
              = (.work ⟨.awaitSlot, answer, tbl', n⟩ : Act M maxNbPackets _) := by
            simp only [ServerThread.act, hproc]
          rw [hact]
          exact ⟨_, _, rfl, .inr ⟨rfl, Nat.lt_succ_self _⟩⟩
      | error e =>
          have hact : (ServerThread.mk .process trans table n).act
              = (.work ⟨.crashed e, trans, table, n⟩ : Act M maxNbPackets _) := by
            simp only [ServerThread.act, hproc]
          rw [hact]
          exact ⟨_, _, rfl, .inr ⟨rfl, Nat.zero_lt_succ _⟩⟩
  | awaitSlot =>
      refine ⟨_, _, rfl, .inr ⟨rfl, ?_⟩⟩
      simp [hput (List.cons_ne_nil _ _), ServerPc.rank]
  | transferOut => exact ⟨_, _, rfl, .inl rfl⟩
  | getIPToLeave => exact absurd rfl hleft
  | disconnect IP => exact absurd rfl hleft
  | done => exact absurd rfl hleft
  | crashed e => exact absurd rfl (hok e)
  | count => exact ⟨_, _, rfl, .inr ⟨rfl, by simp [ServerPc.rank]⟩⟩
  | _ => exact ⟨_, _, rfl, .inr ⟨rfl, Nat.lt_succ_self _⟩⟩

/-- `main` on its way through the start-up. -/
theorem MainPc.advances {net : Network M maxNbPackets} {m : MainPc}
    (hactive : net.networkStatus = .active) (hexited : m ≠ .exited) (hstage : m.stage < 8) :
    ∃ net' m', m.act.perform net = some (net', m') ∧ m'.stage = m.stage + 1 := by
  cases m with
  | connectServer IP =>
      refine ⟨_, _, rfl, ?_⟩
      have hok : (net.link .connect IP).1 = true := by
        simp only [Network.link, Network.connect, hactive, if_true]
        split <;> (try split) <;> rfl
      simp [hok, MainPc.stage]
  | connectClient IP =>
      refine ⟨_, _, rfl, ?_⟩
      have hok : (net.link .connect IP).1 = true := by
        simp only [Network.link, Network.connect, hactive, if_true]
        split <;> (try split) <;> rfl
      simp [hok, MainPc.stage]
  | joining => exact absurd hstage (by simp [MainPc.stage])
  | exited => exact absurd rfl hexited
  | _ => exact ⟨_, _, rfl, rfl⟩

/-! ## What stays as it is until then -/

section Program

variable [Add M] [Sub M] {s s' : State M maxNbPackets}

/-- What the start-up and the accounts promise: the network is active, `main`
has not given up, the sender is done only with nothing left to send, and the
account numbers are those of the beginning. -/
structure Live (tbl : AccountsTable M) (s : State M maxNbPackets) : Prop where
  active : s.net.networkStatus = .active
  main : s.main ≠ .exited
  sender : s.sender.pc = .done → s.sender.unsent = []
  table : ∀ accNumber, s.server.table.Known accNumber ↔ tbl.Known accNumber

omit [Add M] [Sub M] in
theorem init_live [Zero M] (h : 0 < maxNbPackets) (tbl : AccountsTable M)
    (txs : List (Transactions M)) : Live tbl (State.init h tbl txs) where
  active := rfl
  main := nofun
  sender := nofun
  table := fun _ => Iff.rfl

omit [Add M] [Sub M] in
/-- With the network up, each step of `main` is one of the start-up. -/
theorem MainPc.perform_stage {net net' : Network M maxNbPackets} {m m' : MainPc}
    (hactive : net.networkStatus = .active) (h : m.act.perform net = some (net', m')) :
    m.stage < 8 ∧ m'.stage = m.stage + 1 := by
  have hgoing : m ≠ .exited ∧ m.stage < 8 := by
    cases m with
    | joining => cases h
    | exited => cases h
    | _ => exact ⟨nofun, by simp [MainPc.stage]⟩
  obtain ⟨net₁, m₁, h₁, hnext⟩ := MainPc.advances hactive hgoing.1 hgoing.2
  rw [h] at h₁
  obtain ⟨-, rfl⟩ := Prod.mk.inj (Option.some.inj h₁)
  exact ⟨hgoing.2, hnext⟩

omit [Add M] [Sub M] in
/-- With the network up, no start-up step gives up. -/
theorem MainPc.perform_ne_exited {net net' : Network M maxNbPackets} {m m' : MainPc}
    (hactive : net.networkStatus = .active) (h : m.act.perform net = some (net', m')) :
    m' ≠ .exited := by
  have hnext := (MainPc.perform_stage hactive h).2
  rintro rfl
  exact absurd hnext (Nat.zero_ne_add_one _)

/-- Every step keeps these promises. -/
theorem Live.step {tbl : AccountsTable M} {t : Thread} (hL : Live tbl s)
    (hstep : Bank.step t s = some s') : Live tbl s' := by
  obtain ⟨-, hstep⟩ := step_cases hstep
  rcases hstep with ⟨net, m, rfl, hp, rfl⟩ | ⟨net, w, rfl, hp, rfl⟩ | ⟨net, v, rfl, hp, rfl⟩ |
    ⟨net, c, rfl, hp, rfl⟩ | ⟨net, c, rfl, hp, rfl⟩
  · obtain ⟨hsame, -⟩ := MainPc.perform_cases hp
    exact ⟨hsame.networkStatus.trans hL.active, MainPc.perform_ne_exited hL.active hp, hL.sender,
      hL.table⟩
  · obtain rfl := NetworkPc.perform_cases hp
    exact ⟨hL.active, hL.main, hL.sender, hL.table⟩
  · rcases ServerThread.perform_cases hp with ⟨-, -, -, hsame, -, -, htable, -⟩ |
      ⟨-, rfl, rfl⟩ | ⟨t, tbl', -, hproc, rfl, rfl⟩ | ⟨e, -, -, rfl, rfl⟩ | ⟨-, rfl, rfl⟩
    · refine ⟨hsame.networkStatus.trans hL.active, hL.main, hL.sender, fun accNumber => ?_⟩
      rw [htable]
      exact hL.table accNumber
    · exact ⟨hL.active, hL.main, hL.sender, hL.table⟩
    · exact ⟨hL.active, hL.main, hL.sender,
        fun accNumber => (AccountsTable.process_known_iff hproc _).trans (hL.table accNumber)⟩
    · exact ⟨hL.active, hL.main, hL.sender, hL.table⟩
    · exact ⟨hL.active, hL.main, hL.sender, hL.table⟩
  · rcases Sender.perform_cases hp with ⟨-, hsame, -, -, hunsent, -, hdone⟩ |
      ⟨t, rest, -, -, rfl, rfl⟩
    · exact ⟨hsame.networkStatus.trans hL.active, hL.main, fun hd => hunsent.trans (hdone hd),
        hL.table⟩
    · exact ⟨hL.active, hL.main, nofun, hL.table⟩
  · rcases Receiver.perform_cases hp with ⟨-, hsame, -⟩ | ⟨-, rfl, rfl⟩
    · exact ⟨hsame.networkStatus.trans hL.active, hL.main, hL.sender, hL.table⟩
    · exact ⟨hL.active, hL.main, hL.sender, hL.table⟩

/-- A step without a transfer leaves the queues alone, and the server neither
gets nor loses its packet. -/
theorem Simulates.still (h : Simulates s s' 0) :
    s'.pipe.unsent = s.pipe.unsent ∧ s'.pipe.inQ = s.pipe.inQ ∧ s'.pipe.outQ = s.pipe.outQ ∧
      s'.pipe.received = s.pipe.received ∧ (s'.pipe.held = .idle ↔ s.pipe.held = .idle) := by
  rcases h with ⟨heq, -⟩ | ⟨m, hm, hcost⟩
  · rw [heq]
    exact ⟨rfl, rfl, rfl, rfl, Iff.rfl⟩
  · rcases Pipe.step_cases hm with ⟨_, _, rfl, -⟩ | ⟨_, _, rfl, -⟩ | ⟨a, rfl, hheld, heq⟩ |
      ⟨_, rfl, -⟩ | ⟨_, _, rfl, -⟩
    · exact absurd hcost nofun
    · exact absurd hcost nofun
    · rw [heq, hheld]
      exact ⟨rfl, rfl, rfl, rfl, nofun, nofun⟩
    · exact absurd hcost nofun
    · exact absurd hcost nofun

end Program

/-! ## Each party can go on when it has work -/

section Parties

variable [Zero M] [Add M] [Sub M] {h : 0 < maxNbPackets} {tbl : AccountsTable M}
  {txs : List (Transactions M)} {s : State M maxNbPackets}

theorem live_of_reaches (hs : Sched.Reaches step (State.init h tbl txs) s) : Live tbl s :=
  Sched.Reaches.invariant (fun hL hstep => Live.step hL hstep) hs (init_live h tbl txs)

/-- The packet the server holds is on a known account. -/
theorem held_known (hs : Sched.Reaches step (State.init h tbl txs) s)
    (hknown : ∀ t ∈ txs, tbl.Known t.accountNumber) {t : Transactions M}
    (ht : t ∈ s.server.holding) : s.server.table.Known t.accountNumber := by
  have hmem : t.request ∈ txs.map request := by
    rw [← requests_in_order hs]
    exact List.mem_map_of_mem (by simp [ht])
  obtain ⟨u, hu, hrequest⟩ := List.mem_map.mp hmem
  have hnumber : u.accountNumber = t.accountNumber := congrArg Prod.fst hrequest
  exact ((live_of_reaches hs).table _).mpr (hnumber ▸ hknown u hu)

/-- With known accounts the server never crashes. -/
theorem not_crashed (hs : Sched.Reaches step (State.init h tbl txs) s)
    (hknown : ∀ t ∈ txs, tbl.Known t.accountNumber) (e : JavaException) :
    s.server.pc ≠ .crashed e := by
  refine (Sched.Reaches.invariant (P := fun s => Sched.Reaches step (State.init h tbl txs) s ∧
    ∀ e, s.server.pc ≠ .crashed e) ?_ hs ⟨.refl _, fun e hpc => by cases hpc⟩).2 e
  rintro t s s' ⟨hs, hok⟩ hstep
  refine ⟨hs.tail hstep, ?_⟩
  obtain ⟨-, hstep⟩ := step_cases hstep
  rcases hstep with ⟨net, m, rfl, -, rfl⟩ | ⟨net, w, rfl, -, rfl⟩ | ⟨net, v, rfl, hp, rfl⟩ |
    ⟨net, c, rfl, -, rfl⟩ | ⟨net, c, rfl, -, rfl⟩
  · exact hok
  · exact hok
  · rcases ServerThread.perform_cases hp with ⟨-, -, -, -, -, -, -, -, -, hv, -⟩ |
      ⟨-, rfl, rfl⟩ | ⟨t, tbl', -, -, rfl, rfl⟩ | ⟨e, hpc, hproc, rfl, rfl⟩ | ⟨-, rfl, rfl⟩
    · exact hv
    · intro e hpc
      cases hpc
    · intro e hpc
      cases hpc
    · have hheld := held_known hs hknown (t := s.server.trans) (by simp [ServerThread.holding, hpc])
      obtain ⟨answer, tbl', hok⟩ := AccountsTable.process_ok_of_known hheld
      rw [hproc] at hok
      cases hok
    · intro e hpc
      cases hpc
  · exact hok
  · exact hok

/-- As long as a thread is not started, `main` goes on with the start-up. -/
theorem main_moves {t : Thread} (hs : Sched.Reaches step (State.init h tbl txs) s)
    (hwaits : ¬ s.main.started t) :
    ∃ net m, step .main s = some { s with net := net, main := m } ∧
      State.transfers .main s = 0 ∧ m.stage = s.main.stage + 1 ∧ s.main.stage < 8 := by
  have hL := live_of_reaches hs
  have hstage : s.main.stage < 8 := by
    have hle : t.startStage ≤ 8 := by cases t <;> decide
    have hlt : s.main.stage < t.startStage := Nat.lt_of_not_le hwaits
    omega
  obtain ⟨net, m, hp, hnext⟩ := MainPc.advances hL.active hL.main hstage
  refine ⟨net, m, ?_, ?_, hnext, hstage⟩
  · simp [step, MainPc.started, Thread.startStage, hp]
  · simp only [State.transfers]
    cases s.main <;> rfl

/-- A party that goes on under a condition no transfer-free step can end comes
to its transfer, once `main` has started it. -/
theorem completes_of_advances (t : Thread)
    {C : Pipe (Content M) (Content M) (AccountsTable M) → Prop} (rank : State M maxNbPackets → Nat)
    (hrank : ∀ (s : State M maxNbPackets) net m, rank { s with net := net, main := m } = rank s)
    (hC : ∀ {s s' : State M maxNbPackets}, Simulates s s' 0 → C s.pipe → C s'.pipe)
    (hadv : ∀ {s : State M maxNbPackets}, Sched.Reaches step (State.init h tbl txs) s →
      C s.pipe → s.main.started t → ∃ s', step t s = some s' ∧ s'.main = s.main ∧
        (State.transfers t s = 1 ∨ (State.transfers t s = 0 ∧ rank s' < rank s)))
    (hs : Sched.Reaches step (State.init h tbl txs) s) (hpipe : C s.pipe) :
    Sched.Completes (fun u => u = t ∨ u = .main) State.transfers step s := by
  refine Sched.completes_of_rank (P := fun s => Sched.Reaches step (State.init h tbl txs) s ∧
    C s.pipe) (fun s => (8 - s.main.stage) + rank s) ?_ ⟨hs, hpipe⟩
  rintro s ⟨hs, hpipe⟩
  rcases Decidable.em (s.main.started t) with hstarted | hstarted
  · obtain ⟨s', hstep, hmain, hkind⟩ := hadv hs hpipe hstarted
    refine ⟨t, s', .inl rfl, hstep, hkind.imp id fun ⟨hzero, hlt⟩ => ⟨hzero, ?_, ?_⟩⟩
    · obtain ⟨-, hsim⟩ := step_simulates (inv_and_delivers hs).1 hstep
      exact ⟨hs.tail hstep, hC (hzero ▸ hsim) hpipe⟩
    · rw [hmain]
      exact Nat.add_lt_add_left hlt _
  · obtain ⟨net, m, hstep, hzero, hnext, hstage⟩ := main_moves hs hstarted
    refine ⟨.main, _, .inr rfl, hstep, .inr ⟨hzero, ?_, ?_⟩⟩
    · obtain ⟨-, hsim⟩ := step_simulates (inv_and_delivers hs).1 hstep
      exact ⟨hs.tail hstep, hC (hzero ▸ hsim) hpipe⟩
    · simp only [hrank, hnext]
      omega

/-- The sending client, once started, goes on while the incoming buffer has room and
something is unsent. -/
theorem sender_moves (hs : Sched.Reaches step (State.init h tbl txs) s)
    (hroom : s.pipe.inQ.length < maxNbPackets) (hunsent : s.pipe.unsent ≠ [])
    (hstarted : s.main.started .sender) :
    ∃ s', step .sender s = some s' ∧ s'.main = s.main ∧ (State.transfers .sender s = 1 ∨
      (State.transfers .sender s = 0 ∧ s'.sender.pc.rank < s.sender.pc.rank)) := by
  have hL := live_of_reaches hs
  have hne : s.sender.unsent ≠ [] := by simpa [State.pipe] using hunsent
  have hfull : s.net.inComing.status ≠ .full := by
    intro hfull
    have hlen := (inv_and_delivers hs).1.inExact.full_iff.mp hfull
    simp only [State.pipe, List.length_map] at hroom
    omega
  obtain ⟨net, c, hp, hkind⟩ := Sender.advances hL.active hfull hne
    (fun hdone => hne (hL.sender hdone))
  exact ⟨{ s with net := net, sender := c }, by simp [step, hstarted, hp], rfl, hkind⟩

theorem sender_completes (hs : Sched.Reaches step (State.init h tbl txs) s)
    (hin : s.pipe.inQ = []) (hunsent : s.pipe.unsent ≠ []) :
    Sched.Completes (fun u => u = .sender ∨ u = .main) State.transfers step s := by
  refine completes_of_advances .sender (C := fun p => p.inQ = [] ∧ p.unsent ≠ [])
    (fun s => s.sender.pc.rank) (fun _ _ _ => rfl) ?_ ?_ hs ⟨hin, hunsent⟩
  · rintro s s' hsim ⟨hin, hunsent⟩
    obtain ⟨hunsent', hin', -⟩ := hsim.still
    exact ⟨hin'.trans hin, hunsent' ▸ hunsent⟩
  · rintro s hs ⟨hin, hunsent⟩ hstarted
    exact sender_moves hs (by simpa [hin] using h) hunsent hstarted

/-- The receiving client, once started, goes on while a packet waits for it. -/
theorem receiver_moves (hs : Sched.Reaches step (State.init h tbl txs) s)
    (hout : s.pipe.outQ ≠ []) (hstarted : s.main.started .receiver) :
    ∃ s', step .receiver s = some s' ∧ s'.main = s.main ∧ (State.transfers .receiver s = 1 ∨
      (State.transfers .receiver s = 0 ∧ s'.receiver.pc.rank < s.receiver.pc.rank)) := by
  have hL := live_of_reaches hs
  obtain ⟨hI, hd⟩ := inv_and_delivers hs
  have hcl := closing_of_reaches hs
  have hne : s.net.outGoing.queued ≠ [] := by simpa [State.pipe] using hout
  have hless : s.receiver.received.length < txs.length := by
    have hlen := hd.length_eq
    have hpos := List.length_pos_iff.mpr hne
    simp only [State.pipe, List.length_map] at hlen
    omega
  have hready : s.net.outGoing.status ≠ .empty := by
    intro hempty
    exact hne (List.length_eq_zero_iff.mp (hI.outExact.empty_iff.mp hempty))
  obtain ⟨net, c, hp, hkind⟩ := Receiver.advances hL.active hready (hcl.total ▸ hless)
    (fun hleft => absurd (hcl.receiverLeft hleft) (Nat.not_le.mpr hless))
  exact ⟨{ s with net := net, receiver := c }, by simp [step, hstarted, hp], rfl, hkind⟩

theorem receiver_completes (hs : Sched.Reaches step (State.init h tbl txs) s)
    (hout : s.pipe.outQ ≠ []) :
    Sched.Completes (fun u => u = .receiver ∨ u = .main) State.transfers step s := by
  refine completes_of_advances .receiver (C := fun p => p.outQ ≠ [])
    (fun s => s.receiver.pc.rank) (fun _ _ _ => rfl) ?_ ?_ hs hout
  · intro s s' hsim hout
    obtain ⟨-, -, hout', -⟩ := hsim.still
    exact hout' ▸ hout
  · intro s hs hout hstarted
    exact receiver_moves hs hout hstarted

/-- The server, once started and not crashed, goes on while it holds a packet and the
outgoing buffer is empty, or is idle and a packet waits for it. -/
theorem server_moves (hs : Sched.Reaches step (State.init h tbl txs) s)
    (hok : ∀ e, s.server.pc ≠ .crashed e) (hless : s.pipe.received.length < txs.length)
    (hwork : s.pipe.outQ = [] ∧ s.pipe.held ≠ .idle ∨ s.pipe.held = .idle ∧ s.pipe.inQ ≠ [])
    (hstarted : s.main.started .server) :
    ∃ s', step .server s = some s' ∧ s'.main = s.main ∧ (State.transfers .server s = 1 ∨
      (State.transfers .server s = 0 ∧ s'.server.pc.rank < s.server.pc.rank)) := by
  have hL := live_of_reaches hs
  have hI := (inv_and_delivers hs).1
  have hcl := closing_of_reaches hs
  have hless : s.receiver.received.length < txs.length := by simpa [State.pipe] using hless
  have hidle : s.server.holding = [] → s.server.held = .idle := by
    intro hnone
    cases hpc : s.server.pc <;> simp_all [ServerThread.holding, ServerThread.held]
  have hbusy : s.server.holding ≠ [] → s.server.held ≠ .idle := by
    intro hsome
    cases hpc : s.server.pc <;> simp_all [ServerThread.holding, ServerThread.held]
  have htake : s.server.holding = [] → s.net.inComing.status ≠ .empty := by
    intro hnone hempty
    have hin : s.net.inComing.queued = [] :=
      List.length_eq_zero_iff.mp (hI.inExact.empty_iff.mp hempty)
    rcases hwork with ⟨-, hheld⟩ | ⟨-, hne⟩
    · exact hheld (hidle hnone)
    · exact hne (by simp [State.pipe, hin])
  have hput : s.server.holding ≠ [] → s.net.outGoing.status ≠ .full := by
    intro hsome
    rcases hwork with ⟨hout, -⟩ | ⟨hheld, -⟩
    · have hempty : s.net.outGoing.queued = [] := by simpa [State.pipe] using hout
      have hstatus : s.net.outGoing.status = .empty :=
        hI.outExact.empty_iff.mpr (by simp [hempty])
      rw [hstatus]
      intro hfull
      cases hfull
    · exact absurd hheld (hbusy hsome)
  obtain ⟨net, v, hp, hkind⟩ := ServerThread.advances hL.active
    (fun hd => absurd (hcl.disconnected hd) (Nat.not_le.mpr hless))
    (fun hleft => absurd (hcl.serverLeft hleft) (Nat.not_le.mpr hless))
    hok htake hput
  exact ⟨{ s with net := net, server := v }, by simp [step, hstarted, hp], rfl, hkind⟩

theorem server_completes (hs : Sched.Reaches step (State.init h tbl txs) s)
    (hknown : ∀ t ∈ txs, tbl.Known t.accountNumber)
    (hless : s.pipe.received.length < txs.length)
    (hwork : s.pipe.outQ = [] ∧ s.pipe.held ≠ .idle ∨ s.pipe.held = .idle ∧ s.pipe.inQ ≠ []) :
    Sched.Completes (fun u => u = .server ∨ u = .main) State.transfers step s := by
  refine completes_of_advances .server (C := fun p => p.received.length < txs.length ∧
      (p.outQ = [] ∧ p.held ≠ .idle ∨ p.held = .idle ∧ p.inQ ≠ []))
    (fun s => s.server.pc.rank) (fun _ _ _ => rfl) ?_ ?_ hs ⟨hless, hwork⟩
  · rintro s s' hsim ⟨hless, hwork⟩
    obtain ⟨-, hin, hout, hreceived, hheld⟩ := hsim.still
    rw [hreceived, hin, hout, Ne, hheld]
    exact ⟨hless, hwork⟩
  · rintro s hs ⟨hless, hwork⟩ hstarted
    exact server_moves hs (not_crashed hs hknown) hless hwork hstarted

/-! ## No deadlock -/

/-- As long as a packet is missing at the receiving client, some party can go on
by itself (`main` finishing the start-up) to its next transfer. -/
theorem some_party_completes (hs : Sched.Reaches step (State.init h tbl txs) s)
    (hknown : ∀ t ∈ txs, tbl.Known t.accountNumber)
    (hless : s.receiver.received.length < txs.length) :
    ∃ t, (t = .sender ∨ t = .server ∨ t = .receiver) ∧
      Sched.Completes (fun u => u = t ∨ u = .main) State.transfers step s := by
  have hless' : s.pipe.received.length < txs.length := by simpa [State.pipe] using hless
  rcases (inv_and_delivers hs).2.not_stuck (by simpa using hless') with
    hout | hheld | hin | ⟨hin, hunsent⟩
  · exact ⟨.receiver, .inr (.inr rfl), receiver_completes hs hout⟩
  · exact ⟨.server, .inr (.inl rfl), server_completes hs hknown hless' (.inl hheld)⟩
  · exact ⟨.server, .inr (.inl rfl), server_completes hs hknown hless' (.inr hin)⟩
  · exact ⟨.sender, .inl rfl, sender_completes hs hin hunsent⟩

omit [Zero M] in
/-- A step uses up as many of the remaining transfers as it makes. -/
theorem Simulates.remaining {s s' : State M maxNbPackets} {n : Nat} (hsim : Simulates s s' n) :
    s'.pipe.remaining + n = s.pipe.remaining := by
  rcases hsim with ⟨heq, rfl⟩ | ⟨m, hm, rfl⟩
  · rw [heq]
    rfl
  · exact Pipe.step_remaining hm

omit [Add M] [Sub M] in
theorem init_remaining : (State.init h tbl txs).pipe.remaining = 4 * txs.length := by
  rw [init_pipe]
  simp [Pipe.start, Pipe.remaining, Held.rawList, Held.cookedList]

/-- The bank pipeline never deadlocks: while packets are missing some party can
go on to a transfer; a run makes at most `4 * n` transfers, each using up one
unit of what remains; and where no party can go on, everything is delivered. -/
theorem pipeline_never_deadlocks (h : 0 < maxNbPackets) (tbl : AccountsTable M)
    (txs : List (Transactions M)) (hknown : ∀ t ∈ txs, tbl.Known t.accountNumber) :
    (∀ s : State M maxNbPackets, Sched.Reaches step (State.init h tbl txs) s →
      s.receiver.received.length < txs.length →
      ∃ t, (t = .sender ∨ t = .server ∨ t = .receiver) ∧
        Sched.Completes (fun u => u = t ∨ u = .main) State.transfers step s) ∧
    (∀ is (s : State M maxNbPackets), Sched.run step is (State.init h tbl txs) = some s →
      Sched.spent State.transfers step is (State.init h tbl txs) ≤ 4 * txs.length) ∧
    (∀ (s : State M maxNbPackets) t s', Sched.Reaches step (State.init h tbl txs) s →
      step t s = some s' → s'.pipe.remaining + State.transfers t s = s.pipe.remaining) ∧
    (∀ s : State M maxNbPackets, Sched.Reaches step (State.init h tbl txs) s →
      (∀ t, t = .sender ∨ t = .server ∨ t = .receiver →
        ¬ Sched.Completes (fun u => u = t ∨ u = .main) State.transfers step s) →
      s.receiver.received.length = txs.length) := by
  have hpay : ∀ {t : Thread} {s s' : State M maxNbPackets}, Inv s → step t s = some s' →
      s'.pipe.remaining + State.transfers t s = s.pipe.remaining :=
    fun hI hstep => (step_simulates hI hstep).2.remaining
  refine ⟨fun s hs hless => some_party_completes hs hknown hless, ?_, ?_, ?_⟩
  · intro is s hrun
    have hspent : s.pipe.remaining + Sched.spent State.transfers step is (State.init h tbl txs)
        = (State.init h tbl txs).pipe.remaining :=
      Sched.run_spent (fun hI hstep => (step_simulates hI hstep).1) hpay (init_inv h tbl txs) hrun
    rw [init_remaining] at hspent
    omega
  · intro s t s' hs hstep
    exact hpay (inv_and_delivers hs).1 hstep
  · intro s hs hstuck
    have hlen := (inv_and_delivers hs).2.length_eq
    simp only [State.pipe, List.length_map] at hlen
    have hnone : ¬ s.receiver.received.length < txs.length := by
      intro hless
      obtain ⟨t, ht, hgo⟩ := some_party_completes hs hknown hless
      exact hstuck t ht hgo
    omega

/-- Two transactions through buffers of one slot, the second of them with the server. -/
theorem pipeline_never_deadlocks_oneByOne : ∃ s : State Int 1,
    Sched.run step midway (State.init (by decide) firstAccount twoTransactions) = some s ∧
    (∃ t, (t = .sender ∨ t = .server ∨ t = .receiver) ∧
      Sched.Completes (fun u => u = t ∨ u = .main) State.transfers step s) ∧
    Sched.spent State.transfers step midway
      (State.init (by decide) firstAccount twoTransactions : State Int 1) ≤ 8 := by
  have hrun : ((Sched.run step midway (State.init (by decide) firstAccount twoTransactions :
      State Int 1)).any fun s => s.receiver.received.length < 2) = true := by
    decide
  obtain ⟨s, hs, hless⟩ := (Option.any_eq_true _ _).mp hrun
  obtain ⟨hgo, hspent, -⟩ := pipeline_never_deadlocks (show 0 < 1 by decide) firstAccount
    twoTransactions (by decide)
  exact ⟨s, hs, hgo s (Sched.reaches_of_run hs) (of_decide_eq_true hless), hspent midway s hs⟩

end Parties

end Smoll.Bank
