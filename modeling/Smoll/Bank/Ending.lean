/-
# `Smoll.Bank.Ending` — when the program comes to its end

Once the receiving client has all packets it disconnects, the server sees that
and disconnects too, and the network thread, for which `main` waits, sees
both.  `fair_runs_end_iff` says that with a transaction at least, and no unknown
account among them, this is how every fair run of the program goes, and that the
receiving client has then printed the replies of `processTransactions` to the
client's transactions, one after another.

Each of the four threads walks to its end by itself (`exit` counts its steps)
when the threads before it are at theirs, so the four walks are chained with
`Sched.LeadsTo.trans`.  That no connection request comes in between is
taken from the accesses of `Smoll.Bank.Disconnect` (`Goodbye`), of which the
runs here are runs.

With no transaction the sending client may connect after the receiving one
has disconnected; from there on the server is never told (`Unaware`), however
often each thread has its turn.
-/
import Smoll.Bank.Fairness
import Smoll.Bank.Disconnect

namespace Smoll.Bank

open Transactions

variable {M : Type} {maxNbPackets : Nat}

/-! ## What the threads keep to -/

/-- The receiving client has not connected yet. -/
def ReceiverPc.early : ReceiverPc → Bool
  | .awaitNetwork | .getClientIP | .connect _ => true
  | _ => false

/-- The sending client comes into its loop only with a packet to send. -/
def Sender.Busy (c : Sender M) : Prop :=
  c.pc = .awaitSlot ∨ c.pc = .send → c.unsent ≠ []

/-- The receiving client waits only for a packet it misses, and has none before it
has connected. -/
structure Receiver.Waits (c : Receiver M) : Prop where
  missing : c.pc = .awaitPacket → c.received.length < c.numberOfTransactions
  fresh : c.pc.early → c.received = []

theorem Sender.Busy.perform {net net' : Network M maxNbPackets} {c c' : Sender M} (hbusy : c.Busy)
    (h : c.act.perform net = some (net', c')) : c'.Busy := by
  obtain ⟨pc, sent, unsent⟩ := c
  intro hpc
  cases pc with
  | loopTest =>
      cases unsent with
      | nil =>
          obtain ⟨-, rfl⟩ := Act.perform_work h
          rcases hpc with hpc | hpc <;> cases hpc
      | cons t rest =>
          obtain ⟨-, rfl⟩ := Act.perform_work h
          exact List.cons_ne_nil _ _
  | awaitSlot =>
      have hne : unsent ≠ [] := hbusy (.inl rfl)
      obtain ⟨-, rfl⟩ := Act.perform_read h
      split <;> exact hne
  | send =>
      cases unsent with
      | nil => cases h
      | cons t rest =>
          obtain ⟨-, rfl⟩ := Act.perform_transfer h
          rcases hpc with hpc | hpc <;> cases hpc
  | awaitNetwork =>
      obtain ⟨-, rfl⟩ := Act.perform_read h
      dsimp only at hpc
      split at hpc <;> rcases hpc with hpc | hpc <;> cases hpc
  | getClientIP =>
      obtain ⟨-, rfl⟩ := Act.perform_read h
      rcases hpc with hpc | hpc <;> cases hpc
  | connect IP =>
      obtain ⟨-, rfl⟩ := Act.perform_link h
      rcases hpc with hpc | hpc <;> cases hpc
  | done => cases h

theorem Receiver.Waits.perform {net net' : Network M maxNbPackets} {c c' : Receiver M}
    (hwaits : c.Waits) (h : c.act.perform net = some (net', c')) : c'.Waits := by
  obtain ⟨pc, transact, received, n⟩ := c
  cases pc with
  | awaitNetwork =>
      obtain ⟨-, rfl⟩ := Act.perform_read h
      split
      · exact ⟨(fun hpc => by cases hpc), fun _ => hwaits.fresh rfl⟩
      · exact ⟨(fun hpc => by cases hpc), fun _ => hwaits.fresh rfl⟩
  | getClientIP =>
      obtain ⟨-, rfl⟩ := Act.perform_read h
      exact ⟨(fun hpc => by cases hpc), fun _ => hwaits.fresh rfl⟩
  | connect IP =>
      obtain ⟨-, rfl⟩ := Act.perform_link h
      constructor <;> intro hpc <;> cases hpc
  | loopTest =>
      simp only [Receiver.act] at h
      split at h
      · next hless =>
          obtain ⟨-, rfl⟩ := Act.perform_work h
          exact ⟨fun _ => hless, (fun hpc => by cases hpc)⟩
      · obtain ⟨-, rfl⟩ := Act.perform_work h
        constructor <;> intro hpc <;> cases hpc
  | awaitPacket =>
      obtain ⟨-, rfl⟩ := Act.perform_read h
      split
      · exact hwaits
      · constructor <;> intro hpc <;> cases hpc
  | receive =>
      obtain ⟨-, rfl⟩ := Act.perform_transfer h
      constructor <;> intro hpc <;> cases hpc
  | getIPToLeave =>
      obtain ⟨-, rfl⟩ := Act.perform_read h
      constructor <;> intro hpc <;> cases hpc
  | disconnect IP =>
      obtain ⟨-, rfl⟩ := Act.perform_link h
      constructor <;> intro hpc <;> cases hpc
  | done => cases h

/-! ## Who changes the server's connection -/

/-- The sending client asks for connections only before its first packet. -/
theorem Sender.perform_net {net net' : Network M maxNbPackets} {c c' : Sender M}
    (hearly : ¬ c.pc.early) (h : c.act.perform net = some (net', c')) :
    net'.serverConnectionStatus = net.serverConnectionStatus := by
  obtain ⟨pc, sent, unsent⟩ := c
  cases pc with
  | connect IP => exact absurd rfl hearly
  | loopTest =>
      cases unsent <;> obtain ⟨rfl, -⟩ := Act.perform_work h <;> rfl
  | send =>
      cases unsent with
      | nil => cases h
      | cons t rest =>
          obtain ⟨rfl, -⟩ := Act.perform_transfer h
          rfl
  | done => cases h
  | _ =>
      obtain ⟨rfl, -⟩ := Act.perform_read h
      rfl

/-- The receiving client, past its `connect`, asks only for the end of its own. -/
theorem Receiver.perform_net {net net' : Network M maxNbPackets} {c c' : Receiver M}
    (hearly : ¬ c.pc.early) (haddress : ∀ IP, c.pc = .disconnect IP → IP = net.clientIP)
    (h : c.act.perform net = some (net', c')) :
    net'.serverConnectionStatus = net.serverConnectionStatus := by
  obtain ⟨pc, transact, received, n⟩ := c
  cases pc with
  | connect IP => exact absurd rfl hearly
  | loopTest =>
      simp only [Receiver.act] at h
      split at h <;> obtain ⟨rfl, -⟩ := Act.perform_work h <;> rfl
  | receive =>
      obtain ⟨rfl, -⟩ := Act.perform_transfer h
      rfl
  | disconnect IP =>
      obtain rfl := haddress IP rfl
      obtain ⟨rfl, -⟩ := Act.perform_link h
      simp only [Network.link, Network.disconnect, if_true]
      split <;> rfl
  | done => cases h
  | _ =>
      obtain ⟨rfl, -⟩ := Act.perform_read h
      rfl

/-- The server is done when it has asked for the end of its connection. -/
theorem ServerThread.perform_done [Add M] [Sub M] {net net' : Network M maxNbPackets}
    {v v' : ServerThread M} (h : v.act.perform net = some (net', v')) (hdone : v'.pc = .done) :
    ∃ IP, v.pc = .disconnect IP ∧ net' = (net.link .disconnect IP).2 := by
  obtain ⟨pc, trans, table, n⟩ := v
  cases pc with
  | disconnect IP =>
      obtain ⟨rfl, -⟩ := Act.perform_link h
      exact ⟨IP, rfl, rfl⟩
  | process =>
      simp only [ServerThread.act] at h
      split at h <;> obtain ⟨-, rfl⟩ := Act.perform_work h <;> cases hdone
  | done => cases h
  | crashed e => cases h
  | _ =>
      simp only [ServerThread.act, Act.perform, Option.some.injEq, Prod.mk.injEq] at h
      obtain ⟨-, rfl⟩ := h
      first
      | cases hdone
      | split at hdone <;> cases hdone

/-! ## The way out -/

/-- Steps from here to the end of the thread, once all packets are received. -/
def ReceiverPc.exit : ReceiverPc → Nat
  | .done => 0
  | .disconnect _ => 1
  | .getIPToLeave => 2
  | _ => 3

/-- Steps from here to the end of the thread, once the client has disconnected. -/
def ServerPc.exit : ServerPc → Nat
  | .done => 0
  | .disconnect _ => 1
  | .getIPToLeave => 2
  | .loopTest => 3
  | .checkStatus => 4
  | .pollConnection => 5
  | .pollStatus => 6
  | .getServerIP => 5
  | .awaitNetwork => 6
  | _ => 4

/-- Steps from here to the end of the thread, once both sides have disconnected. -/
def NetworkPc.exit : NetworkPc → Nat
  | .done => 0
  | .testServer => 1
  | .testClient => 2

/-- With all packets, the receiving client goes on from its loop to its end. -/
theorem Receiver.leaves {c : Receiver M} (net : Network M maxNbPackets)
    (hall : c.numberOfTransactions ≤ c.received.length)
    (hpc : c.pc = .loopTest ∨ c.pc.left) (hdone : c.pc ≠ .done) :
    ∃ net' c', c.act.perform net = some (net', c') ∧ c'.pc.exit < c.pc.exit := by
  obtain ⟨pc, transact, received, n⟩ := c
  cases pc with
  | loopTest =>
      have hact : (Receiver.mk .loopTest transact received n).act
          = (.work ⟨.getIPToLeave, transact, received, n⟩ : Act M maxNbPackets _) :=
        if_neg (Nat.not_lt.mpr hall)
      rw [hact]
      exact ⟨_, _, rfl, Nat.lt_succ_self _⟩
  | getIPToLeave => exact ⟨_, _, rfl, Nat.lt_succ_self _⟩
  | disconnect IP => exact ⟨_, _, rfl, Nat.lt_succ_self _⟩
  | done => exact absurd rfl hdone
  | _ => rcases hpc with hpc | hpc <;> cases hpc

/-- With nothing to take in and the client gone, the server goes on to its end. -/
theorem ServerThread.leaves [Add M] [Sub M] {v : ServerThread M} {net : Network M maxNbPackets}
    (hactive : net.networkStatus = .active) (hgone : net.clientConnectionStatus = .disconnected)
    (hempty : net.inComing.status = .empty) (hheld : v.held = .idle) (htake : v.pc ≠ .transferIn)
    (hdone : v.pc ≠ .done) :
    ∃ net' v', v.act.perform net = some (net', v') ∧ v'.pc.exit < v.pc.exit := by
  obtain ⟨pc, trans, table, n⟩ := v
  cases pc with
  | awaitNetwork =>
      refine ⟨_, _, rfl, ?_⟩
      simp [hactive, ServerPc.exit]
  | loopTest =>
      refine ⟨_, _, rfl, ?_⟩
      simp [hgone, ServerPc.exit]
  | pollStatus =>
      refine ⟨_, _, rfl, ?_⟩
      simp [hempty, ServerPc.exit]
  | pollConnection =>
      refine ⟨_, _, rfl, ?_⟩
      simp [hgone, ServerPc.exit]
  | checkStatus =>
      refine ⟨_, _, rfl, ?_⟩
      simp [hempty, ServerPc.exit]
  | transferIn => exact absurd rfl htake
  | process => cases hheld
  | awaitSlot => cases hheld
  | transferOut => cases hheld
  | crashed e => cases hheld
  | done => exact absurd rfl hdone
  | _ => exact ⟨_, _, rfl, Nat.lt_succ_self _⟩

/-- With both sides gone, the network thread goes on to its end. -/
theorem NetworkPc.leaves {w : NetworkPc} {net : Network M maxNbPackets}
    (hclient : net.clientConnectionStatus = .disconnected)
    (hserver : net.serverConnectionStatus = .disconnected) (hdone : w ≠ .done) :
    ∃ w', w.act.perform net = some (net, w') ∧ w'.exit < w.exit := by
  cases w with
  | testClient =>
      refine ⟨_, rfl, ?_⟩
      simp [hclient, NetworkPc.exit]
  | testServer =>
      refine ⟨_, rfl, ?_⟩
      simp [hserver, NetworkPc.exit]
  | done => exact absurd rfl hdone

/-! ## Once all packets are received -/

section Runs

variable [Zero M] [Add M] [Sub M] {h : 0 < maxNbPackets} {tbl : AccountsTable M}
  {txs : List (Transactions M)} {s s' : State M maxNbPackets}

theorem busy_of_reaches (hs : Sched.Reaches step (State.init h tbl txs) s) : s.sender.Busy := by
  have hinit : (State.init h tbl txs).sender.Busy := by
    rintro (hpc | hpc) <;> cases hpc
  refine Sched.Reaches.invariant (P := fun s => s.sender.Busy) ?_ hs hinit
  intro t s s' hbusy hstep
  obtain ⟨-, hstep⟩ := step_cases hstep
  rcases hstep with ⟨net, m, rfl, -, rfl⟩ | ⟨net, w, rfl, -, rfl⟩ | ⟨net, v, rfl, -, rfl⟩ |
    ⟨net, c, rfl, hp, rfl⟩ | ⟨net, c, rfl, -, rfl⟩
  · exact hbusy
  · exact hbusy
  · exact hbusy
  · exact hbusy.perform hp
  · exact hbusy

theorem waits_of_reaches (hs : Sched.Reaches step (State.init h tbl txs) s) :
    s.receiver.Waits := by
  refine Sched.Reaches.invariant (P := fun s => s.receiver.Waits) ?_ hs ⟨nofun, fun _ => rfl⟩
  intro t s s' hwaits hstep
  obtain ⟨-, hstep⟩ := step_cases hstep
  rcases hstep with ⟨net, m, rfl, -, rfl⟩ | ⟨net, w, rfl, -, rfl⟩ | ⟨net, v, rfl, -, rfl⟩ |
    ⟨net, c, rfl, -, rfl⟩ | ⟨net, c, rfl, hp, rfl⟩
  · exact hwaits
  · exact hwaits
  · exact hwaits
  · exact hwaits
  · exact hwaits.perform hp

/-- The accesses of the run keep to `Goodbye`. -/
theorem goodbye_of_reaches (htxs : txs ≠ [])
    (hs : Sched.Reaches step (State.init h tbl txs) s) :
    Locks.Goodbye txs.length (Locks.State.rest s) := by
  have hn : 0 < txs.length := List.length_pos_iff.mpr htxs
  exact Sched.Reaches.invariant (fun hG hstep => Locks.Goodbye.step hn hG hstep)
    (Locks.reaches_of_atomic hs) (Locks.init_goodbye h tbl txs)

theorem Delivered.received_ne_nil (hd : Delivered h tbl txs s) (htxs : txs ≠ []) :
    s.receiver.received ≠ [] := by
  intro hnone
  have hall := hd.2
  rw [hnone] at hall
  exact htxs (List.length_eq_zero_iff.mp (Nat.le_zero.mp hall))

/-- A client with all its packets is past its `connect`. -/
theorem Delivered.receiver_not_early (hd : Delivered h tbl txs s) (htxs : txs ≠ []) :
    ¬ s.receiver.pc.early :=
  fun hearly => hd.received_ne_nil htxs ((waits_of_reaches hd.1).fresh hearly)

theorem Delivered.sender_not_early (hd : Delivered h tbl txs s) (htxs : txs ≠ []) :
    ¬ s.sender.pc.early := by
  intro hearly
  have hnone : s.receiver.received.length = 0 :=
    ((goodbye_of_reaches htxs hd.1).early hearly).completed .receive
  exact hd.received_ne_nil htxs (List.length_eq_zero_iff.mp hnone)

/-- The start-up is over. -/
theorem Delivered.joining (hd : Delivered h tbl txs s) (htxs : txs ≠ []) : s.main = .joining := by
  rcases (goodbye_of_reaches htxs hd.1).waiting with hmain | hwaits
  · exact hmain
  · have hpc : s.receiver.pc = .awaitNetwork := hwaits
    exact absurd (by rw [hpc]; rfl) (hd.receiver_not_early htxs)

omit [Zero M] [Add M] [Sub M] in
theorem started_of_joining (hmain : s.main = .joining) (t : Thread) : s.main.started t := by
  rw [hmain]
  cases t <;> decide

/-- Nothing is on the way any more. -/
theorem Delivered.nothing_left (hd : Delivered h tbl txs s) :
    s.net.outGoing.status = .empty ∧ s.server.held = .idle ∧ s.net.inComing.status = .empty ∧
      s.sender.unsent = [] := by
  obtain ⟨hI, hlaw⟩ := inv_and_delivers hd.1
  obtain ⟨hout, hheld, hin, hunsent, -⟩ := hlaw.complete (by simpa [State.pipe] using hd.2)
  have hout : s.net.outGoing.queued = [] := by simpa [State.pipe] using hout
  have hin : s.net.inComing.queued = [] := by simpa [State.pipe] using hin
  refine ⟨?_, hheld, ?_, by simpa [State.pipe] using hunsent⟩
  · exact hI.outExact.empty_iff.mpr (by simp [hout])
  · exact hI.inExact.empty_iff.mpr (by simp [hin])

/-- The sending client is out of its loop, or about to leave it. -/
theorem Delivered.sender_over (hd : Delivered h tbl txs s) (htxs : txs ≠ []) :
    s.sender.pc = .loopTest ∨ s.sender.pc = .done := by
  have hearly := hd.sender_not_early htxs
  have hbusy := busy_of_reaches hd.1
  obtain ⟨-, -, -, hunsent⟩ := hd.nothing_left
  cases hpc : s.sender.pc with
  | loopTest => exact .inl rfl
  | done => exact .inr rfl
  | awaitSlot => exact absurd hunsent (hbusy (.inl hpc))
  | send => exact absurd hunsent (hbusy (.inr hpc))
  | _ => exact absurd (by rw [hpc]; rfl) hearly

/-- So is the receiving client. -/
theorem Delivered.receiver_over (hd : Delivered h tbl txs s) (htxs : txs ≠ []) :
    s.receiver.pc = .loopTest ∨ s.receiver.pc.left := by
  have hearly := hd.receiver_not_early htxs
  have htotal : s.receiver.numberOfTransactions = txs.length := (closing_of_reaches hd.1).total
  cases hpc : s.receiver.pc with
  | loopTest => exact .inl rfl
  | awaitPacket =>
      have hless := (waits_of_reaches hd.1).missing hpc
      exact absurd hd.2 (by omega)
  | receive =>
      exact absurd hd.nothing_left.1 ((inv_and_delivers hd.1).1.receiveReady hpc)
  | getIPToLeave => exact .inr rfl
  | disconnect IP => exact .inr rfl
  | done => exact .inr rfl
  | _ => exact absurd (by rw [hpc]; rfl) hearly

/-- The client is gone when its thread is done. -/
theorem Delivered.client_gone (hd : Delivered h tbl txs s) (htxs : txs ≠ [])
    (hdone : s.receiver.pc = .done) : s.net.clientConnectionStatus = .disconnected :=
  (goodbye_of_reaches htxs hd.1).gone hdone

/-- The server is gone when its thread is done: by then nobody else asks for anything
at its address. -/
theorem server_gone (htxs : txs ≠ []) (hs : Sched.Reaches step (State.init h tbl txs) s)
    (hdone : s.server.pc = .done) : s.net.serverConnectionStatus = .disconnected := by
  refine (Sched.Reaches.invariant (P := fun s => Sched.Reaches step (State.init h tbl txs) s ∧
    (s.server.pc = .done → s.net.serverConnectionStatus = .disconnected)) ?_ hs
    ⟨.refl _, nofun⟩).2 hdone
  rintro t s s' ⟨hs, hgone⟩ hstep
  refine ⟨hs.tail hstep, fun hdone => ?_⟩
  have hG := goodbye_of_reaches htxs hs
  have hlate : s.server.pc = .done → Delivered h tbl txs s := by
    intro hpc
    exact ⟨hs, (closing_of_reaches hs).serverLeft (by rw [hpc]; rfl)⟩
  obtain ⟨-, hstep⟩ := step_cases hstep
  rcases hstep with ⟨net, m, rfl, hp, rfl⟩ | ⟨net, w, rfl, hp, rfl⟩ | ⟨net, v, rfl, hp, rfl⟩ |
    ⟨net, c, rfl, hp, rfl⟩ | ⟨net, c, rfl, hp, rfl⟩
  · rw [(hlate hdone).joining htxs] at hp
    cases hp
  · obtain rfl := NetworkPc.perform_cases hp
    exact hgone hdone
  · obtain ⟨IP, hpc, rfl⟩ := ServerThread.perform_done hp hdone
    obtain rfl : IP = s.net.serverIP := hG.server.address IP (.inr hpc)
    have hactive : s.net.networkStatus = .active := hG.active
    have hdistinct : s.net.clientIP ≠ s.net.serverIP := hG.distinct
    simp only [Network.link, Network.disconnect, if_pos hactive, if_neg hdistinct, if_true]
  · exact (Sender.perform_net ((hlate hdone).sender_not_early htxs) hp).trans (hgone hdone)
  · exact (Receiver.perform_net ((hlate hdone).receiver_not_early htxs) hG.receiver.address hp).trans
      (hgone hdone)

/-! ## One thread after the other -/

/-- All packets are received and the receiving client is done. -/
def ReceiverDone (h : 0 < maxNbPackets) (tbl : AccountsTable M) (txs : List (Transactions M))
    (s : State M maxNbPackets) : Prop :=
  Delivered h tbl txs s ∧ s.receiver.pc = .done

/-- So is the sending client. -/
def ClientsDone (h : 0 < maxNbPackets) (tbl : AccountsTable M) (txs : List (Transactions M))
    (s : State M maxNbPackets) : Prop :=
  ReceiverDone h tbl txs s ∧ s.sender.pc = .done

/-- So is the server. -/
def PartiesDone (h : 0 < maxNbPackets) (tbl : AccountsTable M) (txs : List (Transactions M))
    (s : State M maxNbPackets) : Prop :=
  ClientsDone h tbl txs s ∧ s.server.pc = .done

/-- So is the network thread, for which `main` waits. -/
def AllDone (h : 0 < maxNbPackets) (tbl : AccountsTable M) (txs : List (Transactions M))
    (s : State M maxNbPackets) : Prop :=
  PartiesDone h tbl txs s ∧ s.network = .done

omit [Zero M] in
/-- A thread that is done stays so. -/
theorem stable_done : Sched.Stable step (fun s : State M maxNbPackets => s.receiver.pc = .done) ∧
    Sched.Stable step (fun s : State M maxNbPackets => s.sender.pc = .done) ∧
    Sched.Stable step (fun s : State M maxNbPackets => s.server.pc = .done) ∧
    Sched.Stable step (fun s : State M maxNbPackets => s.network = .done) := by
  refine ⟨?_, ?_, ?_, ?_⟩
  all_goals
    intro t s s' hdone hstep
    obtain ⟨-, hstep⟩ := step_cases hstep
    rcases hstep with ⟨net, m, rfl, hp, rfl⟩ | ⟨net, w, rfl, hp, rfl⟩ | ⟨net, v, rfl, hp, rfl⟩ |
      ⟨net, c, rfl, hp, rfl⟩ | ⟨net, c, rfl, hp, rfl⟩
    all_goals
      first
      | exact hdone
      | simp [Receiver.act, Sender.act, ServerThread.act, NetworkPc.act, hdone, Act.perform] at hp

theorem stable_receiverDone : Sched.Stable step (ReceiverDone h tbl txs) :=
  stable_delivered.and stable_done.1

theorem stable_clientsDone : Sched.Stable step (ClientsDone h tbl txs) :=
  stable_receiverDone.and stable_done.2.1

theorem stable_partiesDone : Sched.Stable step (PartiesDone h tbl txs) :=
  stable_clientsDone.and stable_done.2.2.1

theorem stable_allDone : Sched.Stable step (AllDone h tbl txs) :=
  stable_partiesDone.and stable_done.2.2.2

/-- The receiving client comes to its end. -/
theorem receiver_ends (htxs : txs ≠ []) :
    Sched.LeadsTo step (Delivered h tbl txs) (ReceiverDone h tbl txs) := by
  refine .of_agent .receiver (fun s => s.receiver.pc.exit) ?_ ?_ ?_
  · intro s hd hnot
    have hstarted := started_of_joining (hd.joining htxs) .receiver
    have hall : s.receiver.numberOfTransactions ≤ s.receiver.received.length := by
      rw [(closing_of_reaches hd.1).total]
      exact hd.2
    obtain ⟨net, c, hp, hlt⟩ := Receiver.leaves s.net hall (hd.receiver_over htxs)
      (fun hdone => hnot ⟨hd, hdone⟩)
    exact ⟨{ s with net := net, receiver := c }, by simp [step, hstarted, hp], .inr hlt⟩
  · intro t s s' hd _ hstep
    exact .inr (stable_delivered hd hstep)
  · intro t s s' _ hne hstep
    exact congrArg (fun c => c.pc.exit) ((step_others hstep).2.2.2.2 hne)

/-- Then the sending client. -/
theorem sender_ends (htxs : txs ≠ []) :
    Sched.LeadsTo step (ReceiverDone h tbl txs) (ClientsDone h tbl txs) := by
  refine .of_agent .sender (fun _ => 0) ?_ ?_ (fun _ _ _ => rfl)
  · rintro s ⟨hd, hreceiver⟩ hnot
    have hstarted := started_of_joining (hd.joining htxs) .sender
    rcases hd.sender_over htxs with hloop | hdone
    · have hunsent : s.sender.unsent = [] := hd.nothing_left.2.2.2
      have hstep : step .sender s = some { s with sender := { s.sender with pc := .done } } := by
        simp [step, hstarted, Sender.act, hloop, hunsent, Act.perform]
      exact ⟨_, hstep, .inl ⟨stable_receiverDone ⟨hd, hreceiver⟩ hstep, rfl⟩⟩
    · exact absurd ⟨⟨hd, hreceiver⟩, hdone⟩ hnot
  · intro t s s' hd _ hstep
    exact .inr (stable_receiverDone hd hstep)

/-- Then the server, which finds the client gone. -/
theorem server_ends (htxs : txs ≠ []) :
    Sched.LeadsTo step (ClientsDone h tbl txs) (PartiesDone h tbl txs) := by
  refine .of_agent .server (fun s => s.server.pc.exit) ?_ ?_ ?_
  · rintro s ⟨⟨hd, hreceiver⟩, hsender⟩ hnot
    have hstarted := started_of_joining (hd.joining htxs) .server
    obtain ⟨-, hheld, hempty, -⟩ := hd.nothing_left
    obtain ⟨net, v, hp, hlt⟩ := ServerThread.leaves (live_of_reaches hd.1).active
      (hd.client_gone htxs hreceiver) hempty hheld
      (fun htake => (inv_and_delivers hd.1).1.takeReady htake hempty)
      (fun hdone => hnot ⟨⟨⟨hd, hreceiver⟩, hsender⟩, hdone⟩)
    exact ⟨{ s with net := net, server := v }, by simp [step, hstarted, hp], .inr hlt⟩
  · intro t s s' hd _ hstep
    exact .inr (stable_clientsDone hd hstep)
  · intro t s s' _ hne hstep
    exact congrArg (fun v => v.pc.exit) ((step_others hstep).2.2.1 hne)

/-- Then the network thread, which finds both sides gone. -/
theorem network_ends (htxs : txs ≠ []) :
    Sched.LeadsTo step (PartiesDone h tbl txs) (AllDone h tbl txs) := by
  refine .of_agent .network (fun s => s.network.exit) ?_ ?_ ?_
  · rintro s ⟨⟨⟨hd, hreceiver⟩, hsender⟩, hserver⟩ hnot
    have hstarted := started_of_joining (hd.joining htxs) .network
    obtain ⟨w, hp, hlt⟩ := NetworkPc.leaves (hd.client_gone htxs hreceiver)
      (server_gone htxs hd.1 hserver)
      (fun hdone => hnot ⟨⟨⟨⟨hd, hreceiver⟩, hsender⟩, hserver⟩, hdone⟩)
    exact ⟨{ s with network := w }, by simp [step, hstarted, hp], .inr hlt⟩
  · intro t s s' hd _ hstep
    exact .inr (stable_partiesDone hd hstep)
  · intro t s s' _ hne hstep
    exact congrArg NetworkPc.exit ((step_others hstep).2.1 hne)

/-! ## The end of the program -/

/-- The program has come to its end: no thread has anything left to do, and what the
receiving client has got are the answers to the transactions, one after another. -/
structure Ended (tbl : AccountsTable M) (txs : List (Transactions M))
    (s : State M maxNbPackets) : Prop where
  main : s.main = .joining
  network : s.network = .done
  server : s.server.pc = .done
  sender : s.sender.pc = .done
  receiver : s.receiver.pc = .done
  answers : ∃ answers, tbl.processAll txs = .ok (answers, s.server.table) ∧
    s.receiver.received.map content = answers.map content

theorem AllDone.ended (hknown : ∀ t ∈ txs, tbl.Known t.accountNumber) (htxs : txs ≠ [])
    (hdone : AllDone h tbl txs s) : Ended tbl txs s := by
  obtain ⟨⟨⟨⟨hd, hreceiver⟩, hsender⟩, hserver⟩, hnetwork⟩ := hdone
  refine ⟨hd.joining htxs, hnetwork, hserver, hsender, hreceiver, ?_⟩
  obtain ⟨answers, tbl', hproc, -⟩ := AccountsTable.processAll_of_known hknown
  obtain ⟨-, -, -, -, htable, hreceived⟩ := (inv_and_delivers hd.1).2.complete
    (by simpa [State.pipe] using hd.2)
  rw [AccountsTable.transduce_of_processAll hproc] at htable hreceived
  refine ⟨answers, ?_, hreceived⟩
  rw [hproc]
  exact congrArg (fun t => Except.ok (answers, t)) htable.symm

/-- In every fair run all threads come to their end. -/
theorem all_end (hknown : ∀ t ∈ txs, tbl.Known t.accountNumber) (htxs : txs ≠ []) :
    Sched.LeadsTo step (Sched.Reaches step (State.init h tbl txs)) (AllDone h tbl txs) :=
  (delivers_all hknown).trans <| (receiver_ends htxs).trans <| (sender_ends htxs).trans <|
    (server_ends htxs).trans (network_ends htxs)

/-! ## The run without transactions -/

/-- The receiving client is done, and the server, still in its loop, has nothing to
tell it so: the client counts as connected. -/
structure Unaware (s : State M maxNbPackets) : Prop where
  receiver : s.receiver.pc = .done
  connected : s.net.clientConnectionStatus ≠ .disconnected
  server : ¬ s.server.pc.left

omit [Zero M] in
/-- Nobody will tell it. -/
theorem stable_unaware : Sched.Stable step (fun s : State M maxNbPackets => Unaware s) := by
  rintro t s s' ⟨hreceiver, hconnected, hserver⟩ hstep
  obtain ⟨-, hstep⟩ := step_cases hstep
  rcases hstep with ⟨net, m, rfl, hp, rfl⟩ | ⟨net, w, rfl, hp, rfl⟩ | ⟨net, v, rfl, hp, rfl⟩ |
    ⟨net, c, rfl, hp, rfl⟩ | ⟨net, c, rfl, hp, rfl⟩
  · exact ⟨hreceiver, fun hd => hconnected ((MainPc.perform_cases hp).2 hd), hserver⟩
  · obtain rfl := NetworkPc.perform_cases hp
    exact ⟨hreceiver, hconnected, hserver⟩
  · rcases ServerThread.perform_cases hp with
      ⟨-, -, -, -, hconn, -, -, -, -, -, -, -, -, hleft⟩ | ⟨-, rfl, rfl⟩ | ⟨t, tbl, -, -, rfl, rfl⟩ |
      ⟨e, -, -, rfl, rfl⟩ | ⟨-, rfl, rfl⟩
    · exact ⟨hreceiver, fun hd => (hconn hd).elim hconnected hserver,
        fun hl => (hleft hl).elim hserver hconnected⟩
    all_goals exact ⟨hreceiver, hconnected, nofun⟩
  · rcases Sender.perform_cases hp with ⟨-, -, hconn, -⟩ | ⟨t, rest, -, -, rfl, rfl⟩
    · exact ⟨hreceiver, fun hd => hconnected (hconn hd), hserver⟩
    · exact ⟨hreceiver, hconnected, hserver⟩
  · simp [Receiver.act, hreceiver, Act.perform] at hp

/-- The receiving client is through before the sending one connects; then all threads
take turns. -/
def lateSender : ℕ → Thread :=
  Sched.before (List.replicate 8 .main ++ List.replicate 6 .receiver ++ List.replicate 3 .sender)
    (Sched.roundRobin [.main, .network, .server, .sender, .receiver] (by decide))

theorem everyTurn_threads :
    Sched.EveryTurn (Sched.roundRobin [Thread.main, .network, .server, .sender, .receiver]
      (by decide)) :=
  Sched.everyTurn_roundRobin _ fun t => by cases t <;> decide

/-- On that schedule the server never comes to its end. -/
theorem lateSender_unaware (h : 0 < maxNbPackets) (tbl : AccountsTable M) (n : ℕ) :
    Unaware (Sched.trace step lateSender (State.init h tbl []) (17 + n)) := by
  have hrun : ∃ a : State M maxNbPackets, Sched.run step
      (List.replicate 8 .main ++ List.replicate 6 .receiver ++ List.replicate 3 .sender)
      (State.init h tbl []) = some a ∧ a.receiver.pc = .done ∧
      a.net.clientConnectionStatus = .connected ∧ a.server.pc = .awaitNetwork :=
    ⟨_, rfl, rfl, rfl, rfl⟩
  obtain ⟨a, ha, hreceiver, hconnected, hserver⟩ := hrun
  have htrace : Sched.trace step lateSender (State.init h tbl []) (17 + n)
      = Sched.trace step (Sched.roundRobin [.main, .network, .server, .sender, .receiver]
          (by decide)) a n := by
    rw [← Sched.turns_of_run ha]
    exact Sched.trace_before _ _ _ n
  have hstart : Unaware a := by
    refine ⟨hreceiver, ?_, ?_⟩
    · rw [hconnected]
      nofun
    · rw [hserver]
      nofun
  rw [htrace]
  exact stable_unaware.trace hstart n

/-- With no transaction it is possible that all threads go on having their turns, the
receiving client is through, and the server is never told. -/
theorem never_told (h : 0 < maxNbPackets) (tbl : AccountsTable M) :
    ∃ sched : ℕ → Thread, Sched.EveryTurn sched ∧
      ∃ n, ∀ m, n ≤ m → Unaware (Sched.trace step sched (State.init h tbl []) m) := by
  refine ⟨lateSender, everyTurn_threads.before _, 17, fun m hm => ?_⟩
  obtain ⟨k, rfl⟩ := Nat.exists_eq_add_of_le hm
  exact lateSender_unaware h tbl k

/-- Every weakly fair run of the program comes to its end, with the answers to all
transactions received, exactly when there is a transaction and the server has the
accounts of all of them.  With no transaction there is a run in which every thread has
its turn for ever, and the receiving client is done and stays connected. -/
theorem fair_runs_end_iff (h : 0 < maxNbPackets) (tbl : AccountsTable M)
    (txs : List (Transactions M)) :
    ((∀ sched : ℕ → Thread, Sched.WeaklyFair step sched (State.init h tbl txs) →
      ∃ n, ∀ m, n ≤ m → Ended tbl txs (Sched.trace step sched (State.init h tbl txs) m)) ↔
      txs ≠ [] ∧ ∀ t ∈ txs, tbl.Known t.accountNumber) ∧
    (txs = [] → ∃ sched : ℕ → Thread, Sched.EveryTurn sched ∧
      ∃ n, ∀ m, n ≤ m → Unaware (Sched.trace step sched (State.init h tbl txs) m)) := by
  refine ⟨⟨fun hends => ⟨?_, ?_⟩, ?_⟩, ?_⟩
  · rintro rfl
    obtain ⟨sched, hturns, n, hunaware⟩ := never_told h tbl
    obtain ⟨n', hn⟩ := hends sched (hturns.weaklyFair _)
    have hdone := (hn (n + n') (Nat.le_add_left _ _)).server
    exact (hunaware (n + n') (Nat.le_add_right _ _)).server (by rw [hdone]; rfl)
  · by_contra hunknown
    obtain ⟨n, hn⟩ := hends _ (everyTurn_threads.weaklyFair _)
    obtain ⟨answers, hproc, -⟩ := (hn n (Nat.le_refl n)).answers
    rw [AccountsTable.processAll_of_unknown hunknown] at hproc
    cases hproc
  · rintro ⟨htxs, hknown⟩ sched hfair
    obtain ⟨n, hn⟩ := (all_end hknown htxs).forever stable_allDone hfair (.refl _)
    exact ⟨n, fun m hm => (hn m hm).ended hknown htxs⟩
  · rintro rfl
    exact never_told h tbl

/-- One deposit, the threads taking turns. -/
theorem fair_runs_end_iff_oneDeposit :
    ∃ n, ∀ m, n ≤ m → Ended firstAccount [firstTransaction] (Sched.trace step
      (Sched.roundRobin [.main, .network, .server, .sender, .receiver] (by decide))
      (State.init (show 0 < 10 by decide) firstAccount [firstTransaction]) m) := by
  refine (fair_runs_end_iff (show 0 < 10 by decide) firstAccount [firstTransaction]).1.mpr
    ⟨List.cons_ne_nil _ _, ?_⟩ _ (everyTurn_threads.weaklyFair _)
  simp [firstAccount, firstTransaction, AccountsTable.Known]

end Runs

end Smoll.Bank
