/-
# `Smoll.Bank.Stalling` — a transaction on an unknown account stops everything

The search of `findAccount` throws on an account the server does not have, and
nobody catches that: the server thread is gone, and nobody is told.
`fair_runs_stall` says how every fair run of the program with such a
transaction goes on from there.  The receiving client gets the answers to the
transactions before it and waits for the next for ever; the sending client
sends until the incoming buffer is full, so it comes to its end only if the
rest fits; the network thread and `main` wait for connections that nobody
ends.  From some turn on nothing changes any more.

The packets answered so far are all on known accounts (`Searched`), and the
server dies on a packet that is not.  This fixes where it dies, and with that
where each packet ends up (`Crashed.split`).
-/
import Smoll.Bank.Ending

namespace Smoll.Bank

open Transactions

variable {M : Type} {maxNbPackets : Nat}

/-! ## Where the server dies -/

/-- The answers so far, the one the server holds included. -/
def State.answered (s : State M maxNbPackets) : List (Content M) :=
  s.pipe.received ++ s.pipe.outQ ++ s.pipe.held.cookedList

/-- With nothing to receive, the receiving client goes on until it waits for a packet. -/
theorem Receiver.settles {c : Receiver M} {net : Network M maxNbPackets}
    (hactive : net.networkStatus = .active)
    (hless : c.received.length < c.numberOfTransactions) (hleft : ¬ c.pc.left)
    (hreceive : c.pc ≠ .receive) (hwaits : c.pc ≠ .awaitPacket) :
    ∃ net' c', c.act.perform net = some (net', c') ∧ c'.pc.rank < c.pc.rank := by
  obtain ⟨pc, transact, received, n⟩ := c
  cases pc with
  | awaitNetwork =>
      refine ⟨_, _, rfl, ?_⟩
      simp [hactive, ReceiverPc.rank]
  | loopTest =>
      have hact : (Receiver.mk .loopTest transact received n).act
          = (.work ⟨.awaitPacket, transact, received, n⟩ : Act M maxNbPackets _) := if_pos hless
      rw [hact]
      exact ⟨_, _, rfl, Nat.lt_succ_self _⟩
  | awaitPacket => exact absurd rfl hwaits
  | receive => exact absurd rfl hreceive
  | getIPToLeave => exact absurd rfl hleft
  | disconnect IP => exact absurd rfl hleft
  | done => exact absurd rfl hleft
  | _ => exact ⟨_, _, rfl, Nat.lt_succ_self _⟩

/-- The sending client has nothing left to send and is done, or waits for a slot. -/
def Sender.Through (c : Sender M) : Prop :=
  (c.unsent = [] ∧ c.pc = .done) ∨ (c.unsent ≠ [] ∧ c.pc = .awaitSlot)

/-- With no room for more, the sending client goes on until it is through. -/
theorem Sender.settles {c : Sender M} {net : Network M maxNbPackets}
    (hactive : net.networkStatus = .active) (hbusy : c.Busy) (hsend : c.pc ≠ .send)
    (hdone : c.pc = .done → c.unsent = []) (hthrough : ¬ c.Through) :
    ∃ net' c', c.act.perform net = some (net', c') ∧ c'.pc.rank < c.pc.rank := by
  obtain ⟨pc, sent, unsent⟩ := c
  cases pc with
  | awaitNetwork =>
      refine ⟨_, _, rfl, ?_⟩
      simp [hactive, SenderPc.rank]
  | loopTest =>
      cases unsent with
      | nil => exact ⟨_, _, rfl, Nat.zero_lt_succ _⟩
      | cons t u => exact ⟨_, _, rfl, Nat.lt_succ_self _⟩
  | awaitSlot => exact absurd (.inr ⟨hbusy (.inl rfl), rfl⟩) hthrough
  | send => exact absurd rfl hsend
  | done => exact absurd (.inl ⟨hdone rfl, rfl⟩) hthrough
  | _ => exact ⟨_, _, rfl, Nat.lt_succ_self _⟩

section Program

variable [Add M] [Sub M] {s s' : State M maxNbPackets} {tbl : AccountsTable M}

/-- The search finds the account of each packet the server goes on from, and throws on
the packet it dies of. -/
structure Searched (tbl : AccountsTable M) (s : State M maxNbPackets) : Prop where
  size : s.server.table.numberOfAccounts = tbl.numberOfAccounts
  answered : ∀ c ∈ s.answered, tbl.Known c.accountNumber
  crashed : ∀ e, s.server.pc = .crashed e →
    ¬ tbl.Known s.server.trans.accountNumber ∧ e = AccountsTable.emptyPlace tbl.numberOfAccounts

/-- A packet that the server has worked on is on a known account. -/
theorem worked_known {t : Thread} {a b : Content M} (hstep : step t s = some s')
    (hraw : s.server.held = .raw a) (hcooked : s'.server.held = .cooked b) :
    s.server.table.Known a.accountNumber := by
  obtain ⟨-, hstep⟩ := step_cases hstep
  rcases hstep with ⟨net, m, -, -, rfl⟩ | ⟨net, w, -, -, rfl⟩ | ⟨net, v, -, hp, rfl⟩ |
    ⟨net, c, -, -, rfl⟩ | ⟨net, c, -, -, rfl⟩
  · rw [hraw] at hcooked
    cases hcooked
  · rw [hraw] at hcooked
    cases hcooked
  · rcases ServerThread.perform_cases hp with ⟨-, -, -, -, -, -, -, -, hheld, -⟩ | ⟨hpc, -, -⟩ |
      ⟨t, tbl', hpc, hproc, -, -⟩ | ⟨e, -, -, -, rfl⟩ | ⟨hpc, -, -⟩
    · rw [← hheld, hcooked] at hraw
      cases hraw
    · simp [ServerThread.held, hpc] at hraw
    · simp only [ServerThread.held, hpc, Held.raw.injEq] at hraw
      subst hraw
      by_contra hun
      have hthrow : s.server.table.process s.server.trans = .error _ :=
        AccountsTable.process_of_unknown hun
      rw [hproc] at hthrow
      cases hthrow
    · cases hcooked
    · simp [ServerThread.held, hpc] at hraw
  · rw [hraw] at hcooked
    cases hcooked
  · rw [hraw] at hcooked
    cases hcooked

/-- A step adds at most one answer, to a packet on a known account. -/
theorem answered_step {t : Thread} (hI : Inv s) (hstep : step t s = some s') :
    s'.answered = s.answered ∨
      ∃ c, s'.answered = s.answered ++ [c] ∧ s.server.table.Known c.accountNumber := by
  obtain ⟨-, ⟨heq, -⟩ | ⟨m, hm, -⟩⟩ := step_simulates hI hstep
  · unfold State.answered
    exact .inl (by rw [heq])
  · unfold State.answered
    rcases Pipe.step_cases hm with ⟨a, u, -, -, -, heq⟩ | ⟨a, q, -, hheld, -, heq⟩ |
      ⟨a, -, hheld, heq⟩ | ⟨b, -, hheld, -, heq⟩ | ⟨b, q, -, hq, heq⟩
    · exact .inl (by rw [heq])
    · exact .inl (by rw [heq, hheld]; rfl)
    · refine .inr ⟨(AccountsTable.serve s.pipe.st a).2, ?_, ?_⟩
      · rw [heq, hheld]
        simp [Held.cookedList]
      · have hkept := AccountsTable.serve_request s.pipe.st a
        have hnumber : (AccountsTable.serve s.pipe.st a).2.accountNumber = a.accountNumber :=
          congrArg Prod.fst hkept
        rw [hnumber]
        exact worked_known hstep hheld (congrArg Pipe.held heq)
    · refine .inl ?_
      rw [heq, hheld]
      simp [Held.cookedList]
    · refine .inl ?_
      rw [heq, hq]
      simp

theorem Searched.step {t : Thread} (hS : Searched tbl s) (hL : Live tbl s) (hI : Inv s)
    (hstep : Bank.step t s = some s') : Searched tbl s' := by
  have hanswered : ∀ c ∈ s'.answered, tbl.Known c.accountNumber := by
    rcases answered_step hI hstep with heq | ⟨c, heq, hknown⟩
    · rw [heq]
      exact hS.answered
    · intro d hd
      rw [heq, List.mem_append, List.mem_singleton] at hd
      rcases hd with hd | rfl
      · exact hS.answered d hd
      · exact (hL.table _).mp hknown
  obtain ⟨-, hstep⟩ := step_cases hstep
  rcases hstep with ⟨net, m, -, -, rfl⟩ | ⟨net, w, -, -, rfl⟩ | ⟨net, v, -, hp, rfl⟩ |
    ⟨net, c, -, -, rfl⟩ | ⟨net, c, -, -, rfl⟩
  · exact ⟨hS.size, hanswered, hS.crashed⟩
  · exact ⟨hS.size, hanswered, hS.crashed⟩
  · rcases ServerThread.perform_cases hp with ⟨-, -, -, -, -, -, htable, -, -, hok, -⟩ |
      ⟨-, -, rfl⟩ | ⟨t, tbl', -, hproc, -, rfl⟩ | ⟨e, hpc, hproc, -, rfl⟩ | ⟨-, -, rfl⟩
    · refine ⟨?_, hanswered, fun e hpc => absurd hpc (hok e)⟩
      dsimp only
      rw [htable]
      exact hS.size
    · exact ⟨hS.size, hanswered, fun e hpc => by cases hpc⟩
    · refine ⟨?_, hanswered, fun e hpc => by cases hpc⟩
      exact (AccountsTable.process_numberOfAccounts hproc).trans hS.size
    · refine ⟨hS.size, hanswered, ?_⟩
      intro e' hcrashed
      obtain rfl : e = e' := ServerPc.crashed.inj hcrashed
      have hun : ¬ s.server.table.Known s.server.trans.accountNumber := by
        intro hknown
        obtain ⟨answer, tbl', hok⟩ := AccountsTable.process_ok_of_known hknown
        rw [hproc] at hok
        cases hok
      have hthrow := AccountsTable.process_of_unknown hun
      rw [hproc, hS.size] at hthrow
      exact ⟨fun hknown => hun ((hL.table _).mpr hknown), Except.error.inj hthrow⟩
    · exact ⟨hS.size, hanswered, fun e hpc => by cases hpc⟩
  · exact ⟨hS.size, hanswered, hS.crashed⟩
  · exact ⟨hS.size, hanswered, hS.crashed⟩

end Program

section Runs

variable [Zero M] [Add M] [Sub M] {h : 0 < maxNbPackets} {tbl : AccountsTable M}
  {txs before rest : List (Transactions M)} {bad : Transactions M} {s s' : State M maxNbPackets}

theorem searched_of_reaches (hs : Sched.Reaches step (State.init h tbl txs) s) :
    Searched tbl s := by
  have hinit : Searched tbl (State.init h tbl txs) := by
    refine ⟨rfl, ?_, fun e hpc => by cases hpc⟩
    intro c hc
    unfold State.answered at hc
    rw [init_pipe] at hc
    cases hc
  refine (Sched.Reaches.invariant (P := fun s => Sched.Reaches step (State.init h tbl txs) s ∧
    Searched tbl s) ?_ hs ⟨.refl _, hinit⟩).2
  rintro t s s' ⟨hs, hS⟩ hstep
  exact ⟨hs.tail hstep, hS.step (live_of_reaches hs) (inv_and_delivers hs).1 hstep⟩

/-- What has been answered are the first transactions, and none of them is on an unknown
account. -/
theorem answered_length_le (hbad : ¬ tbl.Known bad.accountNumber)
    (hs : Sched.Reaches step (State.init h tbl (before ++ bad :: rest)) s) :
    s.answered.length ≤ before.length := by
  obtain ⟨taken, has, hrun⟩ := (inv_and_delivers hs).2
  have hrequests : s.answered.map Content.request = taken.map Content.request := by
    rw [← map_transduce AccountsTable.serve_request tbl taken, hrun]
    rfl
  have hlen := congrArg List.length hrequests
  simp only [List.length_map] at hlen
  by_contra hmore
  have hlt : before.length < s.answered.length := Nat.lt_of_not_le hmore
  have hanswer : s.answered[before.length].request = bad.request := by
    have htaken : before.length < taken.length := Nat.lt_of_lt_of_eq hlt hlen
    have hfirst : taken[before.length] = bad.content := by
      have hget := congrArg (fun l => l[before.length]?) has
      simpa [List.append_assoc, List.getElem?_append, htaken] using hget.symm
    have hget := congrArg (fun l => l[before.length]?) hrequests
    simpa [hlt, htaken, hfirst, request] using hget
  have hnumber : s.answered[before.length].accountNumber = bad.accountNumber :=
    congrArg Prod.fst hanswer
  exact hbad (hnumber ▸ (searched_of_reaches hs).answered _ (List.getElem_mem hlt))

/-- So the receiving client always misses a packet. -/
theorem received_lt (hbad : ¬ tbl.Known bad.accountNumber)
    (hs : Sched.Reaches step (State.init h tbl (before ++ bad :: rest)) s) :
    s.receiver.received.length < (before ++ bad :: rest).length := by
  have hle := answered_length_le hbad hs
  simp only [State.answered, State.pipe, List.length_append, List.length_map,
    List.length_cons] at hle ⊢
  omega

/-- The server has crashed. -/
def Crashed (h : 0 < maxNbPackets) (tbl : AccountsTable M) (txs : List (Transactions M))
    (s : State M maxNbPackets) : Prop :=
  Sched.Reaches step (State.init h tbl txs) s ∧ ∃ e, s.server.pc = .crashed e

theorem Crashed.held (hc : Crashed h tbl txs s) :
    s.pipe.held = .raw s.server.trans.content := by
  obtain ⟨-, e, hpc⟩ := hc
  simp [State.pipe, ServerThread.held, hpc]

/-- It has crashed on the first transaction that is on an unknown account, with those
before it answered and those after it queued or unsent. -/
theorem Crashed.split (hbefore : ∀ t ∈ before, tbl.Known t.accountNumber)
    (hbad : ¬ tbl.Known bad.accountNumber) (hc : Crashed h tbl (before ++ bad :: rest) s) :
    transduce AccountsTable.serve tbl (before.map content)
        = (s.server.table, s.pipe.received ++ s.pipe.outQ) ∧
      rest.map content = s.pipe.inQ ++ s.pipe.unsent := by
  have hle := answered_length_le hbad hc.1
  obtain ⟨e, hpc⟩ := hc.2
  obtain ⟨hunknown, -⟩ := (searched_of_reaches hc.1).crashed e hpc
  obtain ⟨taken, has, hrun⟩ := (inv_and_delivers hc.1).2
  have hlen : taken.length = s.answered.length := by
    rw [← length_transduce (f := AccountsTable.serve) tbl taken, hrun]
    rfl
  simp only [hc.held, Held.rawList, Held.cookedList, List.append_nil, List.append_assoc,
    List.singleton_append, List.map_append, List.map_cons] at has hrun
  have heq : before.length = taken.length := by
    by_contra hne
    have hlt : taken.length < before.length := by omega
    have hget := congrArg (fun l => l[taken.length]?) has
    have hcontent : before[taken.length].content = s.server.trans.content := by
      simpa [List.getElem?_append, hlt] using hget
    have hnumber : before[taken.length].accountNumber = s.server.trans.accountNumber :=
      congrArg Content.accountNumber hcontent
    exact hunknown (hnumber ▸ hbefore _ (List.getElem_mem hlt))
  obtain ⟨hfirst, hlast⟩ := List.append_inj has (by simpa using heq)
  rw [hfirst]
  exact ⟨hrun, (List.cons.inj hlast).2⟩

/-! ## What still moves then -/

/-- Only packets for the incoming buffer and from the outgoing one. -/
theorem Crashed.step {t : Thread} (hc : Crashed h tbl txs s) (hstep : Bank.step t s = some s') :
    Crashed h tbl txs s' ∧ s'.server = s.server ∧
      (s'.pipe = s.pipe ∨
        (∃ a u, s.pipe.unsent = a :: u ∧ s.pipe.inQ.length < maxNbPackets ∧
          s'.pipe = { s.pipe with unsent := u, inQ := s.pipe.inQ ++ [a] }) ∨
        (∃ b q, s.pipe.outQ = b :: q ∧
          s'.pipe = { s.pipe with outQ := q, received := s.pipe.received ++ [b] })) := by
  have hserver : s'.server = s.server := by
    refine (step_others hstep).2.2.1 ?_
    rintro rfl
    obtain ⟨-, e, hpc⟩ := hc
    simp [Bank.step, ServerThread.act, hpc, Act.perform] at hstep
  have hc' : Crashed h tbl txs s' := ⟨hc.1.tail hstep, hserver ▸ hc.2⟩
  refine ⟨hc', hserver, ?_⟩
  obtain ⟨-, ⟨heq, -⟩ | ⟨m, hm, -⟩⟩ := step_simulates (inv_and_delivers hc.1).1 hstep
  · exact .inl heq
  · rcases Pipe.step_cases hm with ⟨a, u, -, hu, hroom, heq⟩ | ⟨a, q, -, hheld, -, -⟩ |
      ⟨a, -, -, heq⟩ | ⟨b, -, hheld, -, -⟩ | ⟨b, q, -, hq, heq⟩
    · exact .inr (.inl ⟨a, u, hu, hroom, heq⟩)
    · rw [hc.held] at hheld
      cases hheld
    · have hheld := congrArg Pipe.held heq
      rw [hc'.held] at hheld
      cases hheld
    · rw [hc.held] at hheld
      cases hheld
    · exact .inr (.inr ⟨b, q, hq, heq⟩)

/-- The receiving client has taken out all that is in the outgoing buffer. -/
def Drained (h : 0 < maxNbPackets) (tbl : AccountsTable M) (txs : List (Transactions M))
    (s : State M maxNbPackets) : Prop :=
  Crashed h tbl txs s ∧ s.pipe.outQ = []

/-- The sending client has sent what fits into the incoming buffer. -/
def Filled (h : 0 < maxNbPackets) (tbl : AccountsTable M) (txs : List (Transactions M))
    (s : State M maxNbPackets) : Prop :=
  Drained h tbl txs s ∧ (s.pipe.unsent = [] ∨ s.pipe.inQ.length = maxNbPackets)

/-- `main` has started all threads. -/
def Joined (h : 0 < maxNbPackets) (tbl : AccountsTable M) (txs : List (Transactions M))
    (s : State M maxNbPackets) : Prop :=
  Filled h tbl txs s ∧ s.main = .joining

/-- The receiving client waits for a packet. -/
def Awaiting (h : 0 < maxNbPackets) (tbl : AccountsTable M) (txs : List (Transactions M))
    (s : State M maxNbPackets) : Prop :=
  Joined h tbl txs s ∧ s.receiver.pc = .awaitPacket

/-- The sending client is done, or waits for a slot. -/
def Frozen (h : 0 < maxNbPackets) (tbl : AccountsTable M) (txs : List (Transactions M))
    (s : State M maxNbPackets) : Prop :=
  Awaiting h tbl txs s ∧ s.sender.Through

theorem Drained.reaches (hd : Drained h tbl txs s) :
    Sched.Reaches step (State.init h tbl txs) s := hd.1.1

theorem Filled.reaches (hf : Filled h tbl txs s) :
    Sched.Reaches step (State.init h tbl txs) s := hf.1.reaches

theorem Joined.reaches (hj : Joined h tbl txs s) :
    Sched.Reaches step (State.init h tbl txs) s := hj.1.reaches

theorem Awaiting.reaches (ha : Awaiting h tbl txs s) :
    Sched.Reaches step (State.init h tbl txs) s := ha.1.reaches

theorem stable_crashed : Sched.Stable step (Crashed h tbl txs) :=
  fun hc hstep => (hc.step hstep).1

theorem stable_drained : Sched.Stable step (Drained h tbl txs) := by
  rintro t s s' ⟨hc, hout⟩ hstep
  obtain ⟨hc', -, heq | ⟨a, u, -, -, heq⟩ | ⟨b, q, hq, -⟩⟩ := hc.step hstep
  · exact ⟨hc', by rw [heq]; exact hout⟩
  · exact ⟨hc', by rw [heq]; exact hout⟩
  · rw [hout] at hq
    cases hq

theorem stable_filled : Sched.Stable step (Filled h tbl txs) := by
  rintro t s s' ⟨hd, hfull⟩ hstep
  refine ⟨stable_drained hd hstep, ?_⟩
  obtain ⟨-, -, heq | ⟨a, u, hu, hroom, -⟩ | ⟨b, q, hq, -⟩⟩ := hd.1.step hstep
  · rw [heq]
    exact hfull
  · -- there is nothing to send, or no room for it
    rcases hfull with hnone | hfull
    · rw [hu] at hnone
      cases hnone
    · exact absurd hroom (by omega)
  · rw [hd.2] at hq
    cases hq

theorem Drained.outGoing_empty (hd : Drained h tbl txs s) : s.net.outGoing.status = .empty := by
  have hqueued : s.net.outGoing.queued = [] := by simpa [State.pipe] using hd.2
  exact (inv_and_delivers hd.reaches).1.outExact.empty_iff.mpr (by simp [hqueued])

theorem Filled.inComing_full (hf : Filled h tbl txs s) (hunsent : s.sender.unsent ≠ []) :
    s.net.inComing.status = .full := by
  refine (inv_and_delivers hf.reaches).1.inExact.full_iff.mpr ?_
  rcases hf.2 with hnone | hfull
  · exact absurd (by simpa [State.pipe] using hnone) hunsent
  · simpa [State.pipe] using hfull

theorem stable_joined : Sched.Stable step (Joined h tbl txs) := by
  rintro t s s' ⟨hf, hmain⟩ hstep
  refine ⟨stable_filled hf hstep, ((step_others hstep).1 ?_).trans hmain⟩
  rintro rfl
  simp [step, hmain, MainPc.act, Act.perform] at hstep

theorem stable_awaiting : Sched.Stable step (Awaiting h tbl txs) := by
  rintro t s s' ⟨hj, hreceiver⟩ hstep
  refine ⟨stable_joined hj hstep, ?_⟩
  obtain ⟨-, hcases⟩ := step_cases hstep
  rcases hcases with ⟨net, m, -, -, rfl⟩ | ⟨net, w, -, -, rfl⟩ | ⟨net, v, -, -, rfl⟩ |
    ⟨net, c, -, -, rfl⟩ | ⟨net, c, -, hp, rfl⟩
  · exact hreceiver
  · exact hreceiver
  · exact hreceiver
  · exact hreceiver
  · have hempty := hj.1.1.outGoing_empty
    simp only [Receiver.act, hreceiver, Act.perform, hempty, if_true, Option.some.injEq,
      Prod.mk.injEq] at hp
    obtain ⟨-, rfl⟩ := hp
    exact hreceiver

/-- With the client never gone the network thread stays at its first test. -/
theorem network_waits (hbad : ¬ tbl.Known bad.accountNumber)
    (hs : Sched.Reaches step (State.init h tbl (before ++ bad :: rest)) s) :
    s.net.clientConnectionStatus ≠ .disconnected ∧ s.network = .testClient := by
  have hconnected : ∀ {s : State M maxNbPackets},
      Sched.Reaches step (State.init h tbl (before ++ bad :: rest)) s →
      s.net.clientConnectionStatus ≠ .disconnected := by
    intro s hs hgone
    exact absurd ((closing_of_reaches hs).disconnected hgone) (Nat.not_le.mpr (received_lt hbad hs))
  refine ⟨hconnected hs, (Sched.Reaches.invariant (P := fun s =>
    Sched.Reaches step (State.init h tbl (before ++ bad :: rest)) s ∧ s.network = .testClient) ?_ hs
    ⟨.refl _, rfl⟩).2⟩
  rintro t s s' ⟨hs, hnetwork⟩ hstep
  refine ⟨hs.tail hstep, ?_⟩
  obtain ⟨-, hcases⟩ := step_cases hstep
  rcases hcases with ⟨net, m, -, -, rfl⟩ | ⟨net, w, -, hp, rfl⟩ | ⟨net, v, -, -, rfl⟩ |
    ⟨net, c, -, -, rfl⟩ | ⟨net, c, -, -, rfl⟩
  · exact hnetwork
  · rw [hnetwork] at hp
    obtain ⟨-, rfl⟩ := Act.perform_read hp
    exact if_neg (hconnected hs)
  · exact hnetwork
  · exact hnetwork
  · exact hnetwork

/-- Then no step changes anything. -/
theorem Frozen.step {t : Thread} (hbad : ¬ tbl.Known bad.accountNumber)
    (hf : Frozen h tbl (before ++ bad :: rest) s) (hstep : Bank.step t s = some s') : s' = s := by
  obtain ⟨⟨⟨hfilled, hmain⟩, hreceiver⟩, hthrough⟩ := hf
  obtain ⟨hconnected, hnetwork⟩ := network_waits hbad hfilled.reaches
  obtain ⟨-, e, hserver⟩ := hfilled.1.1
  obtain ⟨-, hcases⟩ := step_cases hstep
  rcases hcases with ⟨net, m, -, hp, rfl⟩ | ⟨net, w, -, hp, rfl⟩ | ⟨net, v, -, hp, rfl⟩ |
    ⟨net, c, -, hp, rfl⟩ | ⟨net, c, -, hp, rfl⟩
  · rw [hmain] at hp
    cases hp
  · rw [hnetwork] at hp
    obtain ⟨rfl, rfl⟩ := Act.perform_read hp
    rw [if_neg hconnected, ← hnetwork]
  · simp [ServerThread.act, hserver, Act.perform] at hp
  · rcases hthrough with ⟨-, hdone⟩ | ⟨hunsent, hslot⟩
    · simp [Sender.act, hdone, Act.perform] at hp
    · have hfull := hfilled.inComing_full hunsent
      simp only [Sender.act, hslot, Act.perform, hfull, if_true, Option.some.injEq,
        Prod.mk.injEq] at hp
      obtain ⟨rfl, rfl⟩ := hp
      rfl
  · have hempty := hfilled.1.outGoing_empty
    simp only [Receiver.act, hreceiver, Act.perform, hempty, if_true, Option.some.injEq,
      Prod.mk.injEq] at hp
    obtain ⟨rfl, rfl⟩ := hp
    rfl

/-! ## One after the other -/

/-- The server comes to the unknown account. -/
theorem server_crashes (hbad : ¬ tbl.Known bad.accountNumber) :
    Sched.LeadsTo step (Sched.Reaches step (State.init h tbl (before ++ bad :: rest)))
      (Crashed h tbl (before ++ bad :: rest)) := by
  refine leadsTo_of_party State.worker State.worker_ne_main Simulates.worker id ?_ ?_
  · intro s hs hnot hstarted
    exact worker_goesOn hs (fun e hpc => hnot ⟨hs, e, hpc⟩) (received_lt hbad hs) hstarted
  · intro t s s' hs _ hstep
    exact .inr (hs.tail hstep)

/-- Then the receiving client takes out what there is. -/
theorem receiver_drains :
    Sched.LeadsTo step (Crashed h tbl txs) (Drained h tbl txs) := by
  refine leadsTo_of_party (fun _ => .receiver) (fun _ => nofun) (fun _ => rfl)
    (fun hc => hc.1) ?_ ?_
  · intro s hc hnot hstarted
    exact receiver_moves hc.1 (fun hout => hnot ⟨hc, hout⟩) hstarted
  · intro t s s' hc _ hstep
    exact .inr (stable_crashed hc hstep)

/-- The sending client puts in what fits. -/
theorem sender_fills :
    Sched.LeadsTo step (Drained h tbl txs) (Filled h tbl txs) := by
  refine leadsTo_of_party (fun _ => .sender) (fun _ => nofun) (fun _ => rfl)
    (fun hd => hd.reaches) ?_ ?_
  · intro s hd hnot hstarted
    have hunsent : s.pipe.unsent ≠ [] := fun hnone => hnot ⟨hd, .inl hnone⟩
    have hroom : s.pipe.inQ.length < maxNbPackets := by
      refine lt_of_le_of_ne ?_ fun hfull => hnot ⟨hd, .inr hfull⟩
      simpa [State.pipe] using (inv_and_delivers hd.reaches).1.inExact.holds.length_le
    exact sender_moves hd.reaches hroom hunsent hstarted
  · intro t s s' hd _ hstep
    exact .inr (stable_drained hd hstep)

/-- `main` starts whom it has not started yet. -/
theorem main_joins : Sched.LeadsTo step (Filled h tbl txs) (Joined h tbl txs) := by
  refine .of_agent .main (fun s => 8 - s.main.stage) ?_ ?_ ?_
  · intro s hf hnot
    have hwaits : ¬ s.main.started .receiver := by
      intro hstarted
      refine hnot ⟨hf, ?_⟩
      cases hmain : s.main with
      | joining => rfl
      | _ => simp [MainPc.started, Thread.startStage, MainPc.stage, hmain] at hstarted
    obtain ⟨net, m, hstep, -, hnext, hstage⟩ := main_moves hf.reaches hwaits
    refine ⟨_, hstep, .inr ?_⟩
    dsimp only
    omega
  · intro t s s' hf _ hstep
    exact .inr (stable_filled hf hstep)
  · intro t s s' _ hne hstep
    exact congrArg (fun m : MainPc => 8 - m.stage) ((step_others hstep).1 hne)

/-- The receiving client comes to wait for the packet it misses. -/
theorem receiver_awaits (hbad : ¬ tbl.Known bad.accountNumber) :
    Sched.LeadsTo step (Joined h tbl (before ++ bad :: rest))
      (Awaiting h tbl (before ++ bad :: rest)) := by
  refine .of_agent .receiver (fun s => s.receiver.pc.rank) ?_ ?_ ?_
  · intro s hj hnot
    have hs := hj.reaches
    have hcl := closing_of_reaches hs
    have hless := received_lt hbad hs
    have hstarted := started_of_joining hj.2 .receiver
    obtain ⟨net, c, hp, hlt⟩ := Receiver.settles (live_of_reaches hs).active (hcl.total ▸ hless)
      (fun hleft => absurd (hcl.receiverLeft hleft) (Nat.not_le.mpr hless))
      (fun hpc => (inv_and_delivers hs).1.receiveReady hpc hj.1.1.outGoing_empty)
      (fun hpc => hnot ⟨hj, hpc⟩)
    exact ⟨{ s with net := net, receiver := c }, by simp [step, hstarted, hp], .inr hlt⟩
  · intro t s s' hj _ hstep
    exact .inr (stable_joined hj hstep)
  · intro t s s' _ hne hstep
    exact congrArg (fun c => c.pc.rank) ((step_others hstep).2.2.2.2 hne)

/-- The sending client comes to its end, or to wait for a slot. -/
theorem sender_freezes : Sched.LeadsTo step (Awaiting h tbl txs) (Frozen h tbl txs) := by
  refine .of_agent .sender (fun s => s.sender.pc.rank) ?_ ?_ ?_
  · intro s ha hnot
    have hs := ha.reaches
    have hlive := live_of_reaches hs
    have hstarted := started_of_joining ha.1.2 .sender
    have hbusy := busy_of_reaches hs
    have hsend : s.sender.pc ≠ .send := fun hpc =>
      (inv_and_delivers hs).1.sendRoom hpc (ha.1.1.inComing_full (hbusy (.inr hpc)))
    obtain ⟨net, c, hp, hlt⟩ := Sender.settles hlive.active hbusy hsend hlive.sender
      (fun hthrough => hnot ⟨ha, hthrough⟩)
    exact ⟨{ s with net := net, sender := c }, by simp [step, hstarted, hp], .inr hlt⟩
  · intro t s s' ha _ hstep
    exact .inr (stable_awaiting ha hstep)
  · intro t s s' _ hne hstep
    exact congrArg (fun c => c.pc.rank) ((step_others hstep).2.2.2.1 hne)

/-- In every fair run the program freezes. -/
theorem all_freeze (hbad : ¬ tbl.Known bad.accountNumber) :
    Sched.LeadsTo step (Sched.Reaches step (State.init h tbl (before ++ bad :: rest)))
      (Frozen h tbl (before ++ bad :: rest)) :=
  (server_crashes hbad).trans <| receiver_drains.trans <| sender_fills.trans <|
    main_joins.trans <| (receiver_awaits hbad).trans sender_freezes

/-! ## The state it ends in -/

/-- Where everything is in the end: the transactions `before` the one on an unknown
account are answered and received, the server has thrown on that one, and of the
`rest` after it as many as fit are in the incoming buffer. -/
structure Stalled (tbl : AccountsTable M) (before rest : List (Transactions M))
    (s : State M maxNbPackets) : Prop where
  main : s.main = .joining
  network : s.network = .testClient
  server : s.server.pc = .crashed (AccountsTable.emptyPlace tbl.numberOfAccounts)
  receiver : s.receiver.pc = .awaitPacket
  sender : s.sender.pc = if rest.length ≤ maxNbPackets then .done else .awaitSlot
  answers : ∃ answers, tbl.processAll before = .ok (answers, s.server.table) ∧
    s.receiver.received.map content = answers.map content
  outGoing : s.net.outGoing.queued = []
  inComing : s.net.inComing.queued.map content = (rest.take maxNbPackets).map content
  unsent : s.sender.unsent.map content = (rest.drop maxNbPackets).map content

theorem Frozen.stalled (hbefore : ∀ t ∈ before, tbl.Known t.accountNumber)
    (hbad : ¬ tbl.Known bad.accountNumber) (hf : Frozen h tbl (before ++ bad :: rest) s) :
    Stalled tbl before rest s := by
  obtain ⟨⟨⟨⟨⟨hc, hout⟩, hfull⟩, hmain⟩, hreceiver⟩, hthrough⟩ := hf
  obtain ⟨e, hserver⟩ := hc.2
  obtain ⟨htransduce, hsplit⟩ := hc.split hbefore hbad
  have hcap : s.pipe.inQ.length ≤ maxNbPackets := by
    simpa [State.pipe] using (inv_and_delivers hc.1).1.inExact.holds.length_le
  have hin : s.pipe.inQ = (rest.take maxNbPackets).map content ∧
      s.pipe.unsent = (rest.drop maxNbPackets).map content := by
    rw [List.map_take, List.map_drop, hsplit]
    rcases hfull with hnone | hfull
    · simp [hnone, List.take_of_length_le hcap, List.drop_of_length_le hcap]
    · exact ⟨(List.take_left' hfull).symm, (List.drop_left' hfull).symm⟩
  have hempty : s.sender.unsent = [] ↔ rest.length ≤ maxNbPackets := by
    have hlen := congrArg List.length hin.2
    simp only [State.pipe, List.length_map, List.length_drop] at hlen
    rw [← List.length_eq_zero_iff, hlen]
    exact Nat.sub_eq_zero_iff_le
  refine ⟨hmain, (network_waits hbad hc.1).2, ?_, hreceiver, ?_, ?_, ?_, hin.1, hin.2⟩
  · rw [hserver, ((searched_of_reaches hc.1).crashed e hserver).2]
  · rcases hthrough with ⟨hnone, hpc⟩ | ⟨hsome, hpc⟩
    · rw [hpc, if_pos (hempty.mp hnone)]
    · rw [hpc, if_neg (mt hempty.mpr hsome)]
  · obtain ⟨answers, tbl', hproc, -⟩ := AccountsTable.processAll_of_known hbefore
    rw [AccountsTable.transduce_of_processAll hproc, hout, List.append_nil] at htransduce
    obtain ⟨rfl, hanswers⟩ := Prod.mk.inj htransduce
    exact ⟨answers, hproc, hanswers.symm⟩
  · simpa [State.pipe] using hout

/-- In every weakly fair run with a transaction on an unknown account, from some turn on
nothing changes any more: the server has thrown on the first such transaction, the
receiving client waits with the answers to those before it, and the sending client has
filled the incoming buffer. -/
theorem fair_runs_stall (h : 0 < maxNbPackets) (tbl : AccountsTable M)
    (before rest : List (Transactions M)) (bad : Transactions M)
    (hbefore : ∀ t ∈ before, tbl.Known t.accountNumber) (hbad : ¬ tbl.Known bad.accountNumber)
    (sched : ℕ → Thread)
    (hfair : Sched.WeaklyFair step sched (State.init h tbl (before ++ bad :: rest))) :
    ∃ n, Stalled tbl before rest
        (Sched.trace step sched (State.init h tbl (before ++ bad :: rest)) n) ∧
      ∀ m, n ≤ m → Sched.trace step sched (State.init h tbl (before ++ bad :: rest)) m
        = Sched.trace step sched (State.init h tbl (before ++ bad :: rest)) n := by
  obtain ⟨n, hn⟩ := all_freeze hbad sched _ hfair (.refl _)
  refine ⟨n, hn.stalled hbefore hbad, fun m hm => ?_⟩
  have hsame : Sched.Stable step (fun s =>
      s = Sched.trace step sched (State.init h tbl (before ++ bad :: rest)) n) := by
    rintro t s s' rfl hstep
    exact hn.step hbad hstep
  obtain ⟨k, rfl⟩ := Nat.exists_eq_add_of_le hm
  rw [Sched.trace_add]
  exact hsame.trace rfl k

/-- A query on an account that is not in the file. -/
def anotherAccount : Transactions Int := ⟨"99999", "QUERY", 0, 0, "none", " "⟩

theorem threads_pos : 0 < [Thread.main, .network, .server, .sender, .receiver].length :=
  Nat.zero_lt_succ _

/-- The threads taking turns, with one slot per buffer. -/
def oneSlot : ℕ → State Int 1 :=
  Sched.trace step (Sched.roundRobin _ threads_pos)
    (State.init Nat.one_pos firstAccount
      ([firstTransaction] ++ anotherAccount :: [firstTransaction, firstTransaction]))

/-- The first deposit is answered, and the last one is never sent. -/
theorem fair_runs_stall_oneSlot :
    ∃ n, Stalled firstAccount [firstTransaction] [firstTransaction, firstTransaction]
        (oneSlot n) ∧ ∀ m, n ≤ m → oneSlot m = oneSlot n := by
  refine fair_runs_stall (by decide) firstAccount [firstTransaction]
    [firstTransaction, firstTransaction] anotherAccount ?_ ?_ _ (everyTurn_threads.weaklyFair _)
  · simp [firstAccount, firstTransaction, AccountsTable.Known]
  · simp [firstAccount, anotherAccount, AccountsTable.Known]

end Runs

end Smoll.Bank
