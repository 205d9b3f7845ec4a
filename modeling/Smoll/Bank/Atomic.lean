/-
# `Smoll.Bank.Atomic` — the bank with network calls as atomic steps

One step of a thread performs its whole next action: a call of a `Network`
method is one step, and so is each test of a busy-wait loop.  Which thread
moves is not determined, so what is reached with `step` is what any
interleaving reaches.

For each thread one lemma says everything a step of it can do
(`Sender.perform_cases` and its siblings): it makes the one transfer its
program counter stands for, or it leaves the buffers and its packets alone.
All invariants are derived from these.
-/
import Smoll.Bank.Threads
import Smoll.Lib.Sched

namespace Smoll.Bank

variable {M : Type} {maxNbPackets : Nat}

/-! ## Performing an action -/

/-- One of the four transfers, as one call: the caller's packet afterwards, and
the network. -/
def Network.transfer (net : Network M maxNbPackets) :
    Transfer → Transactions M → Transactions M × Network M maxNbPackets
  | .send, packet => (packet, net.send packet)
  | .receive, packet => net.receive packet
  | .transferIn, packet => net.transferIn packet
  | .transferOut, packet => (packet, net.transferOut packet)

/-- One of the two connection requests, as one call. -/
def Network.link (net : Network M maxNbPackets) :
    Link → String → Bool × Network M maxNbPackets
  | .connect, IP => net.connect IP
  | .disconnect, IP => net.disconnect IP

/-- The outcome of an action: the network and the thread's next state. -/
def Act.perform {L : Type} (net : Network M maxNbPackets) :
    Act M maxNbPackets L → Option (Network M maxNbPackets × L)
  | .read k => some (net, k net)
  | .transfer d packet k => some ((net.transfer d packet).2, k (net.transfer d packet).1)
  | .link d IP k => some ((net.link d IP).2, k (net.link d IP).1)
  | .work l => some (net, l)
  | .stop => none

section

variable {L : Type} {net net' : Network M maxNbPackets} {l : L}

theorem Act.perform_read {k : Network M maxNbPackets → L}
    (h : (Act.read k).perform net = some (net', l)) : net = net' ∧ k net = l :=
  Prod.mk.inj (Option.some.inj h)

theorem Act.perform_work {l₀ : L}
    (h : (Act.work l₀ : Act M maxNbPackets L).perform net = some (net', l)) :
    net = net' ∧ l₀ = l :=
  Prod.mk.inj (Option.some.inj h)

theorem Act.perform_transfer {d : Transfer} {packet : Transactions M} {k : Transactions M → L}
    (h : (Act.transfer d packet k : Act M maxNbPackets L).perform net = some (net', l)) :
    (net.transfer d packet).2 = net' ∧ k (net.transfer d packet).1 = l :=
  Prod.mk.inj (Option.some.inj h)

theorem Act.perform_link {d : Link} {IP : String} {k : Bool → L}
    (h : (Act.link d IP k : Act M maxNbPackets L).perform net = some (net', l)) :
    (net.link d IP).2 = net' ∧ k (net.link d IP).1 = l :=
  Prod.mk.inj (Option.some.inj h)

end

/-- The next step of a thread, if `main` has started it and it is not done. -/
def step [Add M] [Sub M] (t : Thread) (s : State M maxNbPackets) :
    Option (State M maxNbPackets) :=
  if s.main.started t then
    match t with
    | .main => (s.main.act.perform s.net).map fun r => { s with net := r.1, main := r.2 }
    | .network => (s.network.act.perform s.net).map fun r => { s with net := r.1, network := r.2 }
    | .server => (s.server.act.perform s.net).map fun r => { s with net := r.1, server := r.2 }
    | .sender => (s.sender.act.perform s.net).map fun r => { s with net := r.1, sender := r.2 }
    | .receiver =>
        (s.receiver.act.perform s.net).map fun r => { s with net := r.1, receiver := r.2 }
  else none

theorem step_cases [Add M] [Sub M] {t : Thread} {s s' : State M maxNbPackets}
    (h : step t s = some s') :
    s.main.started t ∧
    ((∃ net m, t = .main ∧ s.main.act.perform s.net = some (net, m) ∧
        s' = { s with net := net, main := m }) ∨
     (∃ net w, t = .network ∧ s.network.act.perform s.net = some (net, w) ∧
        s' = { s with net := net, network := w }) ∨
     (∃ net v, t = .server ∧ s.server.act.perform s.net = some (net, v) ∧
        s' = { s with net := net, server := v }) ∨
     (∃ net c, t = .sender ∧ s.sender.act.perform s.net = some (net, c) ∧
        s' = { s with net := net, sender := c }) ∨
     (∃ net c, t = .receiver ∧ s.receiver.act.perform s.net = some (net, c) ∧
        s' = { s with net := net, receiver := c })) := by
  unfold step at h
  split at h
  · next hstarted =>
      refine ⟨hstarted, ?_⟩
      cases t with
      | main =>
          obtain ⟨⟨net, m⟩, hp, rfl⟩ := Option.map_eq_some_iff.mp h
          exact .inl ⟨net, m, rfl, hp, rfl⟩
      | network =>
          obtain ⟨⟨net, w⟩, hp, rfl⟩ := Option.map_eq_some_iff.mp h
          exact .inr (.inl ⟨net, w, rfl, hp, rfl⟩)
      | server =>
          obtain ⟨⟨net, v⟩, hp, rfl⟩ := Option.map_eq_some_iff.mp h
          exact .inr (.inr (.inl ⟨net, v, rfl, hp, rfl⟩))
      | sender =>
          obtain ⟨⟨net, c⟩, hp, rfl⟩ := Option.map_eq_some_iff.mp h
          exact .inr (.inr (.inr (.inl ⟨net, c, rfl, hp, rfl⟩)))
      | receiver =>
          obtain ⟨⟨net, c⟩, hp, rfl⟩ := Option.map_eq_some_iff.mp h
          exact .inr (.inr (.inr (.inr ⟨net, c, rfl, hp, rfl⟩)))
  · cases h

/-! ## Steps that leave the buffers alone -/

/-- Only connection statuses (and the port) differ. -/
structure Network.SameBuffers (net net' : Network M maxNbPackets) : Prop where
  inComing : net'.inComing = net.inComing
  outGoing : net'.outGoing = net.outGoing
  networkStatus : net'.networkStatus = net.networkStatus

theorem Network.SameBuffers.refl (net : Network M maxNbPackets) : net.SameBuffers net :=
  ⟨rfl, rfl, rfl⟩

theorem Network.link_sameBuffers (net : Network M maxNbPackets) (d : Link) (IP : String) :
    net.SameBuffers (net.link d IP).2 := by
  cases d <;> simp only [link, connect, disconnect] <;> split <;> (try split) <;>
    (try split) <;> exact ⟨rfl, rfl, rfl⟩

/-- A connection request never ends the client's connection. -/
theorem Network.connect_not_disconnected (net : Network M maxNbPackets) (IP : String)
    (h : (net.link .connect IP).2.clientConnectionStatus = .disconnected) :
    net.clientConnectionStatus = .disconnected := by
  simp only [link, connect] at h
  split at h
  · split at h
    · cases h
    · split at h <;> exact h
  · exact h

/-! ## What a step of each thread does -/

theorem MainPc.perform_cases {net net' : Network M maxNbPackets} {m m' : MainPc}
    (h : m.act.perform net = some (net', m')) :
    net.SameBuffers net' ∧
      (net'.clientConnectionStatus = .disconnected →
        net.clientConnectionStatus = .disconnected) := by
  cases m <;> simp only [act, Act.perform, Option.some.injEq, Prod.mk.injEq, reduceCtorEq] at h <;>
    obtain ⟨rfl, -⟩ := h
  case connectServer IP => exact ⟨net.link_sameBuffers _ _, net.connect_not_disconnected IP⟩
  case connectClient IP => exact ⟨net.link_sameBuffers _ _, net.connect_not_disconnected IP⟩
  all_goals exact ⟨.refl net, id⟩

theorem NetworkPc.perform_cases {net net' : Network M maxNbPackets} {w w' : NetworkPc}
    (h : w.act.perform net = some (net', w')) : net' = net := by
  cases w <;> simp only [act, Act.perform, Option.some.injEq, Prod.mk.injEq, reduceCtorEq] at h <;>
    exact h.1.symm

/-- The sending client sends its next packet, or leaves the buffers and its
packets alone; it comes to its call only past a status that is not `full`. -/
theorem Sender.perform_cases {net net' : Network M maxNbPackets} {c c' : Sender M}
    (h : c.act.perform net = some (net', c')) :
    (c.pc ≠ .send ∧ net.SameBuffers net' ∧
      (net'.clientConnectionStatus = .disconnected →
        net.clientConnectionStatus = .disconnected) ∧
      c'.sent = c.sent ∧ c'.unsent = c.unsent ∧
      (c'.pc = .send → net.inComing.status ≠ .full) ∧
      (c'.pc = .done → c.unsent = [])) ∨
    (∃ t rest, c.pc = .send ∧ c.unsent = t :: rest ∧
      net' = net.send (t.setTransactionStatus "sent") ∧
      c' = { pc := .loopTest, sent := c.sent ++ [t.setTransactionStatus "sent"],
             unsent := rest }) := by
  obtain ⟨pc, sent, unsent⟩ := c
  cases pc with
  | awaitNetwork =>
      obtain ⟨rfl, rfl⟩ := Act.perform_read h
      refine .inl ⟨nofun, .refl net, id, ?_⟩
      split <;> simp
  | getClientIP =>
      obtain ⟨rfl, rfl⟩ := Act.perform_read h
      exact .inl ⟨nofun, .refl net, id, rfl, rfl, nofun, nofun⟩
  | connect IP =>
      obtain ⟨rfl, rfl⟩ := Act.perform_link h
      exact .inl ⟨nofun, net.link_sameBuffers _ _, net.connect_not_disconnected IP, rfl, rfl,
        nofun, nofun⟩
  | loopTest =>
      cases unsent with
      | nil =>
          obtain ⟨rfl, rfl⟩ := Act.perform_work h
          exact .inl ⟨nofun, .refl net, id, rfl, rfl, nofun, fun _ => rfl⟩
      | cons t rest =>
          obtain ⟨rfl, rfl⟩ := Act.perform_work h
          exact .inl ⟨nofun, .refl net, id, rfl, rfl, nofun, nofun⟩
  | awaitSlot =>
      obtain ⟨rfl, rfl⟩ := Act.perform_read h
      refine .inl ⟨nofun, .refl net, id, ?_⟩
      split
      · exact ⟨rfl, rfl, nofun, nofun⟩
      · next hfull => exact ⟨rfl, rfl, fun _ => hfull, nofun⟩
  | send =>
      cases unsent with
      | nil => simp [act, Act.perform] at h
      | cons t rest =>
          obtain ⟨rfl, rfl⟩ := Act.perform_transfer h
          exact .inr ⟨t, rest, rfl, rfl, rfl, rfl⟩
  | done => simp [act, Act.perform] at h

/-- The receiving client receives a packet, or leaves the buffers and its
packets alone; it comes to its call only past a status that is not `empty`,
and out of its loop only with all packets. -/
theorem Receiver.perform_cases {net net' : Network M maxNbPackets} {c c' : Receiver M}
    (h : c.act.perform net = some (net', c')) :
    (c.pc ≠ .receive ∧ net.SameBuffers net' ∧
      (net'.clientConnectionStatus = .disconnected →
        net.clientConnectionStatus = .disconnected ∨ c.pc.left) ∧
      c'.received = c.received ∧ c'.numberOfTransactions = c.numberOfTransactions ∧
      (c'.pc = .receive → net.outGoing.status ≠ .empty) ∧
      (c'.pc.left → c.pc.left ∨ c.numberOfTransactions ≤ c.received.length)) ∨
    (c.pc = .receive ∧ net' = (net.receive c.transact).2 ∧
      c' = { c with pc := .loopTest, transact := (net.receive c.transact).1,
                    received := c.received ++ [(net.receive c.transact).1] }) := by
  obtain ⟨pc, transact, received, n⟩ := c
  cases pc with
  | awaitNetwork =>
      obtain ⟨rfl, rfl⟩ := Act.perform_read h
      refine .inl ⟨nofun, .refl net, .inl, ?_⟩
      split <;> simp [ReceiverPc.left]
  | getClientIP =>
      obtain ⟨rfl, rfl⟩ := Act.perform_read h
      exact .inl ⟨nofun, .refl net, .inl, rfl, rfl, nofun, nofun⟩
  | connect IP =>
      obtain ⟨rfl, rfl⟩ := Act.perform_link h
      exact .inl ⟨nofun, net.link_sameBuffers _ _,
        fun hd => .inl (net.connect_not_disconnected IP hd), rfl, rfl, nofun, nofun⟩
  | loopTest =>
      simp only [act] at h
      split at h
      · obtain ⟨rfl, rfl⟩ := Act.perform_work h
        exact .inl ⟨nofun, .refl net, .inl, rfl, rfl, nofun, nofun⟩
      · next hlast =>
          obtain ⟨rfl, rfl⟩ := Act.perform_work h
          exact .inl ⟨nofun, .refl net, .inl, rfl, rfl, nofun, fun _ => .inr (not_lt.mp hlast)⟩
  | awaitPacket =>
      obtain ⟨rfl, rfl⟩ := Act.perform_read h
      refine .inl ⟨nofun, .refl net, .inl, ?_⟩
      split
      · exact ⟨rfl, rfl, nofun, nofun⟩
      · next hempty => exact ⟨rfl, rfl, fun _ => hempty, nofun⟩
  | receive =>
      obtain ⟨rfl, rfl⟩ := Act.perform_transfer h
      exact .inr ⟨rfl, rfl, rfl⟩
  | getIPToLeave =>
      obtain ⟨rfl, rfl⟩ := Act.perform_read h
      exact .inl ⟨nofun, .refl net, .inl, rfl, rfl, nofun, fun _ => .inl rfl⟩
  | disconnect IP =>
      obtain ⟨rfl, rfl⟩ := Act.perform_link h
      exact .inl ⟨nofun, net.link_sameBuffers _ _, fun _ => .inr rfl, rfl, rfl, nofun,
        fun _ => .inl rfl⟩
  | done => simp [act, Act.perform] at h

/-- The server takes a packet in, processes it, crashes on it, transfers it
out, or leaves the buffers, its packet and the accounts alone; it comes to
its calls only past a status that allows them, and out of its loop only past
a client that has disconnected, holding no packet. -/
theorem ServerThread.perform_cases [Add M] [Sub M] {net net' : Network M maxNbPackets}
    {v v' : ServerThread M} (h : v.act.perform net = some (net', v')) :
    (v.pc ≠ .transferIn ∧ v.pc ≠ .process ∧ v.pc ≠ .transferOut ∧ net.SameBuffers net' ∧
      (net'.clientConnectionStatus = .disconnected →
        net.clientConnectionStatus = .disconnected ∨ v.pc.left) ∧
      v'.trans = v.trans ∧ v'.table = v.table ∧ v'.holding = v.holding ∧
      v'.held = v.held ∧ (∀ e, v'.pc ≠ .crashed e) ∧ v'.served = v.served ∧
      (v'.pc = .transferIn → net.inComing.status ≠ .empty) ∧
      (v'.pc = .transferOut → net.outGoing.status ≠ .full) ∧
      (v'.pc.left → v.pc.left ∨ net.clientConnectionStatus = .disconnected)) ∨
    (v.pc = .transferIn ∧ net' = (net.transferIn v.trans).2 ∧
      v' = { v with pc := .process, trans := (net.transferIn v.trans).1 }) ∨
    (∃ t tbl, v.pc = .process ∧ v.table.process v.trans = .ok (t, tbl) ∧ net' = net ∧
      v' = { v with pc := .awaitSlot, trans := t, table := tbl }) ∨
    (∃ e, v.pc = .process ∧ v.table.process v.trans = .error e ∧ net' = net ∧
      v' = { v with pc := .crashed e }) ∨
    (v.pc = .transferOut ∧ net' = net.transferOut v.trans ∧ v' = { v with pc := .count }) := by
  obtain ⟨pc, trans, table, n⟩ := v
  cases pc with
  | transferIn =>
      obtain ⟨rfl, rfl⟩ := Act.perform_transfer h
      exact .inr (.inl ⟨rfl, rfl, rfl⟩)
  | process =>
      simp only [act] at h
      split at h
      · next t tbl hproc =>
          obtain ⟨rfl, rfl⟩ := Act.perform_work h
          exact .inr (.inr (.inl ⟨t, tbl, rfl, hproc, rfl, rfl⟩))
      · next e hproc =>
          obtain ⟨rfl, rfl⟩ := Act.perform_work h
          exact .inr (.inr (.inr (.inl ⟨e, rfl, hproc, rfl, rfl⟩)))
  | transferOut =>
      obtain ⟨rfl, rfl⟩ := Act.perform_transfer h
      exact .inr (.inr (.inr (.inr ⟨rfl, rfl, rfl⟩)))
  | done => simp [act, Act.perform] at h
  | crashed e => simp [act, Act.perform] at h
  | connect IP =>
      obtain ⟨rfl, rfl⟩ := Act.perform_link h
      refine .inl ⟨nofun, nofun, nofun, net.link_sameBuffers _ _,
        fun hd => .inl (net.connect_not_disconnected IP hd), ?_⟩
      simp [holding, held, served, ServerPc.left]
  | disconnect IP =>
      obtain ⟨rfl, rfl⟩ := Act.perform_link h
      refine .inl ⟨nofun, nofun, nofun, net.link_sameBuffers _ _, fun _ => .inr rfl, ?_⟩
      simp [holding, held, served, ServerPc.left]
  | _ =>
      simp only [act, Act.perform, Option.some.injEq, Prod.mk.injEq] at h
      obtain ⟨rfl, rfl⟩ := h
      refine .inl ⟨nofun, nofun, nofun, .refl net, .inl, ?_⟩
      try split
      all_goals simp_all [holding, held, served, ServerPc.left]

end Smoll.Bank
