/-
# `Smoll.Bank.Disconnect` — whether a disconnect is final

The receiving client disconnects once it has received everything, and the
loops of the server and of the network thread wait for that.  The client's
connection status is one text for both client threads and for `main`, and
each of them writes "connected" into it at some moment of its own.

`disconnectFinal_iff`: over all interleavings of the accesses of
`Smoll.Bank.Locks`, the status stays "disconnected" from the disconnect on,
and the waiting loops can be left, exactly when there is a transaction.  A
received transaction proves that the sending client is past its `connect`:
before that, nothing happens in the buffers (`Quiet`).  With no transaction
the receiver may be through before the sender connects.
-/
import Smoll.Bank.Overlap

namespace Smoll.Bank

open Transactions

variable {M : Type} {maxNbPackets : Nat}

/-! ## What an access does to the connection -/

/-- The accesses of a request that concerns the server. -/
def LinkPc.onServer : LinkPc → Bool
  | .client | .port => false
  | _ => true

/-- The accesses of a disconnection of the client. -/
def LinkPc.onLeaving : LinkPc → Bool
  | .networkStatus | .clientIP | .client => true
  | _ => false

theorem LinkPc.step_constants (pc : LinkPc) (d : Link) (IP : String)
    (net : Network M maxNbPackets) :
    (pc.step d IP net).2.clientIP = net.clientIP ∧ (pc.step d IP net).2.serverIP = net.serverIP ∧
      (pc.step d IP net).2.networkStatus = net.networkStatus := by
  cases pc with
  | networkStatus => simp only [step]; split <;> exact ⟨rfl, rfl, rfl⟩
  | clientIP => simp only [step]; split <;> exact ⟨rfl, rfl, rfl⟩
  | client => cases d <;> exact ⟨rfl, rfl, rfl⟩
  | port => exact ⟨rfl, rfl, rfl⟩
  | serverIP => simp only [step]; split <;> exact ⟨rfl, rfl, rfl⟩
  | server => exact ⟨rfl, rfl, rfl⟩

/-- Addresses and network status are never written. -/
theorem Act.access_constants {L : Type} {free : Bool} {net net' : Network M maxNbPackets} {l : L}
    {a : Act M maxNbPackets L} {call : Call M maxNbPackets} {t : Task M maxNbPackets L}
    (h : a.access free net l call = some (net', t)) :
    net'.clientIP = net.clientIP ∧ net'.serverIP = net.serverIP ∧
      net'.networkStatus = net.networkStatus := by
  have hset : ∀ (b : Buffer M maxNbPackets) (side : Side),
      (net.setBuffer b side).clientIP = net.clientIP ∧
        (net.setBuffer b side).serverIP = net.serverIP ∧
        (net.setBuffer b side).networkStatus = net.networkStatus := by
    intro b side
    cases side <;> exact ⟨rfl, rfl, rfl⟩
  rcases Act.access_cases h with ⟨-, rfl, -⟩ | ⟨d, packet, k, -, -, rfl, -⟩ |
    ⟨d, IP, k, -, -, rfl, -⟩ | ⟨d, _, k, pc, _, pc', _, b, -, -, -, rfl, -⟩ |
    ⟨d, _, k, pc, _, _, b, -, -, -, rfl, -⟩ | ⟨d, IP, k, pc, pc', -, -, hstep, -⟩ |
    ⟨d, IP, k, pc, ok, -, -, hstep, -⟩
  · exact ⟨rfl, rfl, rfl⟩
  · exact ⟨rfl, rfl, rfl⟩
  · exact ⟨rfl, rfl, rfl⟩
  · exact hset b d.side
  · exact hset b d.side
  · have hconst := pc.step_constants d IP net
    rwa [hstep] at hconst
  · have hconst := pc.step_constants d IP net
    rwa [hstep] at hconst

/-- A request for another address than the client's does not concern the client. -/
theorem LinkPc.step_onServer {pc pc' : LinkPc} {d : Link} {IP : String}
    {net net' : Network M maxNbPackets} (hserver : pc.onServer) (hIP : net.clientIP ≠ IP)
    (hstep : pc.step d IP net = (.inl pc', net')) : pc'.onServer := by
  cases pc with
  | networkStatus =>
      simp only [step] at hstep
      split at hstep <;> cases hstep
      rfl
  | clientIP =>
      simp only [step, if_neg hIP] at hstep
      cases hstep
      rfl
  | serverIP =>
      simp only [step] at hstep
      split at hstep <;> cases hstep
      rfl
  | server => cases hstep
  | client => cases hserver
  | port => cases hserver

/-- The disconnection of the client's address ends its connection. -/
theorem LinkPc.step_onLeaving {pc : LinkPc} {net : Network M maxNbPackets}
    (hleaving : pc.onLeaving) (hactive : net.networkStatus = .active) :
    (∃ pc', pc.step .disconnect net.clientIP net = (.inl pc', net) ∧ pc'.onLeaving) ∨
      ∃ net', pc.step .disconnect net.clientIP net = (.inr true, net') ∧
        net'.clientConnectionStatus = .disconnected := by
  cases pc with
  | networkStatus => exact .inl ⟨.clientIP, if_pos hactive, rfl⟩
  | clientIP => exact .inl ⟨.client, if_pos rfl, rfl⟩
  | client => exact .inr ⟨_, rfl, rfl⟩
  | port => cases hleaving
  | serverIP => cases hleaving
  | server => cases hleaving

/-- Only the access `client` writes the client's connection status. -/
theorem LinkPc.step_status {pc : LinkPc} (d : Link) (IP : String) (net : Network M maxNbPackets)
    (hpc : pc ≠ .client) :
    (pc.step d IP net).2.clientConnectionStatus = net.clientConnectionStatus := by
  cases pc with
  | networkStatus => simp only [step]; split <;> rfl
  | clientIP => simp only [step]; split <;> rfl
  | client => exact absurd rfl hpc
  | port => rfl
  | serverIP => simp only [step]; split <;> rfl
  | server => rfl

/-- An access writes the client's connection status only inside a request. -/
theorem Act.access_status {L : Type} {free : Bool} {net net' : Network M maxNbPackets} {l : L}
    {a : Act M maxNbPackets L} {call : Call M maxNbPackets} {t : Task M maxNbPackets L}
    (h : a.access free net l call = some (net', t)) :
    net'.clientConnectionStatus = net.clientConnectionStatus ∨
      (call = .link .client ∧ ∃ d IP k, a = .link d IP k) := by
  have hset : ∀ (b : Buffer M maxNbPackets) (side : Side),
      (net.setBuffer b side).clientConnectionStatus = net.clientConnectionStatus := by
    intro b side
    cases side <;> rfl
  have hlink : ∀ {d IP k pc}, a = .link d IP k → call = .link pc →
      net' = (pc.step d IP net).2 → net'.clientConnectionStatus = net.clientConnectionStatus ∨
        (call = .link .client ∧ ∃ d IP k, a = .link d IP k) := by
    rintro d IP k pc hact rfl rfl
    rcases Decidable.em (pc = .client) with rfl | hpc
    · exact .inr ⟨rfl, d, IP, k, hact⟩
    · exact .inl (LinkPc.step_status d IP net hpc)
  rcases Act.access_cases h with ⟨-, rfl, -⟩ | ⟨d, packet, k, -, -, rfl, -⟩ |
    ⟨d, IP, k, -, -, rfl, -⟩ | ⟨d, _, k, pc, _, pc', _, b, -, -, -, rfl, -⟩ |
    ⟨d, _, k, pc, _, _, b, -, -, -, rfl, -⟩ | ⟨d, IP, k, pc, pc', hact, hcall, hstep, -⟩ |
    ⟨d, IP, k, pc, ok, hact, hcall, hstep, -⟩
  · exact .inl rfl
  · exact .inl rfl
  · exact .inl rfl
  · exact .inl (hset b d.side)
  · exact .inl (hset b d.side)
  · exact hlink hact hcall (by rw [hstep])
  · exact hlink hact hcall (by rw [hstep])

/-! ## The sending client before its connection -/

/-- The sending client has not connected yet. -/
def SenderPc.early : SenderPc → Bool
  | .awaitNetwork | .getClientIP | .connect _ => true
  | _ => false

/-- The sending client writes the connection status only early, and is early only
once. -/
theorem Sender.access_early {free : Bool} {net net' : Network M maxNbPackets} {c : Sender M}
    {call : Call M maxNbPackets} {t : Task M maxNbPackets (Sender M)}
    (h : c.act.access free net c call = some (net', t)) :
    (t.state.pc.early → c.pc.early) ∧
      (net'.clientConnectionStatus = net.clientConnectionStatus ∨ c.pc.early) := by
  constructor
  · intro hearly
    rcases Act.access_cases h with ⟨⟨c', hp, rfl⟩, -⟩ | ⟨d, packet, k, -, -, -, rfl⟩ |
      ⟨d, IP, k, -, -, -, rfl⟩ | ⟨d, _, k, pc, _, pc', _, b, -, -, -, -, rfl⟩ |
      ⟨d, _, k, pc, _, packet', b, hact, -, -, -, rfl⟩ | ⟨d, IP, k, pc, pc', -, -, -, rfl⟩ |
      ⟨d, IP, k, pc, ok, hact, -, -, rfl⟩
    · obtain ⟨pc, sent, unsent⟩ := c
      cases pc with
      | loopTest => cases unsent <;> cases hp <;> cases hearly
      | awaitSlot =>
          simp only [Sender.act, Act.perform, Option.some.injEq, Prod.mk.injEq] at hp
          obtain ⟨-, rfl⟩ := hp
          dsimp only at hearly
          split at hearly <;> cases hearly
      | send =>
          cases unsent with
          | nil => cases hp
          | cons t rest =>
              cases hp
              cases hearly
      | done => cases hp
      | _ => rfl
    · exact hearly
    · exact hearly
    · exact hearly
    · obtain ⟨-, -, t, rest, -, rfl⟩ := act_transfer hact
      cases hearly
    · exact hearly
    · obtain ⟨-, -, rfl⟩ := act_link hact
      cases hearly
  · rcases Act.access_status h with hsame | ⟨-, d, IP, k, hact⟩
    · exact .inl hsame
    · obtain ⟨hpc, -⟩ := act_link hact
      exact .inr (by rw [hpc]; rfl)

/-! ## The server's requests -/

/-- The server asks for its own address only. -/
structure ServerAsks (serverIP : String) (t : Task M maxNbPackets (ServerThread M)) : Prop where
  address : ∀ IP, t.state.pc = .connect IP ∨ t.state.pc = .disconnect IP → IP = serverIP
  onServer : ∀ pc, t.call = .link pc → pc.onServer

theorem ServerThread.access_asks [Add M] [Sub M] {free : Bool} {net net' : Network M maxNbPackets}
    {t t' : Task M maxNbPackets (ServerThread M)} (hasks : ServerAsks net.serverIP t)
    (hne : net.clientIP ≠ net.serverIP)
    (h : t.state.act.access free net t.state t.call = some (net', t')) :
    ServerAsks net.serverIP t' ∧ net'.clientConnectionStatus = net.clientConnectionStatus := by
  constructor
  · rcases Act.access_cases h with ⟨⟨v', hp, rfl⟩, -⟩ | ⟨d, packet, k, -, -, -, rfl⟩ |
      ⟨d, IP, k, -, -, -, rfl⟩ | ⟨d, _, k, pc, _, pc', _, b, -, -, -, -, rfl⟩ |
      ⟨d, _, k, pc, _, packet', b, hact, -, -, -, rfl⟩ |
      ⟨d, IP, k, pc, pc', hact, hcall, hstep, rfl⟩ | ⟨d, IP, k, pc, ok, hact, -, -, rfl⟩
    · refine ⟨?_, fun pc hpc => by cases hpc⟩
      intro IP hIP
      obtain ⟨⟨pc, packet, table, n⟩, call⟩ := t
      cases pc with
      | getServerIP =>
          obtain ⟨-, rfl⟩ := Prod.mk.inj (Option.some.inj hp)
          rcases hIP with hIP | hIP
          · exact (ServerPc.connect.inj hIP).symm
          · cases hIP
      | getIPToLeave =>
          obtain ⟨-, rfl⟩ := Prod.mk.inj (Option.some.inj hp)
          rcases hIP with hIP | hIP
          · cases hIP
          · exact (ServerPc.disconnect.inj hIP).symm
      | process =>
          simp only [ServerThread.act] at hp
          split at hp <;> obtain ⟨-, rfl⟩ := Prod.mk.inj (Option.some.inj hp) <;>
            rcases hIP with hIP | hIP <;> cases hIP
      | done => cases hp
      | crashed e => cases hp
      | _ =>
          simp only [ServerThread.act, Act.perform, Option.some.injEq, Prod.mk.injEq] at hp
          obtain ⟨-, rfl⟩ := hp
          dsimp only at hIP
          (try split at hIP) <;> rcases hIP with hIP | hIP <;> cases hIP
    · exact ⟨hasks.address, fun pc hpc => by cases hpc⟩
    · refine ⟨hasks.address, ?_⟩
      rintro pc hpc
      obtain rfl := Call.link.inj hpc
      rfl
    · exact ⟨hasks.address, fun pc hpc => by cases hpc⟩
    · refine ⟨?_, fun pc hpc => by cases hpc⟩
      intro IP hIP
      rcases act_transfer hact with ⟨-, -, rfl⟩ | ⟨-, -, rfl⟩ <;> rcases hIP with hIP | hIP <;>
        cases hIP
    · refine ⟨hasks.address, ?_⟩
      rintro pc₁ hpc₁
      obtain rfl := Call.link.inj hpc₁
      have hIP : IP = net.serverIP := by
        rcases act_link hact with ⟨hpc, -⟩ | ⟨hpc, -⟩
        · exact hasks.address IP (.inl hpc)
        · exact hasks.address IP (.inr hpc)
      have hno : net.clientIP ≠ IP := fun heq => hne (heq.trans hIP)
      exact LinkPc.step_onServer (hasks.onServer pc hcall) hno hstep
    · refine ⟨?_, fun pc hpc => by cases hpc⟩
      intro IP hIP
      rcases act_link hact with ⟨-, -, rfl⟩ | ⟨-, -, rfl⟩ <;> rcases hIP with hIP | hIP <;>
        cases hIP
  · rcases Act.access_status h with hsame | ⟨hcall, -⟩
    · exact hsame
    · cases hasks.onServer _ hcall

/-! ## The receiving client on its way out -/

/-- The receiving client leaves its loop with all `n` packets, and asks for its own
address when it disconnects. -/
structure Leaving (clientIP : String) (n : Nat) (t : Task M maxNbPackets (Receiver M)) : Prop where
  address : ∀ IP, t.state.pc = .disconnect IP → IP = clientIP
  onLeaving : ∀ IP pc, t.state.pc = .disconnect IP → t.call = .link pc → pc.onLeaving
  total : t.state.numberOfTransactions = n
  all : t.state.pc.left → n ≤ t.state.received.length

theorem Receiver.perform_pc {net net' : Network M maxNbPackets} {c c' : Receiver M}
    (h : c.act.perform net = some (net', c'))
    (htransfer : ∀ d packet k, (c.act : Act M maxNbPackets _) ≠ .transfer d packet k)
    (hlink : ∀ d IP k, (c.act : Act M maxNbPackets _) ≠ .link d IP k) :
    c'.pc ≠ .done ∧ ∀ IP, c'.pc = .disconnect IP → IP = net.clientIP := by
  obtain ⟨pc, transact, received, n⟩ := c
  cases pc with
  | connect IP => exact absurd rfl (hlink _ _ _)
  | disconnect IP => exact absurd rfl (hlink _ _ _)
  | receive => exact absurd rfl (htransfer _ _ _)
  | done => cases h
  | getIPToLeave =>
      obtain ⟨-, rfl⟩ := Prod.mk.inj (Option.some.inj h)
      exact ⟨(fun hpc => by cases hpc), fun IP hIP => (ReceiverPc.disconnect.inj hIP).symm⟩
  | loopTest =>
      simp only [act] at h
      split at h <;> obtain ⟨-, rfl⟩ := Prod.mk.inj (Option.some.inj h) <;>
        exact ⟨(fun hpc => by cases hpc), fun IP hIP => by cases hIP⟩
  | _ =>
      simp only [act, Act.perform, Option.some.injEq, Prod.mk.injEq] at h
      obtain ⟨-, rfl⟩ := h
      (try split) <;> exact ⟨(fun hpc => by cases hpc), fun IP hIP => by cases hIP⟩

theorem Receiver.access_leaving {free : Bool} {net net' : Network M maxNbPackets} {n : Nat}
    {t t' : Task M maxNbPackets (Receiver M)} (hleaving : Leaving net.clientIP n t)
    (hactive : net.networkStatus = .active)
    (h : t.state.act.access free net t.state t.call = some (net', t')) :
    Leaving net.clientIP n t' ∧
      (t'.state.pc = .done → net'.clientConnectionStatus = .disconnected) := by
  -- nothing leads out of `done`
  have hgoing : t.state.pc ≠ .done := by
    intro hdone
    obtain ⟨⟨pc, transact, received, m⟩, call⟩ := t
    obtain rfl : pc = .done := hdone
    cases call <;> cases h
  rcases Act.access_cases h with ⟨⟨c', hp, rfl⟩, rfl, -, htransfer, hlink⟩ |
    ⟨d, packet, k, hact, -, -, rfl⟩ | ⟨d, IP, k, -, -, -, rfl⟩ |
    ⟨d, _, k, pc, _, pc', _, b, -, -, -, -, rfl⟩ | ⟨d, _, k, pc, _, packet', b, hact, -, -, -, rfl⟩ |
    ⟨d, IP, k, pc, pc', hact, hcall, hstep, rfl⟩ | ⟨d, IP, k, pc, ok, hact, hcall, hstep, rfl⟩
  · obtain ⟨hdone, haddress⟩ := Receiver.perform_pc hp htransfer hlink
    refine ⟨⟨haddress, nofun, ?_, ?_⟩, fun hd => absurd hd hdone⟩
    · rcases Receiver.perform_cases hp with ⟨-, -, -, -, htotal, -, -⟩ | ⟨hpc, -, rfl⟩
      · exact htotal.trans hleaving.total
      · exact hleaving.total
    · rcases Receiver.perform_cases hp with ⟨-, -, -, hreceived, -, -, hleft⟩ | ⟨hpc, -, rfl⟩
      · intro hl
        rw [hreceived]
        exact (hleft hl).elim hleaving.all (hleaving.total ▸ id)
      · exact nofun
  · exact ⟨⟨hleaving.address, nofun, hleaving.total, hleaving.all⟩, fun hd => absurd hd hgoing⟩
  · refine ⟨⟨hleaving.address, ?_, hleaving.total, hleaving.all⟩, fun hd => absurd hd hgoing⟩
    rintro _ pc - hpc
    obtain rfl := Call.link.inj hpc
    rfl
  · exact ⟨⟨hleaving.address, nofun, hleaving.total, hleaving.all⟩, fun hd => absurd hd hgoing⟩
  · obtain ⟨-, -, rfl⟩ := act_transfer hact
    exact ⟨⟨nofun, nofun, hleaving.total, nofun⟩, nofun⟩
  · refine ⟨⟨hleaving.address, ?_, hleaving.total, hleaving.all⟩, fun hd => absurd hd hgoing⟩
    intro IP' pc₁ hpc hpc₁
    obtain rfl := Call.link.inj hpc₁
    rcases act_link hact with ⟨hpc', -⟩ | ⟨hpc', rfl, -⟩
    · rw [hpc] at hpc'
      cases hpc'
    · obtain rfl := hleaving.address IP hpc'
      rcases LinkPc.step_onLeaving (hleaving.onLeaving _ pc hpc' hcall) hactive with
        ⟨pc', hgo, hon⟩ | ⟨net', hend, -⟩
      · rw [hgo] at hstep
        cases hstep
        exact hon
      · rw [hend] at hstep
        cases hstep
  · rcases act_link hact with ⟨-, -, rfl⟩ | ⟨hpc', rfl, rfl⟩
    · exact ⟨⟨nofun, nofun, hleaving.total, nofun⟩, nofun⟩
    · refine ⟨⟨nofun, nofun, hleaving.total, fun _ => hleaving.all (by rw [hpc']; rfl)⟩,
        fun _ => ?_⟩
      obtain rfl := hleaving.address IP hpc'
      rcases LinkPc.step_onLeaving (hleaving.onLeaving _ pc hpc' hcall) hactive with
        ⟨pc', hgo, -⟩ | ⟨net', hend, hstatus⟩
      · rw [hgo] at hstep
        cases hstep
      · rw [hend] at hstep
        cases hstep
        exact hstatus

namespace Locks

section Program

variable [Add M] [Sub M] {s s' : State M maxNbPackets}

/-! ## Nothing happens before the sender connects -/

/-- No packet has entered a buffer, and nobody is about to call. -/
structure Quiet (s : State M maxNbPackets) : Prop where
  empty : ∀ side, (s.net.buffer side).status = .empty
  calling : ∀ d, s.calling d = none
  completed : ∀ d, s.completed d = 0

/-- A step that leaves the sender unconnected leaves the buffers quiet. -/
theorem Quiet.step {t : Thread} (hq : Quiet s) (hstep : step t s = some s')
    (hearly : s'.sender.state.pc.early) : Quiet s' := by
  cases step_effect hstep with
  | waits hbuffer hcount hcalling =>
      refine ⟨fun side => ?_, fun d => ?_, fun d => ?_⟩
      · rw [hbuffer]
        exact hq.empty side
      · by_contra hcall
        rcases hcalling d with hsame | ⟨-, -, hstatus⟩
        · exact hcall (hsame.trans (hq.calling d))
        · have hempty := hq.empty d.side
          cases d with
          | transferIn => exact hstatus hempty
          | receive => exact hstatus hempty
          | send =>
              obtain ⟨packet, k, hact⟩ := Act.exists_of_calling hcall
              obtain ⟨hpc, -⟩ := Sender.act_transfer hact
              rw [hpc] at hearly
              cases hearly
          | transferOut =>
              obtain ⟨packet, k, hact⟩ := Act.exists_of_calling hcall
              rcases ServerThread.act_transfer hact with ⟨-, hd, -⟩ | ⟨hpc, -, -⟩
              · cases hd
              · have hzero : s'.completed .transferIn = 0 := by
                  rw [hcount]
                  exact hq.completed _
                simp [State.completed, ServerThread.completed, ServerThread.holding, hpc] at hzero
      · rw [hcount]
        exact hq.completed d
  | @moves d pc pc' packet packet' b _ hpc _ _ _ _ =>
      rw [hq.calling d] at hpc
      cases hpc
  | @completes d pc packet packet' b _ hpc _ _ _ _ =>
      rw [hq.calling d] at hpc
      cases hpc

/-! ## The disconnect -/

/-- What the program keeps to, for `n` transactions. -/
structure Goodbye (n : Nat) (s : State M maxNbPackets) : Prop where
  distinct : s.net.clientIP ≠ s.net.serverIP
  active : s.net.networkStatus = .active
  server : ServerAsks s.net.serverIP s.server
  receiver : Leaving s.net.clientIP n s.receiver
  waiting : s.main.state = .joining ∨ s.receiver.state.pc = .awaitNetwork
  early : s.sender.state.pc.early → Quiet s
  gone : s.receiver.state.pc = .done → s.net.clientConnectionStatus = .disconnected

/-- The addresses and the network's status stay, and the rest is kept to. -/
theorem Goodbye.of_constants {n : Nat} (hG : Goodbye n s)
    (hconstants : s'.net.clientIP = s.net.clientIP ∧ s'.net.serverIP = s.net.serverIP ∧
      s'.net.networkStatus = s.net.networkStatus)
    (hserver : ServerAsks s.net.serverIP s'.server)
    (hreceiver : Leaving s.net.clientIP n s'.receiver)
    (hwaiting : s'.main.state = .joining ∨ s'.receiver.state.pc = .awaitNetwork)
    (hearly : s'.sender.state.pc.early → Quiet s')
    (hgone : s'.receiver.state.pc = .done → s'.net.clientConnectionStatus = .disconnected) :
    Goodbye n s' := by
  rcases hconstants with ⟨hclientIP, hserverIP, hstatus⟩
  refine ⟨?_, hstatus.trans hG.active, ?_, ?_, hwaiting, hearly, hgone⟩
  · rw [hclientIP, hserverIP]
    exact hG.distinct
  · rw [hserverIP]
    exact hserver
  · rw [hclientIP]
    exact hreceiver

/-- With a transaction at least, every step keeps to it. -/
theorem Goodbye.step {n : Nat} (hn : 0 < n) {t : Thread} (hG : Goodbye n s)
    (hstep : Locks.step t s = some s') : Goodbye n s' := by
  have hquiet : s'.sender.state.pc.early → s.sender.state.pc.early → Quiet s' :=
    fun hearly' hearly => (hG.early hearly).step hstep hearly'
  obtain ⟨hstarted, hstep⟩ := step_cases hstep
  rcases hstep with ⟨net, m, rfl, hp, rfl⟩ | ⟨net, w, rfl, hp, rfl⟩ | ⟨net, v, rfl, hp, rfl⟩ |
    ⟨net, c, rfl, hp, rfl⟩ | ⟨net, c, rfl, hp, rfl⟩
  · -- `main` is not at its end, so the receiver has not begun
    have hwaits : s.receiver.state.pc = .awaitNetwork := by
      rcases hG.waiting with hmain | hwaits
      · rw [hmain] at hp
        cases hcall : s.main.call <;> rw [hcall] at hp <;> cases hp
      · exact hwaits
    refine hG.of_constants (Act.access_constants hp) hG.server hG.receiver (.inr hwaits)
      (fun he => hquiet he he) ?_
    intro hd
    rw [hwaits] at hd
    cases hd
  · refine hG.of_constants (Act.access_constants hp) hG.server hG.receiver hG.waiting
      (fun he => hquiet he he) ?_
    intro hd
    rcases Act.access_status hp with hsame | ⟨-, d, IP, k, hact⟩
    · exact hsame.trans (hG.gone hd)
    · cases hw : s.network.state <;> rw [hw] at hact <;> cases hact
  · obtain ⟨hasks, hsame⟩ := ServerThread.access_asks hG.server hG.distinct hp
    exact hG.of_constants (Act.access_constants hp) hasks hG.receiver hG.waiting
      (fun he => hquiet he he) (fun hd => hsame.trans (hG.gone hd))
  · obtain ⟨honce, hwrites⟩ := Sender.access_early hp
    refine hG.of_constants (Act.access_constants hp) hG.server hG.receiver hG.waiting
      (fun he => hquiet he (honce he)) ?_
    intro hd
    rcases hwrites with hsame | hearly
    · exact hsame.trans (hG.gone hd)
    · -- the receiver has a packet, so the sender is not early any more
      have hall := hG.receiver.all (by rw [hd]; rfl)
      have hzero : s.receiver.state.received.length = 0 := (hG.early hearly).completed .receive
      omega
  · obtain ⟨hleaving, hdone⟩ := Receiver.access_leaving hG.receiver hG.active hp
    have hmain : s.main.state = .joining := by
      have hstage : 8 ≤ s.main.state.stage := hstarted
      cases hm : s.main.state with
      | joining => rfl
      | _ =>
          rw [hm] at hstage
          simp [MainPc.stage] at hstage
    exact hG.of_constants (Act.access_constants hp) hG.server hleaving (.inl hmain)
      (fun he => hquiet he he) hdone

variable [Zero M]

theorem init_goodbye (h : 0 < maxNbPackets) (tbl : AccountsTable M) (txs : List (Transactions M)) :
    Goodbye txs.length (State.init h tbl txs) where
  distinct := by
    show "192.168.2.0" ≠ "216.120.40.10"
    decide
  active := rfl
  server := ⟨fun IP hIP => (by rcases hIP with hIP | hIP <;> cases hIP), nofun⟩
  receiver := ⟨nofun, nofun, rfl, nofun⟩
  waiting := .inr rfl
  early := fun _ => ⟨fun side => by cases side <;> rfl, fun d => by cases d <;> rfl,
    fun d => by cases d <;> rfl⟩
  gone := nofun

/-- The loops that wait for the client's disconnection can be left: the tests of
`Server.processTransactions` and that of `Network.run` lead on. -/
structure Released (s : State M maxNbPackets) : Prop where
  outerLoop : s.server.state.pc = .loopTest → s.server.call = .idle →
    ∃ s', step .server s = some s' ∧ s'.server.state.pc = .getIPToLeave
  innerLoop : s.server.state.pc = .pollConnection → s.server.call = .idle →
    ∃ s', step .server s = some s' ∧ s'.server.state.pc = .checkStatus
  networkLoop : s.network.state = .testClient → s.network.call = .idle →
    ∃ s', step .network s = some s' ∧ s'.network.state = .testServer

omit [Zero M] in
theorem released_of_disconnected (hmain : s.main.state = .joining)
    (hgone : s.net.clientConnectionStatus = .disconnected) : Released s := by
  have hfree : s.free .server = true := by
    refine free_of_idle fun u hu => .inr ?_
    cases u with
    | server => exact absurd rfl hu
    | main =>
        show s.main.state.object ≠ .server
        rw [hmain]
        nofun
    | _ => nofun
  have hfree' : s.free .network = true := by
    refine free_of_idle fun u hu => .inr ?_
    cases u with
    | network => exact absurd rfl hu
    | main =>
        show s.main.state.object ≠ .network
        rw [hmain]
        nofun
    | _ => nofun
  have hserver : s.main.state.started .server := by
    rw [hmain]
    decide
  have hnetwork : s.main.state.started .network := by
    rw [hmain]
    decide
  refine ⟨fun hpc hcall => ?_, fun hpc hcall => ?_, fun hpc hcall => ?_⟩
  · refine ⟨{ s with server := ⟨{ s.server.state with pc := .getIPToLeave }, .idle⟩ }, ?_, rfl⟩
    simp [step, hserver, ServerThread.act, hpc, hcall, Act.access, hfree, hgone]
  · refine ⟨{ s with server := ⟨{ s.server.state with pc := .checkStatus }, .idle⟩ }, ?_, rfl⟩
    simp [step, hserver, ServerThread.act, hpc, hcall, Act.access, hfree, hgone]
  · refine ⟨{ s with network := ⟨.testServer, .idle⟩ }, ?_, rfl⟩
    simp [step, hnetwork, NetworkPc.act, hpc, hcall, Act.access, hfree', hgone]

/-- After the receiving client's disconnect the client counts as disconnected, and
the loops that wait for it can be left, in every later state. -/
def DisconnectFinal (init : State M maxNbPackets) : Prop :=
  ∀ s s', Sched.Reaches step init s → s.receiver.state.pc = .done → Sched.Reaches step s s' →
    s'.net.clientConnectionStatus = .disconnected ∧ Released s'

theorem disconnectFinal_of_ne_nil {h : 0 < maxNbPackets} {tbl : AccountsTable M}
    {txs : List (Transactions M)} (htxs : txs ≠ []) :
    DisconnectFinal (State.init h tbl txs) := by
  intro s s' hs hdone hs'
  have hn : 0 < txs.length := List.length_pos_iff.mpr htxs
  have hG := hs.invariant (fun hG hstep => Goodbye.step hn hG hstep) (init_goodbye h tbl txs)
  have hkeeps : ∀ {t : Thread} {s s' : State M maxNbPackets},
      Goodbye txs.length s ∧ s.receiver.state.pc = .done → step t s = some s' →
      Goodbye txs.length s' ∧ s'.receiver.state.pc = .done := by
    rintro t s s' ⟨hG, hdone⟩ hstep
    refine ⟨hG.step hn hstep, ?_⟩
    obtain ⟨-, hstep⟩ := step_cases hstep
    rcases hstep with ⟨net, m, rfl, -, rfl⟩ | ⟨net, w, rfl, -, rfl⟩ | ⟨net, v, rfl, -, rfl⟩ |
      ⟨net, c, rfl, -, rfl⟩ | ⟨net, c, rfl, hp, rfl⟩
    · exact hdone
    · exact hdone
    · exact hdone
    · exact hdone
    · simp only [Receiver.act, hdone] at hp
      cases hcall : s.receiver.call <;> rw [hcall] at hp <;> cases hp
  obtain ⟨hG', hdone'⟩ := hs'.invariant hkeeps ⟨hG, hdone⟩
  have hgone := hG'.gone hdone'
  rcases hG'.waiting with hmain | hwaits
  · exact ⟨hgone, released_of_disconnected hmain hgone⟩
  · rw [hdone'] at hwaits
    cases hwaits

/-- Without transactions the receiver can be through before the sender connects,
whose `connect` then overwrites the disconnection. -/
theorem not_disconnectFinal_nil (h : 0 < maxNbPackets) (tbl : AccountsTable M) :
    ¬ DisconnectFinal (State.init h tbl []) := by
  intro hfinal
  have hrun : ∃ a : Bank.State M maxNbPackets, Sched.run Bank.step
      (List.replicate 8 .main ++ List.replicate 6 .receiver) (Bank.State.init h tbl []) = some a ∧
      a.receiver.pc = .done ∧
      ∃ b : Bank.State M maxNbPackets, Sched.run Bank.step (List.replicate 3 .sender) a = some b ∧
        b.net.clientConnectionStatus = .connected := ⟨_, rfl, rfl, _, rfl, rfl⟩
  obtain ⟨a, ha, hdone, b, hb, hconnected⟩ := hrun
  have hlate := (hfinal (.rest a) (.rest b) (reaches_of_atomic (Sched.reaches_of_run ha)) hdone
    (reaches_of_atomic (Sched.reaches_of_run hb))).1
  have hconnected' : (State.rest b).net.clientConnectionStatus = .connected := hconnected
  rw [hconnected'] at hlate
  cases hlate

/-- A disconnect is final exactly when there is a transaction. -/
theorem disconnectFinal_iff (h : 0 < maxNbPackets) (tbl : AccountsTable M)
    (txs : List (Transactions M)) : DisconnectFinal (State.init h tbl txs) ↔ txs ≠ [] := by
  constructor
  · rintro hfinal rfl
    exact not_disconnectFinal_nil h tbl hfinal
  · exact disconnectFinal_of_ne_nil

/-- One deposit is enough. -/
theorem disconnectFinal_iff_oneDeposit :
    DisconnectFinal (State.init (show 0 < 10 by decide) firstAccount [firstTransaction]) :=
  (disconnectFinal_iff (by decide) firstAccount [firstTransaction]).mpr (List.cons_ne_nil _ _)

/-- With an empty transactions file it is not final. -/
theorem not_disconnectFinal_empty :
    ¬ DisconnectFinal (State.init (show 0 < 10 by decide) firstAccount []) :=
  not_disconnectFinal_nil (by decide) firstAccount

end Program

end Locks
end Smoll.Bank
