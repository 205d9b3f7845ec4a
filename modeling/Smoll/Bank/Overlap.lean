/-
# `Smoll.Bank.Overlap` — what the locks do not exclude

"Static means it is all shared", says `Network`, and `synchronized` is there
to protect what is shared.  `Protected` is what protection would give: with
no call in progress the status of a buffer is exact, and no call starts on a
buffer that has no packet, or no room, for it.

A client's call and a server's call are on different objects, though, so
nothing keeps a caller from advancing its index while the other one is
between its own index write and its status write.  Where that does not happen
(`Apart`) every state is `Protected`; with one slot, or with one transaction
at most, it cannot happen; and with two slots and two transactions some run
ends in a state whose buffer holds a packet and is marked empty
(`protected_iff`).
-/
import Smoll.Bank.Settled
import Smoll.Bank.Delivery

namespace Smoll.Bank

open Transactions

variable {M : Type} {maxNbPackets : Nat}

/-! ## Where a thread is in its calls -/

/-- The access of the transfer `d` a thread is at, the start of the call being
`copy Field.all`. -/
def Act.calling {L : Type} : Act M maxNbPackets L → Call M maxNbPackets → Transfer →
    Option (TransferPc maxNbPackets)
  | .transfer d' _ _, call, d =>
      if d' = d then
        match call with
        | .transfer pc _ => some pc
        | _ => some (.copy Field.all)
      else none
  | _, _, _ => none

/-- The transfers a thread's automaton makes: `count l d` of kind `d` are
completed in state `l`.  It comes to a call only past a status that is not
the one against it, a completed call is counted and followed by something
else, and nothing else counts. -/
structure Calls {L : Type} (act : L → Act M maxNbPackets L) (count : L → Transfer → Nat) : Prop where
  wait : ∀ {net net' l l'}, (act l).perform net = some (net', l') →
    (∀ d packet k, act l ≠ .transfer d packet k) → (∀ d IP k, act l ≠ .link d IP k) →
    count l' = count l ∧ ∀ d packet k, act l' = .transfer d packet k →
      (net.buffer d.side).status ≠ d.role.atMeet
  transfer : ∀ {l d packet k}, act l = .transfer d packet k → ∀ packet',
    count (k packet') = Function.update (count l) d (count l d + 1) ∧
      ∀ d' p k', act (k packet') ≠ .transfer d' p k'
  link : ∀ {l d IP k}, act l = .link d IP k → ∀ ok,
    count (k ok) = count l ∧ ∀ d' p k', act (k ok) ≠ .transfer d' p k'

theorem Act.calling_eq_none {L : Type} {a : Act M maxNbPackets L}
    (h : ∀ d packet k, a ≠ .transfer d packet k) (call : Call M maxNbPackets) (d : Transfer) :
    a.calling call d = none := by
  cases a with
  | transfer d' packet k => exact absurd rfl (h d' packet k)
  | _ => rfl

theorem Act.exists_of_calling {L : Type} {a : Act M maxNbPackets L} {call : Call M maxNbPackets}
    {d : Transfer} (h : a.calling call d ≠ none) : ∃ packet k, a = .transfer d packet k := by
  cases a with
  | transfer d' packet k =>
      rcases Decidable.em (d' = d) with rfl | hne
      · exact ⟨packet, k, rfl⟩
      · exact absurd (if_neg hne) h
  | _ => exact absurd rfl h

theorem LinkPc.step_buffer (pc : LinkPc) (d : Link) (IP : String) (net : Network M maxNbPackets)
    (side : Side) : (pc.step d IP net).2.buffer side = net.buffer side := by
  cases pc <;> cases d <;> simp only [LinkPc.step] <;> (try split) <;> cases side <;> rfl

/-- The effect of one step on the buffers and their callers, of which the step is
one of those in `own`. -/
inductive Effect (own : Transfer → Prop) (buffer buffer' : Side → Buffer M maxNbPackets)
    (calling calling' : Transfer → Option (TransferPc maxNbPackets))
    (count count' : Transfer → Nat) : Prop
  | waits : buffer' = buffer → count' = count →
      (∀ d, calling' d = calling d ∨ (calling d = none ∧ calling' d = some (.copy Field.all) ∧
        (buffer d.side).status ≠ d.role.atMeet)) →
      Effect own buffer buffer' calling calling' count count'
  | moves {d pc pc' packet packet' b} : own d → calling d = some pc →
      TransferPc.step d (buffer d.side) packet pc = (some pc', packet', b) →
      buffer' = Function.update buffer d.side b → count' = count →
      calling' = Function.update calling d (some pc') →
      Effect own buffer buffer' calling calling' count count'
  | completes {d pc packet packet' b} : own d → calling d = some pc →
      TransferPc.step d (buffer d.side) packet pc = (none, packet', b) →
      buffer' = Function.update buffer d.side b →
      count' = Function.update count d (count d + 1) →
      calling' = Function.update calling d none →
      Effect own buffer buffer' calling calling' count count'

theorem Network.buffer_setBuffer_eq_update (net : Network M maxNbPackets)
    (b : Buffer M maxNbPackets) (side : Side) :
    (net.setBuffer b side).buffer = Function.update net.buffer side b := by
  funext q
  cases side <;> cases q <;> rfl

/-- One access of a thread, seen from the buffers. -/
theorem Calls.effect {L : Type} {act : L → Act M maxNbPackets L} {count : L → Transfer → Nat}
    (hC : Calls act count) {free : Bool} {net net' : Network M maxNbPackets} {l : L}
    {call : Call M maxNbPackets} {t : Task M maxNbPackets L}
    (h : (act l).access free net l call = some (net', t)) :
    Effect (fun _ => True) net.buffer net'.buffer ((act l).calling call) ((act t.state).calling t.call)
      (count l) (count t.state) := by
  rcases Act.access_cases h with ⟨⟨l', hp, rfl⟩, rfl, rfl, htransfer, hlink⟩ |
    ⟨d, packet, k, hact, rfl, rfl, rfl⟩ | ⟨d, IP, k, hact, rfl, rfl, rfl⟩ |
    ⟨d, packet₀, k, pc, packet, pc', packet', b, hact, rfl, hstep, rfl, rfl⟩ |
    ⟨d, packet₀, k, pc, packet, packet', b, hact, rfl, hstep, rfl, rfl⟩ |
    ⟨d, IP, k, pc, pc', hact, rfl, hstep, rfl⟩ | ⟨d, IP, k, pc, ok, hact, rfl, hstep, rfl⟩
  · obtain ⟨hcount, hstatus⟩ := hC.wait hp htransfer hlink
    refine .waits rfl hcount fun d => ?_
    rw [Act.calling_eq_none htransfer]
    cases hact : act l' with
    | transfer d' packet k =>
        rcases Decidable.em (d' = d) with rfl | hne
        · exact .inr ⟨rfl, by simp [Act.calling], hstatus _ packet k hact⟩
        · exact .inl (by simp [Act.calling, hne])
    | _ => exact .inl rfl
  · refine .waits rfl rfl fun d' => .inl ?_
    simp [hact, Act.calling]
  · refine .waits rfl rfl fun d' => .inl ?_
    simp [hact, Act.calling]
  · refine .moves (d := d) trivial (by simp [hact, Act.calling]) hstep
      (net.buffer_setBuffer_eq_update b d.side) rfl ?_
    funext d'
    rcases Decidable.em (d' = d) with rfl | hne
    · simp [hact, Act.calling]
    · simp [hact, Act.calling, hne, Ne.symm hne]
  · obtain ⟨hcount, hnone⟩ := hC.transfer hact packet'
    refine .completes (d := d) trivial (by simp [hact, Act.calling]) hstep
      (net.buffer_setBuffer_eq_update b d.side) hcount ?_
    funext d'
    rw [Act.calling_eq_none hnone]
    rcases Decidable.em (d' = d) with rfl | hne
    · simp
    · simp [hact, Act.calling, hne, Ne.symm hne]
  · have hbuffer : net'.buffer = net.buffer := by
      funext side
      have hsame := pc.step_buffer d IP net side
      rwa [hstep] at hsame
    refine .waits hbuffer rfl fun d' => .inl ?_
    simp [hact, Act.calling]
  · have hbuffer : net'.buffer = net.buffer := by
      funext side
      have hsame := pc.step_buffer d IP net side
      rwa [hstep] at hsame
    obtain ⟨hcount, hnone⟩ := hC.link hact ok
    refine .waits hbuffer hcount fun d' => .inl ?_
    rw [Act.calling_eq_none hnone]
    simp [hact, Act.calling]

/-! ## The calls of each thread -/

/-- Completed sends. -/
def Sender.completed (c : Sender M) : Transfer → Nat
  | .send => c.sent.length
  | _ => 0

/-- Completed receives. -/
def Receiver.completed (c : Receiver M) : Transfer → Nat
  | .receive => c.received.length
  | _ => 0

/-- Packets taken in and transferred out. -/
def ServerThread.completed (v : ServerThread M) : Transfer → Nat
  | .transferIn => v.served + v.holding.length
  | .transferOut => v.served
  | _ => 0

theorem Sender.act_transfer {c : Sender M} {d : Transfer} {packet : Transactions M}
    {k : Transactions M → Sender M} (h : (c.act : Act M maxNbPackets _) = .transfer d packet k) :
    c.pc = .send ∧ d = .send ∧ ∃ t rest, c.unsent = t :: rest ∧
      k = fun t' => { pc := .loopTest, sent := c.sent ++ [t'], unsent := rest } := by
  obtain ⟨pc, sent, unsent⟩ := c
  cases pc with
  | send =>
      cases unsent with
      | nil => cases h
      | cons t rest =>
          cases h
          exact ⟨rfl, rfl, t, rest, rfl, rfl⟩
  | loopTest => cases unsent <;> cases h
  | _ => cases h

theorem Sender.act_link {c : Sender M} {d : Link} {IP : String} {k : Bool → Sender M}
    (h : (c.act : Act M maxNbPackets _) = .link d IP k) :
    c.pc = .connect IP ∧ d = .connect ∧ k = fun _ => { c with pc := .loopTest } := by
  obtain ⟨pc, sent, unsent⟩ := c
  cases pc with
  | connect IP' =>
      cases h
      exact ⟨rfl, rfl, rfl⟩
  | send => cases unsent <;> cases h
  | loopTest => cases unsent <;> cases h
  | _ => cases h

theorem Sender.calls :
    Calls (M := M) (Sender.act : _ → Act M maxNbPackets _) Sender.completed where
  wait := by
    intro net net' c c' h htransfer _
    rcases Sender.perform_cases h with ⟨-, -, -, hsent, -, hroom, -⟩ |
      ⟨t, rest, hpc, hunsent, -, -⟩
    · refine ⟨?_, ?_⟩
      · funext d
        cases d <;> simp [completed, hsent]
      · intro d packet k hact
        obtain ⟨hpc, rfl, -⟩ := act_transfer hact
        exact hroom hpc
    · have hact : (c.act : Act M maxNbPackets _)
          = .transfer .send (t.setTransactionStatus "sent") fun t' =>
              { pc := .loopTest, sent := c.sent ++ [t'], unsent := rest } := by
        simp [Sender.act, hpc, hunsent]
      exact absurd hact (htransfer _ _ _)
  transfer := by
    intro c d packet k h packet'
    obtain ⟨-, rfl, t, rest, -, rfl⟩ := act_transfer h
    refine ⟨?_, ?_⟩
    · funext d
      cases d <;> simp [completed]
    · intro d' p k' hact
      obtain ⟨hpc, -⟩ := act_transfer hact
      cases hpc
  link := by
    intro c d IP k h ok
    obtain ⟨-, -, rfl⟩ := act_link h
    refine ⟨by funext d; cases d <;> rfl, ?_⟩
    intro d' p k' hact
    obtain ⟨hpc, -⟩ := act_transfer hact
    cases hpc

theorem Receiver.act_transfer {c : Receiver M} {d : Transfer} {packet : Transactions M}
    {k : Transactions M → Receiver M} (h : (c.act : Act M maxNbPackets _) = .transfer d packet k) :
    c.pc = .receive ∧ d = .receive ∧
      k = fun t => { c with pc := .loopTest, transact := t, received := c.received ++ [t] } := by
  obtain ⟨pc, transact, received, n⟩ := c
  cases pc with
  | receive =>
      cases h
      exact ⟨rfl, rfl, rfl⟩
  | loopTest =>
      simp only [act] at h
      split at h <;> cases h
  | _ => cases h

theorem Receiver.act_link {c : Receiver M} {d : Link} {IP : String} {k : Bool → Receiver M}
    (h : (c.act : Act M maxNbPackets _) = .link d IP k) :
    (c.pc = .connect IP ∧ d = .connect ∧ k = fun _ => { c with pc := .loopTest }) ∨
      (c.pc = .disconnect IP ∧ d = .disconnect ∧ k = fun _ => { c with pc := .done }) := by
  obtain ⟨pc, transact, received, n⟩ := c
  cases pc with
  | connect IP' =>
      cases h
      exact .inl ⟨rfl, rfl, rfl⟩
  | disconnect IP' =>
      cases h
      exact .inr ⟨rfl, rfl, rfl⟩
  | loopTest =>
      simp only [act] at h
      split at h <;> cases h
  | _ => cases h

theorem Receiver.calls :
    Calls (M := M) (Receiver.act : _ → Act M maxNbPackets _) Receiver.completed where
  wait := by
    intro net net' c c' h htransfer _
    rcases Receiver.perform_cases h with ⟨-, -, -, hreceived, -, hready, -⟩ | ⟨hpc, -, -⟩
    · refine ⟨?_, ?_⟩
      · funext d
        cases d <;> simp [completed, hreceived]
      · intro d packet k hact
        obtain ⟨hpc, rfl, -⟩ := act_transfer hact
        exact hready hpc
    · have hact : (c.act : Act M maxNbPackets _) = .transfer .receive c.transact fun t =>
          { c with pc := .loopTest, transact := t, received := c.received ++ [t] } := by
        simp [Receiver.act, hpc]
      exact absurd hact (htransfer _ _ _)
  transfer := by
    intro c d packet k h packet'
    obtain ⟨-, rfl, rfl⟩ := act_transfer h
    refine ⟨?_, ?_⟩
    · funext d
      cases d <;> simp [completed]
    · intro d' p k' hact
      obtain ⟨hpc, -⟩ := act_transfer hact
      cases hpc
  link := by
    intro c d IP k h ok
    refine ⟨?_, ?_⟩
    · rcases act_link h with ⟨-, -, rfl⟩ | ⟨-, -, rfl⟩ <;> funext d <;> cases d <;> rfl
    · intro d' p k' hact
      obtain ⟨hpc, -⟩ := act_transfer hact
      rcases act_link h with ⟨-, -, rfl⟩ | ⟨-, -, rfl⟩ <;> cases hpc

section Server

variable [Add M] [Sub M]

theorem ServerThread.act_transfer {v : ServerThread M} {d : Transfer} {packet : Transactions M}
    {k : Transactions M → ServerThread M}
    (h : (v.act : Act M maxNbPackets _) = .transfer d packet k) :
    (v.pc = .transferIn ∧ d = .transferIn ∧ k = fun t => { v with pc := .process, trans := t }) ∨
      (v.pc = .transferOut ∧ d = .transferOut ∧
        k = fun t => { v with pc := .count, trans := t }) := by
  obtain ⟨pc, trans, table, n⟩ := v
  cases pc with
  | transferIn =>
      cases h
      exact .inl ⟨rfl, rfl, rfl⟩
  | transferOut =>
      cases h
      exact .inr ⟨rfl, rfl, rfl⟩
  | process =>
      simp only [act] at h
      split at h <;> cases h
  | _ => cases h

theorem ServerThread.act_link {v : ServerThread M} {d : Link} {IP : String}
    {k : Bool → ServerThread M} (h : (v.act : Act M maxNbPackets _) = .link d IP k) :
    (v.pc = .connect IP ∧ d = .connect ∧ k = fun _ => { v with pc := .loopTest }) ∨
      (v.pc = .disconnect IP ∧ d = .disconnect ∧ k = fun _ => { v with pc := .done }) := by
  obtain ⟨pc, trans, table, n⟩ := v
  cases pc with
  | connect IP' =>
      cases h
      exact .inl ⟨rfl, rfl, rfl⟩
  | disconnect IP' =>
      cases h
      exact .inr ⟨rfl, rfl, rfl⟩
  | process =>
      simp only [act] at h
      split at h <;> cases h
  | _ => cases h

theorem ServerThread.calls :
    Calls (M := M) (ServerThread.act : _ → Act M maxNbPackets _) ServerThread.completed where
  wait := by
    intro net net' v v' h htransfer _
    rcases ServerThread.perform_cases h with
      ⟨-, -, -, -, -, -, -, hholding, -, -, hserved, htake, hput, -⟩ | ⟨hpc, -⟩ |
      ⟨t, tbl, hpc, -, -, rfl⟩ | ⟨e, hpc, -, -, rfl⟩ | ⟨hpc, -⟩
    · refine ⟨?_, ?_⟩
      · funext d
        cases d <;> simp [completed, hholding, hserved]
      · intro d packet k hact
        rcases act_transfer hact with ⟨hpc, rfl, -⟩ | ⟨hpc, rfl, -⟩
        · exact htake hpc
        · exact hput hpc
    · have hact : (v.act : Act M maxNbPackets _) = .transfer .transferIn v.trans fun t =>
          { v with pc := .process, trans := t } := by
        simp [ServerThread.act, hpc]
      exact absurd hact (htransfer _ _ _)
    · refine ⟨?_, ?_⟩
      · funext d
        cases d <;> simp [completed, holding, served, hpc]
      · intro d packet k hact
        rcases act_transfer hact with ⟨hpc', -⟩ | ⟨hpc', -⟩ <;> cases hpc'
    · refine ⟨?_, ?_⟩
      · funext d
        cases d <;> simp [completed, holding, served, hpc]
      · intro d packet k hact
        rcases act_transfer hact with ⟨hpc', -⟩ | ⟨hpc', -⟩ <;> cases hpc'
    · have hact : (v.act : Act M maxNbPackets _) = .transfer .transferOut v.trans fun t =>
          { v with pc := .count, trans := t } := by
        simp [ServerThread.act, hpc]
      exact absurd hact (htransfer _ _ _)
  transfer := by
    intro v d packet k h packet'
    rcases act_transfer h with ⟨hpc, rfl, rfl⟩ | ⟨hpc, rfl, rfl⟩
    · refine ⟨?_, ?_⟩
      · funext d
        cases d <;> simp [completed, holding, served, hpc]
      · intro d' p k' hact
        rcases act_transfer hact with ⟨hpc', -⟩ | ⟨hpc', -⟩ <;> cases hpc'
    · refine ⟨?_, ?_⟩
      · funext d
        cases d <;> simp [completed, holding, served, hpc]
      · intro d' p k' hact
        rcases act_transfer hact with ⟨hpc', -⟩ | ⟨hpc', -⟩ <;> cases hpc'
  link := by
    intro v d IP k h ok
    refine ⟨?_, ?_⟩
    · rcases act_link h with ⟨hpc, -, rfl⟩ | ⟨hpc, -, rfl⟩ <;> funext d <;> cases d <;>
        simp [completed, holding, served, hpc]
    · intro d' p k' hact
      rcases act_link h with ⟨-, -, rfl⟩ | ⟨-, -, rfl⟩ <;>
        rcases act_transfer hact with ⟨hpc', -⟩ | ⟨hpc', -⟩ <;> cases hpc'

end Server

/-- `main` makes no transfers. -/
theorem MainPc.act_ne_transfer (m : MainPc) (d : Transfer) (packet : Transactions M)
    (k : Transactions M → MainPc) : (m.act : Act M maxNbPackets _) ≠ .transfer d packet k := by
  cases m <;> nofun

/-- Nor does the network thread. -/
theorem NetworkPc.act_ne_transfer (w : NetworkPc) (d : Transfer) (packet : Transactions M)
    (k : Transactions M → NetworkPc) : (w.act : Act M maxNbPackets _) ≠ .transfer d packet k := by
  cases w <;> nofun

theorem MainPc.calls : Calls (M := M) (MainPc.act : _ → Act M maxNbPackets _) (fun _ _ => 0) where
  wait := fun _ _ _ => ⟨rfl, fun d packet k h => absurd h (act_ne_transfer _ d packet k)⟩
  transfer := fun h => absurd h (act_ne_transfer _ _ _ _)
  link := fun _ _ => ⟨rfl, act_ne_transfer _⟩

theorem NetworkPc.calls :
    Calls (M := M) (NetworkPc.act : _ → Act M maxNbPackets _) (fun _ _ => 0) where
  wait := fun _ _ _ => ⟨rfl, fun d packet k h => absurd h (act_ne_transfer _ d packet k)⟩
  transfer := fun h => absurd h (act_ne_transfer _ _ _ _)
  link := fun _ _ => ⟨rfl, act_ne_transfer _⟩

/-! ## The buffers and their callers in the program -/

/-- What a thread's own step does is what happens in the program. -/
theorem Effect.lift {t : Thread} {buffer buffer' : Side → Buffer M maxNbPackets}
    {calling calling' calls calls' : Transfer → Option (TransferPc maxNbPackets)}
    {count count' counts counts' : Transfer → Nat}
    (h : Effect (fun _ => True) buffer buffer' calling calling' count count')
    (hin : ∀ d : Transfer, d.thread = t → calls d = calling d ∧ calls' d = calling' d ∧
      counts d = count d ∧ counts' d = count' d)
    (hout : ∀ d : Transfer, d.thread ≠ t → calling d = none ∧ calls' d = calls d ∧
      counts' d = counts d) :
    Effect (fun d => d.thread = t) buffer buffer' calls calls' counts counts' := by
  have hmine : ∀ {d pc}, calling d = some pc → d.thread = t := by
    intro d pc hpc
    by_contra hne
    rw [(hout d hne).1] at hpc
    cases hpc
  cases h with
  | waits hbuffer hcount hcalling =>
      refine .waits hbuffer ?_ ?_
      · funext d
        rcases Decidable.em (d.thread = t) with hd | hd
        · obtain ⟨-, -, hn, hn'⟩ := hin d hd
          rw [hn, hn', hcount]
        · exact (hout d hd).2.2
      · intro d
        rcases Decidable.em (d.thread = t) with hd | hd
        · obtain ⟨hc, hc', -, -⟩ := hin d hd
          rw [hc, hc']
          exact hcalling d
        · exact .inl (hout d hd).2.1
  | @moves d pc pc' packet packet' b _ hpc hstep hbuffer hcount hcalling =>
      have hd := hmine hpc
      refine .moves hd ((hin d hd).1.trans hpc) hstep hbuffer ?_ ?_
      · funext d'
        rcases Decidable.em (d'.thread = t) with hd' | hd'
        · obtain ⟨-, -, hn, hn'⟩ := hin d' hd'
          rw [hn, hn', hcount]
        · exact (hout d' hd').2.2
      · funext d'
        rcases Decidable.em (d'.thread = t) with hd' | hd'
        · obtain ⟨hc, hc', -, -⟩ := hin d' hd'
          simp only [hc', hcalling, Function.update_apply, hc]
        · have hne : d' ≠ d := fun heq => hd' (heq ▸ hd)
          simp only [(hout d' hd').2.1, Function.update_of_ne hne]
  | @completes d pc packet packet' b _ hpc hstep hbuffer hcount hcalling =>
      have hd := hmine hpc
      refine .completes hd ((hin d hd).1.trans hpc) hstep hbuffer ?_ ?_
      · funext d'
        rcases Decidable.em (d'.thread = t) with hd' | hd'
        · obtain ⟨-, -, hn, hn'⟩ := hin d' hd'
          obtain ⟨-, -, hd₁, -⟩ := hin d hd
          simp only [hn', hcount, Function.update_apply, hn, hd₁]
        · have hne : d' ≠ d := fun heq => hd' (heq ▸ hd)
          simp only [(hout d' hd').2.2, Function.update_of_ne hne]
      · funext d'
        rcases Decidable.em (d'.thread = t) with hd' | hd'
        · obtain ⟨hc, hc', -, -⟩ := hin d' hd'
          simp only [hc', hcalling, Function.update_apply, hc]
        · have hne : d' ≠ d := fun heq => hd' (heq ▸ hd)
          simp only [(hout d' hd').2.1, Function.update_of_ne hne]

namespace Locks

section Program

variable [Add M] [Sub M] {s s' : State M maxNbPackets}

/-- The access of a transfer its thread is at. -/
def State.calling (s : State M maxNbPackets) : Transfer → Option (TransferPc maxNbPackets)
  | .send => s.sender.state.act.calling s.sender.call .send
  | .receive => s.receiver.state.act.calling s.receiver.call .receive
  | .transferIn => s.server.state.act.calling s.server.call .transferIn
  | .transferOut => s.server.state.act.calling s.server.call .transferOut

/-- How many calls of a transfer are completed. -/
def State.completed (s : State M maxNbPackets) : Transfer → Nat
  | .send => s.sender.state.completed .send
  | .receive => s.receiver.state.completed .receive
  | .transferIn => s.server.state.completed .transferIn
  | .transferOut => s.server.state.completed .transferOut

omit [Add M] [Sub M] in
/-- The transfers of the other threads are none of the sender's. -/
theorem Sender.calling_eq_none {c : Sender M} {call : Call M maxNbPackets} {d : Transfer}
    (hd : d.thread ≠ .sender) : (c.act : Act M maxNbPackets _).calling call d = none := by
  by_contra hcalling
  obtain ⟨packet, k, hact⟩ := Act.exists_of_calling hcalling
  obtain ⟨-, rfl, -⟩ := Sender.act_transfer hact
  exact hd rfl

omit [Add M] [Sub M] in
theorem Receiver.calling_eq_none {c : Receiver M} {call : Call M maxNbPackets} {d : Transfer}
    (hd : d.thread ≠ .receiver) : (c.act : Act M maxNbPackets _).calling call d = none := by
  by_contra hcalling
  obtain ⟨packet, k, hact⟩ := Act.exists_of_calling hcalling
  obtain ⟨-, rfl, -⟩ := Receiver.act_transfer hact
  exact hd rfl

theorem ServerThread.calling_eq_none {v : ServerThread M} {call : Call M maxNbPackets}
    {d : Transfer} (hd : d.thread ≠ .server) :
    (v.act : Act M maxNbPackets _).calling call d = none := by
  by_contra hcalling
  obtain ⟨packet, k, hact⟩ := Act.exists_of_calling hcalling
  rcases ServerThread.act_transfer hact with ⟨-, rfl, -⟩ | ⟨-, rfl, -⟩
  · exact hd rfl
  · exact hd rfl

/-- Every step makes one access of one call of its thread, or leaves buffers and
counts alone. -/
theorem step_effect {t : Thread} (h : step t s = some s') :
    Effect (fun d => d.thread = t) s.net.buffer s'.net.buffer s.calling s'.calling
      s.completed s'.completed := by
  obtain ⟨-, h⟩ := step_cases h
  rcases h with ⟨net, m, rfl, hp, rfl⟩ | ⟨net, w, rfl, hp, rfl⟩ | ⟨net, v, rfl, hp, rfl⟩ |
    ⟨net, c, rfl, hp, rfl⟩ | ⟨net, c, rfl, hp, rfl⟩
  · refine (MainPc.calls.effect hp).lift (fun d hd => ?_) (fun d _ => ?_)
    · cases d <;> cases hd
    · exact ⟨Act.calling_eq_none (MainPc.act_ne_transfer _) _ _, by cases d <;> rfl,
        by cases d <;> rfl⟩
  · refine (NetworkPc.calls.effect hp).lift (fun d hd => ?_) (fun d _ => ?_)
    · cases d <;> cases hd
    · exact ⟨Act.calling_eq_none (NetworkPc.act_ne_transfer _) _ _, by cases d <;> rfl,
        by cases d <;> rfl⟩
  · refine (ServerThread.calls.effect hp).lift (fun d hd => ?_) (fun d hd => ?_)
    · cases d with
      | send => cases hd
      | receive => cases hd
      | _ => exact ⟨rfl, rfl, rfl, rfl⟩
    · exact ⟨ServerThread.calling_eq_none hd, by cases d <;> first | rfl | exact absurd rfl hd,
        by cases d <;> first | rfl | exact absurd rfl hd⟩
  · refine (Sender.calls.effect hp).lift (fun d hd => ?_) (fun d hd => ?_)
    · cases d with
      | send => exact ⟨rfl, rfl, rfl, rfl⟩
      | _ => cases hd
    · exact ⟨Sender.calling_eq_none hd, by cases d <;> first | rfl | exact absurd rfl hd,
        by cases d <;> first | rfl | exact absurd rfl hd⟩
  · refine (Receiver.calls.effect hp).lift (fun d hd => ?_) (fun d hd => ?_)
    · cases d with
      | receive => exact ⟨rfl, rfl, rfl, rfl⟩
      | _ => cases hd
    · exact ⟨Receiver.calling_eq_none hd, by cases d <;> first | rfl | exact absurd rfl hd,
        by cases d <;> first | rfl | exact absurd rfl hd⟩

/-- A buffer of the program with its two callers. -/
def State.ends (s : State M maxNbPackets) (side : Side) : Ends M maxNbPackets where
  buffer := s.net.buffer side
  party := fun r => s.calling (.ofSide side r)
  count := fun r => s.completed (.ofSide side r)

/-! ## Statuses stay exact while the callers are apart -/

/-- The thread is not about to advance the index of a buffer whose other caller
is between its own index write and its status write. -/
def Apart (t : Thread) (s : State M maxNbPackets) : Prop :=
  ∀ (d : Transfer) (i : Fin maxNbPackets), d.thread = t → s.calling d = some (.writeIndex i) →
    ahead (s.calling d.peer) = 0

omit [Add M] [Sub M] in
/-- One caller waiting on, or coming to its call. -/
theorem settled_wait {origin : Fin maxNbPackets} {e e' : Ends M maxNbPackets} (r : Role)
    (hS : Settled origin e)
    (h : e'.party r = e.party r ∨ (e.party r = none ∧ e'.party r = some (.copy Field.all) ∧
      e.buffer.status ≠ r.atMeet))
    (hbuffer : e'.buffer = e.buffer) (hother : e'.party r.other = e.party r.other)
    (hcount : e'.count = e.count) : Settled origin e' := by
  rcases h with heq | ⟨hnone, hsome, hstatus⟩
  · have hparty : e'.party = e.party := by
      apply funext
      exact Role.forall_of r heq hother
    have he : e' = e := by
      cases e
      cases e'
      simp_all
    exact he ▸ hS
  · exact hS.enter hnone hstatus hbuffer hsome hother hcount

/-- A transfer leaves the buffer on the other side, and its callers. -/
theorem ends_of_ne {d : Transfer} {side : Side} (hside : side ≠ d.side)
    (hbuffer : s'.net.buffer side = s.net.buffer side)
    (hcalling : ∀ d', d' ≠ d → s'.calling d' = s.calling d')
    (hcount : ∀ d', d' ≠ d → s'.completed d' = s.completed d') : s'.ends side = s.ends side := by
  have hne : ∀ r, Transfer.ofSide side r ≠ d := by
    rintro r rfl
    exact hside (Transfer.side_ofSide side r).symm
  simp [State.ends, hbuffer, hcalling _ (hne _), hcount _ (hne _)]

/-- A step of a thread that is apart keeps both buffers settled. -/
theorem settled_step {origin : Fin maxNbPackets} {t : Thread} (hapart : Apart t s)
    (hstep : step t s = some s') (hS : ∀ side, Settled origin (s.ends side)) (side : Side) :
    Settled origin (s'.ends side) := by
  cases step_effect hstep with
  | waits hbuffer hcount hcalling =>
      have hb : s'.net.buffer side = s.net.buffer side := congrFun hbuffer side
      have hwait : ∀ r, s'.calling (.ofSide side r) = s.calling (.ofSide side r) ∨
          (s.calling (.ofSide side r) = none ∧
            s'.calling (.ofSide side r) = some (.copy Field.all) ∧
            (s.net.buffer side).status ≠ r.atMeet) := by
        intro r
        have hr := hcalling (.ofSide side r)
        rw [Transfer.side_ofSide] at hr
        cases side <;> cases r <;> exact hr
      -- the putter first, then the taker
      let e : Ends M maxNbPackets :=
        { s.ends side with party := fun r =>
            if r = .put then s'.calling (.ofSide side r) else s.calling (.ofSide side r) }
      have he : Settled origin e := settled_wait .put (hS side) (hwait .put) rfl rfl rfl
      exact settled_wait .take he (hwait .take) hb rfl (by simp only [State.ends, e, hcount])
  | @moves d pc pc' packet packet' b hd hpc hacc hbuffer hcount hcalling =>
      rcases Decidable.em (side = d.side) with rfl | hside
      · have hparty : (s.ends d.side).party d.role = some pc := by
          simpa only [State.ends, Transfer.ofSide_side_role] using hpc
        refine (hS d.side).access hparty hacc ?_ ?_ ?_ ?_ ?_
        · rintro i rfl
          simpa only [State.ends, Transfer.ofSide_side_other] using hapart d i hd hpc
        · simp [State.ends, hbuffer]
        · simp [State.ends, Transfer.ofSide_side_role, hcalling]
        · simp [State.ends, Transfer.ofSide_side_other, hcalling,
            Function.update_of_ne (Transfer.peer_ne d)]
        · simp [State.ends, hcount]
      · have hsame : s'.ends side = s.ends side := by
          refine ends_of_ne hside ?_ ?_ ?_
          · rw [hbuffer, Function.update_of_ne hside]
          · intro d' hd'
            rw [hcalling, Function.update_of_ne hd']
          · intro d' _
            rw [hcount]
        exact hsame ▸ hS side
  | @completes d pc packet packet' b hd hpc hacc hbuffer hcount hcalling =>
      rcases Decidable.em (side = d.side) with rfl | hside
      · have hparty : (s.ends d.side).party d.role = some pc := by
          simpa only [State.ends, Transfer.ofSide_side_role] using hpc
        refine (hS d.side).finish hparty hacc ?_ ?_ ?_ ?_ ?_
        · simp [State.ends, hbuffer]
        · simp [State.ends, Transfer.ofSide_side_role, hcalling]
        · simp [State.ends, Transfer.ofSide_side_other, hcalling,
            Function.update_of_ne (Transfer.peer_ne d)]
        · simp [State.ends, Transfer.ofSide_side_role, hcount]
        · simp [State.ends, Transfer.ofSide_side_other, hcount,
            Function.update_of_ne (Transfer.peer_ne d)]
      · have hsame : s'.ends side = s.ends side := by
          refine ends_of_ne hside ?_ ?_ ?_
          · rw [hbuffer, Function.update_of_ne hside]
          · intro d' hd'
            rw [hcalling, Function.update_of_ne hd']
          · intro d' hd'
            rw [hcount, Function.update_of_ne hd']
        exact hsame ▸ hS side

/-! ## What the locks should protect -/

/-- With no call in progress each buffer's status is exact, `empty` when as many
packets have been taken as put and `full` when `maxNbPackets` more have been
put than taken; and a call that starts finds a packet to take, or room to put
one. -/
structure Protected (s : State M maxNbPackets) : Prop where
  exact : (∀ t, s.busy t = false) → ∀ side,
    ((s.net.buffer side).status = .empty ↔
      s.completed (.ofSide side .put) = s.completed (.ofSide side .take)) ∧
    ((s.net.buffer side).status = .full ↔
      s.completed (.ofSide side .put) = s.completed (.ofSide side .take) + maxNbPackets)
  takes : ∀ d : Transfer, d.role = .take → s.busy d.thread = false → s.calling d ≠ none →
    s.completed d < s.completed d.peer
  puts : ∀ d : Transfer, d.role = .put → s.busy d.thread = false → s.calling d ≠ none →
    s.completed d < s.completed d.peer + maxNbPackets

theorem protected_of_settled {origin : Fin maxNbPackets}
    (hS : ∀ side, Settled origin (s.ends side)) : Protected s where
  exact := fun _ side => ⟨(hS side).empty_iff, (hS side).full_iff⟩
  takes := by
    intro d hrole _ hcalling
    cases d with
    | transferIn => exact (hS .inComing).stock hcalling
    | receive => exact (hS .outGoing).stock hcalling
    | _ => cases hrole
  puts := by
    intro d hrole _ hcalling
    cases d with
    | send => exact (hS .inComing).room hcalling
    | transferOut => exact (hS .outGoing).room hcalling
    | _ => cases hrole

variable [Zero M] {h : 0 < maxNbPackets} {tbl : AccountsTable M} {txs : List (Transactions M)}

theorem init_settled (h : 0 < maxNbPackets) (tbl : AccountsTable M) (txs : List (Transactions M))
    (side : Side) : Settled ⟨0, h⟩ ((State.init h tbl txs).ends side) := by
  refine ⟨?_, ?_, ?_, ?_, ?_, ?_, ?_, ?_⟩
  · cases side <;> exact Nat.le_refl 0
  · cases side <;> exact Nat.zero_le _
  · cases side <;> rfl
  · intro r
    cases side <;> cases r <;> exact (Ring.advance_zero _).symm
  · cases side <;> exact fun hne => absurd rfl hne
  · cases side <;> exact fun hne => absurd rfl hne
  · cases side <;> exact .inl rfl
  · intro r
    cases side <;> cases r <;> trivial

/-- In a run whose steps are all apart, every state is protected. -/
theorem protected_of_apart (hs : Sched.ReachesWhen Apart step (State.init h tbl txs) s) :
    Protected s :=
  protected_of_settled (hs.invariant (P := fun s => ∀ side, Settled ⟨0, h⟩ (s.ends side))
    (fun hS hapart hstep => settled_step hapart hstep hS) (init_settled h tbl txs))

/-! ## One slot, or one transaction -/

omit [Zero M] in
/-- A step sends what it takes from the unsent transactions. -/
theorem sent_unsent_step {t : Thread} (hstep : step t s = some s') :
    s'.sender.state.sent.length + s'.sender.state.unsent.length
      = s.sender.state.sent.length + s.sender.state.unsent.length := by
  obtain ⟨-, hstep⟩ := step_cases hstep
  rcases hstep with ⟨net, m, rfl, -, rfl⟩ | ⟨net, w, rfl, -, rfl⟩ | ⟨net, v, rfl, -, rfl⟩ |
    ⟨net, c, rfl, hp, rfl⟩ | ⟨net, c, rfl, -, rfl⟩
  · rfl
  · rfl
  · rfl
  · rcases Act.access_cases hp with ⟨⟨l', hl, rfl⟩, -, -, htransfer, -⟩ | ⟨_, _, _, _, _, _, rfl⟩ |
      ⟨_, _, _, _, _, _, rfl⟩ | ⟨_, _, _, _, _, _, _, _, _, _, _, _, rfl⟩ |
      ⟨d, _, k, _, _, packet', _, hact, _, _, _, rfl⟩ | ⟨_, _, _, _, _, _, _, _, rfl⟩ |
      ⟨d, IP, k, _, ok, hact, _, _, rfl⟩
    · rcases Sender.perform_cases hl with ⟨-, -, -, hsent, hunsent, -⟩ | ⟨t, rest, hpc, hunsent, -⟩
      · rw [hsent, hunsent]
      · exact absurd (by simp [Sender.act, hpc, hunsent]) (htransfer .send
          (t.setTransactionStatus "sent")
          fun t' => { pc := .loopTest, sent := s.sender.state.sent ++ [t'], unsent := rest })
    · rfl
    · rfl
    · rfl
    · obtain ⟨-, -, t, rest, hunsent, rfl⟩ := Sender.act_transfer hact
      simp only [hunsent, List.length_append, List.length_cons, List.length_nil]
      omega
    · rfl
    · obtain ⟨-, -, rfl⟩ := Sender.act_link hact
      rfl
  · rfl

omit [Zero M] in
/-- With one slot a buffer is never open to both callers; with one transaction
neither. -/
theorem apart_of_small {origin : Fin maxNbPackets} {n : Nat}
    (hS : ∀ side, Settled origin (s.ends side))
    (hsum : s.sender.state.sent.length + s.sender.state.unsent.length = n)
    (hsmall : maxNbPackets = 1 ∨ n ≤ 1) (t : Thread) : Apart t s := by
  have hsend : s.calling .send ≠ none → s.completed .send < n := by
    intro hcalling
    obtain ⟨packet, k, hact⟩ := Act.exists_of_calling hcalling
    obtain ⟨-, -, t, rest, hunsent, -⟩ := Sender.act_transfer hact
    rw [hunsent] at hsum
    simp only [List.length_cons] at hsum
    show s.sender.state.sent.length < n
    omega
  have hout : s.calling .transferOut ≠ none →
      s.completed .transferOut + 1 = s.completed .transferIn := by
    intro hcalling
    obtain ⟨packet, k, hact⟩ := Act.exists_of_calling hcalling
    rcases ServerThread.act_transfer hact with ⟨-, hd, -⟩ | ⟨hpc, -, -⟩
    · cases hd
    · simp [State.completed, ServerThread.completed, ServerThread.holding, hpc]
  intro d i _ hi
  by_contra hahead
  have hd : s.calling d ≠ none := by simp [hi]
  have hpeer : s.calling d.peer ≠ none := by
    intro hnone
    rw [hnone] at hahead
    exact hahead rfl
  -- both callers are past their waits, so there are a packet and a free slot
  have hboth : (s.ends d.side).party .put ≠ none ∧ (s.ends d.side).party .take ≠ none := by
    cases d with
    | send => exact ⟨hd, hpeer⟩
    | transferOut => exact ⟨hd, hpeer⟩
    | transferIn => exact ⟨hpeer, hd⟩
    | receive => exact ⟨hpeer, hd⟩
  have hroom := (hS d.side).room hboth.1
  have hstock := (hS d.side).stock hboth.2
  have hless : (s.ends d.side).count .put < n := by
    have hin := (hS .inComing).takes_le
    have hsent : s.completed .send ≤ n := hsum ▸ Nat.le_add_right _ _
    cases hside : d.side with
    | inComing =>
        rw [hside] at hboth
        exact hsend hboth.1
    | outGoing =>
        rw [hside] at hboth
        have := hout hboth.1
        simp only [State.ends, Transfer.ofSide] at hin ⊢
        omega
  omega

/-- So there every run keeps the callers apart. -/
theorem protected_of_small (hsmall : maxNbPackets = 1 ∨ txs.length ≤ 1)
    (hs : Sched.Reaches step (State.init h tbl txs) s) : Protected s := by
  have hreach : Sched.ReachesWhen Apart step (State.init h tbl txs) s ∧ _ := Sched.Reaches.allowed
    (P := fun s : State M maxNbPackets => (∀ side, Settled ⟨0, h⟩ (s.ends side)) ∧
      s.sender.state.sent.length + s.sender.state.unsent.length = txs.length)
    (fun hP hapart hstep => ⟨settled_step hapart hstep hP.1, (sent_unsent_step hstep).trans hP.2⟩)
    (fun hP _ => apart_of_small hP.1 hP.2 hsmall _) hs
    ⟨init_settled h tbl txs, Nat.zero_add _⟩
  exact protected_of_settled hreach.2.1

/-! ## Two slots and two transactions -/

omit [Zero M] in
/-- One packet in the buffer, the server about to take it and the sender with
another one to send: the server compares the indices, the sender puts its
packet, and the server writes `empty`. -/
theorem not_protected_of_one {a : Bank.State M maxNbPackets} {sent rest : List (Transactions M)}
    {t : Transactions M} (hmain : a.main = .joining) (hserver : a.server.pc = .transferIn)
    (hsender : a.sender = ⟨.loopTest, sent, t :: rest⟩)
    (hindex : a.net.inComing.ring.input = Ring.next a.net.inComing.ring.output)
    (hstatus : a.net.inComing.status ≠ .full)
    (hcount : (State.rest a).completed .send = (State.rest a).completed .transferIn + 1) :
    ∃ s, Sched.Reaches step (State.rest a) s ∧ ¬ Protected s := by
  have hact : (a.server.act : Act M maxNbPackets _) = .transfer .transferIn a.server.trans
      fun t => { a.server with pc := .process, trans := t } := by
    simp [ServerThread.act, hserver]
  let x := a.net.inComing.ring.input
  let packet := a.net.inComing.taken .transferIn a.server.trans
  let net₁ : Network M maxNbPackets :=
    { a.net with inComing := { a.net.inComing with ring := a.net.inComing.ring.take } }
  -- the server up to its status write
  have hserver₁ : Alone ServerThread.act (a.net, ⟨a.server, .idle⟩)
      (net₁, ⟨a.server, .transfer (.writeStatus x x) packet⟩) := by
    have halone : Alone ServerThread.act (a.net, ⟨a.server, .idle⟩)
        (net₁, ⟨a.server, .transfer
          (.writeStatus (Ring.next a.net.inComing.ring.output) x) packet⟩) :=
      Alone.to_status hact a.net
    rwa [← hindex] at halone
  have hreach₁ : Sched.Reaches step (State.rest a)
      { State.rest a with net := net₁, server := ⟨a.server, .transfer (.writeStatus x x) packet⟩ } := by
    refine reaches_of_server (s := State.rest a) ?_ (fun u _ => .inl (by cases u <;> rfl)) hserver₁
    simp [MainPc.started, Thread.startStage, State.rest, hmain, MainPc.stage]
  -- the whole call of the sender
  have hsender₁ : Alone Sender.act (net₁, ⟨⟨.loopTest, sent, t :: rest⟩, .idle⟩)
      (net₁.send (t.setTransactionStatus "sent"),
        ⟨⟨.loopTest, sent ++ [t.setTransactionStatus "sent"], rest⟩, .idle⟩) := by
    have hloop : Alone Sender.act (net₁, ⟨⟨.loopTest, sent, t :: rest⟩, .idle⟩)
        (net₁, ⟨⟨.awaitSlot, sent, t :: rest⟩, .idle⟩) := Alone.of_perform rfl
    have hwait : Alone Sender.act (net₁, ⟨⟨.awaitSlot, sent, t :: rest⟩, .idle⟩)
        (net₁, ⟨⟨.send, sent, t :: rest⟩, .idle⟩) := by
      refine Alone.of_perform ?_
      simp [Sender.act, Act.perform, net₁, hstatus]
    exact hloop.trans (hwait.trans (Alone.of_perform rfl))
  have hreach₂ := hreach₁.trans (reaches_of_sender
    (s := { State.rest a with
      net := net₁, server := ⟨a.server, .transfer (.writeStatus x x) packet⟩ })
    (by simp [MainPc.started, Thread.startStage, State.rest, hmain, MainPc.stage])
    (fun u hu => by
      cases u with
      | server => exact .inr fun hidle => by cases hidle
      | _ => exact .inl rfl)
    (by simpa only [State.rest, hsender] using hsender₁))
  -- the status write of the server
  refine ⟨_, hreach₂.tail (i := .server) (by
    simp only [step, State.rest, MainPc.started, hmain, hact, Act.access, TransferPc.step,
      Option.map_some]
    exact if_pos (by decide)), ?_⟩
  intro hprotected
  have hexact := (hprotected.exact (fun u => by cases u <;> rfl) .inComing).1.mp rfl
  have hholding : a.server.holding = [] := by simp [ServerThread.holding, hserver]
  simp only [Transfer.ofSide, State.completed, State.rest, Sender.completed,
    ServerThread.completed, hsender, hholding, List.length_nil] at hexact hcount
  simp [ServerThread.served, ServerThread.holding, hserver] at hexact hcount
  omega

/-- One packet in the incoming buffer, the sender with others to send, and the
server in its loop. -/
def onePacket (h : 0 < maxNbPackets) (tbl : AccountsTable M) (t : Transactions M)
    (rest : List (Transactions M)) (n : Nat) (pc : ServerPc) : Bank.State M maxNbPackets where
  net :=
    { Network.new h with
      clientConnectionStatus := .connected
      serverConnectionStatus := .connected
      inComing := (Network.new h).inComing.put (t.setTransactionStatus "sent") "transferred" }
  main := .joining
  network := .testClient
  server := ⟨pc, Transactions.new, tbl, 0⟩
  sender := ⟨.loopTest, [t.setTransactionStatus "sent"], rest⟩
  receiver := ⟨.awaitNetwork, Transactions.new, [], n⟩

theorem reaches_onePacket (h : 0 < maxNbPackets) (tbl : AccountsTable M) (t : Transactions M)
    (rest : List (Transactions M)) :
    Sched.Reaches Bank.step (Bank.State.init h tbl (t :: rest))
      (onePacket h tbl t rest (t :: rest).length .transferIn) := by
  let connected : Bank.State M maxNbPackets :=
    { Bank.State.init h tbl (t :: rest) with
      net :=
        { Network.new h with
          clientConnectionStatus := .connected
          serverConnectionStatus := .connected }
      main := .joining }
  let sent : Bank.State M maxNbPackets :=
    { connected with
      net := (onePacket h tbl t rest (t :: rest).length .pollStatus).net
      sender := ⟨.loopTest, [t.setTransactionStatus "sent"], rest⟩ }
  have hmain : Sched.run Bank.step (List.replicate 8 .main) (Bank.State.init h tbl (t :: rest))
      = some connected := rfl
  have hsender : Sched.run Bank.step (List.replicate 6 .sender) connected = some sent := rfl
  have hserver : Sched.run Bank.step (List.replicate 4 .server) sent
      = some (onePacket h tbl t rest (t :: rest).length .pollStatus) := rfl
  have hrun : Sched.Reaches Bank.step (Bank.State.init h tbl (t :: rest))
      (onePacket h tbl t rest (t :: rest).length .pollStatus) :=
    ((Sched.reaches_of_run hmain).trans (Sched.reaches_of_run hsender)).trans
      (Sched.reaches_of_run hserver)
  have hstatus : ((Network.new h).inComing.put (t.setTransactionStatus "sent")
      "transferred").status ≠ .empty := Buffer.put_status_ne_empty _ _ _
  have hstarted : MainPc.joining.started .server := by decide
  have hpoll : Bank.step .server (onePacket h tbl t rest (t :: rest).length .pollStatus)
      = some (onePacket h tbl t rest (t :: rest).length .checkStatus) := by
    simp [Bank.step, ServerThread.act, onePacket, Act.perform, hstarted, hstatus]
  have hcheck : Bank.step .server (onePacket h tbl t rest (t :: rest).length .checkStatus)
      = some (onePacket h tbl t rest (t :: rest).length .transferIn) := by
    simp [Bank.step, ServerThread.act, onePacket, Act.perform, hstarted, hstatus]
  exact (hrun.tail hpoll).tail hcheck

/-- With two slots and two transactions some run leaves a buffer marked `empty`
with a packet in it. -/
theorem not_protected_of_two (h : 0 < maxNbPackets) (tbl : AccountsTable M)
    (txs : List (Transactions M)) (hcap : 2 ≤ maxNbPackets) (htxs : 2 ≤ txs.length) :
    ∃ s, Sched.Reaches step (State.init h tbl txs) s ∧ ¬ Protected s := by
  obtain ⟨t₁, t₂, rest, rfl⟩ : ∃ t₁ t₂ rest, txs = t₁ :: t₂ :: rest := by
    match txs, htxs with
    | t₁ :: t₂ :: rest, _ => exact ⟨t₁, t₂, rest, rfl⟩
  have hne : Ring.next (⟨0, h⟩ : Fin maxNbPackets) ≠ ⟨0, h⟩ := by
    intro heq
    have hzero : (0 + 1) % maxNbPackets = 0 := congrArg Fin.val heq
    rw [Nat.mod_eq_of_lt (by omega)] at hzero
    cases hzero
  have hstart := reaches_of_atomic (reaches_onePacket h tbl t₁ (t₂ :: rest))
  obtain ⟨s, hs, hbad⟩ := not_protected_of_one
    (a := onePacket h tbl t₁ (t₂ :: rest) (t₁ :: t₂ :: rest).length .transferIn) rfl rfl rfl rfl
    (by
      show (if Ring.next (⟨0, h⟩ : Fin maxNbPackets) = ⟨0, h⟩ then BufferStatus.full else .normal)
        ≠ .full
      rw [if_neg hne]
      nofun)
    rfl
  exact ⟨s, hstart.trans hs, hbad⟩

/-- Buffers are protected in every run whose steps are all apart; and over all
interleavings exactly when there is one slot or at most one transaction. -/
theorem protected_iff (h : 0 < maxNbPackets) (tbl : AccountsTable M)
    (txs : List (Transactions M)) :
    (∀ s, Sched.ReachesWhen Apart step (State.init h tbl txs) s → Protected s) ∧
    ((∀ s, Sched.Reaches step (State.init h tbl txs) s → Protected s) ↔
      maxNbPackets = 1 ∨ txs.length ≤ 1) := by
  refine ⟨fun s hs => protected_of_apart hs, ?_, fun hsmall s hs => protected_of_small hsmall hs⟩
  intro hall
  by_contra hlarge
  obtain ⟨hcap, htxs⟩ := not_or.mp hlarge
  obtain ⟨s, hs, hbad⟩ := not_protected_of_two h tbl txs (by omega) (by omega)
  exact hbad (hall s hs)

/-- With one slot, two deposits are safe, whether or not calls are kept apart. -/
theorem protected_iff_oneSlot :
    (∀ s : State Int 1, Sched.ReachesWhen Apart step
      (State.init (by decide) firstAccount [firstTransaction, firstTransaction]) s →
        Protected s) ∧
    ∀ s : State Int 1, Sched.Reaches step
      (State.init (by decide) firstAccount [firstTransaction, firstTransaction]) s →
        Protected s := by
  have hboth := protected_iff (by decide : 0 < 1) firstAccount [firstTransaction, firstTransaction]
  exact ⟨hboth.1, hboth.2.mpr (.inl rfl)⟩

/-- With ten slots, as shipped, they are not. -/
theorem not_protected_twoDeposits :
    ¬ ∀ s : State Int 10, Sched.Reaches step
      (State.init (by decide) firstAccount [firstTransaction, firstTransaction]) s → Protected s := by
  intro hall
  obtain ⟨s, hs, hbad⟩ := not_protected_of_two (show 0 < 10 by decide) firstAccount
    [firstTransaction, firstTransaction] (by decide) (by decide)
  exact hbad (hall s hs)

end Program

end Locks
end Smoll.Bank
