/-
# `Smoll.Bank.Fairness` — every packet arrives

`Smoll.Bank.Progress` says that the pipeline can always go on; whether it does
is up to the scheduler.  Here the schedule is an infinite one, and all that is
known about it is weak fairness (`Sched.WeaklyFair`): a thread that could move
all the time has a turn.  A busy-wait may use up any number of turns.

A party that can go on to a transfer as long as it has not made one
(`GoesOn`) comes to it, and until it is started `main` does its part
(`State.helper`).  A transfer uses up one of the transfers that remain; any
other step of the party or of `main` brings it nearer to the next, and a step of
anybody else leaves that where it is.  So the pair `State.way` falls with each
turn of the helper and never rises (`leadsTo_of_party`).

In each state one party has work to do (`State.worker`), which only a transfer
changes (`Simulates.worker`), and so all packets arrive (`delivers_all`).
-/
import Smoll.Bank.Progress
import Smoll.Lib.Fair
import Mathlib.Data.Prod.Lex
import Mathlib.Order.WellFounded

namespace Smoll.Bank

open Transactions

variable {M : Type} {maxNbPackets : Nat}

/-! ## Who has work to do -/

/-- The party that has work to do, if any has: the receiving client while a packet
waits for it, else the server while it holds a packet or one waits for it. -/
def State.worker (s : State M maxNbPackets) : Thread :=
  match s.pipe.outQ, s.pipe.held, s.pipe.inQ with
  | _ :: _, _, _ => .receiver
  | [], .idle, [] => .sender
  | [], _, _ => .server

/-- A party, or `main`, which has to start it. -/
def State.helper (who : Thread) (s : State M maxNbPackets) : Thread :=
  if s.main.started who then who else .main

/-- The steps a party still has to make to its next transfer. -/
def State.walk (t : Thread) (s : State M maxNbPackets) : Nat :=
  match t with
  | .sender => s.sender.pc.rank
  | .server => s.server.pc.rank
  | .receiver => s.receiver.pc.rank
  | .main | .network => 0

/-- What remains to be done: transfers, and then the steps of a party to the next of
them. -/
def State.way (who : Thread) (s : State M maxNbPackets) : ℕ ×ₗ ℕ :=
  toLex (s.pipe.remaining, (8 - s.main.stage) + s.walk who)

/-- The party goes on: its next step makes a transfer or brings it nearer to one. -/
def GoesOn [Add M] [Sub M] (who : Thread) (s : State M maxNbPackets) : Prop :=
  ∃ s', step who s = some s' ∧ s'.main = s.main ∧ (State.transfers who s = 1 ∨
    (State.transfers who s = 0 ∧ s'.walk who < s.walk who))

theorem State.worker_ne_main (s : State M maxNbPackets) : s.worker ≠ .main := by
  unfold State.worker
  split <;> nofun

section Program

variable [Add M] [Sub M] {s s' : State M maxNbPackets}

/-- A step without a transfer leaves the work with the same party. -/
theorem Simulates.worker (h : Simulates s s' 0) : s'.worker = s.worker := by
  obtain ⟨-, hin, hout, -, hheld⟩ := h.still
  unfold State.worker
  rw [hin, hout]
  cases s.pipe.outQ with
  | cons b q => rfl
  | nil =>
      cases hs : s.pipe.held <;> cases hs' : s'.pipe.held <;> simp_all

/-- A step of one thread leaves the others where they are. -/
theorem step_others {u : Thread} (hstep : step u s = some s') :
    (u ≠ .main → s'.main = s.main) ∧ (u ≠ .network → s'.network = s.network) ∧
      (u ≠ .server → s'.server = s.server) ∧ (u ≠ .sender → s'.sender = s.sender) ∧
      (u ≠ .receiver → s'.receiver = s.receiver) := by
  obtain ⟨-, hstep⟩ := step_cases hstep
  rcases hstep with ⟨net, m, rfl, -, rfl⟩ | ⟨net, w, rfl, -, rfl⟩ | ⟨net, v, rfl, -, rfl⟩ |
    ⟨net, c, rfl, -, rfl⟩ | ⟨net, c, rfl, -, rfl⟩ <;> simp

theorem step_walk {t u : Thread} (hstep : step u s = some s') (hne : u ≠ t) :
    s'.walk t = s.walk t := by
  obtain ⟨-, -, hserver, hsender, hreceiver⟩ := step_others hstep
  cases t with
  | main => rfl
  | network => rfl
  | server => exact congrArg (fun v => v.pc.rank) (hserver hne)
  | sender => exact congrArg (fun c => c.pc.rank) (hsender hne)
  | receiver => exact congrArg (fun c => c.pc.rank) (hreceiver hne)

end Program

section Runs

variable [Zero M] [Add M] [Sub M] {h : 0 < maxNbPackets} {tbl : AccountsTable M}
  {txs : List (Transactions M)} {s s' : State M maxNbPackets}

/-- A transfer shortens the way, whichever party comes next. -/
theorem way_lt_of_transfer {t : Thread} (hs : Sched.Reaches step (State.init h tbl txs) s)
    (hstep : step t s = some s') (htransfer : State.transfers t s ≠ 0) (who who' : Thread) :
    s'.way who' < s.way who := by
  have hremaining := (step_simulates (inv_and_delivers hs).1 hstep).2.remaining
  exact Prod.Lex.toLex_lt_toLex.mpr (.inl (by dsimp only; omega))

/-- So does a step without one that brings `main` and the party nearer to it. -/
theorem way_lt_of_walk {t who : Thread} (hs : Sched.Reaches step (State.init h tbl txs) s)
    (hstep : step t s = some s') (hzero : State.transfers t s = 0)
    (hlt : (8 - s'.main.stage) + s'.walk who < (8 - s.main.stage) + s.walk who) :
    s'.way who < s.way who := by
  have hsim := (step_simulates (inv_and_delivers hs).1 hstep).2
  rw [hzero] at hsim
  exact Prod.Lex.toLex_lt_toLex.mpr (.inr ⟨hsim.remaining, hlt⟩)

variable {who : Thread}

/-- The helper shortens the way. -/
theorem helper_moves (hs : Sched.Reaches step (State.init h tbl txs) s) (hmain : who ≠ .main)
    (hgoes : s.main.started who → GoesOn who s) :
    ∃ s', step (s.helper who) s = some s' ∧
      (State.transfers (s.helper who) s = 0 → s'.way who < s.way who) := by
  unfold State.helper
  split
  · next hstarted =>
      obtain ⟨s', hstep, hsame, hkind⟩ := hgoes hstarted
      refine ⟨s', hstep, fun hzero => way_lt_of_walk hs hstep hzero ?_⟩
      obtain ⟨-, hlt⟩ := hkind.resolve_left (by omega)
      rw [hsame]
      exact Nat.add_lt_add_left hlt _
  · next hwaits =>
      obtain ⟨net, m, hstep, hzero, hnext, hstage⟩ := main_moves hs hwaits
      have hsame := step_walk hstep hmain.symm
      refine ⟨_, hstep, fun _ => way_lt_of_walk hs hstep hzero ?_⟩
      rw [hsame, hnext]
      omega

/-- No other step without a transfer lengthens the way; one that leaves it as long
leaves the helper. -/
theorem step_way {t : Thread} (hs : Sched.Reaches step (State.init h tbl txs) s)
    (hmain : who ≠ .main) (hgoes : s.main.started who → GoesOn who s) (hstep : step t s = some s')
    (hzero : State.transfers t s = 0) :
    s'.way who < s.way who ∨ s'.way who = s.way who ∧ s'.helper who = s.helper who := by
  rcases Decidable.em (t = .main) with rfl | htmain
  · -- a step of the start-up
    obtain ⟨-, hcases⟩ := step_cases hstep
    rcases hcases with ⟨net, m, -, hp, rfl⟩ | ⟨_, _, hno, -⟩ | ⟨_, _, hno, -⟩ |
      ⟨_, _, hno, -⟩ | ⟨_, _, hno, -⟩
    · obtain ⟨hstage, hnext⟩ := MainPc.perform_stage (live_of_reaches hs).active hp
      have hsame := step_walk hstep hmain.symm
      refine .inl (way_lt_of_walk hs hstep hzero ?_)
      rw [hsame]
      dsimp only
      omega
    all_goals cases hno
  · have hkept := (step_others hstep).1 htmain
    rcases Decidable.em (t = who) with rfl | hother
    · -- a step of the party itself
      obtain ⟨hstarted, -⟩ := step_cases hstep
      obtain ⟨s₁, hstep₁, -, hkind⟩ := hgoes hstarted
      obtain rfl : s₁ = s' := Option.some.inj (hstep₁.symm.trans hstep)
      obtain ⟨-, hlt⟩ := hkind.resolve_left (by omega)
      refine .inl (way_lt_of_walk hs hstep hzero ?_)
      rw [hkept]
      exact Nat.add_lt_add_left hlt _
    · have hsim := (step_simulates (inv_and_delivers hs).1 hstep).2
      rw [hzero] at hsim
      refine .inr ⟨?_, ?_⟩
      · unfold State.way
        rw [hkept, step_walk hstep hother]
        exact congrArg (fun n => toLex (n, _)) hsim.remaining
      · unfold State.helper
        rw [hkept]

/-- If in each state one party goes on, the same one until somebody makes a transfer,
the goal is reached: there are only so many transfers. -/
theorem leadsTo_of_party {P Q : State M maxNbPackets → Prop} (who : State M maxNbPackets → Thread)
    (hmain : ∀ s, who s ≠ .main) (hsame : ∀ {s s'}, Simulates s s' 0 → who s' = who s)
    (hreach : ∀ {s}, P s → Sched.Reaches step (State.init h tbl txs) s)
    (hgoes : ∀ {s}, P s → ¬ Q s → s.main.started (who s) → GoesOn (who s) s)
    (hkeep : ∀ {t s s'}, P s → ¬ Q s → step t s = some s' → Q s' ∨ P s') :
    Sched.LeadsTo step P Q := by
  have hwho : ∀ {t s s'}, P s → step t s = some s' → State.transfers t s = 0 →
      who s' = who s := by
    intro t s s' hs hstep hzero
    have hsim := (step_simulates (inv_and_delivers (hreach hs)).1 hstep).2
    exact hsame (hzero ▸ hsim)
  refine .of_rank (fun s => s.helper (who s)) (fun s => s.way (who s)) ?_ ?_
  · intro s hs hnot
    obtain ⟨s', hstep, hlt⟩ := helper_moves (hreach hs) (hmain s) (hgoes hs hnot)
    refine ⟨s', hstep, .inr ?_⟩
    rcases Decidable.em (State.transfers (s.helper (who s)) s = 0) with hzero | htransfer
    · rw [hwho hs hstep hzero]
      exact hlt hzero
    · exact way_lt_of_transfer (hreach hs) hstep htransfer _ _
  · intro t s s' hs hnot hstep
    refine (hkeep hs hnot hstep).imp id fun hs' => ⟨hs', ?_⟩
    rcases Decidable.em (State.transfers t s = 0) with hzero | htransfer
    · rw [hwho hs hstep hzero]
      exact step_way (hreach hs) (hmain s) (hgoes hs hnot) hstep hzero
    · exact .inl (way_lt_of_transfer (hreach hs) hstep htransfer _ _)

/-- The party with work to do, once started, goes on, unless the server has
crashed. -/
theorem worker_goesOn (hs : Sched.Reaches step (State.init h tbl txs) s)
    (hok : ∀ e, s.server.pc ≠ .crashed e) (hless : s.receiver.received.length < txs.length)
    (hstarted : s.main.started s.worker) : GoesOn s.worker s := by
  have hless' : s.pipe.received.length < txs.length := by simpa [State.pipe] using hless
  have hwork := (inv_and_delivers hs).2.not_stuck (by simpa using hless')
  unfold State.worker at hstarted ⊢
  cases hout : s.pipe.outQ with
  | cons b q =>
      simp only [hout] at hstarted ⊢
      exact receiver_moves hs (by simp [hout]) hstarted
  | nil =>
      cases hheld : s.pipe.held with
      | idle =>
          cases hin : s.pipe.inQ with
          | nil =>
              simp only [hout, hheld, hin] at hstarted ⊢
              refine sender_moves hs (by simpa [hin] using h) ?_ hstarted
              simpa [hout, hheld, hin] using hwork
          | cons a q =>
              simp only [hout, hheld, hin] at hstarted ⊢
              exact server_moves hs hok hless' (.inr ⟨hheld, by simp [hin]⟩) hstarted
      | raw a =>
          simp only [hout, hheld] at hstarted ⊢
          exact server_moves hs hok hless' (.inl ⟨hout, by simp [hheld]⟩) hstarted
      | cooked b =>
          simp only [hout, hheld] at hstarted ⊢
          exact server_moves hs hok hless' (.inl ⟨hout, by simp [hheld]⟩) hstarted

/-! ## Every packet arrives -/

/-- A reachable state in which the receiving client has all packets. -/
def Delivered (h : 0 < maxNbPackets) (tbl : AccountsTable M) (txs : List (Transactions M))
    (s : State M maxNbPackets) : Prop :=
  Sched.Reaches step (State.init h tbl txs) s ∧ txs.length ≤ s.receiver.received.length

/-- Received packets stay received. -/
theorem stable_delivered : Sched.Stable step (Delivered h tbl txs) := by
  rintro t s s' ⟨hs, hall⟩ hstep
  refine ⟨hs.tail hstep, hall.trans ?_⟩
  obtain ⟨-, hcases⟩ := step_cases hstep
  rcases hcases with ⟨net, m, -, -, rfl⟩ | ⟨net, w, -, -, rfl⟩ | ⟨net, v, -, -, rfl⟩ |
    ⟨net, c, -, -, rfl⟩ | ⟨net, c, -, hp, rfl⟩
  · exact Nat.le_refl _
  · exact Nat.le_refl _
  · exact Nat.le_refl _
  · exact Nat.le_refl _
  · rcases Receiver.perform_cases hp with ⟨-, -, -, hreceived, -⟩ | ⟨-, -, rfl⟩
    · exact Nat.le_of_eq (congrArg List.length hreceived.symm)
    · simp

/-- In every fair run all packets reach the receiving client. -/
theorem delivers_all (hknown : ∀ t ∈ txs, tbl.Known t.accountNumber) :
    Sched.LeadsTo step (Sched.Reaches step (State.init h tbl txs)) (Delivered h tbl txs) := by
  refine leadsTo_of_party State.worker State.worker_ne_main Simulates.worker id ?_ ?_
  · intro s hs hnot hstarted
    have hmissing : s.receiver.received.length < txs.length :=
      Nat.lt_of_not_le fun hall => hnot ⟨hs, hall⟩
    exact worker_goesOn hs (not_crashed hs hknown) hmissing hstarted
  · intro t s s' hs _ hstep
    exact .inr (hs.tail hstep)

end Runs

end Smoll.Bank
