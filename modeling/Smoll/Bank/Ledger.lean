/-
# `Smoll.Bank.Ledger` — every account is its own ledger

Whatever the threads do and wherever the server is, also when an unknown
account has ended it, the balance of an account is its initial balance and then
its own transactions among those that were processed, in the order of the file
(`accounts_are_ledgers`).  The others do not matter, nor do rows that repeat an
account number: the search stops at the first.

    processed = received + in the outgoing buffer + answered and held
-/
import Smoll.Bank.Delivery
import Smoll.Bank.Commute

namespace Smoll.Bank

open Transactions

variable {M : Type} [Add M] [Sub M] {maxNbPackets : Nat}

/-- What the transactions of one account make of its balance, one after another. -/
def ledger (accNumber : String) (txs : List (Transactions M)) (balance : M) : M :=
  (txs.filter (·.accountNumber = accNumber)).foldl
    (fun balance t => AccountsTable.newBalance t.operationType balance t.transactionAmount) balance

theorem ledger_cons (accNumber : String) (t : Transactions M) (txs : List (Transactions M))
    (balance : M) :
    ledger accNumber (t :: txs) balance =
      ledger accNumber txs
        (if t.accountNumber = accNumber then
          AccountsTable.newBalance t.operationType balance t.transactionAmount else balance) := by
  unfold ledger
  by_cases h : t.accountNumber = accNumber
  · rw [if_pos h, List.filter_cons, if_pos (decide_eq_true h), List.foldl_cons]
  · rw [if_neg h, List.filter_cons, if_neg (by simpa using h)]

namespace AccountsTable

variable {tbl : AccountsTable M}

omit [Add M] [Sub M] in
theorem balanceOf_of_unknown {accNumber : String} (h : ¬ tbl.Known accNumber) :
    tbl.balanceOf accNumber = none := by
  have hge : tbl.account.length ≤ tbl.place accNumber := Nat.le_of_not_lt (mt place_lt_iff.mp h)
  rw [balanceOf, List.getElem?_eq_none hge]
  rfl

omit [Add M] [Sub M] in
/-- Nothing changes for another number. -/
theorem balanceOf_setBalance_of_ne {accNumber accNumber' : String} (h : tbl.Known accNumber)
    (hne : accNumber ≠ accNumber') (bal : M) :
    (tbl.setBalance (tbl.place accNumber) bal).balanceOf accNumber' = tbl.balanceOf accNumber' := by
  by_cases hother : tbl.Known accNumber'
  · rw [balanceOf, place_setBalance, account_setBalance_of_ne (place_ne h hother hne)]
    rfl
  · rw [balanceOf_of_unknown hother, balanceOf_of_unknown]
    rwa [known_setBalance]

/-- A transaction changes the balance of its own account. -/
theorem balanceOf_servePacket (tbl : AccountsTable M) (t : Transactions M) (accNumber : String) :
    (tbl.servePacket t).1.balanceOf accNumber =
      (tbl.balanceOf accNumber).map fun balance =>
        if t.accountNumber = accNumber then
          newBalance t.operationType balance t.transactionAmount else balance := by
  by_cases hknown : tbl.Known t.accountNumber
  · have hcontent : tbl.Known t.content.accountNumber := hknown
    rcases serve_of_known hcontent with ⟨a, ha, hserve⟩
    rw [servePacket, hserve]
    by_cases hown : t.accountNumber = accNumber
    · subst hown
      have hbalance : tbl.balanceOf t.accountNumber = some a.balance := by
        rw [balanceOf]
        exact congrArg (Option.map Accounts.balance) ha
      rw [hbalance, Option.map_some, if_pos rfl]
      exact balanceOf_setBalance hknown _
    · have hsame : (fun balance => if t.accountNumber = accNumber then
          newBalance t.operationType balance t.transactionAmount else balance) = id := by
        funext balance
        exact if_neg hown
      rw [hsame, Option.map_id]
      exact balanceOf_setBalance_of_ne hknown hown _
  · have hcontent : ¬ tbl.Known t.content.accountNumber := hknown
    rw [servePacket, serve_of_unknown hcontent]
    by_cases hown : t.accountNumber = accNumber
    · rw [← hown, balanceOf_of_unknown hknown]
      rfl
    · cases tbl.balanceOf accNumber with
      | none => rfl
      | some balance => exact congrArg some (if_neg hown).symm

/-- A list of transactions, one after another. -/
theorem balanceOf_transduce (txs : List (Transactions M)) (accNumber : String) :
    ∀ tbl : AccountsTable M, (transduce serve tbl (txs.map content)).1.balanceOf accNumber =
      (tbl.balanceOf accNumber).map (ledger accNumber txs) := by
  induction txs with
  | nil =>
      intro tbl
      exact (congrFun Option.map_id _).symm
  | cons t txs ih =>
      intro tbl
      rw [List.map_cons, transduce, ih]
      have hfirst := balanceOf_servePacket tbl t accNumber
      rw [servePacket] at hfirst
      rw [hfirst, Option.map_map]
      congr 1
      funext balance
      exact (ledger_cons accNumber t txs balance).symm

end AccountsTable

/-- In every state of every interleaving each account holds what its own processed transactions
make of its initial balance, and no account is added, lost or moved. -/
theorem accounts_are_ledgers [Zero M] (h : 0 < maxNbPackets) (tbl : AccountsTable M)
    (txs : List (Transactions M)) (s : State M maxNbPackets)
    (hs : Sched.Reaches step (State.init h tbl txs) s) :
    ∃ processed, processed <+: txs ∧
      processed.length = s.receiver.received.length + s.net.outGoing.queued.length +
        s.server.held.cookedList.length ∧
      ∀ accNumber, s.server.table.balanceOf accNumber =
        (tbl.balanceOf accNumber).map (ledger accNumber processed) := by
  have hd := (inv_and_delivers hs).2
  have hst := hd.st_eq
  have hlength := hd.length_eq
  simp only [State.pipe, List.length_map] at hst hlength
  refine ⟨_, List.take_prefix (s.receiver.received.length + s.net.outGoing.queued.length +
    s.server.held.cookedList.length) txs, ?_, ?_⟩
  · rw [List.length_take]
    omega
  · intro accNumber
    rw [hst, ← List.map_take, AccountsTable.balanceOf_transduce]

/-- The deposit has been received. -/
theorem accounts_are_ledgers_oneByOne :
    ∃ s : State Int 1, s.receiver.received.length = 1 ∧ ∃ processed,
      processed <+: [firstTransaction] ∧
      processed.length = s.receiver.received.length + s.net.outGoing.queued.length +
        s.server.held.cookedList.length ∧
      ∀ accNumber, s.server.table.balanceOf accNumber =
        (firstAccount.balanceOf accNumber).map (ledger accNumber processed) := by
  have hrun : ((Sched.run step oneByOne (State.init (by decide) firstAccount [firstTransaction] :
      State Int 1)).any fun s => s.receiver.received.length = 1) = true := by
    decide
  obtain ⟨s, hs, hreceived⟩ := Sched.reaches_of_run_any hrun
  exact ⟨s, by simpa using hreceived,
    accounts_are_ledgers (by decide) firstAccount [firstTransaction] s hs⟩

end Smoll.Bank
