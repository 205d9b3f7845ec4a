/-
# `Smoll.Bank.Commute` — transactions on different accounts

`processTransactions` copies each packet it takes in into one and the same
object, looks up the account, does the operation and sends that object back.
An operation reads and writes one row of the array, the first with the
packet's account number (`serve_of_known`).  Two different numbers have
different first rows (`place_ne`), so transactions on different accounts do
not disturb each other (`servePacket_commutes`), and of the order of the packets
only the order within each account matters (`accounts_commute`).  The object
carries nothing from one packet to the next but its status, which no
operation reads (`processTransactions_of_known`).
-/
import Smoll.Bank.Flow
import Smoll.Lib.Reorder

namespace Smoll.Bank.AccountsTable

open Transactions

variable {M : Type} {tbl : AccountsTable M}

/-! ## Two rows -/

/-- The first row with a number has this number. -/
theorem account_place {accNumber : String} (h : tbl.Known accNumber) :
    ∃ a, tbl.account[tbl.place accNumber]? = some a ∧ a.accountNumber = accNumber := by
  have hlt : tbl.place accNumber < tbl.account.length := place_lt_iff.mpr h
  have hnumber := List.findIdx_getElem (w := hlt)
  exact ⟨_, List.getElem?_eq_getElem hlt, of_decide_eq_true hnumber⟩

/-- Different numbers have different first rows. -/
theorem place_ne {accNumber accNumber' : String} (h : tbl.Known accNumber)
    (h' : tbl.Known accNumber') (hne : accNumber ≠ accNumber') :
    tbl.place accNumber ≠ tbl.place accNumber' := by
  intro hplace
  rcases account_place h with ⟨a, ha, hnumber⟩
  rcases account_place h' with ⟨a', ha', hnumber'⟩
  rw [hplace, ha'] at ha
  cases ha
  exact hne (hnumber.symm.trans hnumber')

theorem account_setBalance_of_ne {i j : Nat} (hne : i ≠ j) (bal : M) :
    (tbl.setBalance i bal).account[j]? = tbl.account[j]? := by
  simp [setBalance, hne]

theorem setBalance_comm {i j : Nat} (hne : i ≠ j) (bal bal' : M) :
    (tbl.setBalance i bal).setBalance j bal' = (tbl.setBalance j bal').setBalance i bal :=
  AccountsTable.ext (List.modify_modify_ne _ _ _ hne)

/-! ## Two transactions -/

variable [Add M] [Sub M] {c : Content M}

/-- The operation reads and writes the first row with the account number. -/
theorem serve_of_known (h : tbl.Known c.accountNumber) :
    ∃ a, tbl.account[tbl.place c.accountNumber]? = some a ∧
      tbl.serve c =
        (tbl.setBalance (tbl.place c.accountNumber)
           (newBalance c.operationType a.balance c.transactionAmount),
         (reply c.packet (newBalance c.operationType a.balance c.transactionAmount)).content) := by
  have hpacket : tbl.Known c.packet.accountNumber := h
  rcases process_of_known hpacket with ⟨a, ha, hproc⟩
  refine ⟨a, ha, ?_⟩
  rw [serve, hproc]
  rfl

theorem serve_of_unknown (h : ¬ tbl.Known c.accountNumber) : tbl.serve c = (tbl, c) := by
  have hpacket : ¬ tbl.Known c.packet.accountNumber := h
  rw [serve, process_of_unknown hpacket]

theorem known_serve (tbl : AccountsTable M) (c : Content M) (accNumber : String) :
    (tbl.serve c).1.Known accNumber ↔ tbl.Known accNumber := by
  by_cases h : tbl.Known c.accountNumber
  · rcases serve_of_known h with ⟨a, -, hserve⟩
    rw [hserve]
    exact known_setBalance tbl _ _
  · rw [serve_of_unknown h]

/-- After a transaction on another account: the same reply, and the same table as in the other
order. -/
theorem serve_serve {c d : Content M} (hne : c.accountNumber ≠ d.accountNumber) :
    ((tbl.serve c).1.serve d).2 = (tbl.serve d).2 ∧
      ((tbl.serve c).1.serve d).1 = ((tbl.serve d).1.serve c).1 := by
  by_cases hc : tbl.Known c.accountNumber
  · by_cases hd : tbl.Known d.accountNumber
    · have hplace := place_ne hc hd hne
      -- each of the four transactions finds the row it finds in `tbl`
      rcases serve_of_known hc with ⟨a, ha, hserve⟩
      rcases serve_of_known hd with ⟨b, hb, hserve'⟩
      rcases serve_of_known ((known_serve tbl c _).mpr hd) with ⟨b', hb', hafter⟩
      rcases serve_of_known ((known_serve tbl d _).mpr hc) with ⟨a', ha', hafter'⟩
      rw [hserve, place_setBalance, account_setBalance_of_ne hplace, hb] at hb'
      rw [hserve', place_setBalance, account_setBalance_of_ne hplace.symm, ha] at ha'
      cases hb'
      cases ha'
      rw [hafter, hafter', hserve, hserve', place_setBalance, place_setBalance]
      exact ⟨rfl, setBalance_comm hplace _ _⟩
    · have hafter : ¬ (tbl.serve c).1.Known d.accountNumber := fun h =>
        hd ((known_serve tbl c _).mp h)
      rw [serve_of_unknown hd, serve_of_unknown hafter]
      exact ⟨rfl, rfl⟩
  · have hafter : ¬ (tbl.serve d).1.Known c.accountNumber := fun h =>
      hc ((known_serve tbl d _).mp h)
    rw [serve_of_unknown hc, serve_of_unknown hafter]
    exact ⟨rfl, rfl⟩

/-- One packet, as `serve` sees it. -/
def servePacket (tbl : AccountsTable M) (packet : Transactions M) : AccountsTable M × Content M :=
  tbl.serve packet.content

theorem servePacket_commutes :
    Commutes (servePacket (M := M)) (fun packet => packet.accountNumber) where
  result := fun _ _ _ hne => (serve_serve hne).1
  state := fun _ _ _ hne => (serve_serve hne).2

/-! ## A list of packets through one object -/

/-- The packets that `processTransactions` takes in one after another, all with the object `trans`:
what it transfers out for each, and the accounts afterwards. -/
def processTransactions (tbl : AccountsTable M) (trans : Transactions M) :
    List (Transactions M) → Except JavaException (List (Transactions M) × AccountsTable M)
  | [] => return ([], tbl)
  | packet :: packets => do
      -- `transferIn(trans)`, then the operation
      let (trans, tbl) ← tbl.process (trans.copyFrom packet "received")
      let (replies, tbl) ← tbl.processTransactions trans packets
      return (trans :: replies, tbl)

/-- One packet: what the object held before does not matter. -/
theorem process_copyFrom {packet : Transactions M} (h : tbl.Known packet.accountNumber)
    (trans : Transactions M) (stamp : String) :
    ∃ answer, tbl.process (trans.copyFrom packet stamp) = .ok (answer, (tbl.servePacket packet).1) ∧
      answer.content = (tbl.servePacket packet).2 := by
  have hcopy : tbl.Known (trans.copyFrom packet stamp).accountNumber := h
  rcases process_ok_of_known hcopy with ⟨answer, tbl', hproc⟩
  have hserve := serve_of_process hproc
  rw [content_copyFrom] at hserve
  rw [servePacket, hserve]
  exact ⟨answer, hproc, rfl⟩

/-- Packets for known accounts are all answered, and the answers and the accounts are those of a
transducer that has no object to carry anything over. -/
theorem processTransactions_of_known (packets : List (Transactions M)) :
    ∀ (tbl : AccountsTable M) (trans : Transactions M),
      (∀ packet ∈ packets, tbl.Known packet.accountNumber) →
      ∃ replies, tbl.processTransactions trans packets =
          .ok (replies, (transduce servePacket tbl packets).1) ∧
        replies.map content = (transduce servePacket tbl packets).2 := by
  induction packets with
  | nil =>
      intro tbl trans _
      exact ⟨[], rfl, rfl⟩
  | cons packet packets ih =>
      intro tbl trans hknown
      rcases process_copyFrom (hknown packet List.mem_cons_self) trans "received" with
        ⟨answer, hproc, hanswer⟩
      have hrest : ∀ p ∈ packets, (tbl.servePacket packet).1.Known p.accountNumber := fun p hp =>
        (known_serve tbl packet.content _).mpr (hknown p (List.mem_cons_of_mem packet hp))
      rcases ih (tbl.servePacket packet).1 answer hrest with ⟨replies, hrun, hreplies⟩
      refine ⟨answer :: replies, ?_, ?_⟩
      · rw [processTransactions, hproc]
        show (do
          let (replies, tbl) ← (tbl.servePacket packet).1.processTransactions answer packets
          return (answer :: replies, tbl)) = _
        rw [hrun]
        rfl
      · rw [List.map_cons, hanswer, hreplies]
        rfl

/-- **Transactions on different accounts commute.**  For two lists of packets on known accounts
with the same packets of each account in the same order, the accounts are the same in the end, and
the packets of each account get the same replies. -/
theorem accounts_commute (tbl : AccountsTable M) (trans trans' : Transactions M)
    {ts us : List (Transactions M)} (hknown : ∀ t ∈ ts, tbl.Known t.accountNumber)
    (horder : SameOrder (fun t => t.accountNumber) ts us) :
    ∃ replies replies' tbl', tbl.processTransactions trans ts = .ok (replies, tbl') ∧
      tbl.processTransactions trans' us = .ok (replies', tbl') ∧
      replies.length = ts.length ∧ replies'.length = us.length ∧
      SameOrder (fun r => r.1.accountNumber) (ts.zip (replies.map content))
        (us.zip (replies'.map content)) := by
  have hknown' : ∀ u ∈ us, tbl.Known u.accountNumber := fun u hu =>
    hknown u (horder.mem_iff.mpr hu)
  rcases processTransactions_of_known ts tbl trans hknown with ⟨replies, hrun, hreplies⟩
  rcases processTransactions_of_known us tbl trans' hknown' with ⟨replies', hrun', hreplies'⟩
  rcases servePacket_commutes.reorder ts us tbl horder with ⟨hstate, hresults⟩
  refine ⟨replies, replies', _, hrun, ?_, ?_, ?_, ?_⟩
  · rw [hrun', hstate]
  · have hlen := congrArg List.length hreplies
    rwa [List.length_map, length_transduce] at hlen
  · have hlen := congrArg List.length hreplies'
    rwa [List.length_map, length_transduce] at hlen
  · rw [hreplies, hreplies']
    exact hresults

/-- Two account numbers, one of them given twice. -/
def twoNumbers : AccountsTable Int where
  account :=
    [⟨"31718", "CHEQUING", "PHILLIP", "LENNOX", 10⟩, ⟨"16783", "CREDIT", "JOHN", "CONNAUGHT", 20⟩,
     ⟨"31718", "CREDIT", "PHILLIP", "LENNOX", 30⟩]
  fits := by decide

/-- A deposit, and an operation that the server does not recognise. -/
def aDeposit : Transactions Int := ⟨"31718", "DEPOSIT", 5, 0, "none", " "⟩

def aClosing : Transactions Int := ⟨"16783", "CLOSE", 1, 7, "none", " "⟩

theorem accounts_commute_twoNumbers :
    ∃ replies replies' tbl',
      twoNumbers.processTransactions Transactions.new [aDeposit, aClosing] = .ok (replies, tbl') ∧
      twoNumbers.processTransactions Transactions.new [aClosing, aDeposit] = .ok (replies', tbl') ∧
      replies.length = 2 := by
  have hother : ∀ t ∈ [aClosing], t.accountNumber ≠ aDeposit.accountNumber := by decide
  have horder : SameOrder (fun t => t.accountNumber) [aDeposit, aClosing] [aClosing, aDeposit] :=
    (SameOrder.insert_iff hother).mpr fun _ => rfl
  rcases accounts_commute twoNumbers Transactions.new Transactions.new (by decide) horder with
    ⟨replies, replies', tbl', hrun, hrun', hlen, -, -⟩
  exact ⟨replies, replies', tbl', hrun, hrun', hlen⟩

end Smoll.Bank.AccountsTable
