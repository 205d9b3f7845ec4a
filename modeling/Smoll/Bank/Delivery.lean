/-
# `Smoll.Bank.Delivery` — what reaches the receiving client, and when the server stops

Two results about every interleaving of the program's threads, read off the
pipeline of `Smoll.Bank.Flow`.

`packets_in_order`: at any moment the packets received, queued on the way out,
held by the server, queued on the way in and not yet sent are the client's
transactions in order, and each received packet shows the balance that the
transactions up to it leave on its account.

`server_left_clean`: once the server has left its loop there is nothing on
the way any more and its books are closed.  What makes this true is that the
client's connection ends only after the last packet has been received
(`Closing`), so the server cannot see it end early.
-/
import Smoll.Bank.Flow
import Smoll.Bank.Unknown

namespace Smoll.Bank

open Transactions

variable {M : Type} [Zero M] [Add M] [Sub M] {maxNbPackets : Nat}
  {h : 0 < maxNbPackets} {tbl : AccountsTable M} {txs : List (Transactions M)}
  {s s' : State M maxNbPackets}

/-! ## The pipeline of every reachable state -/

omit [Add M] [Sub M] in
theorem init_inv (h : 0 < maxNbPackets) (tbl : AccountsTable M) (txs : List (Transactions M)) :
    Inv (State.init h tbl txs) where
  inExact := (Network.new_inComing_stores h).exact
  outExact := (Network.new_outGoing_stores h).exact
  sendRoom := nofun
  takeReady := nofun
  putRoom := nofun
  receiveReady := nofun

omit [Add M] [Sub M] in
theorem init_pipe (h : 0 < maxNbPackets) (tbl : AccountsTable M) (txs : List (Transactions M)) :
    (State.init h tbl txs).pipe = Pipe.start tbl (txs.map content) := by
  have hin : (Network.new (M := M) h).inComing.queued = [] :=
    (Network.new_inComing_stores h).queued_eq
  have hout : (Network.new (M := M) h).outGoing.queued = [] :=
    (Network.new_outGoing_stores h).queued_eq
  simp only [State.pipe, State.init, hin, hout]
  rfl

omit [Zero M] in
/-- Every step keeps the law of the pipeline. -/
theorem Simulates.delivers {n : Nat} {as : List (Content M)} (hsim : Simulates s s' n)
    (hd : Pipe.Delivers AccountsTable.serve tbl as s.pipe) :
    Pipe.Delivers AccountsTable.serve tbl as s'.pipe := by
  rcases hsim with ⟨heq, -⟩ | ⟨m, hm, -⟩
  · rwa [heq]
  · exact hd.step hm

theorem inv_and_delivers (hs : Sched.Reaches step (State.init h tbl txs) s) :
    Inv s ∧ Pipe.Delivers AccountsTable.serve tbl (txs.map content) s.pipe := by
  have h0 : Pipe.Delivers AccountsTable.serve tbl (txs.map content) (State.init h tbl txs).pipe := by
    rw [init_pipe]
    exact Pipe.delivers_start _ _ _
  refine Sched.Reaches.invariant
    (P := fun s => Inv s ∧ Pipe.Delivers AccountsTable.serve tbl (txs.map content) s.pipe)
    ?_ hs ⟨init_inv h tbl txs, h0⟩
  rintro t s s' ⟨hI, hd⟩ hstep
  obtain ⟨hI', hsim⟩ := step_simulates hI hstep
  exact ⟨hI', hsim.delivers hd⟩

/-! ## Delivery in order -/

omit [Zero M] [Add M] [Sub M] in
theorem ServerThread.holding_request (v : ServerThread M) :
    v.holding.map request
      = (v.held.cookedList ++ v.held.rawList).map Content.request := by
  unfold holding held
  cases v.pc <;> rfl

/-- The places of the pipeline, from its end to its beginning, hold the client's
transactions in sending order. -/
theorem requests_in_order (hs : Sched.Reaches step (State.init h tbl txs) s) :
    (s.receiver.received ++ s.net.outGoing.queued ++ s.server.holding ++ s.net.inComing.queued
        ++ s.sender.unsent).map request = txs.map request := by
  obtain ⟨taken, has, hrun⟩ := (inv_and_delivers hs).2
  have hkept := map_transduce AccountsTable.serve_request tbl taken
  rw [hrun] at hkept
  have hall := congrArg (List.map Content.request) has
  simp only [List.map_append, ← hkept, State.pipe, List.map_map] at hall
  simp only [List.map_append, ServerThread.holding_request, List.append_assoc] at hall ⊢
  exact hall.symm

omit [Zero M] in
/-- With known accounts, any first part of the transactions can be processed. -/
theorem processAll_take (hknown : ∀ t ∈ txs, tbl.Known t.accountNumber) (k : Nat) :
    ∃ answers tbl', tbl.processAll (txs.take k) = .ok (answers, tbl') ∧
      answers.length = (txs.take k).length :=
  AccountsTable.processAll_of_known fun t ht => hknown t (List.mem_of_mem_take ht)

omit [Zero M] in
/-- The last reply of the first `k + 1` transactions shows the balance they leave
on its account. -/
theorem balance_after (hknown : ∀ t ∈ txs, tbl.Known t.accountNumber) {k : Nat}
    (hk : k < txs.length) :
    ∃ answers answer tbl', tbl.processAll (txs.take (k + 1)) = .ok (answers ++ [answer], tbl') ∧
      answers.length = k ∧ answer.request = txs[k].request ∧
      (AccountsTable.Recognised txs[k].operationType →
        tbl'.balanceOf txs[k].accountNumber = some answer.transactionBalance) := by
  obtain ⟨answers, tbl₁, hfirst, hlen⟩ := processAll_take hknown k
  obtain ⟨all, tbl', hall, -⟩ := processAll_take hknown (k + 1)
  rw [← List.take_append_getElem hk, AccountsTable.processAll_append hfirst] at hall ⊢
  cases hproc : tbl₁.process txs[k] with
  | error e =>
      rw [AccountsTable.processAll_cons_error hproc] at hall
      cases hall
  | ok r =>
      obtain ⟨answer, tbl₂⟩ := r
      refine ⟨answers, answer, tbl₂, ?_, ?_, AccountsTable.process_request hproc,
        AccountsTable.process_balance hproc⟩
      · rw [AccountsTable.processAll_cons hproc]
        rfl
      · simpa [Nat.min_eq_left (Nat.le_of_lt hk)] using hlen

/-- The packets received so far are the replies to the first transactions. -/
theorem received_content (hs : Sched.Reaches step (State.init h tbl txs) s)
    {k : Nat} (hk : k < s.receiver.received.length) {answers : List (Transactions M)}
    {answer : Transactions M} {tbl' : AccountsTable M} (hlen : answers.length = k)
    (hall : tbl.processAll (txs.take (k + 1)) = .ok (answers ++ [answer], tbl')) :
    s.receiver.received[k].content = answer.content := by
  obtain ⟨rest, hrest⟩ := (inv_and_delivers hs).2.received_initial
  have hfirst := AccountsTable.transduce_of_processAll hall
  have hsplit : txs.map content = (txs.take (k + 1)).map content ++ (txs.drop (k + 1)).map content := by
    rw [← List.map_append, List.take_append_drop]
  rw [hsplit, transduce_append, hfirst] at hrest
  have hget := congrArg (fun l => l[k]?) hrest
  simpa [State.pipe, List.getElem?_append, hk, hlen] using hget

/-- In every reachable state of every interleaving: the packets received, queued
on the way out, held by the server, queued on the way in and unsent are the
transactions in sending order; and the `k`-th packet received is the reply to
the `k`-th transaction, with the balance the transactions up to it leave. -/
theorem packets_in_order (h : 0 < maxNbPackets) (tbl : AccountsTable M)
    (txs : List (Transactions M)) (hknown : ∀ t ∈ txs, tbl.Known t.accountNumber)
    (s : State M maxNbPackets) (hs : Sched.Reaches step (State.init h tbl txs) s) :
    (s.receiver.received ++ s.net.outGoing.queued ++ s.server.holding ++ s.net.inComing.queued
        ++ s.sender.unsent).map request = txs.map request ∧
    ∀ (k : Nat) (hk : k < s.receiver.received.length), ∃ hk' : k < txs.length,
      s.receiver.received[k].request = txs[k].request ∧
      (AccountsTable.Recognised txs[k].operationType → ∃ answers tbl',
        tbl.processAll (txs.take (k + 1)) = .ok (answers, tbl') ∧
        tbl'.balanceOf txs[k].accountNumber = some s.receiver.received[k].transactionBalance) := by
  refine ⟨requests_in_order hs, fun k hk => ?_⟩
  have hlen := (inv_and_delivers hs).2.length_eq
  simp only [State.pipe, List.length_map] at hlen
  have hk' : k < txs.length := by omega
  obtain ⟨answers, answer, tbl', hall, hlast, hrequest, hbalance⟩ := balance_after hknown hk'
  have hcontent := received_content hs hk hlast hall
  refine ⟨hk', ?_, fun hop => ⟨_, tbl', hall, ?_⟩⟩
  · exact (congrArg Content.request hcontent).trans hrequest
  · rw [hbalance hop]
    exact congrArg some (congrArg Content.transactionBalance hcontent).symm

/-- The first line of the shipped accounts file, in whole dollars. -/
def firstAccount : AccountsTable Int :=
  ⟨[⟨"31718", "CHEQUING", "PHILLIP", "LENNOX", 10⟩], by decide⟩

/-- The first line of the shipped transactions file, as the client reads it. -/
def firstTransaction : Transactions Int :=
  ⟨"31718", "DEPOSIT", 90, 0, "pending", " "⟩

/-- A schedule on which one transaction goes all the way. -/
def oneByOne : List Thread :=
  List.replicate 8 .main ++ List.replicate 6 .sender ++ List.replicate 10 .server
    ++ List.replicate 6 .receiver

def twoTransactions : List (Transactions Int) :=
  [firstTransaction, ⟨"31718", "WITHDRAW", 30, 0, "pending", " "⟩]

/-- A schedule after which one packet is back, and the server holds the next. -/
def midway : List Thread :=
  oneByOne ++ List.replicate 4 .sender ++ List.replicate 6 .server

/-- With one slot per buffer, the deposit is back with the new balance, and the withdrawal is
with the server. -/
theorem packets_in_order_oneByOne :
    ∃ s : State Int 1,
      (s.receiver.received.map (·.transactionBalance) = [100] ∧ s.server.holding.length = 1) ∧
      (s.receiver.received ++ s.net.outGoing.queued ++ s.server.holding ++ s.net.inComing.queued
        ++ s.sender.unsent).map request = twoTransactions.map request ∧
      ∀ (k : Nat) (hk : k < s.receiver.received.length), ∃ hk' : k < twoTransactions.length,
        s.receiver.received[k].request = twoTransactions[k].request ∧
        (AccountsTable.Recognised twoTransactions[k].operationType → ∃ answers tbl',
          firstAccount.processAll (twoTransactions.take (k + 1)) = .ok (answers, tbl') ∧
          tbl'.balanceOf twoTransactions[k].accountNumber
            = some s.receiver.received[k].transactionBalance) := by
  have hrun : ((Sched.run step midway (State.init (by decide) firstAccount twoTransactions :
      State Int 1)).any fun s => s.receiver.received.map (·.transactionBalance) = [100] ∧
        s.server.holding.length = 1) = true := by
    decide
  obtain ⟨s, hs, hheld⟩ := Sched.reaches_of_run_any hrun
  exact ⟨s, of_decide_eq_true hheld,
    packets_in_order (by decide) firstAccount twoTransactions (by decide) s hs⟩

/-! ## Clean shutdown -/

/-- The books of the program: how many packets went out of the server, and that
nobody leaves before the last of the `n` packets has been received. -/
structure Closing (n : Nat) (s : State M maxNbPackets) : Prop where
  total : s.receiver.numberOfTransactions = n
  served : s.server.served = s.net.outGoing.queued.length + s.receiver.received.length
  receiverLeft : s.receiver.pc.left → n ≤ s.receiver.received.length
  disconnected : s.net.clientConnectionStatus = .disconnected → n ≤ s.receiver.received.length
  serverLeft : s.server.pc.left → n ≤ s.receiver.received.length

omit [Add M] [Sub M] in
theorem init_closing (h : 0 < maxNbPackets) (tbl : AccountsTable M) (txs : List (Transactions M)) :
    Closing txs.length (State.init h tbl txs) where
  total := rfl
  served := by
    have hout : (Network.new (M := M) h).outGoing.queued = [] :=
      (Network.new_outGoing_stores h).queued_eq
    simp [State.init, ServerThread.served, hout]
  receiverLeft := nofun
  disconnected := nofun
  serverLeft := nofun

omit [Zero M] in
/-- Every step keeps the books. -/
theorem Closing.step {n : Nat} {t : Thread} (hI : Inv s) (hC : Closing n s)
    (hstep : Bank.step t s = some s') : Closing n s' := by
  obtain ⟨-, hstep⟩ := step_cases hstep
  rcases hstep with ⟨net, m, rfl, hp, rfl⟩ | ⟨net, w, rfl, hp, rfl⟩ | ⟨net, v, rfl, hp, rfl⟩ |
    ⟨net, c, rfl, hp, rfl⟩ | ⟨net, c, rfl, hp, rfl⟩
  · obtain ⟨hsame, hconn⟩ := MainPc.perform_cases hp
    exact ⟨hC.total, by simpa [hsame.outGoing] using hC.served, hC.receiverLeft,
      fun hd => hC.disconnected (hconn hd), hC.serverLeft⟩
  · obtain rfl := NetworkPc.perform_cases hp
    exact ⟨hC.total, hC.served, hC.receiverLeft, hC.disconnected, hC.serverLeft⟩
  · rcases ServerThread.perform_cases hp with
      ⟨-, -, -, hsame, hconn, -, -, -, -, -, hserved, -, -, hleft⟩ |
      ⟨hpc, rfl, rfl⟩ | ⟨t, tbl, hpc, -, rfl, rfl⟩ | ⟨e, hpc, -, rfl, rfl⟩ | ⟨hpc, rfl, rfl⟩
    · exact ⟨hC.total, by simpa [hsame.outGoing, hserved] using hC.served, hC.receiverLeft,
        fun hd => (hconn hd).elim hC.disconnected hC.serverLeft,
        fun hl => (hleft hl).elim hC.serverLeft hC.disconnected⟩
    · exact ⟨hC.total, by simpa [ServerThread.served, Network.transferIn, hpc] using hC.served,
        hC.receiverLeft, hC.disconnected, fun hl => by cases hl⟩
    · exact ⟨hC.total, by simpa [ServerThread.served, hpc] using hC.served, hC.receiverLeft,
        hC.disconnected, fun hl => by cases hl⟩
    · exact ⟨hC.total, by simpa [ServerThread.served, hpc] using hC.served, hC.receiverLeft,
        hC.disconnected, fun hl => by cases hl⟩
    · obtain ⟨-, hqueued⟩ := hI.outExact.put (hI.putRoom hpc) s.server.trans "transferred"
      refine ⟨hC.total, ?_, hC.receiverLeft, hC.disconnected, fun hl => by cases hl⟩
      have hserved := hC.served
      simp only [ServerThread.served, hpc, Network.transferOut, hqueued, List.length_append,
        List.length_singleton] at hserved ⊢
      simp only [reduceCtorEq, if_false] at hserved
      simp only [if_true]
      omega
  · rcases Sender.perform_cases hp with ⟨-, hsame, hconn, -⟩ | ⟨t, rest, -, -, rfl, rfl⟩
    · exact ⟨hC.total, by simpa [hsame.outGoing] using hC.served, hC.receiverLeft,
        fun hd => hC.disconnected (hconn hd), hC.serverLeft⟩
    · exact ⟨hC.total, hC.served, hC.receiverLeft, hC.disconnected, hC.serverLeft⟩
  · rcases Receiver.perform_cases hp with ⟨-, hsame, hconn, hreceived, htotal, -, hleft⟩ |
      ⟨hpc, rfl, rfl⟩
    · refine ⟨htotal.trans hC.total, by simpa [hsame.outGoing, hreceived] using hC.served, ?_, ?_,
        ?_⟩
      · exact fun hl => hreceived ▸ (hleft hl).elim hC.receiverLeft (hC.total ▸ id)
      · exact fun hd => hreceived ▸ (hconn hd).elim hC.disconnected hC.receiverLeft
      · exact fun hl => hreceived ▸ hC.serverLeft hl
    · obtain ⟨x, rest, hqueued, -, -, hrest⟩ :=
        hI.outExact.take (hI.receiveReady hpc) s.receiver.transact "done"
      have hserved := hC.served
      rw [hqueued] at hserved
      refine ⟨hC.total, ?_, (fun hl => by cases hl), fun hd => ?_, fun hl => ?_⟩
      · simp only [Network.receive, hrest, List.length_append, List.length_cons,
          List.length_nil] at hserved ⊢
        omega
      · have := hC.disconnected hd
        simp only [List.length_append]
        omega
      · have := hC.serverLeft hl
        simp only [List.length_append]
        omega

theorem closing_of_reaches (hs : Sched.Reaches step (State.init h tbl txs) s) :
    Closing txs.length s := by
  refine (Sched.Reaches.invariant (P := fun s => Inv s ∧ Closing txs.length s) ?_ hs
    ⟨init_inv h tbl txs, init_closing h tbl txs⟩).2
  rintro t s s' ⟨hI, hC⟩ hstep
  exact ⟨(step_simulates hI hstep).1, hC.step hI hstep⟩

/-- Once the server has left the loop of `processTransactions`, in whatever
interleaving, all packets have been received, nothing is in the buffers, all
transactions have been counted and the accounts are those the transactions
leave one after another. -/
theorem server_left_clean (h : 0 < maxNbPackets) (tbl : AccountsTable M)
    (txs : List (Transactions M)) (hknown : ∀ t ∈ txs, tbl.Known t.accountNumber)
    (s : State M maxNbPackets) (hs : Sched.Reaches step (State.init h tbl txs) s)
    (hleft : s.server.pc.left) :
    s.receiver.received.length = txs.length ∧
    (s.net.inComing.status = .empty ∧ s.net.inComing.queued = []) ∧
    (s.net.outGoing.status = .empty ∧ s.net.outGoing.queued = []) ∧
    s.server.numberOfTransactions = txs.length ∧
    ∃ answers, tbl.processAll txs = .ok (answers, s.server.table) := by
  obtain ⟨hI, hd⟩ := inv_and_delivers hs
  have hC := closing_of_reaches hs
  have hall := hC.serverLeft hleft
  obtain ⟨hout, -, hin, -, htable, hreceived⟩ := hd.complete (by simpa [State.pipe] using hall)
  have hout : s.net.outGoing.queued = [] := by simpa [State.pipe] using hout
  have hin : s.net.inComing.queued = [] := by simpa [State.pipe] using hin
  have hlen : s.receiver.received.length = txs.length := by
    simpa [State.pipe] using congrArg List.length hreceived
  have hcount : s.server.served = s.server.numberOfTransactions := by
    cases hpc : s.server.pc with
    | count => simp [hpc, ServerPc.left] at hleft
    | _ => simp [ServerThread.served, hpc]
  refine ⟨hlen, ⟨?_, hin⟩, ⟨?_, hout⟩, ?_, ?_⟩
  · exact hI.inExact.empty_iff.mpr (by simp [hin])
  · exact hI.outExact.empty_iff.mpr (by simp [hout])
  · have hserved := hC.served
    rw [hcount, hout, hlen] at hserved
    simpa using hserved
  · obtain ⟨answers, tbl', hproc, -⟩ := AccountsTable.processAll_of_known hknown
    have htbl := AccountsTable.transduce_of_processAll hproc
    rw [htbl] at htable
    exact ⟨answers, by rw [hproc]; exact congrArg (fun t => Except.ok (answers, t)) htable.symm⟩

/-- The second packet is received too, and then the server sees the client go. -/
theorem server_left_clean_oneByOne :
    ∃ s : State Int 1, s.server.pc.left = true ∧
      s.receiver.received.length = twoTransactions.length ∧
      (s.net.inComing.status = .empty ∧ s.net.inComing.queued = []) ∧
      (s.net.outGoing.status = .empty ∧ s.net.outGoing.queued = []) ∧
      s.server.numberOfTransactions = twoTransactions.length ∧
      ∃ answers, firstAccount.processAll twoTransactions = .ok (answers, s.server.table) := by
  have hrun : ((Sched.run step (midway ++ List.replicate 2 .server ++ List.replicate 6 .receiver ++
      List.replicate 2 .server)
      (State.init (by decide) firstAccount twoTransactions : State Int 1)).any
        fun s => s.server.pc.left) = true := by
    decide
  obtain ⟨s, hs, hleft⟩ := Sched.reaches_of_run_any hrun
  exact ⟨s, hleft, server_left_clean (by decide) firstAccount twoTransactions (by decide) s hs
    hleft⟩

end Smoll.Bank
