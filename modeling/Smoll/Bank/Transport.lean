/-
# `Smoll.Bank.Transport` — the error and the status of a packet on its way

A packet has a field for an error and one for its status, and every hop sets
the status:

| step | text |
| :-- | :-- |
| `Client.readTransactions`         | `pending`     |
| `Client.sendTransactions`         | `sent`        |
| `Network.send`, `transferOut`     | `transferred` |
| `Network.transferIn`              | `received`    |
| `Server.processTransactions`      | `done`        |
| `Network.receive`                 | `done`        |

But `setTransactionStatus` writes `transactionError`.  So the text of a hop
lands where an error would be reported, and `transactionStatus` keeps the
blank of the constructor in every object of the program
(`Built.transactionStatus_eq`).  What a packet says besides is delivered:
the buffers are queues, so the take that matches a put copies its packet
(`Matched.queue`, `Matched.take`).
-/
import Smoll.Bank.Locks
import Smoll.Bank.Objects

namespace Smoll.Bank

variable {M : Type} {maxNbPackets : Nat}

/-! ## The objects of the program -/

namespace Transactions

/-- The fields are private: an object comes from the constructor and the setters. -/
inductive Built [Zero M] : Transactions M → Prop
  | new : Built new
  | setAccountNumber {t : Transactions M} (accNumber : String) :
      Built t → Built (t.setAccountNumber accNumber)
  | setOperationType {t : Transactions M} (opType : String) :
      Built t → Built (t.setOperationType opType)
  | setTransactionAmount {t : Transactions M} (transAmount : M) :
      Built t → Built (t.setTransactionAmount transAmount)
  | setTransactionBalance {t : Transactions M} (transBalance : M) :
      Built t → Built (t.setTransactionBalance transBalance)
  | setTransactionError {t : Transactions M} (transError : String) :
      Built t → Built (t.setTransactionError transError)
  | setTransactionStatus {t : Transactions M} (transStatus : String) :
      Built t → Built (t.setTransactionStatus transStatus)

/-- No setter writes the status. -/
theorem Built.transactionStatus_eq [Zero M] {t : Transactions M} (h : Built t) :
    t.transactionStatus = " " := by
  induction h with
  | new => rfl
  | setAccountNumber _ _ ih => exact ih
  | setOperationType _ _ ih => exact ih
  | setTransactionAmount _ _ ih => exact ih
  | setTransactionBalance _ _ ih => exact ih
  | setTransactionError _ _ ih => exact ih
  | setTransactionStatus _ _ ih => exact ih

/-- What is displayed of a packet, for a text form of the balances. -/
def toString (text : M → String) (t : Transactions M) : String :=
  "\n Account number " ++ t.accountNumber ++ " Account Balance " ++ text t.transactionBalance
    ++ " Message " ++ t.transactionError

/-- The texts that are set as status. -/
def statusTexts : List String := ["pending", "sent", "transferred", "received", "done"]

/-- `t'` is `t` with this status and no other difference. -/
def StatusOnly (status : String) (t t' : Transactions M) : Prop :=
  t' = { t with transactionStatus := status }

instance [DecidableEq M] (status : String) (t t' : Transactions M) :
    Decidable (StatusOnly status t t') := inferInstanceAs (Decidable (t' = _))

/-- An object of the program never gets a status. -/
theorem Built.not_statusOnly [Zero M] {t t' : Transactions M} (h : Built t') {status : String}
    (hblank : status ≠ " ") : ¬ StatusOnly status t t' := by
  intro heq
  have hstatus : t'.transactionStatus = status := congrArg transactionStatus heq
  exact hblank (hstatus.symm.trans h.transactionStatus_eq)

theorem ne_blank_of_mem_statusTexts {status : String} (h : status ∈ statusTexts) :
    status ≠ " " := by
  have hall : ∀ s ∈ statusTexts, s ≠ " " := by decide
  exact hall status h

/-- Copying into an object of the program gives one. -/
theorem Built.copyFrom [Zero M] {dst : Transactions M} (h : Built dst) (src : Transactions M)
    (stamp : String) : Built (dst.copyFrom src stamp) :=
  (((((h.setAccountNumber _).setOperationType _).setTransactionAmount _).setTransactionBalance
    _).setTransactionError _).setTransactionStatus stamp

end Transactions

/-! ## Schedules of calls

A schedule is a list of calls, each with the caller's packet. -/

/-- The call of a transfer, if its waiting loop would let it happen. -/
def Network.call (c : Transfer × Transactions M) (net : Network M maxNbPackets) :
    Option (Network M maxNbPackets) :=
  if (net.buffer c.1.side).status = c.1.role.atMeet then none else some (net.transfer c.1 c.2).2

/-- What a schedule puts into the buffer of a side. -/
def puts (side : Side) (calls : List (Transfer × Transactions M)) :
    List (Transactions.Content M) :=
  (calls.filter (·.1 = .ofSide side .put)).map (·.2.content)

/-- How often it takes a packet out. -/
def takes (side : Side) (calls : List (Transfer × Transactions M)) : Nat :=
  calls.countP (·.1 = .ofSide side .take)

theorem puts_append (side : Side) (calls calls' : List (Transfer × Transactions M)) :
    puts side (calls ++ calls') = puts side calls ++ puts side calls' := by
  rw [puts, List.filter_append, List.map_append]
  rfl

theorem takes_append (side : Side) (calls calls' : List (Transfer × Transactions M)) :
    takes side (calls ++ calls') = takes side calls + takes side calls' :=
  List.countP_append

/-- A transfer on the other side leaves the buffer. -/
theorem Network.buffer_transfer_of_ne (net : Network M maxNbPackets) {side side' : Side}
    (h : side' ≠ side) (r : Role) (packet : Transactions M) :
    (net.transfer (.ofSide side' r) packet).2.buffer side = net.buffer side := by
  cases side with
  | inComing => cases side' with
    | inComing => exact absurd rfl h
    | outGoing => cases r <;> rfl
  | outGoing => cases side' with
    | inComing => cases r <;> rfl
    | outGoing => exact absurd rfl h

theorem Network.buffer_transfer_put (net : Network M maxNbPackets) (side : Side)
    (packet : Transactions M) : (net.transfer (.ofSide side .put) packet).2.buffer side =
      (net.buffer side).put packet (Transfer.ofSide side .put).stamp := by
  cases side <;> rfl

theorem Network.buffer_transfer_take (net : Network M maxNbPackets) (side : Side)
    (packet : Transactions M) :
    (net.transfer (.ofSide side .take) packet).1 =
        ((net.buffer side).take packet (Transfer.ofSide side .take).stamp).1 ∧
      (net.transfer (.ofSide side .take) packet).2.buffer side =
        ((net.buffer side).take packet (Transfer.ofSide side .take).stamp).2 := by
  cases side <;> exact ⟨rfl, rfl⟩

theorem puts_ofSide_put (side : Side) (packet : Transactions M) :
    puts side [(Transfer.ofSide side .put, packet)] = [packet.content] := by
  cases side <;> rfl

theorem takes_ofSide_put (side : Side) (packet : Transactions M) :
    takes side [(Transfer.ofSide side .put, packet)] = 0 := by
  cases side <;> rfl

theorem puts_ofSide_take (side : Side) (packet : Transactions M) :
    puts side [(Transfer.ofSide side .take, packet)] = [] := by
  cases side <;> rfl

theorem takes_ofSide_take (side : Side) (packet : Transactions M) :
    takes side [(Transfer.ofSide side .take, packet)] = 1 := by
  cases side <;> rfl

theorem puts_ofSide_of_ne {side side' : Side} (h : side' ≠ side) (r : Role)
    (packet : Transactions M) : puts side [(Transfer.ofSide side' r, packet)] = [] := by
  cases side <;> cases side' <;> cases r <;> first | rfl | exact absurd rfl h

theorem takes_ofSide_of_ne {side side' : Side} (h : side' ≠ side) (r : Role)
    (packet : Transactions M) : takes side [(Transfer.ofSide side' r, packet)] = 0 := by
  cases side <;> cases side' <;> cases r <;> first | rfl | exact absurd rfl h

/-- One call: what was in the queue and what is put in is what is taken out and what is left. -/
theorem Network.call_queue {net net' : Network M maxNbPackets} {side : Side}
    {q : List (Transactions.Content M)} (h : Queue (net.buffer side) q)
    {c : Transfer × Transactions M} (hcall : net.call c = some net') :
    ∃ taken rest, taken.length = takes side [c] ∧ q ++ puts side [c] = taken ++ rest ∧
      Queue (net'.buffer side) rest := by
  rcases c with ⟨d, packet⟩
  have hd : ∃ side' r, d = .ofSide side' r := ⟨_, _, d.ofSide_side_role.symm⟩
  rcases hd with ⟨side', r, rfl⟩
  rcases Option.ite_none_left_eq_some.mp hcall with ⟨hguard, hnet⟩
  cases hnet
  have hready : (net.buffer side').status ≠ r.atMeet := by
    intro hstatus
    rw [Transfer.side_ofSide, Transfer.role_ofSide] at hguard
    exact hguard hstatus
  by_cases hside : side' = side
  · subst hside
    cases r with
    | put =>
        have hroom : q.length ≠ maxNbPackets := fun hlen => hready (h.full_iff.mpr hlen)
        refine ⟨[], q ++ [packet.content], (takes_ofSide_put _ _).symm, ?_, ?_⟩
        · rw [puts_ofSide_put]
          rfl
        · rw [buffer_transfer_put]
          exact h.put hroom packet _
    | take =>
        have hsome : q ≠ [] := fun hnil => hready (h.empty_iff.mpr hnil)
        rcases List.exists_cons_of_ne_nil hsome with ⟨x, rest, rfl⟩
        refine ⟨[x], rest, (takes_ofSide_take _ _).symm, ?_, ?_⟩
        · rw [puts_ofSide_take, List.append_nil]
          rfl
        · rw [(buffer_transfer_take net side' packet).2]
          exact (h.take packet _).2
  · refine ⟨[], q, (takes_ofSide_of_ne hside r packet).symm, ?_, ?_⟩
    · rw [puts_ofSide_of_ne hside, List.append_nil]
      rfl
    · rw [buffer_transfer_of_ne net hside]
      exact h

/-- A whole schedule. -/
theorem Network.run_queue {side : Side} (calls : List (Transfer × Transactions M)) :
    ∀ {net net' : Network M maxNbPackets} {q : List (Transactions.Content M)},
      Queue (net.buffer side) q → Sched.run Network.call calls net = some net' →
      ∃ taken rest, taken.length = takes side calls ∧ q ++ puts side calls = taken ++ rest ∧
        Queue (net'.buffer side) rest := by
  induction calls with
  | nil =>
      intro net net' q h hrun
      cases hrun
      exact ⟨[], q, rfl, List.append_nil q, h⟩
  | cons c calls ih =>
      intro net net' q h hrun
      rcases Option.bind_eq_some_iff.mp hrun with ⟨net₁, hcall, hrest⟩
      rcases call_queue h hcall with ⟨taken, q₁, hlen, hsplit, hq₁⟩
      rcases ih hq₁ hrest with ⟨taken', rest, hlen', hsplit', hqueue⟩
      refine ⟨taken ++ taken', rest, ?_, ?_, hqueue⟩
      · rw [List.length_append, hlen, hlen']
        exact (takes_append side [c] calls).symm
      · calc q ++ puts side (c :: calls)
            = q ++ puts side [c] ++ puts side calls := by
              rw [List.append_assoc, ← puts_append]
              rfl
          _ = taken ++ (q₁ ++ puts side calls) := by rw [hsplit, List.append_assoc]
          _ = taken ++ taken' ++ rest := by rw [hsplit', List.append_assoc]

/-! ## A packet put in, and the take that matches it -/

/-- From the start of the program, calls with the put of `packet` among them lead to `net`, and
the packets that are before it have been taken: the next take is the one that matches. -/
def Matched [Zero M] (h : 0 < maxNbPackets) (side : Side) (packet : Transactions M)
    (net : Network M maxNbPackets) : Prop :=
  ∃ before between,
    Sched.run Network.call (before ++ (.ofSide side .put, packet) :: between) (Network.new h) =
        some net ∧
      takes side (before ++ between) = (puts side before).length

namespace Matched

variable [Zero M] {h : 0 < maxNbPackets} {side : Side} {packet : Transactions M}
  {net : Network M maxNbPackets}

/-- The packet is at the front of the queue. -/
theorem queue (hm : Matched h side packet net) :
    ∃ rest, Queue (net.buffer side) (packet.content :: rest) := by
  rcases hm with ⟨before, between, hrun, hmatch⟩
  have hstart : Queue ((Network.new h : Network M maxNbPackets).buffer side) [] := by
    cases side with
    | inComing => exact ⟨[], Network.new_inComing_stores h, rfl⟩
    | outGoing => exact ⟨[], Network.new_outGoing_stores h, rfl⟩
  rcases Network.run_queue _ hstart hrun with ⟨taken, rest, hlen, hsplit, hqueue⟩
  have hputs : puts side (before ++ (.ofSide side .put, packet) :: between) =
      puts side before ++ packet.content :: puts side between := by
    rw [puts_append, ← List.singleton_append, puts_append, puts_ofSide_put]
    rfl
  have htakes : takes side (before ++ (.ofSide side .put, packet) :: between) =
      (puts side before).length := by
    rw [← hmatch, takes_append, takes_append, ← List.singleton_append, takes_append,
      takes_ofSide_put, Nat.zero_add]
  rw [List.nil_append, hputs] at hsplit
  have hboth := List.append_inj hsplit (htakes.symm.trans hlen.symm)
  exact ⟨_, hboth.2 ▸ hqueue⟩

/-- The take delivers the packet, with its own text as error. -/
theorem take (hm : Matched h side packet net) (dst : Transactions M) :
    (net.transfer (.ofSide side .take) dst).1 =
      { packet with
        transactionError := (Transfer.ofSide side .take).stamp
        transactionStatus := dst.transactionStatus } := by
  rcases hm.queue with ⟨rest, hqueue⟩
  rw [(net.buffer_transfer_take side dst).1]
  have hcontent := (hqueue.take dst (Transfer.ofSide side .take).stamp).1
  exact Transactions.ext (congrArg (·.accountNumber) hcontent)
    (congrArg (·.operationType) hcontent) (congrArg (·.transactionAmount) hcontent)
    (congrArg (·.transactionBalance) hcontent) rfl rfl

end Matched

/-! ## The errors that are lost -/

open Transactions

/-- **Transport changes the error, and not the status.**  Whatever is put into a buffer and
wherever the matching take copies it, the packet arrives with the text of the hop as its error and
a blank status; the receiving client displays `done`; and no status that is set on the way is
written to the status. -/
theorem transport_changes_the_error [Zero M] (h : 0 < maxNbPackets) :
    (∀ (inPacket : Transactions M) (net : Network M maxNbPackets),
      Matched h .inComing inPacket net → ∀ dst, Built dst →
        (net.transferIn dst).1 =
            { inPacket with transactionError := "received", transactionStatus := " " } ∧
          ¬ StatusOnly "received" inPacket (net.transferIn dst).1) ∧
    (∀ (outPacket : Transactions M) (net : Network M maxNbPackets),
      Matched h .outGoing outPacket net → ∀ dst, Built dst →
        (net.receive dst).1 =
            { outPacket with transactionError := "done", transactionStatus := " " } ∧
          ¬ StatusOnly "done" outPacket (net.receive dst).1 ∧
          ∀ text, (net.receive dst).1.toString text =
            (outPacket.setTransactionError "done").toString text) ∧
    ∀ t : Transactions M, Built t → ∀ status ∈ statusTexts,
      t.setTransactionStatus status = { t with transactionError := status } ∧
        ¬ StatusOnly status t (t.setTransactionStatus status) := by
  refine ⟨?_, ?_, ?_⟩
  · intro inPacket net hm dst hdst
    have hdelivered := hm.take dst
    rw [hdst.transactionStatus_eq] at hdelivered
    have hbuilt : Built (net.transferIn dst).1 := hdst.copyFrom _ _
    exact ⟨hdelivered, hbuilt.not_statusOnly (ne_blank_of_mem_statusTexts (by decide))⟩
  · intro outPacket net hm dst hdst
    have hdelivered : (net.receive dst).1 = _ := hm.take dst
    rw [hdst.transactionStatus_eq] at hdelivered
    have hbuilt : Built (net.receive dst).1 := hdst.copyFrom _ _
    refine ⟨hdelivered, hbuilt.not_statusOnly (ne_blank_of_mem_statusTexts (by decide)), ?_⟩
    intro text
    rw [hdelivered]
    rfl
  · intro t ht status hstatus
    have hbuilt : Built (t.setTransactionStatus status) := ht.setTransactionStatus status
    exact ⟨rfl, hbuilt.not_statusOnly (ne_blank_of_mem_statusTexts hstatus)⟩

/-- A query through a network with one slot. -/
theorem transport_changes_the_error_oneSlot :
    ¬ StatusOnly "received" ⟨"31718", "QUERY", 0, 0, "sent", " "⟩
      (((Network.new Nat.one_pos : Network Int 1).send
        ⟨"31718", "QUERY", 0, 0, "sent", " "⟩).transferIn Transactions.new).1 :=
  ((transport_changes_the_error Nat.one_pos).1 _ _ ⟨[], [], rfl, rfl⟩ Transactions.new .new).2

/-- A reply with an error that `Transactions` names. -/
def nsfReply : Transactions Int :=
  (((Transactions.new.setAccountNumber "31718").setOperationType "WITHDRAW").setTransactionAmount
    500).setTransactionError "NSF"

/-- Neither buffer delivers it. -/
theorem not_error_delivered :
    Built nsfReply ∧
      (((Network.new (by decide) : Network Int 10).send nsfReply).transferIn
        Transactions.new).1.transactionError ≠ "NSF" ∧
      (((Network.new (by decide) : Network Int 10).transferOut nsfReply).receive
        Transactions.new).1.transactionError ≠ "NSF" ∧
      (nsfReply.setTransactionStatus "sent").transactionError ≠ "NSF" :=
  ⟨(((Built.new.setAccountNumber _).setOperationType _).setTransactionAmount
    _).setTransactionError _, by decide, by decide, by decide⟩

end Smoll.Bank
