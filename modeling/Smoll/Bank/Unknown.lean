/-
# `Smoll.Bank.Unknown` — a stream with accounts the server does not have

The comment of `findAccount` promises "account index position or -1", so a
transaction on an account that does not exist would be an event like any
other.  `IsolatesUnknown` spells this out for a stream of packets: all are
handled, the unknown ones change no balance, and the others see exactly what
they would see without them.

It holds of a stream exactly when no packet of it names an unknown account
(`isolatesUnknown_iff`): the search throws before its answer `-1` can be
given, so the first unknown account ends the server.
-/
import Smoll.Bank.Server

namespace Smoll.Bank.AccountsTable

variable {M : Type} [Add M] [Sub M]

/-! ## Streams of packets -/

/-- A stream of packets for known accounts is handled, with a reply to each. -/
theorem processAll_of_known {tbl : AccountsTable M} {stream : List (Transactions M)}
    (h : ∀ packet ∈ stream, tbl.Known packet.accountNumber) :
    ∃ replies tbl', tbl.processAll stream = .ok (replies, tbl') ∧
      replies.length = stream.length := by
  induction stream generalizing tbl with
  | nil => exact ⟨[], tbl, rfl, rfl⟩
  | cons packet rest ih =>
      obtain ⟨answer, tbl₁, hproc⟩ := process_ok_of_known (h packet (by simp))
      obtain ⟨replies, tbl', hall, hlen⟩ := ih fun p hp =>
        (process_known_iff hproc _).mpr (h p (List.mem_cons_of_mem _ hp))
      refine ⟨answer :: replies, tbl', ?_, by simp [hlen]⟩
      rw [processAll_cons hproc, hall]
      rfl

/-- A stream with an unknown account in it throws: nothing after that packet is
handled. -/
theorem processAll_of_unknown {tbl : AccountsTable M} {stream : List (Transactions M)}
    (h : ¬ ∀ packet ∈ stream, tbl.Known packet.accountNumber) :
    tbl.processAll stream = .error (emptyPlace tbl.numberOfAccounts) := by
  induction stream generalizing tbl with
  | nil => simp at h
  | cons packet rest ih =>
      by_cases hp : tbl.Known packet.accountNumber
      · obtain ⟨answer, tbl₁, hproc⟩ := process_ok_of_known hp
        have hrest := ih fun hall => h (List.forall_mem_cons.mpr
          ⟨hp, fun p hmem => (process_known_iff hproc _).mp (hall p hmem)⟩)
        rw [processAll_cons hproc, hrest, process_numberOfAccounts hproc]
        rfl
      · exact processAll_cons_error (process_of_unknown hp) rest

/-! ## Isolation -/

/-- The replies that belong to packets for known accounts. -/
def knownReplies (tbl : AccountsTable M) (stream replies : List (Transactions M)) :
    List (Transactions M) :=
  ((stream.zip replies).filter fun pr => tbl.Known pr.1.accountNumber).map Prod.snd

/-- Every packet of the stream is handled and answered; for one on an unknown
account `findAccount` answers -1 and no account changes; and the others get
the replies, and leave the accounts, that they would without the unknown
ones. -/
structure IsolatesUnknown (tbl : AccountsTable M) (stream : List (Transactions M)) : Prop where
  handled : ∃ replies tbl', tbl.processAll stream = .ok (replies, tbl') ∧
    replies.length = stream.length ∧
    tbl.processAll (stream.filter fun packet => tbl.Known packet.accountNumber)
      = .ok (tbl.knownReplies stream replies, tbl')
  answered : ∀ packet ∈ stream, ¬ tbl.Known packet.accountNumber →
    tbl.findAccount packet.accountNumber = .ok (-1)
  unchanged : ∀ before packet after, stream = before ++ packet :: after →
    ¬ tbl.Known packet.accountNumber → ∀ replies tbl', tbl.processAll before = .ok (replies, tbl') →
      ∃ answer, tbl'.process packet = .ok (answer, tbl')

/-- Unknown accounts are isolated only where there are none. -/
theorem isolatesUnknown_iff (tbl : AccountsTable M) (stream : List (Transactions M)) :
    tbl.IsolatesUnknown stream ↔ ∀ packet ∈ stream, tbl.Known packet.accountNumber := by
  constructor
  · intro h
    obtain ⟨replies, tbl', hall, -, -⟩ := h.handled
    by_contra hunknown
    rw [processAll_of_unknown hunknown] at hall
    cases hall
  · intro h
    obtain ⟨replies, tbl', hall, hlen⟩ := processAll_of_known h
    have hfilter : (stream.filter fun packet => tbl.Known packet.accountNumber) = stream :=
      List.filter_eq_self.mpr fun packet hp => by simpa using h packet hp
    have hzip : tbl.knownReplies stream replies = replies := by
      have hself : ((stream.zip replies).filter fun pr => tbl.Known pr.1.accountNumber)
          = stream.zip replies := by
        apply List.filter_eq_self.mpr
        intro pr hpr
        simpa using h pr.1 (List.of_mem_zip hpr).1
      unfold knownReplies
      rw [hself, List.map_snd_zip (by omega)]
    refine ⟨⟨replies, tbl', hall, hlen, by rw [hfilter, hzip, hall]⟩, ?_, ?_⟩
    · exact fun packet hp hun => absurd (h packet hp) hun
    · intro before packet after heq hun
      exact absurd (h packet (by simp [heq])) hun

/-- One account, one query on another: the query is not isolated. -/
theorem not_isolatesUnknown_query :
    ¬ (AccountsTable.mk (M := Int) [⟨"31718", "CHEQUING", "PHILLIP", "LENNOX", 10⟩]
        (by decide)).IsolatesUnknown
      [⟨"99999", "QUERY", 0, 0, "none", " "⟩] := by
  intro h
  obtain ⟨replies, tbl', hall, -, -⟩ := h.handled
  rw [processAll_of_unknown (by simp [Known])] at hall
  cases hall

end Smoll.Bank.AccountsTable
