/-
# `Smoll.Bank.Settled` — a buffer between two callers

A network buffer as its two callers use it: one puts, one takes, each through
the accesses of `TransferPc`, with a wait for a fitting status before.
`Ends` is the buffer together with where the two callers are and how many
calls each of them has completed.

`Settled` is what makes the status right: it is the status of the completed
calls, each index is ahead of its count only between the index write and the
status write of its caller, and the two callers are never there together.
The accesses keep it as long as no caller advances its index while the other
one is between these two writes (`Settled.access`): a caller that does would
be compared with an index that is about to be outdated, and the older
comparison may be written last.
-/
import Smoll.Bank.Locks

namespace Smoll.Bank

variable {M : Type} {maxNbPackets : Nat}

/-- A buffer, where its two callers are (`none` when not about to call), and how
many calls each has completed. -/
structure Ends (M : Type) (maxNbPackets : Nat) where
  buffer : Buffer M maxNbPackets
  party : Role → Option (TransferPc maxNbPackets)
  count : Role → Nat

/-- How far the index is ahead of the completed calls. -/
def ahead : Option (TransferPc maxNbPackets) → Nat
  | some pc => if pc.advanced then 1 else 0
  | none => 0

/-- What a caller has read is still so. -/
def Recent (own peer : Fin maxNbPackets) : Option (TransferPc maxNbPackets) → Prop
  | some (.writeIndex i) => i = own
  | some (.readPeer a) => a = own
  | some (.writeStatus a b) => a = own ∧ b = peer
  | _ => True

/-- The status is that of the completed calls, and the callers do not overlap
between their index write and their status write. -/
structure Settled (origin : Fin maxNbPackets) (e : Ends M maxNbPackets) : Prop where
  takes_le : e.count .take ≤ e.count .put
  puts_le : e.count .put ≤ e.count .take + maxNbPackets
  status_eq : e.buffer.status = statusOf maxNbPackets (e.count .put - e.count .take)
  index_eq : ∀ r, e.buffer.own r = Ring.advance origin (e.count r + ahead (e.party r))
  room : e.party .put ≠ none → e.count .put < e.count .take + maxNbPackets
  stock : e.party .take ≠ none → e.count .take < e.count .put
  apart : ahead (e.party .put) = 0 ∨ ahead (e.party .take) = 0
  recent : ∀ r, Recent (e.buffer.own r) (e.buffer.own r.other) (e.party r)

namespace Settled

variable {origin : Fin maxNbPackets} {e e' : Ends M maxNbPackets} {d : Transfer}
  {packet packet' : Transactions M} {pc pc' : TransferPc maxNbPackets}
  {b : Buffer M maxNbPackets}

theorem cap_pos (_ : Settled origin e) : 0 < maxNbPackets := e.buffer.cap_pos

theorem empty_iff (hS : Settled origin e) :
    e.buffer.status = .empty ↔ e.count .put = e.count .take := by
  rw [hS.status_eq, statusOf_eq_empty]
  have := hS.takes_le
  omega

theorem full_iff (hS : Settled origin e) :
    e.buffer.status = .full ↔ e.count .put = e.count .take + maxNbPackets := by
  rw [hS.status_eq, statusOf_eq_full hS.cap_pos]
  have := hS.cap_pos
  have := hS.takes_le
  omega

/-- Of the callers only one is ahead. -/
theorem other_not_ahead (hS : Settled origin e) {r : Role} (h : ahead (e.party r) ≠ 0) :
    ahead (e.party r.other) = 0 := by
  cases r with
  | put => exact hS.apart.resolve_left h
  | take => exact hS.apart.resolve_right h

theorem apart_of_not_ahead {party : Role → Option (TransferPc maxNbPackets)} {r : Role}
    (h : ahead (party r) = 0) : ahead (party .put) = 0 ∨ ahead (party .take) = 0 := by
  cases r with
  | put => exact .inl h
  | take => exact .inr h

/-- A caller whose wait is over. -/
theorem enter (hS : Settled origin e) {r : Role} (hnone : e.party r = none)
    (hstatus : e.buffer.status ≠ r.atMeet) {fs : List Transactions.Field}
    (hbuffer : e'.buffer = e.buffer) (hparty : e'.party r = some (.copy fs))
    (hother : e'.party r.other = e.party r.other) (hcount : e'.count = e.count) :
    Settled origin e' := by
  have hahead : ∀ q, ahead (e'.party q) = ahead (e.party q) := by
    refine Role.forall_of r ?_ (congrArg ahead hother)
    rw [hparty, hnone]
    rfl
  refine ⟨?_, ?_, ?_, ?_, ?_, ?_, ?_, ?_⟩
  · rw [hcount]
    exact hS.takes_le
  · rw [hcount]
    exact hS.puts_le
  · rw [hcount, hbuffer]
    exact hS.status_eq
  · intro q
    rw [hcount, hbuffer, hahead]
    exact hS.index_eq q
  · intro hput
    rw [hcount]
    cases r with
    | put =>
        have hfull := mt hS.full_iff.mpr hstatus
        have := hS.puts_le
        omega
    | take => exact hS.room (hother ▸ hput)
  · intro htake
    rw [hcount]
    cases r with
    | put => exact hS.stock (hother ▸ htake)
    | take =>
        have hempty := mt hS.empty_iff.mpr hstatus
        have := hS.takes_le
        omega
  · rw [hahead, hahead]
    exact hS.apart
  · rw [hbuffer]
    refine Role.forall_of r ?_ ?_
    · rw [hparty]
      trivial
    · rw [hother]
      exact hS.recent _

/-- What an access leaves of the buffer. -/
theorem step_buffer (hstep : pc.step d e.buffer packet = (some pc', packet', b)) :
    b.status = e.buffer.status ∧ b.own d.role.other = e.buffer.own d.role.other ∧
      ((∀ i, pc ≠ .writeIndex i) → b.own d.role = e.buffer.own d.role) ∧
      (∀ i, pc = .writeIndex i → b.own d.role = Ring.next i ∧ pc' = .readOwn) := by
  cases pc with
  | copy fs =>
      cases fs <;> simp only [TransferPc.step, Prod.mk.injEq, Option.some.injEq] at hstep <;>
        obtain ⟨-, -, rfl⟩ := hstep <;> exact ⟨rfl, rfl, fun _ => rfl, fun _ hpc => by cases hpc⟩
  | copyField f fs i =>
      simp only [TransferPc.step] at hstep
      split at hstep <;> simp only [Prod.mk.injEq] at hstep <;> obtain ⟨-, -, rfl⟩ := hstep
      · next hrole =>
          exact ⟨rfl, by rw [hrole]; rfl, fun _ => by rw [hrole]; rfl, fun _ hpc => by cases hpc⟩
      · exact ⟨rfl, rfl, fun _ => rfl, fun _ hpc => by cases hpc⟩
  | writeIndex i =>
      simp only [TransferPc.step, Prod.mk.injEq, Option.some.injEq] at hstep
      obtain ⟨rfl, -, rfl⟩ := hstep
      refine ⟨?_, ?_, fun hne => absurd rfl (hne i), ?_⟩
      · cases d.role <;> rfl
      · cases d.role <;> rfl
      · rintro j hj
        obtain rfl := TransferPc.writeIndex.inj hj
        exact ⟨by cases d.role <;> rfl, rfl⟩
  | readOwn =>
      simp only [TransferPc.step, Prod.mk.injEq] at hstep
      obtain ⟨-, -, rfl⟩ := hstep
      exact ⟨rfl, rfl, fun _ => rfl, fun _ hpc => by cases hpc⟩
  | readPeer a =>
      simp only [TransferPc.step, Prod.mk.injEq] at hstep
      obtain ⟨-, -, rfl⟩ := hstep
      exact ⟨rfl, rfl, fun _ => rfl, fun _ hpc => by cases hpc⟩
  | writeStatus a c => simp [TransferPc.step] at hstep

/-- Where an access leads: what the caller has read is recent, and it gets ahead
only by the index write. -/
theorem step_party (hstep : pc.step d e.buffer packet = (some pc', packet', b))
    (hrecent : Recent (e.buffer.own d.role) (e.buffer.own d.role.other) (some pc)) :
    Recent (b.own d.role) (b.own d.role.other) (some pc') ∧
      ((∀ i, pc ≠ .writeIndex i) → ahead (some pc') = ahead (some pc)) := by
  obtain ⟨-, hpeer, hown, hwrite⟩ := step_buffer hstep
  cases pc with
  | copy fs =>
      cases fs <;> simp only [TransferPc.step, Prod.mk.injEq, Option.some.injEq] at hstep <;>
        obtain ⟨rfl, -, rfl⟩ := hstep <;> exact ⟨by simp [Recent], fun _ => rfl⟩
  | copyField f fs i =>
      have hpc' : pc' = .copy fs := by
        simp only [TransferPc.step] at hstep
        split at hstep <;> simp only [Prod.mk.injEq, Option.some.injEq] at hstep <;>
          exact hstep.1.symm
      subst hpc'
      exact ⟨trivial, fun _ => rfl⟩
  | writeIndex i =>
      obtain ⟨-, rfl⟩ := hwrite i rfl
      exact ⟨trivial, fun hne => absurd rfl (hne i)⟩
  | readOwn =>
      simp only [TransferPc.step, Prod.mk.injEq, Option.some.injEq] at hstep
      obtain ⟨rfl, -, rfl⟩ := hstep
      exact ⟨rfl, fun _ => rfl⟩
  | readPeer a =>
      simp only [TransferPc.step, Prod.mk.injEq, Option.some.injEq] at hstep
      obtain ⟨rfl, -, rfl⟩ := hstep
      exact ⟨⟨hrecent, rfl⟩, fun _ => rfl⟩
  | writeStatus a c => simp [TransferPc.step] at hstep

/-- A caller that is not ahead does not mind the other index moving. -/
theorem recent_of_not_ahead {own peer peer' : Fin maxNbPackets}
    {p : Option (TransferPc maxNbPackets)} (hp : ahead p = 0) (h : Recent own peer p) :
    Recent own peer' p := by
  rcases p with _ | pc
  · trivial
  · cases pc with
    | writeStatus a b => simp [ahead, TransferPc.advanced] at hp
    | _ => exact h

/-- No call begins or ends: the status and the counts are as before. -/
theorem of_counts (hS : Settled origin e) (hstatus : e'.buffer.status = e.buffer.status)
    (hcount : e'.count = e.count) (hsome : ∀ q, e'.party q ≠ none → e.party q ≠ none)
    (hindex : ∀ q, e'.buffer.own q = Ring.advance origin (e.count q + ahead (e'.party q)))
    (hapart : ahead (e'.party .put) = 0 ∨ ahead (e'.party .take) = 0)
    (hrecent : ∀ q, Recent (e'.buffer.own q) (e'.buffer.own q.other) (e'.party q)) :
    Settled origin e' := by
  refine ⟨?_, ?_, ?_, ?_, ?_, ?_, hapart, hrecent⟩
  · rw [hcount]
    exact hS.takes_le
  · rw [hcount]
    exact hS.puts_le
  · rw [hstatus, hcount]
    exact hS.status_eq
  · rw [hcount]
    exact hindex
  · intro hput
    rw [hcount]
    exact hS.room (hsome _ hput)
  · intro htake
    rw [hcount]
    exact hS.stock (hsome _ htake)

/-- One access of a caller, who advances its index only while the other is not
ahead. -/
theorem access (hS : Settled origin e) (hpc : e.party d.role = some pc)
    (hstep : pc.step d e.buffer packet = (some pc', packet', b))
    (hapart : ∀ i, pc = .writeIndex i → ahead (e.party d.role.other) = 0)
    (hbuffer : e'.buffer = b) (hparty : e'.party d.role = some pc')
    (hother : e'.party d.role.other = e.party d.role.other) (hcount : e'.count = e.count) :
    Settled origin e' := by
  obtain ⟨hstatus, hpeer, hown, hwrite⟩ := step_buffer hstep
  have hindex := hS.index_eq d.role
  have hrecent := hS.recent d.role
  have hpeerIndex := hS.index_eq d.role.other
  have hpeerRecent := hS.recent d.role.other
  rw [hpc] at hindex hrecent
  rw [Role.other_other] at hpeerRecent
  obtain ⟨hrecent', hahead⟩ := step_party hstep hrecent
  -- the index write is the one access that moves an index and gets ahead
  have hmoved : b.own d.role = Ring.advance origin (e.count d.role + ahead (some pc')) ∧
      (ahead (e'.party .put) = 0 ∨ ahead (e'.party .take) = 0) ∧
      Recent (b.own d.role.other) (b.own d.role) (e.party d.role.other) := by
    rcases Decidable.em (∃ i, pc = .writeIndex i) with ⟨i, rfl⟩ | hno
    · obtain ⟨hnext, rfl⟩ := hwrite i rfl
      have hi : i = e.buffer.own d.role := hrecent
      have hzero := hapart i rfl
      refine ⟨?_, apart_of_not_ahead (hother ▸ hzero), ?_⟩
      · rw [hnext, hi, hindex]
        exact Ring.next_advance _ _
      · rw [hpeer]
        exact recent_of_not_ahead hzero hpeerRecent
    · have hno : ∀ i, pc ≠ .writeIndex i := fun i hi => hno ⟨i, hi⟩
      have hsame : ∀ q, ahead (e'.party q) = ahead (e.party q) := by
        refine Role.forall_of d.role ?_ (congrArg ahead hother)
        rw [hparty, hpc]
        exact hahead hno
      refine ⟨?_, ?_, ?_⟩
      · rw [hown hno, hindex, hahead hno]
      · rw [hsame, hsame]
        exact hS.apart
      · rw [hpeer, hown hno]
        exact hpeerRecent
  obtain ⟨hownIndex, hapart', hotherRecent⟩ := hmoved
  subst hbuffer
  refine hS.of_counts hstatus hcount ?_ ?_ hapart' ?_
  · refine Role.forall_of d.role ?_ ?_
    · intro _
      rw [hpc]
      nofun
    · intro hq
      rwa [← hother]
  · refine Role.forall_of d.role ?_ ?_
    · rw [hparty]
      exact hownIndex
    · rw [hpeer, hother]
      exact hpeerIndex
  · refine Role.forall_of d.role ?_ ?_
    · rw [hparty]
      exact hrecent'
    · rw [hother, Role.other_other]
      exact hotherRecent

/-- A caller at its status write is ahead. -/
theorem ahead_writeStatus {r : Role} {a c : Fin maxNbPackets}
    (hpc : e.party r = some (.writeStatus a c)) : ahead (e.party r) ≠ 0 := by
  rw [hpc]
  nofun

/-- Comparing the indices after a put tells whether the buffer is full. -/
theorem meet_put (hS : Settled origin e) {a c : Fin maxNbPackets}
    (hpc : e.party .put = some (.writeStatus a c)) :
    (if a = c then BufferStatus.full else .normal)
      = statusOf maxNbPackets (e.count .put + 1 - e.count .take) := by
  have hroom := hS.room (by simp [hpc])
  have htake : ahead (e.party .take) = 0 := hS.other_not_ahead (ahead_writeStatus hpc)
  have hrecent := hS.recent .put
  rw [hpc] at hrecent
  obtain ⟨rfl, rfl⟩ := hrecent
  have hinput := hS.index_eq .put
  have houtput := hS.index_eq .take
  rw [hpc] at hinput
  rw [htake] at houtput
  have hle := hS.takes_le
  have hmeet := Ring.advance_eq_iff origin (j := e.count .take) (k := e.count .put + 1)
    (by omega) (by omega)
  simp only [Role.other, hinput, houtput, ahead, TransferPc.advanced, if_true, Nat.add_zero,
    eq_comm (a := Ring.advance origin (e.count .put + 1)), hmeet, statusOf]
  have hne : e.count .put + 1 - e.count .take ≠ 0 := by omega
  rw [if_neg hne]
  refine if_congr ?_ rfl rfl
  omega

/-- Comparing the indices after a take tells whether the buffer is empty. -/
theorem meet_take (hS : Settled origin e) {a c : Fin maxNbPackets}
    (hpc : e.party .take = some (.writeStatus a c)) :
    (if a = c then BufferStatus.empty else .normal)
      = statusOf maxNbPackets (e.count .put - (e.count .take + 1)) := by
  have hstock := hS.stock (by simp [hpc])
  have hput : ahead (e.party .put) = 0 := hS.other_not_ahead (ahead_writeStatus hpc)
  have hrecent := hS.recent .take
  rw [hpc] at hrecent
  obtain ⟨rfl, rfl⟩ := hrecent
  have houtput := hS.index_eq .take
  have hinput := hS.index_eq .put
  rw [hpc] at houtput
  rw [hput] at hinput
  have hle := hS.puts_le
  have hmeet := Ring.advance_eq_iff origin (j := e.count .take + 1) (k := e.count .put)
    (by omega) (by omega)
  simp only [Role.other, hinput, houtput, ahead, TransferPc.advanced, if_true, Nat.add_zero,
    hmeet, statusOf]
  rcases Decidable.em (e.count .put = e.count .take + 1) with heq | hne
  · simp [heq]
  · rw [if_neg (by omega), if_neg (by omega), if_neg (by omega)]

/-- The last access writes the comparison as status. -/
theorem last_access (hstep : pc.step d e.buffer packet = (none, packet', b)) :
    ∃ a c, pc = .writeStatus a c ∧
      b = e.buffer.setStatus (if a = c then d.role.atMeet else .normal) := by
  cases pc with
  | copy fs => cases fs <;> simp [TransferPc.step] at hstep
  | copyField f fs i =>
      simp only [TransferPc.step] at hstep
      split at hstep <;> simp at hstep
  | writeStatus a c =>
      simp only [TransferPc.step, Prod.mk.injEq, true_and] at hstep
      exact ⟨a, c, rfl, hstep.2.symm⟩
  | _ => simp [TransferPc.step] at hstep

/-- The last access of a caller: the status write completes the call. -/
theorem finish (hS : Settled origin e) (hpc : e.party d.role = some pc)
    (hstep : pc.step d e.buffer packet = (none, packet', b))
    (hbuffer : e'.buffer = b) (hparty : e'.party d.role = none)
    (hother : e'.party d.role.other = e.party d.role.other)
    (hcount : e'.count d.role = e.count d.role + 1)
    (hcountOther : e'.count d.role.other = e.count d.role.other) : Settled origin e' := by
  obtain ⟨a, c, rfl, rfl⟩ := last_access hstep
  have hown : ∀ q, e'.buffer.own q = e.buffer.own q := by
    intro q
    rw [hbuffer]
    cases q <;> rfl
  have hindex : ∀ q, e'.buffer.own q = Ring.advance origin (e'.count q + ahead (e'.party q)) := by
    refine Role.forall_of d.role ?_ ?_
    · rw [hown, hS.index_eq, hparty, hcount, hpc]
      rfl
    · rw [hown, hS.index_eq, hother, hcountOther]
  have hapart : ahead (e'.party .put) = 0 ∨ ahead (e'.party .take) = 0 :=
    apart_of_not_ahead (congrArg ahead hparty)
  have hrecent : ∀ q, Recent (e'.buffer.own q) (e'.buffer.own q.other) (e'.party q) := by
    refine Role.forall_of d.role ?_ ?_
    · rw [hparty]
      trivial
    · rw [hown, hown, hother]
      exact hS.recent _
  generalize hrole : d.role = r at *
  cases r with
  | put =>
      have hroom := hS.room (by simp [hpc])
      have hle := hS.takes_le
      simp only [Role.other] at hother hcountOther
      refine ⟨by omega, by omega, ?_, hindex, ?_, ?_, hapart, hrecent⟩
      · rw [hbuffer, hcount, hcountOther, ← hS.meet_put hpc]
        rfl
      · exact fun hq => absurd hparty hq
      · intro hq
        have hstock := hS.stock (hother ▸ hq)
        omega
  | take =>
      have hstock := hS.stock (by simp [hpc])
      have hle := hS.puts_le
      simp only [Role.other] at hother hcountOther
      refine ⟨by omega, by omega, ?_, hindex, ?_, ?_, hapart, hrecent⟩
      · rw [hbuffer, hcount, hcountOther, ← hS.meet_take hpc]
        rfl
      · intro hq
        have hroom := hS.room (hother ▸ hq)
        omega
      · exact fun hq => absurd hparty hq

end Settled
end Smoll.Bank
