/-
# `Smoll.TimeLimit.Thread` — a `TimeoutThread` and the caller that stops it

The thread runs one `wait`, statement by statement; the caller starts it and
may then `stop` it at any moment and as often as it likes (`__exit__` is one
more `stop`).  Time passes by `elapse`.

`stop` sets the event, and the event is made by the other party, as the first
thing the thread does.  A `stop` before that finds no `_event`, does nothing,
and is forgotten: the `wait` that follows runs to its limit.  A `stop` that
finds the event is kept (`stop_kept_iff`).

`hasattr` and `_event.set()` are one move here: no `_event` ever goes away, so
a caller that is held up between them is a caller that calls `stop` later.
-/
import Smoll.Lib.Sched
import Smoll.TimeLimit.Wait
import Mathlib.Algebra.Order.Ring.Rat

namespace Smoll.TimeLimit

open Sched Timeout

/-! ## The source -/

/-- Where the thread is in its `wait`. -/
inductive Pc where
  | unstarted
  | createEvent
  | activate
  | enter
  | waiting
  | check (success : Bool)
  | record (success : Bool)
  | deactivate
  | finished
  | raised (e : TimeLimitExpired)
  deriving DecidableEq

/-- The thread with its `Timeout`; `deadline` is set when `_event.wait(secs)` is called. -/
structure State where
  timeout : Timeout
  secs : ℚ
  now : ℚ
  deadline : Option ℚ
  pc : Pc

def State.init (raise_e : Bool) (secs : ℚ) : State :=
  { timeout := .init raise_e, secs, now := 0, deadline := none, pc := .unstarted }

/-- The limit of the wait has elapsed. -/
def State.limitElapsed (s : State) : Prop := ∃ d, s.deadline = some d ∧ d ≤ s.now

instance State.decidableLimitElapsed (s : State) : Decidable s.limitElapsed :=
  decidable_of_iff (s.deadline.any fun d => decide (d ≤ s.now)) (by
    simp [limitElapsed, Option.any_eq_true])

/-- The next statement of the thread. In `_event.wait(secs)` it goes on when the event is set,
or else when the limit has elapsed. -/
def background (s : State) : Option State :=
  match s.pc with
  | .unstarted => none
  | .createEvent => some { s with timeout := s.timeout.createEvent, pc := .activate }
  | .activate => some { s with timeout := s.timeout.activate, pc := .enter }
  | .enter => some { s with deadline := some (s.now + s.secs), pc := .waiting }
  | .waiting =>
      if s.timeout._event = some true then some { s with pc := .check true }
      else if s.limitElapsed then some { s with pc := .check false }
      else none
  | .check success =>
      if !success && s.timeout.raise_e then some { s with pc := .raised ⟨s.secs⟩ }
      else some { s with pc := .record success }
  | .record success => some { s with timeout := s.timeout.record success, pc := .deactivate }
  | .deactivate => some { s with timeout := s.timeout.deactivate, pc := .finished }
  | .finished => none
  | .raised _ => none

inductive Move where
  | start
  | stop
  | background
  | elapse (dt : ℚ)

def step : Move → State → Option State
  | .start, s => if s.pc = .unstarted then some { s with pc := .createEvent } else none
  | .stop, s => if s.pc = .unstarted then none else some { s with timeout := s.timeout.stop }
  | .background, s => TimeLimit.background s
  | .elapse dt, s => if 0 ≤ dt then some { s with now := s.now + dt } else none

/-! ## What a move does -/

/-- The moves, one rule for each. -/
inductive Takes : Move → State → State → Prop
  | start {t secs now d} : Takes .start ⟨t, secs, now, d, .unstarted⟩ ⟨t, secs, now, d, .createEvent⟩
  | stop {t secs now d pc} : pc ≠ .unstarted →
      Takes .stop ⟨t, secs, now, d, pc⟩ ⟨t.stop, secs, now, d, pc⟩
  | elapse {t secs now d pc dt} : 0 ≤ dt →
      Takes (.elapse dt) ⟨t, secs, now, d, pc⟩ ⟨t, secs, now + dt, d, pc⟩
  | createEvent {t secs now d} :
      Takes .background ⟨t, secs, now, d, .createEvent⟩ ⟨t.createEvent, secs, now, d, .activate⟩
  | activate {t secs now d} :
      Takes .background ⟨t, secs, now, d, .activate⟩ ⟨t.activate, secs, now, d, .enter⟩
  | enter {t secs now d} :
      Takes .background ⟨t, secs, now, d, .enter⟩ ⟨t, secs, now, some (now + secs), .waiting⟩
  | woken {t secs now d} : t._event = some true →
      Takes .background ⟨t, secs, now, d, .waiting⟩ ⟨t, secs, now, d, .check true⟩
  | timedOut {t secs now d} : t._event ≠ some true → d ≤ now →
      Takes .background ⟨t, secs, now, some d, .waiting⟩ ⟨t, secs, now, some d, .check false⟩
  | raises {t secs now d} : t.raise_e = true →
      Takes .background ⟨t, secs, now, d, .check false⟩ ⟨t, secs, now, d, .raised ⟨secs⟩⟩
  | passes {t secs now d success} : (success = false → t.raise_e = false) →
      Takes .background ⟨t, secs, now, d, .check success⟩ ⟨t, secs, now, d, .record success⟩
  | record {t secs now d success} :
      Takes .background ⟨t, secs, now, d, .record success⟩
        ⟨t.record success, secs, now, d, .deactivate⟩
  | deactivate {t secs now d} :
      Takes .background ⟨t, secs, now, d, .deactivate⟩ ⟨t.deactivate, secs, now, d, .finished⟩

theorem takes_of_background {s s' : State} (h : TimeLimit.background s = some s') :
    Takes .background s s' := by
  rcases s with ⟨t, secs, now, d, pc⟩
  cases pc with
  | unstarted => cases h
  | createEvent => cases h; exact .createEvent
  | activate => cases h; exact .activate
  | enter => cases h; exact .enter
  | waiting =>
      simp only [TimeLimit.background] at h
      split at h
      · next hevent => cases h; exact .woken hevent
      · next hevent =>
          split at h
          · next hlimit =>
              rcases hlimit with ⟨d', hd, hle⟩
              cases h
              cases hd
              exact .timedOut hevent hle
          · cases h
  | check success =>
      simp only [TimeLimit.background] at h
      cases success with
      | true => cases h; exact .passes fun hs => by cases hs
      | false =>
          split at h
          · next hraise => cases h; exact .raises hraise
          · next hraise =>
              cases h
              exact .passes fun _ => Bool.eq_false_iff.mpr hraise
  | record success => cases h; exact .record
  | deactivate => cases h; exact .deactivate
  | finished => cases h
  | raised e => cases h

theorem takes_of_step {m : Move} {s s' : State} (h : step m s = some s') : Takes m s s' := by
  rcases s with ⟨t, secs, now, d, pc⟩
  cases m with
  | start =>
      simp only [step] at h
      split at h
      · next hpc => cases h; cases hpc; exact .start
      · cases h
  | stop =>
      simp only [step] at h
      split at h
      · cases h
      · next hpc => cases h; exact .stop hpc
  | background => exact takes_of_background h
  | elapse dt =>
      simp only [step] at h
      split at h
      · next hdt => cases h; exact .elapse hdt
      · cases h

/-! ## Nothing expires before the limit -/

/-- Past the first statement of `wait`. -/
def Pc.hasEvent : Pc → Bool
  | .unstarted | .createEvent => false
  | _ => true

/-- `_event.wait(secs)` has been called. -/
def Pc.timed : Pc → Bool
  | .unstarted | .createEvent | .activate | .enter => false
  | _ => true

/-- `_event.wait(secs)` has returned `False`. -/
def Pc.late : Pc → Bool
  | .check success | .record success => !success
  | .raised _ => true
  | _ => false

/-- The event and the deadline are there from the statements on that set them, and nothing
expires before the limit. -/
structure Sound (s : State) : Prop where
  event : s.timeout._event.isSome = s.pc.hasEvent
  deadline : s.deadline.isSome = s.pc.timed
  limit : s.timeout.expired = true ∨ s.pc.late = true → s.limitElapsed

theorem sound_init (raise_e : Bool) (secs : ℚ) : Sound (.init raise_e secs) where
  event := rfl
  deadline := rfl
  limit := by
    rintro (h | h)
    · cases h
    · cases h

theorem isSome_stop (t : Timeout) : t.stop._event.isSome = t._event.isSome :=
  Option.isSome_map

theorem Sound.takes {m : Move} {s s' : State} (h : Sound s) (hm : Takes m s s') : Sound s' := by
  cases hm with
  | start => exact ⟨h.event, h.deadline, h.limit⟩
  | stop _ => exact ⟨(isSome_stop _).trans h.event, h.deadline, h.limit⟩
  | elapse hdt =>
      refine ⟨h.event, h.deadline, fun hexp => ?_⟩
      rcases h.limit hexp with ⟨d, hd, hle⟩
      exact ⟨d, hd, hle.trans (le_add_of_nonneg_right hdt)⟩
  | createEvent => exact ⟨rfl, h.deadline, h.limit⟩
  | activate => exact ⟨h.event, h.deadline, h.limit⟩
  | enter =>
      refine ⟨h.event, rfl, fun hexp => ?_⟩
      rcases h.limit hexp with ⟨d, hd, _⟩
      have hnone := h.deadline
      rw [hd] at hnone
      cases hnone
  | woken _ => exact ⟨h.event, h.deadline, h.limit⟩
  | timedOut _ hle => exact ⟨h.event, h.deadline, fun _ => ⟨_, rfl, hle⟩⟩
  | raises _ => exact ⟨h.event, h.deadline, h.limit⟩
  | passes _ => exact ⟨h.event, h.deadline, h.limit⟩
  | record =>
      refine ⟨h.event, h.deadline, fun hexp => h.limit (.inr ?_)⟩
      rcases hexp with hexp | hexp
      · exact hexp
      · cases hexp
  | deactivate => exact ⟨h.event, h.deadline, h.limit⟩

theorem sound_of_reaches {raise_e : Bool} {secs : ℚ} {s : State}
    (h : Reaches step (.init raise_e secs) s) : Sound s :=
  h.invariant (fun hs hstep => hs.takes (takes_of_step hstep)) (sound_init raise_e secs)

/-! ## A stop that finds the event -/

/-- The event is set, and the thread is to find it so. -/
structure Stopped (s : State) : Prop where
  event : s.timeout._event = some true
  hasEvent : s.pc.hasEvent = true
  expired : s.timeout.expired = false
  late : s.pc.late = false

theorem stop_of_event {t : Timeout} (h : t._event = some true) : t.stop._event = some true := by
  rw [stop, h]
  rfl

theorem Stopped.takes {m : Move} {s s' : State} (h : Stopped s) (hm : Takes m s s') :
    Stopped s' := by
  cases hm with
  | start => cases h.hasEvent
  | stop _ => exact ⟨stop_of_event h.event, h.hasEvent, h.expired, h.late⟩
  | elapse _ => exact ⟨h.event, h.hasEvent, h.expired, h.late⟩
  | createEvent => cases h.hasEvent
  | activate => exact ⟨h.event, rfl, h.expired, rfl⟩
  | enter => exact ⟨h.event, rfl, h.expired, rfl⟩
  | woken _ => exact ⟨h.event, rfl, h.expired, rfl⟩
  | timedOut hevent _ => exact absurd h.event hevent
  | raises _ => cases h.late
  | passes _ => exact ⟨h.event, rfl, h.expired, h.late⟩
  | record => exact ⟨h.event, rfl, h.late, rfl⟩
  | deactivate => exact ⟨h.event, rfl, h.expired, rfl⟩

/-- The wait ends because of the stop: `expired` is `False`, nothing is raised, and a thread
that waits goes on at once, with success. -/
structure EndsByStop (s : State) : Prop where
  expired : s.timeout.expired = false
  quiet : ∀ e, s.pc ≠ .raised e
  wakes : s.pc = .waiting → step .background s = some { s with pc := .check true }

theorem Stopped.ends {s : State} (h : Stopped s) : EndsByStop s where
  expired := h.expired
  quiet := by
    intro e he
    have hlate := h.late
    rw [he] at hlate
    cases hlate
  wakes := by
    intro hpc
    rw [step, background, hpc]
    exact if_pos h.event

/-- The state a kept stop leaves. -/
theorem Sound.stopped {s : State} (h : Sound s) (hlimit : ¬ s.limitElapsed)
    (hevent : s.timeout._event.isSome = true) :
    Stopped { s with timeout := s.timeout.stop } where
  event := by
    rcases Option.isSome_iff_exists.mp hevent with ⟨flag, hflag⟩
    show s.timeout._event.map _ = _
    rw [hflag]
    rfl
  hasEvent := h.event.symm.trans hevent
  expired := Bool.eq_false_iff.mpr fun hexp => hlimit (h.limit (.inl hexp))
  late := Bool.eq_false_iff.mpr fun hlate => hlimit (h.limit (.inr hlate))

/-! ## A stop that does not -/

theorem Pc.eq_createEvent {pc : Pc} (hpc : pc ≠ .unstarted) (h : pc.hasEvent = false) :
    pc = .createEvent := by
  cases pc with
  | unstarted => exact absurd rfl hpc
  | createEvent => rfl
  | _ => cases h

/-- From its first statement on, the wait may run to its limit. -/
theorem runs_to_limit {s : State} (hpc : s.pc = .createEvent) :
    ∃ u, Reaches step s u ∧ ¬ EndsByStop u := by
  rcases s with ⟨t, secs, now, d, pc⟩
  cases hpc
  let t' := t.createEvent.activate
  let late := now + max secs 0
  have hcreate : step .background ⟨t, secs, now, d, .createEvent⟩ =
      some ⟨t.createEvent, secs, now, d, .activate⟩ := rfl
  have hactivate : step .background ⟨t.createEvent, secs, now, d, .activate⟩ =
      some ⟨t', secs, now, d, .enter⟩ := rfl
  have henter : step .background ⟨t', secs, now, d, .enter⟩ =
      some ⟨t', secs, now, some (now + secs), .waiting⟩ := rfl
  have helapse : step (.elapse (max secs 0)) ⟨t', secs, now, some (now + secs), .waiting⟩ =
      some ⟨t', secs, late, some (now + secs), .waiting⟩ := if_pos (le_max_right _ _)
  have hlimit : State.limitElapsed ⟨t', secs, late, some (now + secs), .waiting⟩ :=
    ⟨_, rfl, add_le_add_right (le_max_left secs 0) now⟩
  have hcheck : step .background ⟨t', secs, late, some (now + secs), .waiting⟩ =
      some ⟨t', secs, late, some (now + secs), .check false⟩ := if_pos hlimit
  have hwait : Reaches step ⟨t, secs, now, d, .createEvent⟩
      ⟨t', secs, late, some (now + secs), .check false⟩ :=
    (((((Reaches.refl _).tail hcreate).tail hactivate).tail henter).tail helapse).tail hcheck
  cases hraise : t.raise_e with
  | true =>
      have hraised : step .background ⟨t', secs, late, some (now + secs), .check false⟩ =
          some ⟨t', secs, late, some (now + secs), .raised ⟨secs⟩⟩ := if_pos hraise
      exact ⟨_, hwait.tail hraised, fun h => h.quiet _ rfl⟩
  | false =>
      have hpass : step .background ⟨t', secs, late, some (now + secs), .check false⟩ =
          some ⟨t', secs, late, some (now + secs), .record false⟩ :=
        if_neg (Bool.eq_false_iff.mp hraise)
      have hrecord : step .background ⟨t', secs, late, some (now + secs), .record false⟩ =
          some ⟨t'.record false, secs, late, some (now + secs), .deactivate⟩ := rfl
      refine ⟨_, (hwait.tail hpass).tail hrecord, fun h => ?_⟩
      cases h.expired

theorem step_stop {s s' : State} (h : step .stop s = some s') :
    s.pc ≠ .unstarted ∧ s' = { s with timeout := s.timeout.stop } := by
  cases takes_of_step h with
  | stop hpc => exact ⟨hpc, rfl⟩

/-- **A stop is kept exactly if it finds the event.**  Once the thread is started and as long
as the limit has not elapsed, a `stop` ends the wait in every run that follows if and only if
the thread has made its `_event` by then. -/
theorem stop_kept_iff (raise_e : Bool) (secs : ℚ) {s s' : State}
    (h : Reaches step (.init raise_e secs) s) (hlimit : ¬ s.limitElapsed)
    (hstop : step .stop s = some s') :
    (∀ u, Reaches step s' u → EndsByStop u) ↔ s.timeout._event.isSome = true := by
  have hsound := sound_of_reaches h
  rcases step_stop hstop with ⟨hpc, rfl⟩
  constructor
  · intro hkept
    by_contra hnone
    have hevent : s.pc.hasEvent = false := hsound.event.symm.trans (Bool.eq_false_iff.mpr hnone)
    rcases runs_to_limit (s := { s with timeout := s.timeout.stop })
      (Pc.eq_createEvent hpc hevent) with ⟨u, hu, hlost⟩
    exact hlost (hkept u hu)
  · intro hevent u hu
    have hstopped : Stopped u :=
      hu.invariant (fun hs hstep => hs.takes (takes_of_step hstep))
        (hsound.stopped hlimit hevent)
    exact hstopped.ends

/-- A thread that has just made its event, and the state after a stop there. -/
theorem stop_kept_early :
    ∃ s s', Reaches step (.init false 1) s ∧ step .stop s = some s' ∧
      ∀ u, Reaches step s' u → EndsByStop u := by
  let t : Timeout := .init false
  have hstart : step .start (.init false 1) = some ⟨t, 1, 0, none, .createEvent⟩ := rfl
  have hcreate : step .background ⟨t, 1, 0, none, .createEvent⟩ =
      some ⟨t.createEvent, 1, 0, none, .activate⟩ := rfl
  have hstop : step .stop ⟨t.createEvent, 1, 0, none, .activate⟩ =
      some ⟨t.createEvent.stop, 1, 0, none, .activate⟩ := rfl
  have hreach := ((Reaches.refl _).tail hstart).tail hcreate
  have hlimit : ¬ State.limitElapsed ⟨t.createEvent, 1, 0, none, .activate⟩ := by
    rintro ⟨d, hd, _⟩
    cases hd
  exact ⟨_, _, hreach, hstop, (stop_kept_iff false 1 hreach hlimit hstop).mpr rfl⟩

/-- `start`, `stop`, and only then the thread's first statement: the limit of one second is
reached all the same. -/
theorem not_stop_kept :
    ¬ ∀ (raise_e : Bool) (secs : ℚ) (s s' : State), Reaches step (.init raise_e secs) s →
      ¬ s.limitElapsed → step .stop s = some s' → ∀ u, Reaches step s' u → EndsByStop u := by
  intro h
  let t : Timeout := .init false
  have hstart : step .start (.init false 1) = some ⟨t, 1, 0, none, .createEvent⟩ := rfl
  have hstop : step .stop ⟨t, 1, 0, none, .createEvent⟩ =
      some ⟨t.stop, 1, 0, none, .createEvent⟩ := rfl
  have hlimit : ¬ State.limitElapsed ⟨t, 1, 0, none, .createEvent⟩ := by
    rintro ⟨d, hd, _⟩
    cases hd
  rcases runs_to_limit (s := ⟨t.stop, 1, 0, none, .createEvent⟩) rfl with ⟨u, hu, hlost⟩
  exact hlost (h false 1 _ _ ((Reaches.refl _).tail hstart) hlimit hstop u hu)

/-! ## A finished thread has done one `wait` -/

/-- What `run` has come to, once it has. -/
def Pc.outcome : Pc → Option (Option TimeLimitExpired)
  | .finished => some none
  | .raised e => some (some e)
  | _ => none

/-- `active` and `expired` in the course of one `wait` of a new object. -/
inductive InWait (raise_e : Bool) (secs : ℚ) : Pc → Bool → Bool → Prop
  | unstarted : InWait raise_e secs .unstarted false false
  | createEvent : InWait raise_e secs .createEvent false false
  | activate : InWait raise_e secs .activate false false
  | enter : InWait raise_e secs .enter true false
  | waiting : InWait raise_e secs .waiting true false
  | check {success} : InWait raise_e secs (.check success) true false
  | record {success} : (success = false → raise_e = false) →
      InWait raise_e secs (.record success) true false
  | deactivate {success} : (success = false → raise_e = false) →
      InWait raise_e secs .deactivate true (!success)
  | finished {success} : (success = false → raise_e = false) →
      InWait raise_e secs .finished false (!success)
  | raised : raise_e = true → InWait raise_e secs (.raised ⟨secs⟩) true false

/-- The invariant of a thread that was made with these arguments. -/
structure Runs (raise_e : Bool) (secs : ℚ) (s : State) : Prop where
  raises : s.timeout.raise_e = raise_e
  limit : s.secs = secs
  inWait : InWait raise_e secs s.pc s.timeout.active s.timeout.expired

variable {raise_e : Bool} {secs : ℚ}

theorem Runs.takes {m : Move} {s s' : State} (h : Runs raise_e secs s) (hm : Takes m s s') :
    Runs raise_e secs s' := by
  rcases s with ⟨⟨raises, active, expired, event⟩, limit, now, d, pc⟩
  rcases h with ⟨hraises, hlimit, hwait⟩
  cases hm with
  | start => exact ⟨hraises, hlimit, by cases hwait; exact .createEvent⟩
  | stop _ => exact ⟨hraises, hlimit, hwait⟩
  | elapse _ => exact ⟨hraises, hlimit, hwait⟩
  | createEvent => exact ⟨hraises, hlimit, by cases hwait; exact .activate⟩
  | activate => exact ⟨hraises, hlimit, by cases hwait; exact .enter⟩
  | enter => exact ⟨hraises, hlimit, by cases hwait; exact .waiting⟩
  | woken _ => exact ⟨hraises, hlimit, by cases hwait; exact .check⟩
  | timedOut _ _ => exact ⟨hraises, hlimit, by cases hwait; exact .check⟩
  | raises hraise =>
      cases hlimit
      exact ⟨hraises, rfl, by cases hwait; exact .raised (hraises.symm.trans hraise)⟩
  | passes hquiet =>
      refine ⟨hraises, hlimit, ?_⟩
      cases hwait
      exact .record fun hs => hraises.symm.trans (hquiet hs)
  | record =>
      refine ⟨hraises, hlimit, ?_⟩
      cases hwait with
      | record hquiet => exact .deactivate hquiet
  | deactivate =>
      refine ⟨hraises, hlimit, ?_⟩
      cases hwait with
      | deactivate hquiet => exact .finished hquiet

/-- What the thread leaves behind is what one `wait` by itself leaves, for one of the two ways
in which it may end. -/
theorem finished_wait {s : State} {e : Option TimeLimitExpired}
    (h : Reaches step (.init raise_e secs) s) (he : s.pc.outcome = some e) :
    ∃ ended, ((Timeout.init raise_e).wait secs ended).2 = e ∧
      ((Timeout.init raise_e).wait secs ended).1.active = s.timeout.active ∧
      ((Timeout.init raise_e).wait secs ended).1.expired = s.timeout.expired := by
  have hruns : Runs raise_e secs s :=
    h.invariant (fun hs hstep => hs.takes (takes_of_step hstep)) ⟨rfl, rfl, .unstarted⟩
  rcases s with ⟨t, secs', now, d, pc⟩
  rcases t with ⟨raise_e', active, expired, event⟩
  have hwait : InWait raise_e secs pc active expired := hruns.inWait
  cases hwait with
  | @finished success hquiet =>
      cases he
      cases success with
      | true => exact ⟨.stopped, rfl, rfl, rfl⟩
      | false =>
          refine ⟨.limit, ?_⟩
          rw [wait_limit_quiet (hquiet rfl)]
          exact ⟨rfl, rfl, rfl⟩
  | raised hraise =>
      cases he
      refine ⟨.limit, ?_⟩
      rw [wait_limit_raising hraise]
      exact ⟨rfl, rfl, rfl⟩
  | _ => cases he

end Smoll.TimeLimit
