/-
# `Smoll.TimeLimit.Wait` — a `Timeout` object of `timeout.py`

`wait` sets `active`, waits for its event at most so long, and then raises
`TimeLimitExpired` or records the outcome and clears `active`.  A `wait` that
raises leaves by the exception, before the two flags are written: `active`
stays `True`, and `expired` is what the wait before it left
(`flags_right_iff`).  The next `wait` that does not raise puts both right again.
-/
import Mathlib.Data.List.Infix
import Mathlib.Data.Rat.Defs

namespace Smoll.TimeLimit

/-! ## The source -/

/-- The exception, with its argument. -/
structure TimeLimitExpired where
  secs : ℚ
  deriving DecidableEq

/-- `_event` is an attribute from the first `wait` on; it is its event's flag. -/
structure Timeout where
  raise_e : Bool
  active : Bool
  expired : Bool
  _event : Option Bool
  deriving DecidableEq

namespace Timeout

/-- `Timeout(raise_e)`. -/
def init (raise_e : Bool) : Timeout :=
  { raise_e, active := false, expired := false, _event := none }

/-- `self._event = threading.Event()`. -/
def createEvent (t : Timeout) : Timeout := { t with _event := some false }

/-- `self.active = True`. -/
def activate (t : Timeout) : Timeout := { t with active := true }

/-- `self.expired = (success is False)`. -/
def record (t : Timeout) (success : Bool) : Timeout := { t with expired := !success }

/-- `self.active = False`. -/
def deactivate (t : Timeout) : Timeout := { t with active := false }

/-- `stop`: without an `_event` it does nothing. -/
def stop (t : Timeout) : Timeout := { t with _event := t._event.map fun _ => true }

/-- How `_event.wait(secs)` comes to its end: a `stop` meanwhile, or the limit. -/
inductive Ended where
  | stopped
  | limit
  deriving DecidableEq, Repr

/-- What `_event.wait(secs)` returns. -/
def Ended.success : Ended → Bool
  | stopped => true
  | limit => false

/-- The object while `_event.wait(secs)` comes to its end. -/
def Ended.during (t : Timeout) : Ended → Timeout
  | stopped => t.stop
  | limit => t

/-- After `_event.wait(secs)`: the object, and what is raised. -/
def conclude (t : Timeout) (secs : ℚ) (success : Bool) : Timeout × Option TimeLimitExpired :=
  if !success && t.raise_e then (t, some ⟨secs⟩)
  else ((t.record success).deactivate, none)

def wait (t : Timeout) (secs : ℚ) (ended : Ended) : Timeout × Option TimeLimitExpired :=
  conclude (ended.during t.createEvent.activate) secs ended.success

end Timeout

open Timeout

/-! ## One object in use -/

/-- A completed `wait`, or a `stop` between two of them. -/
inductive Op where
  | wait (secs : ℚ) (ended : Ended)
  | stop
  deriving DecidableEq

def Op.apply (t : Timeout) : Op → Timeout
  | wait secs ended => (t.wait secs ended).1
  | stop => t.stop

/-- A fresh object after these. -/
def after (raise_e : Bool) (ops : List Op) : Timeout := ops.foldl Op.apply (.init raise_e)

/-- How the most recent `wait` ended. -/
def lastWait : List Op → Option Ended
  | [] => none
  | .wait _ ended :: ops => (lastWait ops).or (some ended)
  | .stop :: ops => lastWait ops

/-- The flags an observer may rely on while no `wait` is in progress. -/
structure Right (t : Timeout) (ops : List Op) : Prop where
  active : t.active = false
  expired : t.expired = true ↔ lastWait ops = some .limit

/-- Right after each of the operations; and a `wait` raises exactly if it is set to raise and
reaches its limit. -/
structure FlagsRight (raise_e : Bool) (ops : List Op) : Prop where
  flags : ∀ done, done <+: ops → Right (after raise_e done) done
  raises : ∀ done secs ended, done ++ [.wait secs ended] <+: ops →
    ((after raise_e done).wait secs ended).2 =
      if raise_e = true ∧ ended = .limit then some ⟨secs⟩ else none

/-! ## What an operation does to the flags -/

theorem wait_limit_raising {t : Timeout} (h : t.raise_e = true) (secs : ℚ) :
    t.wait secs .limit = (t.createEvent.activate, some ⟨secs⟩) := by
  show (if t.raise_e then _ else _) = _
  rw [if_pos h]
  rfl

theorem wait_limit_quiet {t : Timeout} (h : t.raise_e = false) (secs : ℚ) :
    t.wait secs .limit = ((t.createEvent.activate.record false).deactivate, none) := by
  show (if t.raise_e then _ else _) = _
  rw [if_neg (Bool.not_eq_true _ ▸ h)]
  rfl

theorem wait_stopped (t : Timeout) (secs : ℚ) :
    t.wait secs .stopped = ((t.createEvent.activate.stop.record true).deactivate, none) := rfl

theorem apply_raise_e (t : Timeout) (op : Op) : (op.apply t).raise_e = t.raise_e := by
  cases op with
  | stop => rfl
  | wait secs ended =>
      cases ended with
      | stopped => rfl
      | limit =>
          cases h : t.raise_e with
          | true =>
              show (t.wait secs .limit).1.raise_e = true
              rw [wait_limit_raising h]
              exact h
          | false =>
              show (t.wait secs .limit).1.raise_e = false
              rw [wait_limit_quiet h]
              exact h

theorem after_concat (raise_e : Bool) (ops : List Op) (op : Op) :
    after raise_e (ops ++ [op]) = op.apply (after raise_e ops) := by
  rw [after, List.foldl_append]
  rfl

theorem after_raise_e (raise_e : Bool) (ops : List Op) : (after raise_e ops).raise_e = raise_e := by
  induction ops using List.reverseRecOn with
  | nil => rfl
  | append_singleton ops op ih =>
      rw [after_concat, apply_raise_e]
      exact ih

theorem lastWait_append (ops ops' : List Op) :
    lastWait (ops ++ ops') = (lastWait ops').or (lastWait ops) := by
  induction ops with
  | nil => rw [List.nil_append, lastWait, Option.or_none]
  | cons op ops ih =>
      cases op with
      | stop => exact ih
      | wait secs ended =>
          rw [List.cons_append, lastWait, ih, lastWait, Option.or_assoc]

/-! ## The flags after any operations -/

/-- What the flags show: nothing wrong, or the traces of a `wait` that raised last. -/
theorem right_iff (raise_e : Bool) (ops : List Op) :
    Right (after raise_e ops) ops ↔ ¬ (raise_e = true ∧ lastWait ops = some .limit) := by
  induction ops using List.reverseRecOn with
  | nil =>
      refine ⟨fun _ h => ?_, fun _ => ⟨rfl, fun h => ?_, fun h => ?_⟩⟩
      · cases h.2
      · cases h
      · cases h
  | append_singleton ops op ih =>
      rw [after_concat, lastWait_append]
      cases op with
      | stop =>
          have hstop : Right ((after raise_e ops).stop) (ops ++ [.stop]) ↔
              Right (after raise_e ops) ops := by
            have hlast : lastWait (ops ++ [.stop]) = lastWait ops := by
              rw [lastWait_append]
              rfl
            constructor
            · intro h
              exact ⟨h.active, hlast ▸ h.expired⟩
            · intro h
              exact ⟨h.active, hlast.symm ▸ h.expired⟩
          exact hstop.trans ih
      | wait secs ended =>
          have hlast : lastWait (ops ++ [.wait secs ended]) = some ended := by
            rw [lastWait_append]
            rfl
          have hraise := after_raise_e raise_e ops
          show Right ((after raise_e ops).wait secs ended).1 _ ↔ ¬ (raise_e = true ∧ some ended = _)
          cases ended with
          | stopped =>
              rw [wait_stopped]
              refine ⟨fun _ h => ?_, fun _ => ⟨rfl, fun h => ?_, fun h => ?_⟩⟩
              · cases h.2
              · cases h
              · rw [hlast] at h
                cases h
          | limit =>
              cases raise_e with
              | true =>
                  rw [wait_limit_raising hraise]
                  refine ⟨fun h => ?_, fun h => absurd ⟨rfl, rfl⟩ h⟩
                  cases h.active
              | false =>
                  rw [wait_limit_quiet hraise]
                  refine ⟨fun _ h => ?_, fun _ => ⟨rfl, fun _ => hlast, fun _ => rfl⟩⟩
                  cases h.1

/-- Raising is as it should be. -/
theorem wait_raises (t : Timeout) (secs : ℚ) (ended : Ended) :
    (t.wait secs ended).2 = if t.raise_e = true ∧ ended = .limit then some ⟨secs⟩ else none := by
  cases ended with
  | stopped => rw [wait_stopped, if_neg fun h => by cases h.2]
  | limit =>
      cases h : t.raise_e with
      | true => rw [wait_limit_raising h, if_pos ⟨rfl, rfl⟩]
      | false => rw [wait_limit_quiet h, if_neg fun h => by cases h.1]

theorem lastWait_eq_some {ops : List Op} {ended : Ended} (h : lastWait ops = some ended) :
    ∃ secs, Op.wait secs ended ∈ ops := by
  induction ops with
  | nil => cases h
  | cons op ops ih =>
      have htail : lastWait ops = some ended → ∃ secs, Op.wait secs ended ∈ op :: ops := by
        intro hops
        rcases ih hops with ⟨secs, hmem⟩
        exact ⟨secs, List.mem_cons_of_mem op hmem⟩
      cases op with
      | stop => exact htail h
      | wait secs ended' =>
          rcases Option.or_eq_some_iff.mp h with hops | ⟨_, hhead⟩
          · exact htail hops
          · cases hhead
            exact ⟨secs, List.mem_cons_self ..⟩

/-- **The flags are right after every wait** exactly if none of the waits raises. -/
theorem flags_right_iff (raise_e : Bool) (ops : List Op) :
    FlagsRight raise_e ops ↔ (raise_e = true → ∀ secs, Op.wait secs .limit ∉ ops) := by
  constructor
  · intro h hraise secs hmem
    rcases List.append_of_mem hmem with ⟨before, behind, rfl⟩
    have hdone : before ++ [.wait secs .limit] <+: before ++ .wait secs .limit :: behind :=
      ⟨behind, by rw [List.append_assoc]; rfl⟩
    refine (right_iff raise_e _).mp (h.flags _ hdone) ⟨hraise, ?_⟩
    rw [lastWait_append]
    rfl
  · intro h
    constructor
    · intro done hdone
      refine (right_iff raise_e done).mpr fun hlast => ?_
      rcases lastWait_eq_some hlast.2 with ⟨secs, hmem⟩
      exact h hlast.1 secs (hdone.mem hmem)
    · intro done secs ended _
      rw [wait_raises, after_raise_e]

/-- One `wait(1)` of a `Timeout(raise_e=True)` that reaches its limit: `active` stays `True`. -/
theorem not_flags_right : ¬ ∀ (raise_e : Bool) (ops : List Op), FlagsRight raise_e ops := by
  intro h
  have hflags := (h true [.wait 1 .limit]).flags [.wait 1 .limit] (List.prefix_refl _)
  cases hflags.active

end Smoll.TimeLimit
