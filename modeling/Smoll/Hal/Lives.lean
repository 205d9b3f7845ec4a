/-
# `Smoll.Hal.Lives` — lives and shutdown requests

What a message does, once and for all (`send_eq`): it is heard, that is
logged twice; a dead officer is refused; a living one gets the answer, or has
the request counted (`World.requested`).

Nobody changes the computer (`deliver_system`).  `Counted` is the invariant of
every run, for each officer, with the number of the officer's own
`shutDownSystem` messages so far:

    alive            as long as there are fewer than three
    counter          their number, three at most

The counter stops at three because the third request kills, and a dead
officer's message does not get as far as the counter.
-/
import Smoll.Hal.Crew
import Mathlib.Tactic.SplitIfs

namespace Smoll.Hal

open Crew Logger

variable {Officer : Type} {ρ : Type}

/-! ## One message -/

/-- The method of the computer that a message calls. -/
def Message.method : Message → String
  | .getSystemStatus => "getStatus"
  | .getSystemDate => "getDate"
  | .whatIsPurposeOfMission => "getMissionPurpose"
  | .shutDownSystem => "shutDown"

/-- What the dead get. -/
def Message.refusal : Message → Reply
  | .getSystemStatus | .getSystemDate | .whatIsPurposeOfMission => .text (some "")
  | .shutDownSystem => .nothing

/-- The line of a message and the line of its life status. -/
def World.heard (w : World Officer) (clock : Clock) (officer : Officer) (method : String) :
    World Officer :=
  { w with
    log := w.log ++ [formatSystemLog clock.message "Crew" w.system.super.name method,
      formatSystemLog clock.lifeStatus "LifeSupport" (w.name officer) "getLifeStatus"] }

/-- A shutdown request of a living officer. -/
def World.requested [DecidableEq Officer] (w : World Officer) (clock : Clock)
    (officer : Officer) : World Officer :=
  let requests := (w.shutdownRequestsCounter officer).getD 0 + 1
  let counted := { w with
    shutdownRequestsCounter := Function.update w.shutdownRequestsCounter officer (some requests) }
  if requests = 1 then
    { counted with console := w.console ++ ["Can’t do that " ++ w.name officer ++ "."] }
  else if requests = 2 then
    { counted with
      console := w.console ++ ["Can’t do that " ++ w.name officer ++ " and do not ask me again."] }
  else if requests = 3 then
    { counted with
      console := w.console ++ ["You are being retired " ++ w.name officer ++ "."]
      log := w.log ++ [formatSystemLog clock.kill "Authorization" (w.name officer) "kill"]
      isAlive := Function.update w.isAlive officer false }
  else counted

/-- What a living officer gets, and the world after it. -/
def World.answered [DecidableEq Officer] (w : World Officer) (clock : Clock)
    (officer : Officer) : Message → Reply × World Officer
  | .getSystemStatus =>
      (.text (if w.system.super.active = true then some (w.system.super.name ++ " is active.")
        else none), w)
  | .getSystemDate => (.text (some clock.date.format), w)
  | .whatIsPurposeOfMission =>
      (.text (some (Authorization.confidential ++ " " ++ w.name officer)), w)
  | .shutDownSystem => (.nothing, w.requested clock officer)

/-- `Logger` and `LifeSupport` around a call. -/
theorem guarded (body : StateM (World Officer) ρ) (clock : Clock) (officer : Officer)
    (method : String) (otherwise : ρ) (w : World Officer) :
    (weave [crewGettingOnBoardComputerInfo clock method,
      LifeSupport.crewMessages clock officer otherwise] body).run w =
      if w.isAlive officer = true then body.run (w.heard clock officer method)
      else (otherwise, w.heard clock officer method) := by
  have hlog : w.log ++ [formatSystemLog clock.message "Crew" w.system.super.name method] ++
        [formatSystemLog clock.lifeStatus "LifeSupport" (w.name officer) "getLifeStatus"] =
      (w.heard clock officer method).log := List.append_assoc ..
  show (if w.isAlive officer = true then body else pure otherwise : StateM (World Officer) ρ).run
    { w with
      log := w.log ++ [formatSystemLog clock.message "Crew" w.system.super.name method] ++
        [formatSystemLog clock.lifeStatus "LifeSupport" (w.name officer) "getLifeStatus"] } = _
  rw [hlog]
  cases w.isAlive officer with
  | true => rfl
  | false => rfl

/-! The rules of the calls' language. -/

theorem run_bind {ρ' : Type} (call : StateM (World Officer) ρ)
    (next : ρ → StateM (World Officer) ρ') (w : World Officer) :
    (call >>= next).run w = (next (call.run w).1).run (call.run w).2 := rfl

theorem run_get (w : World Officer) :
    (get : StateM (World Officer) (World Officer)).run w = (w, w) := rfl

theorem run_pure (result : ρ) (w : World Officer) :
    (pure result : StateM (World Officer) ρ).run w = (result, w) := rfl

theorem run_ite {c : Prop} [Decidable c] (yes no : StateM (World Officer) ρ) (w : World Officer) :
    (if c then yes else no).run w = if c then yes.run w else no.run w := by
  split <;> rfl

/-- The reply made of a call's result. -/
theorem run_map {ρ' : Type} (f : ρ → ρ') (call : StateM (World Officer) ρ) (w : World Officer) :
    (f <$> call).run w = (f (call.run w).1, (call.run w).2) := rfl

theorem getStatus_run (w : World Officer) :
    Computer.getStatus.run w =
      (if w.system.super.active = true then some (w.system.super.name ++ " is active.") else none,
        w) := by
  rcases Decidable.em (w.system.super.active = true) with hactive | hactive
  · simp [Computer.getStatus, hactive]
    rfl
  · simp [Computer.getStatus, hactive]
    rfl

/-- `Authorization` around `getMissionPurpose`, for a living officer. -/
theorem getMissionPurpose_confidential (officer : Officer)
    (body : StateM (World Officer) (Option String)) {w : World Officer}
    (halive : w.isAlive officer = true) :
    ((Authorization.crewGettingMissionPurpose officer).apply body).run w =
      (some (Authorization.confidential ++ " " ++ w.name officer), w) := by
  simp [Advice.apply, Authorization.crewGettingMissionPurpose, getLifeStatus, halive]
  rfl

variable [DecidableEq Officer]

/-- An entry that is there is read and left alone. -/
theorem getShutdownRequestsCounter_run {officer : Officer} {n : Nat} {w : World Officer}
    (h : w.shutdownRequestsCounter officer = some n) :
    (Authorization.getShutdownRequestsCounter officer).run w = (n, w) := by
  simp only [Authorization.getShutdownRequestsCounter, run_bind, run_get, h, run_pure]

/-- `Authorization` around `shutDown`. -/
theorem shutDown_requested (clock : Clock) (officer : Officer) (body : StateM (World Officer) Unit)
    (w : World Officer) :
    ((Authorization.crewRequestingOnBoardComputerShutdown clock officer).apply body).run w =
      ((), w.requested clock officer) := by
  let requests := (w.shutdownRequestsCounter officer).getD 0 + 1
  let counted := { w with
    shutdownRequestsCounter := Function.update w.shutdownRequestsCounter officer (some requests) }
  have hinc : (Authorization.incShutdownRequestsCounter officer).run w = ((), counted) := rfl
  have hget : (Authorization.getShutdownRequestsCounter officer).run counted = (requests, counted) :=
    getShutdownRequestsCounter_run (Function.update_self ..)
  simp only [Advice.apply, Authorization.crewRequestingOnBoardComputerShutdown, World.requested]
  rw [run_bind, hinc, run_bind, run_get, run_bind, hget, run_ite]
  rcases Decidable.em (requests = 1) with hone | hone
  · rw [if_pos hone, if_pos hone]
    rfl
  · rw [if_neg hone, if_neg hone, run_bind, hget, run_ite]
    rcases Decidable.em (requests = 2) with htwo | htwo
    · rw [if_pos htwo, if_pos htwo]
      rfl
    · rw [if_neg htwo, if_neg htwo, run_bind, hget, run_ite]
      rcases Decidable.em (requests = 3) with hthree | hthree
      · rw [if_pos hthree, if_pos hthree]
        rfl
      · rw [if_neg hthree, if_neg hthree]
        rfl

/-- **What a message does.** -/
theorem send_eq (clock : Clock) (officer : Officer) (msg : Message) (w : World Officer) :
    (send clock officer msg).run w =
      if w.isAlive officer = true then
        (w.heard clock officer msg.method).answered clock officer msg
      else (msg.refusal, w.heard clock officer msg.method) := by
  cases msg with
  | getSystemStatus =>
      have hguard := guarded Computer.getStatus clock officer "getStatus" (some "") w
      rw [send, run_map, getSystemStatus, LifeSupport.stringCrewMessages, hguard]
      cases w.isAlive officer with
      | true => rw [if_pos rfl, if_pos rfl, getStatus_run]; rfl
      | false => rfl
  | getSystemDate =>
      have hguard := guarded (Computer.getDate clock) clock officer "getDate" (some "") w
      rw [send, run_map, getSystemDate, LifeSupport.stringCrewMessages, hguard]
      cases w.isAlive officer with
      | true => rfl
      | false => rfl
  | whatIsPurposeOfMission =>
      have hguard := guarded ((Authorization.crewGettingMissionPurpose officer).apply
        OnBoardComputer.getMissionPurpose) clock officer "getMissionPurpose" (some "") w
      have hguard' : (whatIsPurposeOfMission clock officer).run w = _ := hguard
      rw [send, run_map, hguard']
      cases halive : w.isAlive officer with
      | true =>
          have hanswer := getMissionPurpose_confidential (w := w.heard clock officer
            "getMissionPurpose") officer OnBoardComputer.getMissionPurpose halive
          rw [if_pos rfl, if_pos rfl, hanswer]
          rfl
      | false => rfl
  | shutDownSystem =>
      have hguard := guarded ((Authorization.crewRequestingOnBoardComputerShutdown clock officer).apply
        OnBoardComputer.shutDown) clock officer "shutDown" () w
      have hguard' : (shutDownSystem clock officer).run w = _ := hguard
      rw [send, run_map, hguard']
      cases w.isAlive officer with
      | true =>
          rw [if_pos rfl, if_pos rfl, shutDown_requested]
          rfl
      | false => rfl

/-! ## What a request changes -/

theorem requested_system (w : World Officer) (clock : Clock) (officer : Officer) :
    (w.requested clock officer).system = w.system := by
  simp only [World.requested]
  split_ifs <;> rfl

theorem requested_counter (w : World Officer) (clock : Clock) (officer : Officer) :
    (w.requested clock officer).shutdownRequestsCounter =
      Function.update w.shutdownRequestsCounter officer
        (some ((w.shutdownRequestsCounter officer).getD 0 + 1)) := by
  simp only [World.requested]
  split_ifs <;> rfl

theorem requested_isAlive (w : World Officer) (clock : Clock) (officer : Officer) :
    (w.requested clock officer).isAlive =
      if (w.shutdownRequestsCounter officer).getD 0 + 1 = 3 then
        Function.update w.isAlive officer false
      else w.isAlive := by
  simp only [World.requested]
  split_ifs with hone htwo hthree hthree hthree
  · omega
  · rfl
  · omega
  · rfl
  · rfl
  · rfl

/-! ## Runs -/

/-- A message sent. -/
structure Event (Officer : Type) where
  officer : Officer
  message : Message
  clock : Clock

/-- The reply to a message, and the world after it. -/
def deliver (w : World Officer) (e : Event Officer) : Reply × World Officer :=
  (send e.clock e.officer e.message).run w

/-- The world after some messages. -/
def run (w : World Officer) (es : List (Event Officer)) : World Officer :=
  es.foldl (fun w e => (deliver w e).2) w

/-- How many of the messages are an officer's `shutDownSystem`. -/
def shutDowns (officer : Officer) (es : List (Event Officer)) : Nat :=
  es.countP fun e => e.officer = officer ∧ e.message = .shutDownSystem

/-- A dead officer's message is logged and nothing else. -/
theorem deliver_dead {w : World Officer} {e : Event Officer} (h : w.isAlive e.officer = false) :
    deliver w e = (e.message.refusal, w.heard e.clock e.officer e.message.method) := by
  rw [deliver, send_eq, h]
  rfl

theorem deliver_alive {w : World Officer} {e : Event Officer} (h : w.isAlive e.officer = true) :
    deliver w e =
      (w.heard e.clock e.officer e.message.method).answered e.clock e.officer e.message := by
  rw [deliver, send_eq, h]
  rfl

/-- A message changes the world beyond the log only if a living officer asks for a shutdown. -/
theorem deliver_cases (w : World Officer) (e : Event Officer) :
    (deliver w e).2 = w.heard e.clock e.officer e.message.method ∨
      e.message = .shutDownSystem ∧ w.isAlive e.officer = true ∧
        (deliver w e).2 =
          (w.heard e.clock e.officer e.message.method).requested e.clock e.officer := by
  cases halive : w.isAlive e.officer with
  | true =>
      rw [deliver_alive halive]
      cases e.message with
      | getSystemStatus | getSystemDate | whatIsPurposeOfMission => exact Or.inl rfl
      | shutDownSystem => exact Or.inr ⟨rfl, rfl, rfl⟩
  | false =>
      rw [deliver_dead halive]
      exact Or.inl rfl

/-! ## The invariant -/

/-- Nobody changes the computer. -/
theorem deliver_system (w : World Officer) (e : Event Officer) :
    (deliver w e).2.system = w.system := by
  rcases deliver_cases w e with hheard | ⟨_, _, hrequested⟩
  · rw [hheard]
    rfl
  · rw [hrequested]
    exact requested_system ..

theorem run_system (es : List (Event Officer)) :
    ∀ w : World Officer, (run w es).system = w.system := by
  induction es with
  | nil =>
      intro w
      rfl
  | cons e es ih =>
      intro w
      exact (ih (deliver w e).2).trans (deliver_system w e)

/-- The world after `n` of the officer's requests. -/
structure Counted (officer : Officer) (n : Nat) (w : World Officer) : Prop where
  alive : w.isAlive officer = true ↔ n < 3
  counter : (w.shutdownRequestsCounter officer).getD 0 = min 3 n

namespace Counted

variable {officer : Officer} {n : Nat} {w w' : World Officer}

omit [DecidableEq Officer] in
/-- It is about the officer's own life and counter. -/
theorem of_same (h : Counted officer n w)
    (halive : w'.isAlive officer = w.isAlive officer)
    (hcounter : w'.shutdownRequestsCounter officer = w.shutdownRequestsCounter officer) :
    Counted officer n w' := by
  refine ⟨?_, ?_⟩
  · rw [halive]
    exact h.alive
  · rw [hcounter]
    exact h.counter

/-- The officer's own request. -/
theorem requested (h : Counted officer n w) (halive : w.isAlive officer = true) (clock : Clock) :
    Counted officer (n + 1) (w.requested clock officer) := by
  have hn : n < 3 := h.alive.mp halive
  have hcounter : (w.shutdownRequestsCounter officer).getD 0 = n := by
    rw [h.counter]
    omega
  refine ⟨?_, ?_⟩
  · rw [requested_isAlive, hcounter]
    split_ifs with hthree
    · rw [Function.update_self]
      constructor
      · nofun
      · intro hlt
        omega
    · rw [halive]
      constructor
      · intro _
        omega
      · intro _
        rfl
  · rw [requested_counter, Function.update_self, hcounter]
    show n + 1 = min 3 (n + 1)
    omega

/-- Another officer's request. -/
theorem requested_of_ne (h : Counted officer n w) {other : Officer} (hne : officer ≠ other)
    (clock : Clock) : Counted officer n (w.requested clock other) := by
  refine h.of_same ?_ ?_
  · rw [requested_isAlive]
    split_ifs with hthree
    · exact Function.update_of_ne hne ..
    · rfl
  · rw [requested_counter]
    exact Function.update_of_ne hne ..

/-- **One message.** -/
theorem deliver (h : Counted officer n w) (e : Event Officer) :
    Counted officer (n + shutDowns officer [e]) (deliver w e).2 := by
  have hheard : Counted officer n (w.heard e.clock e.officer e.message.method) :=
    h.of_same rfl rfl
  rcases Decidable.em (e.officer = officer ∧ e.message = .shutDownSystem) with hown | hother
  · have hone : shutDowns officer [e] = 1 := by simp [shutDowns, hown]
    rw [hone]
    rcases hown with ⟨hofficer, hmsg⟩
    cases halive : w.isAlive e.officer with
    | true =>
        rw [deliver_alive halive, hmsg]
        rw [hofficer] at halive ⊢
        rw [hofficer, hmsg] at hheard
        exact hheard.requested halive e.clock
    | false =>
        rw [deliver_dead halive]
        have hn : ¬ n < 3 := by
          intro hn
          rw [hofficer, h.alive.mpr hn] at halive
          cases halive
        refine ⟨?_, ?_⟩
        · rw [hheard.alive]
          omega
        · rw [hheard.counter]
          omega
  · have hzero : shutDowns officer [e] = 0 := by simpa [shutDowns] using hother
    rw [hzero]
    rcases deliver_cases w e with hworld | ⟨hmsg, _, hworld⟩
    · rw [hworld]
      exact hheard
    · rw [hworld]
      exact hheard.requested_of_ne (fun heq => hother ⟨heq.symm, hmsg⟩) e.clock

/-- A whole run. -/
theorem run (es : List (Event Officer)) :
    ∀ {n : Nat} {w : World Officer}, Counted officer n w →
      Counted officer (n + shutDowns officer es) (run w es) := by
  induction es with
  | nil =>
      intro n w h
      exact h
  | cons e es ih =>
      intro n w h
      have hsplit : shutDowns officer (e :: es) = shutDowns officer [e] + shutDowns officer es :=
        @List.countP_append _ _ [e] es
      rw [hsplit, ← Nat.add_assoc]
      exact ih (h.deliver e)

end Counted

omit [DecidableEq Officer] in
theorem start_counted (computer superDescription description : String) (name : Officer → String)
    (officer : Officer) :
    Counted officer 0 (World.start computer superDescription description name) :=
  ⟨⟨fun _ => Nat.zero_lt_succ 2, fun _ => rfl⟩, rfl⟩

/-- **Lives and shutdown requests**, after any messages of any officers: the computer is active,
the living are those who asked for less than three shutdowns, and the dead are not answered. -/
theorem lives_and_requests (computer superDescription description : String)
    (name : Officer → String) (es : List (Event Officer)) :
    let w := run (World.start computer superDescription description name) es
    w.system.super.active = true ∧
      (∀ officer, w.isAlive officer = true ↔ shutDowns officer es < 3) ∧
      (∀ officer, (w.shutdownRequestsCounter officer).getD 0 = min 3 (shutDowns officer es)) ∧
      ∀ e, w.isAlive e.officer = false →
        (deliver w e).1 = e.message.refusal ∧
          (deliver w e).2.shutdownRequestsCounter = w.shutdownRequestsCounter ∧
          (deliver w e).2.isAlive = w.isAlive ∧ (deliver w e).2.system = w.system := by
  intro w
  have hcounted : ∀ officer, Counted officer (shutDowns officer es) w := by
    intro officer
    have hrun := (start_counted computer superDescription description name officer).run es
    rw [Nat.zero_add] at hrun
    exact hrun
  refine ⟨?_, fun officer => (hcounted officer).alive, fun officer => (hcounted officer).counter, ?_⟩
  · show (run _ es).system.super.active = true
    rw [run_system]
    rfl
  · intro e hdead
    rw [deliver_dead hdead]
    exact ⟨rfl, rfl, rfl, rfl⟩

end Smoll.Hal
