/-
# `Smoll.Hal.Secrecy` — what an officer sees

Two runs in which an officer sends the same messages, at the same clock times
where it asks for the date.  The other officers and their messages may differ,
and so may the computer's two descriptions.  The officer cannot tell the runs
apart: the states are `Alike` for it, with

    its own name, life and counter, and the computer's name and status,

and every message keeps them so, its own ones (`Alike.own`) and those of the
others (`Alike.other`).  The descriptions are in no reply, as
`Authorization` never proceeds (`getMissionPurpose_unreached`).
-/
import Smoll.Hal.Lives
import Smoll.Lib.Unwinding

namespace Smoll.Hal

open Crew Logger

variable {Officer : Type} [DecidableEq Officer]

/-! ## The guarded methods are never run -/

omit [DecidableEq Officer] in
theorem crewGettingMissionPurpose_blocks (officer : Officer) :
    (Authorization.crewGettingMissionPurpose officer).Blocks := fun _ _ => rfl

theorem crewRequestingOnBoardComputerShutdown_blocks (clock : Clock) (officer : Officer) :
    (Authorization.crewRequestingOnBoardComputerShutdown clock officer).Blocks := fun _ _ => rfl

omit [DecidableEq Officer] in
/-- Whatever `getMissionPurpose` would answer, a crew member is answered the same. -/
theorem getMissionPurpose_unreached (clock : Clock) (officer : Officer)
    (body : StateM (World Officer) (Option String)) :
    whatIsPurposeOfMission clock officer =
      weave [crewGettingOnBoardComputerInfo clock "getMissionPurpose",
        LifeSupport.stringCrewMessages clock officer,
        Authorization.crewGettingMissionPurpose officer] body :=
  weave_of_blocking (crewGettingMissionPurpose_blocks officer)
    [crewGettingOnBoardComputerInfo clock "getMissionPurpose",
      LifeSupport.stringCrewMessages clock officer] [] [] OnBoardComputer.getMissionPurpose body

/-- Whatever `shutDown` would do, a crew member's request does the same. -/
theorem shutDown_unreached (clock : Clock) (officer : Officer)
    (body : StateM (World Officer) Unit) :
    shutDownSystem clock officer =
      weave [crewGettingOnBoardComputerInfo clock "shutDown",
        LifeSupport.voidCrewMessages clock officer,
        Authorization.crewRequestingOnBoardComputerShutdown clock officer] body :=
  weave_of_blocking (crewRequestingOnBoardComputerShutdown_blocks clock officer)
    [crewGettingOnBoardComputerInfo clock "shutDown",
      LifeSupport.voidCrewMessages clock officer] [] [] OnBoardComputer.shutDown body

/-! ## Observations -/

/-- What an officer sees of its message: the reply, the lines on the console, and whether it is
still alive. -/
structure Sight where
  reply : Reply
  console : List String
  alive : Bool
  deriving DecidableEq, Repr

def sight (w : World Officer) (e : Event Officer) : Sight where
  reply := (deliver w e).1
  console := (deliver w e).2.console.drop w.console.length
  alive := (deliver w e).2.isAlive e.officer

/-- A message, with the time at which the date is asked for. -/
def Event.asked (e : Event Officer) : Message × Option Date :=
  match e.message with
  | .getSystemDate => (.getSystemDate, some e.clock.date)
  | msg => (msg, none)

omit [DecidableEq Officer] in
theorem asked_message (e : Event Officer) : e.asked.1 = e.message := by
  unfold Event.asked
  cases e.message <;> rfl

omit [DecidableEq Officer] in
theorem asked_date {e : Event Officer} (h : e.message = .getSystemDate) :
    e.asked.2 = some e.clock.date := by
  simp only [Event.asked, h]

/-- The officer's own messages. -/
def own (officer : Officer) (e : Event Officer) : Option (Message × Option Date) :=
  if e.officer = officer then some e.asked else none

/-- What an officer sees in a run, message by message. -/
def sights (officer : Officer) (w : World Officer) (es : List (Event Officer)) : List Sight :=
  observe (fun w e => (deliver w e).2) (own officer) sight w es

/-! ## Alike for an officer -/

/-- An officer has no means to tell two worlds apart. -/
structure Alike (officer : Officer) (w w' : World Officer) : Prop where
  name : w.name officer = w'.name officer
  alive : w.isAlive officer = w'.isAlive officer
  counter : w.shutdownRequestsCounter officer = w'.shutdownRequestsCounter officer
  computer : w.system.super.name = w'.system.super.name
  active : w.system.super.active = w'.system.super.active

/-- The console line of an officer's request. -/
def retort (requests : Nat) (name : String) : List String :=
  if requests = 1 then ["Can’t do that " ++ name ++ "."]
  else if requests = 2 then ["Can’t do that " ++ name ++ " and do not ask me again."]
  else if requests = 3 then ["You are being retired " ++ name ++ "."]
  else []

theorem requested_console (w : World Officer) (clock : Clock) (officer : Officer) :
    (w.requested clock officer).console =
      w.console ++ retort ((w.shutdownRequestsCounter officer).getD 0 + 1) (w.name officer) := by
  simp only [World.requested, retort]
  split_ifs
  · rfl
  · rfl
  · rfl
  · exact (List.append_nil _).symm

theorem requested_name (w : World Officer) (clock : Clock) (officer : Officer) :
    (w.requested clock officer).name = w.name := by
  simp only [World.requested]
  split_ifs <;> rfl

/-- Nobody changes a name. -/
theorem deliver_name (w : World Officer) (e : Event Officer) :
    (deliver w e).2.name = w.name := by
  rcases deliver_cases w e with hheard | ⟨_, _, hrequested⟩
  · rw [hheard]
    rfl
  · rw [hrequested]
    exact requested_name ..

/-- A message of another officer touches neither the officer's life nor its counter. -/
theorem deliver_of_ne (w : World Officer) {officer : Officer} {e : Event Officer}
    (hne : officer ≠ e.officer) :
    (deliver w e).2.isAlive officer = w.isAlive officer ∧
      (deliver w e).2.shutdownRequestsCounter officer = w.shutdownRequestsCounter officer := by
  rcases deliver_cases w e with hheard | ⟨_, _, hrequested⟩
  · rw [hheard]
    exact ⟨rfl, rfl⟩
  · rw [hrequested, requested_isAlive, requested_counter]
    constructor
    · split_ifs with hthree
      · exact Function.update_of_ne hne ..
      · rfl
    · exact Function.update_of_ne hne ..

namespace Alike

variable {officer : Officer} {w w' : World Officer}

omit [DecidableEq Officer] in
theorem symm (h : Alike officer w w') : Alike officer w' w :=
  ⟨h.name.symm, h.alive.symm, h.counter.symm, h.computer.symm, h.active.symm⟩

/-- Another officer's message. -/
theorem other (h : Alike officer w w') {e : Event Officer} (hne : officer ≠ e.officer) :
    Alike officer (deliver w e).2 w' := by
  rcases deliver_of_ne w hne with ⟨halive, hcounter⟩
  refine ⟨?_, ?_, ?_, ?_, ?_⟩
  · rw [deliver_name]
    exact h.name
  · rw [halive]
    exact h.alive
  · rw [hcounter]
    exact h.counter
  · rw [deliver_system]
    exact h.computer
  · rw [deliver_system]
    exact h.active

/-- The officer's own request. -/
theorem requested (h : Alike officer w w') (clock clock' : Clock) :
    Alike officer (w.requested clock officer) (w'.requested clock' officer) := by
  refine ⟨?_, ?_, ?_, ?_, ?_⟩
  · rw [requested_name, requested_name]
    exact h.name
  · rw [requested_isAlive, requested_isAlive, ← h.counter]
    split_ifs with hthree
    · rw [Function.update_self, Function.update_self]
    · exact h.alive
  · rw [requested_counter, requested_counter, ← h.counter, Function.update_self,
      Function.update_self]
  · rw [requested_system, requested_system]
    exact h.computer
  · rw [requested_system, requested_system]
    exact h.active

omit [DecidableEq Officer] in
/-- The log is not read. -/
theorem heard (h : Alike officer w w') (clock clock' : Clock) (method : String) :
    Alike officer (w.heard clock officer method) (w'.heard clock' officer method) :=
  ⟨h.name, h.alive, h.counter, h.computer, h.active⟩

/-- The answer to a living officer: the reply, the lines on the console, and what is after. -/
theorem answered (h : Alike officer w w') {clock clock' : Clock} {msg : Message}
    (hdate : msg = .getSystemDate → clock.date = clock'.date) :
    (w.answered clock officer msg).1 = (w'.answered clock' officer msg).1 ∧
      Alike officer (w.answered clock officer msg).2 (w'.answered clock' officer msg).2 ∧
      ∃ lines, (w.answered clock officer msg).2.console = w.console ++ lines ∧
        (w'.answered clock' officer msg).2.console = w'.console ++ lines := by
  have hquiet : ∃ lines : List String, w.console = w.console ++ lines ∧
      w'.console = w'.console ++ lines :=
    ⟨[], (List.append_nil _).symm, (List.append_nil _).symm⟩
  cases msg with
  | getSystemStatus =>
      refine ⟨?_, h, hquiet⟩
      simp only [World.answered, h.computer, h.active]
  | getSystemDate =>
      refine ⟨?_, h, hquiet⟩
      simp only [World.answered, hdate rfl]
  | whatIsPurposeOfMission =>
      refine ⟨?_, h, hquiet⟩
      simp only [World.answered, h.name]
  | shutDownSystem =>
      refine ⟨rfl, h.requested clock clock', ?_⟩
      refine ⟨retort ((w.shutdownRequestsCounter officer).getD 0 + 1) (w.name officer),
        requested_console .., ?_⟩
      rw [h.counter, h.name]
      exact requested_console ..

/-- The same for any message of the officer, dead or alive. -/
theorem delivered (h : Alike officer w w') {e e' : Event Officer} (he : e.officer = officer)
    (he' : e'.officer = officer) (hmsg : e'.message = e.message)
    (hdate : e.message = .getSystemDate → e.clock.date = e'.clock.date) :
    (deliver w e).1 = (deliver w' e').1 ∧ Alike officer (deliver w e).2 (deliver w' e').2 ∧
      ∃ lines, (deliver w e).2.console = w.console ++ lines ∧
        (deliver w' e').2.console = w'.console ++ lines := by
  have hheard := h.heard e.clock e'.clock e.message.method
  cases halive : w.isAlive officer with
  | true =>
      have hanswer := deliver_alive (w := w) (e := e) (by rw [he, halive])
      have hanswer' := deliver_alive (w := w') (e := e') (by rw [he', ← h.alive, halive])
      rw [hanswer, hanswer', hmsg, he, he']
      exact hheard.answered hdate
  | false =>
      have hdead := deliver_dead (w := w) (e := e) (by rw [he, halive])
      have hdead' := deliver_dead (w := w') (e := e') (by rw [he', ← h.alive, halive])
      rw [hdead, hdead', hmsg, he, he']
      exact ⟨rfl, hheard, [], (List.append_nil _).symm, (List.append_nil _).symm⟩

/-- The officer's own message: the same sight, and still alike. -/
theorem own (h : Alike officer w w') {e e' : Event Officer} (he : e.officer = officer)
    (he' : e'.officer = officer) (hasked : e.asked = e'.asked) :
    sight w e = sight w' e' ∧ Alike officer (deliver w e).2 (deliver w' e').2 := by
  have hmsg : e'.message = e.message := by rw [← asked_message, ← asked_message, hasked]
  have hdate : e.message = .getSystemDate → e.clock.date = e'.clock.date := by
    intro hmsg'
    have hsome : some e.clock.date = some e'.clock.date := by
      rw [← asked_date hmsg', ← asked_date (hmsg.trans hmsg'), hasked]
    exact Option.some.inj hsome
  rcases h.delivered he he' hmsg hdate with ⟨hreply, hnext, lines, hlines, hlines'⟩
  refine ⟨?_, hnext⟩
  simp only [sight, hreply, hlines, hlines', List.drop_left]
  rw [he, he', hnext.alive]

end Alike

theorem alike_unwinds (officer : Officer) :
    Unwinds (fun w e => (deliver w e).2) (Smoll.Hal.own officer) sight (Alike officer) where
  symm h := h.symm
  unseen := by
    intro w w' e h he
    rcases Decidable.em (e.officer = officer) with heq | hne
    · rw [own, if_pos heq] at he
      cases he
    · exact h.other fun heq => hne heq.symm
  seen := by
    intro w w' e e' k h he he'
    rcases Decidable.em (e.officer = officer) with heq | hne
    · rcases Decidable.em (e'.officer = officer) with heq' | hne'
      · rw [own, if_pos heq] at he
        rw [own, if_pos heq'] at he'
        exact h.own heq heq' (Option.some.inj (he.trans he'.symm))
      · rw [own, if_neg hne'] at he'
        cases he'
    · rw [own, if_neg hne] at he
      cases he

/-! ## Two runs -/

/-- The world with other descriptions. -/
def World.describe (w : World Officer) (superDescription description : String) : World Officer :=
  { w with
    system := ⟨{ w.system.super with description := superDescription }, description⟩ }

/-- **What an officer sees depends on nothing but its own messages.**  And the reply to
`whatIsPurposeOfMission` is the same under any description of the mission. -/
theorem crew_sees_own_messages (officer : Officer) (computer : String)
    (superDescription superDescription' description description' : String)
    (name name' : Officer → String) (hname : name officer = name' officer)
    (es es' : List (Event Officer))
    (hsame : es.filterMap (own officer) = es'.filterMap (own officer)) :
    sights officer (World.start computer superDescription description name) es =
        sights officer (World.start computer superDescription' description' name') es' ∧
      ∀ (w : World Officer) (e : Event Officer) (secret secret' : String),
        e.message = .whatIsPurposeOfMission →
          (deliver (w.describe secret secret') e).1 = (deliver w e).1 := by
  constructor
  · have halike : Alike officer (World.start computer superDescription description name)
        (World.start computer superDescription' description' name') :=
      ⟨hname, rfl, rfl, rfl, rfl⟩
    exact (alike_unwinds officer).observe_eq es es' halike hsame
  · intro w e secret secret' hmsg
    have halike : Alike e.officer (w.describe secret secret') w := ⟨rfl, rfl, rfl, rfl, rfl⟩
    exact (halike.delivered rfl rfl rfl fun _ => rfl).1

/-- David's question and request, with Frank's messages in between, and without them in a
world with other secrets. -/
theorem crew_sees_own_messages_david :
    sights true (World.start "HAL" "Monolith" "Relay" fun _ => "David")
        [⟨true, .whatIsPurposeOfMission, ⟨0, 0, 0, ⟨1, 2001, 1, 1, 1⟩⟩⟩,
          ⟨false, .shutDownSystem, ⟨1, 1, 1, ⟨1, 2001, 1, 1, 1⟩⟩⟩,
          ⟨true, .shutDownSystem, ⟨2, 2, 2, ⟨1, 2001, 1, 1, 1⟩⟩⟩] =
      sights true (World.start "HAL" "Jupiter" "" fun _ => "David")
        [⟨true, .whatIsPurposeOfMission, ⟨5, 5, 5, ⟨1, 2001, 1, 1, 2⟩⟩⟩,
          ⟨true, .shutDownSystem, ⟨6, 6, 6, ⟨1, 2001, 1, 1, 2⟩⟩⟩] := by
  refine (crew_sees_own_messages true "HAL" "Monolith" "Jupiter" "Relay" "" (fun _ => "David")
    (fun _ => "David") rfl _ _ ?_).1
  simp [own, Event.asked]

end Smoll.Hal
