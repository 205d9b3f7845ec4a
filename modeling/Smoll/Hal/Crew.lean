/-
# `Smoll.Hal.Crew` — the on-board computer and its aspects

The crew members send messages to one `OnBoardComputer`; three aspects stand
between them, in this precedence:

    Logger          writes a line for every message, for every time LifeSupport
                    asks for a life status, and for every kill
    LifeSupport     lets a message through when the officer is alive
    Authorization   never lets getMissionPurpose and shutDown through; it counts
                    an officer's shutDown requests and kills at the third

A crew member is an object, known by its identity: `Officer` is any type with
decidable equality, and `HashMap<Crew, Integer>` a map from it.  The clock is
read where the code reads it; its readings come with the message.
-/
import Smoll.Lib.Advice
import Mathlib.Logic.Function.Basic

namespace Smoll.Hal

/-! ## The clock -/

/-- What `new Date()` shows in the default time zone, as far as it is printed. -/
structure Date where
  day : Nat
  year : Nat
  hour : Nat
  minute : Nat
  second : Nat
  deriving DecidableEq, Repr

/-- A number with at least so many digits. -/
def zeroPad (digits n : Nat) : String :=
  let s := toString n
  String.ofList (List.replicate (digits - s.length) '0') ++ s

/-- `hh`, the hour from 1 to 12. -/
def hourInAmPm (hour : Nat) : Nat := if hour % 12 = 0 then 12 else hour % 12

/-- `SimpleDateFormat("dd-mm-yyyy hh:mm:ss")`; `mm` is the minutes both times. -/
def Date.format (d : Date) : String :=
  zeroPad 2 d.day ++ "-" ++ zeroPad 2 d.minute ++ "-" ++ zeroPad 4 d.year ++ " " ++
    zeroPad 2 (hourInAmPm d.hour) ++ ":" ++ zeroPad 2 d.minute ++ ":" ++ zeroPad 2 d.second

/-- The readings of the clock during one message: `System.currentTimeMillis()` for each of the
three lines it may log, and `new Date()`. -/
structure Clock where
  message : Nat
  lifeStatus : Nat
  kill : Nat
  date : Date

/-! ## The objects -/

structure Computer where
  active : Bool
  name : String
  description : String
  deriving DecidableEq, Repr

/-- Its own `description` hides the one of `Computer`. -/
structure OnBoardComputer where
  super : Computer
  description : String
  deriving DecidableEq, Repr

/-- Everything the program reads and writes. -/
structure World (Officer : Type) where
  system : OnBoardComputer
  name : Officer → String
  isAlive : Officer → Bool
  shutdownRequestsCounter : Officer → Option Nat
  console : List String
  log : List String

/-- `new OnBoardComputer(name)`, the crew members, and the aspects; `Logger` begins its file with
an empty line. -/
def World.start {Officer : Type} (computer superDescription description : String)
    (name : Officer → String) : World Officer where
  system := ⟨⟨true, computer, superDescription⟩, description⟩
  name := name
  isAlive := fun _ => true
  shutdownRequestsCounter := fun _ => none
  console := []
  log := [""]

variable {Officer : Type} {ρ : Type}

/-- `System.out.println`. -/
def println (line : String) : StateM (World Officer) Unit :=
  modify fun w => { w with console := w.console ++ [line] }

/-! ## `Computer`, `OnBoardComputer` -/

def Computer.getStatus : StateM (World Officer) (Option String) := do
  let w ← get
  if w.system.super.active = true then
    return some (w.system.super.name ++ " is active.")
  else
    return none

def Computer.getDate (clock : Clock) : StateM (World Officer) (Option String) :=
  return some clock.date.format

def Computer.shutDown : StateM (World Officer) Unit :=
  modify fun w =>
    { w with system := { w.system with super := { w.system.super with active := false } } }

def OnBoardComputer.getMissionPurpose : StateM (World Officer) (Option String) := do
  let w ← get
  return some (">>" ++ w.system.super.description ++ "\n" ++ w.system.description ++ "<<")

def OnBoardComputer.relayShutDownMessage : StateM (World Officer) Unit :=
  println "Daisy Bell..."

def OnBoardComputer.shutDown : StateM (World Officer) Unit := do
  Computer.shutDown
  OnBoardComputer.relayShutDownMessage

/-! ## `Logger` -/

namespace Logger

def formatSystemLog (millis : Nat) (caller callee method : String) : String :=
  let mstime := toString (millis % 1000)
  mstime ++ " : " ++ caller ++ " : " ++ callee ++ " : " ++ method

def writeToSystemLogFile (log : String) : StateM (World Officer) Unit :=
  modify fun w => { w with log := w.log ++ [log] }

/-- Before a message to the computer. -/
def crewGettingOnBoardComputerInfo (clock : Clock) (method : String) :
    Advice (World Officer) ρ :=
  .before do
    let w ← get
    writeToSystemLogFile (formatSystemLog clock.message "Crew" w.system.super.name method)

/-- Before `LifeSupport` asks for a life status. -/
def lifeSupportGettingCrewLifeStatus (clock : Clock) (officer : Officer) :
    Advice (World Officer) ρ :=
  .before do
    let w ← get
    writeToSystemLogFile
      (formatSystemLog clock.lifeStatus "LifeSupport" (w.name officer) "getLifeStatus")

/-- Before a kill. -/
def authorizationKillingCrew (clock : Clock) (officer : Officer) : Advice (World Officer) ρ :=
  .before do
    let w ← get
    writeToSystemLogFile (formatSystemLog clock.kill "Authorization" (w.name officer) "kill")

end Logger

/-! ## `LifeSupport` -/

/-- `Crew.getLifeStatus`. -/
def getLifeStatus (officer : Officer) : StateM (World Officer) Bool := do
  return (← get).isAlive officer

namespace LifeSupport

/-- The advice on the messages to the computer: they go through when the officer is alive. -/
def crewMessages (clock : Clock) (officer : Officer) (otherwise : ρ) : Advice (World Officer) ρ :=
  .around fun proceed => do
    if ← weave [Logger.lifeSupportGettingCrewLifeStatus clock officer] (getLifeStatus officer) then
      proceed
    else
      return otherwise

/-- The `void` advice. -/
def voidCrewMessages (clock : Clock) (officer : Officer) : Advice (World Officer) Unit :=
  crewMessages clock officer ()

/-- The `String` advice. -/
def stringCrewMessages (clock : Clock) (officer : Officer) :
    Advice (World Officer) (Option String) :=
  crewMessages clock officer (some "")

end LifeSupport

/-! ## `Authorization` -/

namespace Authorization

def confidential : String := "HAL cannot disclose that information"

section

variable [DecidableEq Officer]

def getShutdownRequestsCounter (officer : Officer) : StateM (World Officer) Nat := do
  let w ← get
  match w.shutdownRequestsCounter officer with
  | none =>
      set { w with
        shutdownRequestsCounter := Function.update w.shutdownRequestsCounter officer (some 0) }
      return 0
  | some requestsCounter => return requestsCounter

def incShutdownRequestsCounter (officer : Officer) : StateM (World Officer) Unit :=
  modify fun w =>
    let requestsCounter := (w.shutdownRequestsCounter officer).getD 0
    { w with
      shutdownRequestsCounter :=
        Function.update w.shutdownRequestsCounter officer (some (requestsCounter + 1)) }

def kill (officer : Officer) : StateM (World Officer) Unit :=
  modify fun w => { w with isAlive := Function.update w.isAlive officer false }

/-- Around `shutDown`; it does not proceed. -/
def crewRequestingOnBoardComputerShutdown (clock : Clock) (officer : Officer) :
    Advice (World Officer) Unit :=
  .around fun _ => do
    incShutdownRequestsCounter officer
    let name := (← get).name officer
    if (← getShutdownRequestsCounter officer) = 1 then
      println ("Can’t do that " ++ name ++ ".")
    else if (← getShutdownRequestsCounter officer) = 2 then
      println ("Can’t do that " ++ name ++ " and do not ask me again.")
    else if (← getShutdownRequestsCounter officer) = 3 then
      println ("You are being retired " ++ name ++ ".")
      weave [Logger.authorizationKillingCrew clock officer] (kill officer)

end

/-- Around `getMissionPurpose`; it does not proceed. -/
def crewGettingMissionPurpose (officer : Officer) : Advice (World Officer) (Option String) :=
  .around fun _ => do
    if ← getLifeStatus officer then
      return some (confidential ++ " " ++ (← get).name officer)
    return some ""

end Authorization

/-! ## `Crew` -/

inductive Message where
  | getSystemStatus
  | getSystemDate
  | whatIsPurposeOfMission
  | shutDownSystem
  deriving DecidableEq, Repr

/-- What a message returns: nothing, or a `String` that may be `null`. -/
inductive Reply where
  | nothing
  | text (s : Option String)
  deriving DecidableEq, Repr

namespace Crew

variable [DecidableEq Officer]

def getSystemStatus (clock : Clock) (officer : Officer) : StateM (World Officer) (Option String) :=
  weave [Logger.crewGettingOnBoardComputerInfo clock "getStatus",
    LifeSupport.stringCrewMessages clock officer] Computer.getStatus

def getSystemDate (clock : Clock) (officer : Officer) : StateM (World Officer) (Option String) :=
  weave [Logger.crewGettingOnBoardComputerInfo clock "getDate",
    LifeSupport.stringCrewMessages clock officer] (Computer.getDate clock)

def whatIsPurposeOfMission (clock : Clock) (officer : Officer) :
    StateM (World Officer) (Option String) :=
  weave [Logger.crewGettingOnBoardComputerInfo clock "getMissionPurpose",
    LifeSupport.stringCrewMessages clock officer,
    Authorization.crewGettingMissionPurpose officer] OnBoardComputer.getMissionPurpose

def shutDownSystem (clock : Clock) (officer : Officer) : StateM (World Officer) Unit :=
  weave [Logger.crewGettingOnBoardComputerInfo clock "shutDown",
    LifeSupport.voidCrewMessages clock officer,
    Authorization.crewRequestingOnBoardComputerShutdown clock officer] OnBoardComputer.shutDown

/-- A message of a crew member. -/
def send (clock : Clock) (officer : Officer) : Message → StateM (World Officer) Reply
  | .getSystemStatus => Reply.text <$> getSystemStatus clock officer
  | .getSystemDate => Reply.text <$> getSystemDate clock officer
  | .whatIsPurposeOfMission => Reply.text <$> whatIsPurposeOfMission clock officer
  | .shutDownSystem => (fun _ => Reply.nothing) <$> shutDownSystem clock officer

end Crew

end Smoll.Hal
