/-
# `Smoll.Hal.BlackBox` — the log of the aspects

`Logger` writes, times left out, for every message

    Crew : <computer> : <method>
    LifeSupport : <officer> : getLifeStatus
    Authorization : <officer> : kill            at the officer's third shutDown only

(`transcript`), the messages of the dead included.  `readLog` reads the file
back: who sent which message, and who was killed at it.  It walks over the text
of the file, not over its lines, and a name may have line ends in it; what a
name must not have in it is the ` : ` between the parts of a line.  The first
` : getLifeStatus` behind `LifeSupport : ` is then the one that `Logger` has
written (`not_prefix_of_free`).
-/
import Smoll.Hal.Secrecy
import Smoll.Lib.Search

namespace Smoll.Hal

open Crew Logger Search

variable {Officer : Type}

/-! ## The file -/

/-- What `Logger` has written. -/
def systemLog (w : World Officer) : List Char :=
  w.log.flatMap fun line => line.toList ++ ['\n']

/-- A line without its time. -/
def withoutTime (line : String) : String :=
  String.ofList ((line.toList.dropWhile Char.isDigit).drop " : ".length)

section Transcript

variable [DecidableEq Officer]

/-- After these messages, this is the officer's third `shutDown`. -/
def Third (before : List (Event Officer)) (e : Event Officer) : Prop :=
  e.message = .shutDownSystem ∧ shutDowns e.officer before = 2

instance (before : List (Event Officer)) (e : Event Officer) : Decidable (Third before e) :=
  inferInstanceAs (Decidable (_ ∧ _))

/-- The lines of some messages that come after others, times left out. -/
def transcript (computer : String) (name : Officer → String) :
    List (Event Officer) → List (Event Officer) → List String
  | _, [] => []
  | before, e :: es =>
      ["Crew : " ++ computer ++ " : " ++ e.message.method,
        "LifeSupport : " ++ name e.officer ++ " : getLifeStatus"] ++
      (if Third before e then ["Authorization : " ++ name e.officer ++ " : kill"] else []) ++
      transcript computer name (before ++ [e]) es

end Transcript

/-! ## Reading the file -/

/-- What the file tells of a message. -/
structure Entry where
  officer : String
  message : Message
  killed : Bool
  deriving DecidableEq, Repr

def Message.all : List Message :=
  [.getSystemStatus, .getSystemDate, .whatIsPurposeOfMission, .shutDownSystem]

/-- Behind a time. -/
def afterTime (text : List Char) : List Char := text.dropWhile Char.isDigit

/-- The end of the line of a message: the method. -/
def readMethod (text : List Char) : Option (Message × List Char) :=
  Message.all.findSome? fun message =>
    (text.dropPrefix? (" : " ++ message.method ++ "\n").toList).map fun rest => (message, rest)

/-- A word between two words. -/
def readBetween (opening closing : String) (text : List Char) : Option (String × List Char) := do
  let text ← text.dropPrefix? opening.toList
  let (word, rest) ← find (·.dropPrefix? closing.toList) text
  return (String.ofList word, rest)

/-- The lines of one message. -/
def readEntry (text : List Char) : Option (Entry × List Char) := do
  let text ← (afterTime text).dropPrefix? " : Crew : ".toList
  let (_, message, text) ← find readMethod text
  let (officer, text) ← readBetween " : LifeSupport : " " : getLifeStatus\n" (afterTime text)
  match readBetween " : Authorization : " " : kill\n" (afterTime text) with
  | none => return ({ officer, message, killed := false }, text)
  | some (_, text) => return ({ officer, message, killed := true }, text)

/-- The lines of at most so many messages. -/
def readEntries : Nat → List Char → Option (List Entry)
  | _, [] => some []
  | 0, _ :: _ => none
  | n + 1, text => do
      let (entry, text) ← readEntry text
      let entries ← readEntries n text
      return entry :: entries

/-- The messages of a file, behind the empty line. -/
def readLog (text : List Char) : Option (List Entry) := do
  let text ← text.dropPrefix? ['\n']
  readEntries text.length text

/-- What the first messages of a file tell about a life. -/
def Entry.livesAfter (entries : List Entry) (k : Nat) (officer : String) : Bool :=
  !(entries.take k).any fun entry => entry.killed && entry.officer == officer

/-! ## What is written -/

section Written

variable [DecidableEq Officer]

theorem requested_log (w : World Officer) (clock : Clock) (officer : Officer) :
    (w.requested clock officer).log = w.log ++
      if (w.shutdownRequestsCounter officer).getD 0 = 2 then
        [formatSystemLog clock.kill "Authorization" (w.name officer) "kill"]
      else [] := by
  simp only [World.requested]
  split_ifs <;> first | omega | simp

/-- The lines of a message. -/
def Event.lines (computer : String) (name : Officer → String) (before : List (Event Officer))
    (e : Event Officer) : List String :=
  [formatSystemLog e.clock.message "Crew" computer e.message.method,
    formatSystemLog e.clock.lifeStatus "LifeSupport" (name e.officer) "getLifeStatus"] ++
  if Third before e then [formatSystemLog e.clock.kill "Authorization" (name e.officer) "kill"]
  else []

/-- What one message writes. -/
theorem deliver_log {w : World Officer} {e : Event Officer} {before : List (Event Officer)}
    (h : Counted e.officer (shutDowns e.officer before) w) :
    (deliver w e).2.log = w.log ++ e.lines w.system.super.name w.name before := by
  cases halive : w.isAlive e.officer with
  | false =>
      have hthird : ¬ Third before e := by
        rintro ⟨_, htwo⟩
        have hlive := h.alive.mpr (htwo ▸ Nat.lt_succ_self 2)
        rw [halive] at hlive
        cases hlive
      rw [deliver_dead halive, Event.lines, if_neg hthird, List.append_nil]
      rfl
  | true =>
      rw [deliver_alive halive]
      cases hmsg : e.message with
      | getSystemStatus | getSystemDate | whatIsPurposeOfMission =>
          have hthird : ¬ Third before e := fun hthird => by
            rw [hthird.1] at hmsg
            cases hmsg
          rw [Event.lines, if_neg hthird, List.append_nil, hmsg]
          rfl
      | shutDownSystem =>
          have hless : shutDowns e.officer before < 3 := h.alive.mp halive
          have hcounter : (w.shutdownRequestsCounter e.officer).getD 0 = shutDowns e.officer before := by
            rw [h.counter]
            omega
          show (World.requested _ e.clock e.officer).log = _
          rw [requested_log]
          show (w.heard e.clock e.officer Message.shutDownSystem.method).log ++
            (if (w.shutdownRequestsCounter e.officer).getD 0 = 2 then _ else []) = _
          rw [hcounter, Event.lines, hmsg, ← List.append_assoc]
          congr 1
          have hiff : shutDowns e.officer before = 2 ↔ Third before e :=
            ⟨fun htwo => ⟨hmsg, htwo⟩, fun hthird => hthird.2⟩
          exact if_congr hiff rfl rfl

/-- The lines of some messages that come after others. -/
def written (computer : String) (name : Officer → String) :
    List (Event Officer) → List (Event Officer) → List String
  | _, [] => []
  | before, e :: es => e.lines computer name before ++ written computer name (before ++ [e]) es

/-- What a run writes. -/
theorem run_log (es : List (Event Officer)) :
    ∀ {w : World Officer} (before : List (Event Officer)),
      (∀ officer, Counted officer (shutDowns officer before) w) →
      (run w es).log = w.log ++ written w.system.super.name w.name before es := by
  induction es with
  | nil =>
      intro w before _
      exact (List.append_nil _).symm
  | cons e es ih =>
      intro w before h
      have hcounted : ∀ officer, Counted officer (shutDowns officer (before ++ [e]))
          (deliver w e).2 := by
        intro officer
        have hsplit : shutDowns officer (before ++ [e]) =
            shutDowns officer before + shutDowns officer [e] := List.countP_append ..
        rw [hsplit]
        exact (h officer).deliver e
      have hrest := ih (before ++ [e]) hcounted
      rw [deliver_system, deliver_name, deliver_log (h e.officer), List.append_assoc] at hrest
      exact hrest

end Written

/-! ## Words that a name cannot hide -/

/-- Between the parts of a line. -/
def separator : List Char := [' ', ':', ' ']

/-- Nothing of `name : rest` but the separator behind the name begins like a separator with a
word behind it. -/
theorem not_prefix_of_free {name word rest : List Char} (hfree : ¬ separator <:+: name)
    (hne : name ≠ []) (hword : ∀ c ∈ word.head?, c ≠ ':') (hsome : word ≠ []) :
    ¬ separator ++ word <+: name ++ (separator ++ rest) := by
  intro hpre
  cases word with
  | nil => exact hsome rfl
  | cons k word =>
      have hk : k ≠ ':' := hword k rfl
      rcases name with _ | ⟨a, _ | ⟨b, _ | ⟨c, name⟩⟩⟩
      · exact hne rfl
      · simp [separator, List.cons_prefix_cons] at hpre
      · simp [separator, List.cons_prefix_cons] at hpre
        exact hk hpre.2.2.1
      · refine hfree ⟨[], name, ?_⟩
        simp [separator, List.cons_prefix_cons] at hpre
        simp [separator, ← hpre.1, ← hpre.2.1, ← hpre.2.2.1]

/-- A free text stays free when its beginning is cut off. -/
theorem free_of_suffix {y name : List Char} (hfree : ¬ separator <:+: name) (hy : y <:+ name) :
    ¬ separator <:+: y := fun h => hfree (h.trans hy.isInfix)

/-! ## Reading what was written -/

/-- The time of a line. -/
def time (millis : Nat) : List Char := (toString (millis % 1000)).toList

theorem formatSystemLog_toList (millis : Nat) (caller callee method : String) :
    (formatSystemLog millis caller callee method).toList =
      time millis ++ (separator ++ (caller.toList ++ (separator ++ (callee.toList ++
        (separator ++ method.toList))))) := by
  have hseparator : " : ".toList = separator := rfl
  simp only [formatSystemLog, String.toList_append, hseparator, List.append_assoc, time]

theorem isDigit_of_mem_time {millis : Nat} {c : Char} (hc : c ∈ time millis) :
    c.isDigit = true := by
  have htime : time millis = Nat.toDigits 10 (millis % 1000) := by
    show (Nat.repr (millis % 1000)).toList = _
    rw [Nat.repr_eq_ofList_toDigits, String.toList_ofList]
  rw [htime] at hc
  exact Nat.isDigit_of_mem_toDigits (by decide) (by decide) hc

theorem afterTime_time (millis : Nat) (rest : List Char) :
    afterTime (time millis ++ (separator ++ rest)) = separator ++ rest := by
  rw [afterTime, List.dropWhile_append_of_pos fun c hc => isDigit_of_mem_time hc]
  exact List.dropWhile_cons_of_neg (by decide)

theorem withoutTime_format (millis : Nat) (caller callee method : String) :
    withoutTime (formatSystemLog millis caller callee method) =
      caller ++ " : " ++ callee ++ " : " ++ method := by
  have htime := afterTime_time millis (caller.toList ++ (separator ++ (callee.toList ++
    (separator ++ method.toList))))
  rw [afterTime] at htime
  rw [withoutTime, formatSystemLog_toList, htime]
  show String.ofList (caller.toList ++ (" : ".toList ++ (callee.toList ++
    (" : ".toList ++ method.toList)))) = _
  simp only [← String.toList_append, String.ofList_toList, String.append_assoc]

theorem head_ne {word : List Char} {d e : Char} (hd : word.head? = some d) (hne : d ≠ e) :
    ∀ c ∈ word.head?, c ≠ e := by
  intro c hc
  rw [Option.mem_def, hd] at hc
  exact Option.some.inj hc ▸ hne

/-- A name without a separator between two words, the second one beginning with a separator. -/
theorem readBetween_append (opening closing : String) {name : String} (word : List Char)
    (hclosing : closing.toList = separator ++ word) (hword : ∀ c ∈ word.head?, c ≠ ':')
    (hsome : word ≠ []) (hfree : ¬ separator <:+: name.toList) (rest : List Char) :
    readBetween opening closing
      (opening.toList ++ (name.toList ++ (closing.toList ++ rest))) = some (name, rest) := by
  have hfind : find (·.dropPrefix? closing.toList) (name.toList ++ (closing.toList ++ rest)) =
      some (name.toList, rest) := by
    refine find_word ?_
    intro y hy hne
    rw [hclosing, List.append_assoc]
    exact not_prefix_of_free (free_of_suffix hfree hy) hne hword hsome
  simp only [readBetween, dropPrefix?_append, hfind, Option.bind_eq_bind, Option.bind_some,
    String.ofList_toList]
  rfl

/-- The end of a message's line. -/
def Message.closing (message : Message) : List Char := message.method.toList ++ ['\n']

theorem Message.closing_append (message : Message) :
    (" : " ++ message.method ++ "\n").toList = separator ++ message.closing := by
  simp only [String.toList_append, List.append_assoc]
  rfl

theorem readMethod_append (message : Message) (rest : List Char) :
    readMethod (separator ++ (message.closing ++ rest)) = some (message, rest) := by
  cases message <;>
    simp [readMethod, Message.all, Message.closing, Message.method, separator, List.dropPrefix?]

theorem find_readMethod {computer : String} (hfree : ¬ separator <:+: computer.toList)
    (message : Message) (rest : List Char) :
    find readMethod (computer.toList ++ (separator ++ (message.closing ++ rest))) =
      some (computer.toList, message, rest) := by
  refine find_append (readMethod_append message rest) _ ?_
  intro y hy hne
  rw [readMethod, List.findSome?_eq_none_iff]
  intro other _
  rw [other.closing_append, dropPrefix?_eq_none, Option.map_none]
  refine not_prefix_of_free (free_of_suffix hfree hy) hne ?_ ?_
  · intro c hc
    cases other <;> cases hc <;> decide
  · exact List.append_ne_nil_of_right_ne_nil _ (List.cons_ne_nil _ _)

/-! ## The entries of a file -/

/-- The text of some lines. -/
def textOf (lines : List String) : List Char := lines.flatMap fun line => line.toList ++ ['\n']

theorem textOf_append (lines lines' : List String) :
    textOf (lines ++ lines') = textOf lines ++ textOf lines' := List.flatMap_append

theorem textOf_format (millis : Nat) (caller callee method : String) (lines : List String)
    (rest : List Char) :
    textOf (formatSystemLog millis caller callee method :: lines) ++ rest =
      time millis ++ (separator ++ (caller.toList ++ (separator ++ (callee.toList ++
        (separator ++ (method.toList ++ ['\n'] ++ (textOf lines ++ rest))))))) := by
  simp only [textOf, List.flatMap_cons, formatSystemLog_toList, List.append_assoc]

/-- No line of a kill is next. -/
def NoKill (text : List Char) : Prop :=
  readBetween " : Authorization : " " : kill\n" (afterTime text) = none

section Entries

variable [DecidableEq Officer]

/-- What the file tells of a message that comes after others. -/
def Event.entry (name : Officer → String) (before : List (Event Officer)) (e : Event Officer) :
    Entry where
  officer := name e.officer
  message := e.message
  killed := Third before e

def entries (name : Officer → String) :
    List (Event Officer) → List (Event Officer) → List Entry
  | _, [] => []
  | before, e :: es => e.entry name before :: entries name (before ++ [e]) es

variable {computer : String} {name : Officer → String}

/-- **The lines of one message are read back.** -/
theorem readEntry_lines (hcomputer : ¬ separator <:+: computer.toList)
    (hname : ∀ officer, ¬ separator <:+: (name officer).toList) (before : List (Event Officer))
    (e : Event Officer) {rest : List Char} (hrest : NoKill rest) :
    readEntry (textOf (e.lines computer name before) ++ rest) =
      some (e.entry name before, rest) := by
  have hlife : ∀ s, readBetween " : LifeSupport : " " : getLifeStatus\n"
      (separator ++ ("LifeSupport".toList ++ (separator ++ ((name e.officer).toList ++
        (separator ++ ("getLifeStatus".toList ++ ['\n'] ++ s)))))) = some (name e.officer, s) :=
    readBetween_append " : LifeSupport : " " : getLifeStatus\n" "getLifeStatus\n".toList rfl
      (head_ne rfl (by decide : 'g' ≠ ':')) (List.cons_ne_nil _ _) (hname e.officer)
  have hkill : ∀ s, readBetween " : Authorization : " " : kill\n"
      (separator ++ ("Authorization".toList ++ (separator ++ ((name e.officer).toList ++
        (separator ++ ("kill".toList ++ ['\n'] ++ s)))))) = some (name e.officer, s) :=
    readBetween_append " : Authorization : " " : kill\n" "kill\n".toList rfl
      (head_ne rfl (by decide : 'k' ≠ ':')) (List.cons_ne_nil _ _) (hname e.officer)
  have hcrew : ∀ s, (separator ++ ("Crew".toList ++ (separator ++ s))).dropPrefix?
      " : Crew : ".toList = some s := dropPrefix?_append " : Crew : ".toList
  have hmethod := find_readMethod hcomputer e.message
  rw [Message.closing] at hmethod
  rw [Event.lines, List.cons_append, List.cons_append, List.nil_append, textOf_format,
    textOf_format, readEntry, afterTime_time]
  simp only [hcrew, hmethod, afterTime_time, hlife, Option.bind_eq_bind, Option.bind_some]
  rcases Decidable.em (Third before e) with hthird | hthird
  · rw [if_pos hthird, textOf_format, afterTime_time, hkill]
    simp [textOf, Event.entry, hthird]
  · rw [if_neg hthird]
    show (match readBetween " : Authorization : " " : kill\n" (afterTime rest) with
      | none => _
      | some (_, text) => _) = _
    rw [hrest]
    simp [Event.entry, hthird]
    rfl

theorem noKill_written (computer : String) (name : Officer → String)
    (before es : List (Event Officer)) :
    NoKill (textOf (written computer name before es)) := by
  cases es with
  | nil => rfl
  | cons e es =>
      rw [written, textOf_append, Event.lines, List.cons_append, textOf_format, NoKill,
        afterTime_time]
      simp [readBetween, separator, List.dropPrefix?]

/-- **A file is read back.** -/
theorem readEntries_written (hcomputer : ¬ separator <:+: computer.toList)
    (hname : ∀ officer, ¬ separator <:+: (name officer).toList) (es : List (Event Officer)) :
    ∀ (before : List (Event Officer)) {n : Nat}, es.length ≤ n →
      readEntries n (textOf (written computer name before es)) =
        some (entries name before es) := by
  induction es with
  | nil =>
      intro before n _
      cases n <;> rfl
  | cons e es ih =>
      intro before n hn
      cases n with
      | zero => exact absurd hn (Nat.not_succ_le_zero _)
      | succ n =>
          have hentry := readEntry_lines hcomputer hname before e
            (noKill_written computer name (before ++ [e]) es)
          have hrest := ih (before ++ [e]) (Nat.le_of_succ_le_succ hn)
          rw [written, textOf_append]
          have hsome : textOf (e.lines computer name before) ++
              textOf (written computer name (before ++ [e]) es) ≠ [] := by
            intro hnil
            rw [hnil] at hentry
            cases hentry
          rw [readEntries, hentry]
          · simp only [Option.bind_eq_bind, Option.bind_some, hrest]
            rfl
          · exact hsome

end Entries

/-! ## What the file tells -/

section Tells

variable [DecidableEq Officer] {computer : String} {name : Officer → String}

theorem lines_withoutTime (before : List (Event Officer)) (e : Event Officer) :
    (e.lines computer name before).map withoutTime =
      ["Crew : " ++ computer ++ " : " ++ e.message.method,
        "LifeSupport : " ++ name e.officer ++ " : getLifeStatus"] ++
      if Third before e then ["Authorization : " ++ name e.officer ++ " : kill"] else [] := by
  have hcrew : "Crew" ++ " : " = "Crew : " := rfl
  have hlife : "LifeSupport" ++ " : " = "LifeSupport : " := rfl
  have hkill : "Authorization" ++ " : " = "Authorization : " := rfl
  have hstatus (s : String) : s ++ " : " ++ "getLifeStatus" = s ++ " : getLifeStatus" :=
    String.append_assoc ..
  have hkilled (s : String) : s ++ " : " ++ "kill" = s ++ " : kill" := String.append_assoc ..
  rw [Event.lines, List.map_append, apply_ite (List.map withoutTime)]
  simp only [List.map_cons, List.map_nil, withoutTime_format, hcrew, hlife, hkill, hstatus,
    hkilled]

theorem transcript_eq (es : List (Event Officer)) :
    ∀ before : List (Event Officer),
      (written computer name before es).map withoutTime = transcript computer name before es := by
  induction es with
  | nil =>
      intro before
      rfl
  | cons e es ih =>
      intro before
      rw [written, transcript, List.map_append, ih, lines_withoutTime]

theorem length_le_written (es : List (Event Officer)) :
    ∀ before : List (Event Officer),
      es.length ≤ (textOf (written computer name before es)).length := by
  induction es with
  | nil =>
      intro before
      exact Nat.zero_le _
  | cons e es ih =>
      intro before
      have hrest := ih (before ++ [e])
      rw [written, textOf_append, List.length_append, List.length_cons, Event.lines,
        List.cons_append, textOf, List.flatMap_cons]
      simp only [List.length_append, List.length_singleton]
      omega

theorem entries_take (k : Nat) :
    ∀ es before : List (Event Officer),
      (entries name before es).take k = entries name before (es.take k) := by
  induction k with
  | zero =>
      intro es before
      rfl
  | succ k ih =>
      intro es before
      cases es with
      | nil => rfl
      | cons e es => exact congrArg (e.entry name before :: ·) (ih es (before ++ [e]))

theorem entries_pairs (es : List (Event Officer)) :
    ∀ before : List (Event Officer),
      (entries name before es).map (fun entry => (entry.officer, entry.message)) =
        es.map fun e => (name e.officer, e.message) := by
  induction es with
  | nil =>
      intro before
      rfl
  | cons e es ih =>
      intro before
      exact congrArg ((name e.officer, e.message) :: ·) (ih (before ++ [e]))

theorem shutDowns_append (officer : Officer) (es es' : List (Event Officer)) :
    shutDowns officer (es ++ es') = shutDowns officer es + shutDowns officer es' :=
  List.countP_append ..

theorem shutDowns_cons (officer : Officer) (e : Event Officer) (es : List (Event Officer)) :
    shutDowns officer (e :: es) = shutDowns officer [e] + shutDowns officer es :=
  shutDowns_append officer [e] es

/-- The third request of an officer, by the numbers before it and of itself. -/
theorem third_iff (officer : Officer) (before : List (Event Officer)) (e : Event Officer) :
    Third before e ∧ e.officer = officer ↔
      shutDowns officer [e] = 1 ∧ shutDowns officer before = 2 := by
  have hone : shutDowns officer [e] = 1 ↔
      e.officer = officer ∧ e.message = .shutDownSystem := by
    simp [shutDowns]
  rw [hone]
  constructor
  · rintro ⟨⟨hmsg, htwo⟩, rfl⟩
    exact ⟨⟨rfl, hmsg⟩, htwo⟩
  · rintro ⟨⟨rfl, hmsg⟩, htwo⟩
    exact ⟨⟨hmsg, htwo⟩, rfl⟩

theorem shutDowns_singleton_le (officer : Officer) (e : Event Officer) :
    shutDowns officer [e] ≤ 1 := List.countP_le_length

/-- An officer is killed where its third request is. -/
theorem killed_iff (hname : Function.Injective name) (officer : Officer)
    (es : List (Event Officer)) :
    ∀ before : List (Event Officer),
      ((entries name before es).any fun entry =>
          entry.killed && entry.officer == name officer) = true ↔
        shutDowns officer before < 3 ∧ 3 ≤ shutDowns officer before + shutDowns officer es := by
  induction es with
  | nil =>
      intro before
      refine iff_of_false Bool.false_ne_true ?_
      rintro ⟨hless, hge⟩
      exact absurd hge (Nat.not_le.mpr hless)
  | cons e es ih =>
      intro before
      have hthird : (decide (Third before e) && name e.officer == name officer) = true ↔
          shutDowns officer [e] = 1 ∧ shutDowns officer before = 2 := by
        rw [← third_iff, Bool.and_eq_true, decide_eq_true_iff, beq_iff_eq, hname.eq_iff]
      have hone := shutDowns_singleton_le officer e
      rw [entries, List.any_cons, Bool.or_eq_true, ih, shutDowns_append, shutDowns_cons officer e es]
      show (decide (Third before e) && name e.officer == name officer) = true ∨ _ ↔ _
      rw [hthird]
      omega

theorem crew_ne_kill (s t : String) : "Crew : " ++ s ≠ "Authorization : " ++ t := by
  intro h
  have hlist := congrArg String.toList h
  simp only [String.toList_append] at hlist
  cases (List.cons.inj hlist).1

theorem life_ne_kill (s t : String) : "LifeSupport : " ++ s ≠ "Authorization : " ++ t := by
  intro h
  have hlist := congrArg String.toList h
  simp only [String.toList_append] at hlist
  cases (List.cons.inj hlist).1

/-- At most one line says that an officer is killed. -/
theorem count_kill_le (hname : Function.Injective name) (officer : Officer)
    (es : List (Event Officer)) :
    ∀ before : List (Event Officer),
      (transcript computer name before es).count
          ("Authorization : " ++ name officer ++ " : kill") ≤
        if shutDowns officer before < 3 then 1 else 0 := by
  induction es with
  | nil =>
      intro before
      exact Nat.zero_le _
  | cons e es ih =>
      intro before
      have hrest := ih (before ++ [e])
      have hone := shutDowns_singleton_le officer e
      have hcrew : "Crew : " ++ computer ++ " : " ++ e.message.method ≠
          "Authorization : " ++ name officer ++ " : kill" := by
        rw [String.append_assoc, String.append_assoc, String.append_assoc]
        exact crew_ne_kill _ _
      have hlife : "LifeSupport : " ++ name e.officer ++ " : getLifeStatus" ≠
          "Authorization : " ++ name officer ++ " : kill" := by
        rw [String.append_assoc, String.append_assoc]
        exact life_ne_kill _ _
      rw [shutDowns_append] at hrest
      rw [transcript, List.count_append, List.count_append, List.count_cons_of_ne hcrew,
        List.count_cons_of_ne hlife, List.count_nil, Nat.zero_add]
      rcases Decidable.em (shutDowns officer [e] = 1 ∧ shutDowns officer before = 2) with hthis | hthis
      · rw [if_pos ((third_iff officer before e).mpr hthis).1]
        have hle : List.count ("Authorization : " ++ name officer ++ " : kill")
            ["Authorization : " ++ name e.officer ++ " : kill"] ≤ 1 := List.count_le_length
        split_ifs at hrest ⊢ <;> omega
      · have hzero : List.count ("Authorization : " ++ name officer ++ " : kill")
            (if Third before e then ["Authorization : " ++ name e.officer ++ " : kill"] else []) =
              0 := by
          split
          · rename_i hthird
            refine List.count_eq_zero.mpr fun hmem => hthis ?_
            have heq : "Authorization : " ++ name officer ++ " : kill" =
              "Authorization : " ++ name e.officer ++ " : kill" := List.mem_singleton.mp hmem
            have hofficer : name officer = name e.officer := by
              have hlist := congrArg String.toList heq
              simp only [String.toList_append] at hlist
              exact String.toList_injective
                (List.append_cancel_left (List.append_cancel_right hlist))
            exact (third_iff officer before e).mp ⟨hthird, (hname hofficer).symm⟩
          · rfl
        rw [hzero, Nat.zero_add]
        split_ifs at hrest ⊢ <;> omega

/-- **HAL's black box is a faithful trace.**  For officers with different names, and no separator
in their names or the computer's: `Logger` writes two lines for every message, and one for a kill
exactly at an officer's third `shutDown`; from the file can be read who sent which message, and who
was alive after any number of them. -/
theorem black_box_faithful (computer superDescription description : String)
    (name : Officer → String) (hname : Function.Injective name)
    (hcomputer : ¬ " : ".toList <:+: computer.toList)
    (hnames : ∀ officer, ¬ " : ".toList <:+: (name officer).toList) (es : List (Event Officer)) :
    let start := World.start computer superDescription description name
    (run start es).log.map withoutTime = "" :: transcript computer name [] es ∧
      (∀ officer, (transcript computer name [] es).count
        ("Authorization : " ++ name officer ++ " : kill") ≤ 1) ∧
      ∃ log, readLog (systemLog (run start es)) = some log ∧
        log.map (fun entry => (entry.officer, entry.message)) =
          es.map (fun e => (name e.officer, e.message)) ∧
        ∀ k officer,
          (run start (es.take k)).isAlive officer = Entry.livesAfter log k (name officer) := by
  intro start
  have hlog : (run start es).log = "" :: written computer name [] es :=
    run_log es [] fun officer =>
      start_counted computer superDescription description name officer
  refine ⟨?_, ?_, entries name [] es, ?_, entries_pairs es [], ?_⟩
  · rw [hlog, List.map_cons, transcript_eq]
    rfl
  · intro officer
    exact count_kill_le hname officer es []
  · have htext : systemLog (run start es) = ['\n'] ++ textOf (written computer name [] es) := by
      rw [systemLog, hlog, List.flatMap_cons]
      rfl
    rw [readLog, htext, dropPrefix?_append]
    exact readEntries_written hcomputer hnames es [] (length_le_written es [])
  · intro k officer
    have halive := ((start_counted computer superDescription description name officer).run
      (es.take k)).alive
    rw [Nat.zero_add] at halive
    have hkilled := killed_iff hname officer (es.take k) []
    rw [Bool.eq_iff_iff, halive, Entry.livesAfter, entries_take, Bool.not_eq_true', ← Bool.not_eq_true,
      hkilled]
    have hnone : shutDowns officer [] = 0 := rfl
    omega

end Tells

/-- The two officers of the recorded log. -/
def officerName (david : Bool) : String := if david then "David" else "Frank"

/-- David's question, a request of Frank's, and three of David's own. -/
def davidsEnd : List (Event Bool) :=
  let at' := Clock.mk 937 937 937 ⟨1, 2001, 1, 1, 1⟩
  [⟨true, .whatIsPurposeOfMission, at'⟩, ⟨false, .shutDownSystem, at'⟩,
    ⟨true, .shutDownSystem, at'⟩, ⟨true, .shutDownSystem, at'⟩, ⟨true, .shutDownSystem, at'⟩]

theorem black_box_faithful_davidsEnd :
    ∃ log, readLog (systemLog (run (World.start "HAL" "Monolith" "Relay" officerName) davidsEnd)) =
        some log ∧
      log.map (fun entry => (entry.officer, entry.message)) =
        [("David", .whatIsPurposeOfMission), ("Frank", .shutDownSystem),
          ("David", .shutDownSystem), ("David", .shutDownSystem), ("David", .shutDownSystem)] := by
  have hinjective : Function.Injective officerName := by
    unfold Function.Injective
    decide
  have hfaithful := black_box_faithful "HAL" "Monolith" "Relay" officerName hinjective (by decide)
    (by decide) davidsEnd
  rcases hfaithful.2.2 with ⟨log, hread, hpairs, _⟩
  exact ⟨log, hread, hpairs⟩

end Smoll.Hal
