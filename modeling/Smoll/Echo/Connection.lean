/-
# `Smoll.Echo.Connection` — the non-blocking echo server

A `Session` is a state, reading or writing, and a buffer; a `Connection` keeps
one asynchronous wait going that suits the state.  The io_context calls back
when a wait is over; how many bytes the operation then transfers, and which
error it reports with them, is left open, so a run is any sequence of
callbacks.

    received = sent ++ writeBuffer          between any two callbacks
    reading  iff the buffer is empty
    open     iff one wait is outstanding, the one of the state

`Echoes` is this invariant; `read` replaces the whole buffer, and keeps it only
because the buffer is empty while the session reads.
-/
import Smoll.Lib.Sched

namespace Smoll.Echo

/-! ## The environment -/

inductive ErrorCode where
  | success
  | wouldBlock
  | eof
  | other (value : Int)
  deriving DecidableEq, Repr

/-- The socket, with the bytes that were read from it and written to it. -/
structure Socket where
  isOpen : Bool
  received : List UInt8
  sent : List UInt8
  deriving DecidableEq, Repr

def Socket.close (socket : Socket) : Socket := { socket with isOpen := false }

/-! ## The source -/

inductive State where
  | reading
  | writing
  deriving DecidableEq, Repr

structure Session where
  state : State
  writeBuffer : List UInt8
  deriving DecidableEq, Repr

namespace Session

def readyRead (self : Session) : Bool := self.state == .reading

def readyWrite (self : Session) : Bool := self.state == .writing

/-- `read`, when `asio::read` transfers these bytes. -/
def read (self : Session) (socket : Socket) (readBuffer : List UInt8) : Session × Socket :=
  let socket := { socket with received := socket.received ++ readBuffer }
  if readBuffer.length ≠ 0 then
    ({ state := .writing, writeBuffer := readBuffer }, socket)
  else (self, socket)

/-- `write`, when `asio::write` transfers this many bytes and consumes them. -/
def write (self : Session) (socket : Socket) (transferred : Nat) : Session × Socket :=
  let socket := { socket with sent := socket.sent ++ self.writeBuffer.take transferred }
  let writeBuffer := self.writeBuffer.drop transferred
  if transferred ≠ 0 then
    ({ state := if writeBuffer.length > 0 then .writing else .reading, writeBuffer }, socket)
  else ({ self with writeBuffer }, socket)

end Session

inductive Wait where
  | waitRead
  | waitWrite
  deriving DecidableEq, Repr

/-- A connection, with its waits that are outstanding in the io_context. -/
structure Connection where
  socket : Socket
  session : Session
  readInProgress : Bool
  writeInProgress : Bool
  waits : List Wait
  deriving DecidableEq, Repr

namespace Connection

/-- An accepted socket. -/
def new : Connection :=
  { socket := ⟨true, [], []⟩
    session := ⟨.reading, []⟩
    readInProgress := false
    writeInProgress := false
    waits := [] }

def operations (self : Connection) : Connection :=
  let self :=
    if self.session.readyRead && !self.readInProgress then
      { self with readInProgress := true, waits := self.waits ++ [.waitRead] }
    else self
  if self.session.readyWrite && !self.writeInProgress then
    { self with writeInProgress := true, waits := self.waits ++ [.waitWrite] }
  else self

def start (self : Connection) : Connection := self.operations

/-- The end of both handlers. -/
def finish (self : Connection) (ec : ErrorCode) : Connection :=
  if ec = .success ∨ ec = .wouldBlock then self.operations
  else { self with socket := self.socket.close }

/-- The handler of `wait_read`: what it is called with, and what `asio::read` reports. -/
def onRead (self : Connection) (ec : ErrorCode) (readBuffer : List UInt8) (readEc : ErrorCode) :
    Connection :=
  let self := { self with readInProgress := false }
  if ec = .success then
    let done := self.session.read self.socket readBuffer
    finish { self with session := done.1, socket := done.2 } readEc
  else self.finish ec

/-- The handler of `wait_write`. -/
def onWrite (self : Connection) (ec : ErrorCode) (transferred : Nat) (writeEc : ErrorCode) :
    Connection :=
  let self := { self with writeInProgress := false }
  if ec = .success then
    let done := self.session.write self.socket transferred
    finish { self with session := done.1, socket := done.2 } writeEc
  else self.finish ec

end Connection

/-- A callback of the io_context: the error code of the wait, and the transfer that follows. -/
inductive Callback where
  | read (ec : ErrorCode) (readBuffer : List UInt8) (readEc : ErrorCode)
  | write (ec : ErrorCode) (transferred : Nat) (writeEc : ErrorCode)
  deriving Repr

/-- A callback ends an outstanding wait; a write transfers no more than there is. -/
def Connection.step : Callback → Connection → Option Connection
  | .read ec readBuffer readEc, self =>
      if Wait.waitRead ∈ self.waits then
        some (onRead { self with waits := self.waits.erase .waitRead } ec readBuffer readEc)
      else none
  | .write ec transferred writeEc, self =>
      if Wait.waitWrite ∈ self.waits ∧ transferred ≤ self.session.writeBuffer.length then
        some (onWrite { self with waits := self.waits.erase .waitWrite } ec transferred writeEc)
      else none

namespace Connection

theorem onRead_success (c : Connection) (readBuffer : List UInt8) (readEc : ErrorCode) :
    c.onRead .success readBuffer readEc =
      finish { c with
        socket := (c.session.read c.socket readBuffer).2
        session := (c.session.read c.socket readBuffer).1
        readInProgress := false } readEc := rfl

theorem onRead_failure (c : Connection) {ec : ErrorCode} (h : ec ≠ .success)
    (readBuffer : List UInt8) (readEc : ErrorCode) :
    c.onRead ec readBuffer readEc = finish { c with readInProgress := false } ec := if_neg h

theorem onWrite_success (c : Connection) (transferred : Nat) (writeEc : ErrorCode) :
    c.onWrite .success transferred writeEc =
      finish { c with
        socket := (c.session.write c.socket transferred).2
        session := (c.session.write c.socket transferred).1
        writeInProgress := false } writeEc := rfl

theorem onWrite_failure (c : Connection) {ec : ErrorCode} (h : ec ≠ .success)
    (transferred : Nat) (writeEc : ErrorCode) :
    c.onWrite ec transferred writeEc = finish { c with writeInProgress := false } ec := if_neg h

end Connection

/-! ## The invariant -/

/-- The wait that suits a state. -/
def State.wait : State → Wait
  | .reading => .waitRead
  | .writing => .waitWrite

theorem State.wait_inj {state state' : State} (h : state.wait = state'.wait) :
    state = state' := by
  cases state with
  | reading => cases state' with
    | reading => rfl
    | writing => cases h
  | writing => cases state' with
    | reading => cases h
    | writing => rfl

/-- The bytes of a session are in order. -/
structure InOrder (session : Session) (socket : Socket) : Prop where
  bytes : socket.received = socket.sent ++ session.writeBuffer
  empty : session.state = .reading ↔ session.writeBuffer = []

/-- Between two callbacks. -/
structure Echoes (c : Connection) : Prop where
  inOrder : InOrder c.session c.socket
  readInProgress : c.readInProgress = (c.socket.isOpen && c.session.readyRead)
  writeInProgress : c.writeInProgress = (c.socket.isOpen && c.session.readyWrite)
  waits : c.waits = if c.socket.isOpen = true then [c.session.state.wait] else []

namespace InOrder

variable {session : Session} {socket : Socket}

theorem close (h : InOrder session socket) : InOrder session socket.close := ⟨h.bytes, h.empty⟩

/-- `read` replaces the buffer, which is empty. -/
theorem read (h : InOrder session socket) (hstate : session.state = .reading)
    (readBuffer : List UInt8) :
    InOrder (session.read socket readBuffer).1 (session.read socket readBuffer).2 := by
  have hbuffer : session.writeBuffer = [] := h.empty.mp hstate
  have hbytes : socket.received = socket.sent := by rw [h.bytes, hbuffer, List.append_nil]
  rw [Session.read]
  split
  · rename_i hsome
    refine ⟨?_, ?_⟩
    · show socket.received ++ readBuffer = socket.sent ++ readBuffer
      rw [hbytes]
    · constructor
      · nofun
      · intro hnil
        exact absurd (congrArg List.length hnil) hsome
  · rename_i hnone
    have hnil : readBuffer = [] := List.eq_nil_of_length_eq_zero (Decidable.not_not.mp hnone)
    refine ⟨?_, h.empty⟩
    show socket.received ++ readBuffer = socket.sent ++ session.writeBuffer
    rw [hnil, List.append_nil, h.bytes]

/-- `write` moves bytes from the front of the buffer to the end of what was sent. -/
theorem write (h : InOrder session socket) (transferred : Nat) :
    InOrder (session.write socket transferred).1 (session.write socket transferred).2 := by
  have hbytes : socket.received = socket.sent ++ session.writeBuffer.take transferred ++
      session.writeBuffer.drop transferred := by
    rw [List.append_assoc, List.take_append_drop, h.bytes]
  rw [Session.write]
  split
  · refine ⟨hbytes, ?_⟩
    show (if (session.writeBuffer.drop transferred).length > 0 then State.writing
      else State.reading) = .reading ↔ session.writeBuffer.drop transferred = []
    rw [← List.length_eq_zero_iff]
    split
    · rename_i hpos
      exact ⟨nofun, fun hzero => absurd hzero (Nat.ne_of_gt hpos)⟩
    · rename_i hzero
      exact ⟨fun _ => Nat.eq_zero_of_not_pos hzero, fun _ => rfl⟩
  · rename_i hnone
    have hzero : transferred = 0 := Decidable.not_not.mp hnone
    refine ⟨hbytes, ?_⟩
    show session.state = .reading ↔ session.writeBuffer.drop transferred = []
    rw [hzero]
    exact h.empty

end InOrder

/-! ## The waits -/

/-- No wait is outstanding: within a handler. -/
structure Idle (c : Connection) : Prop where
  isOpen : c.socket.isOpen = true
  readInProgress : c.readInProgress = false
  writeInProgress : c.writeInProgress = false
  waits : c.waits = []

/-- `operations` starts the wait of the state. -/
theorem Idle.operations {c : Connection} (h : Idle c)
    (horder : InOrder c.session c.socket) : Echoes c.operations := by
  rcases c with ⟨socket, ⟨state, writeBuffer⟩, readInProgress, writeInProgress, waits⟩
  rcases h with ⟨hopen, hread, hwrite, hwaits⟩
  dsimp only at hopen hread hwrite hwaits
  subst hread hwrite hwaits
  cases state with
  | reading =>
      refine ⟨horder, ?_, ?_, ?_⟩
      · exact (congrArg (· && true) hopen).symm
      · exact (Bool.and_false _).symm
      · exact (if_pos hopen).symm
  | writing =>
      refine ⟨horder, ?_, ?_, ?_⟩
      · exact (Bool.and_false _).symm
      · exact (congrArg (· && true) hopen).symm
      · exact (if_pos hopen).symm

/-- Both handlers end in the invariant. -/
theorem Idle.finish {c : Connection} (h : Idle c)
    (horder : InOrder c.session c.socket) (ec : ErrorCode) : Echoes (c.finish ec) := by
  rw [Connection.finish]
  split
  · exact h.operations horder
  · refine ⟨horder.close, ?_, ?_, ?_⟩
    · exact h.readInProgress
    · exact h.writeInProgress
    · exact h.waits

/-- A wait that is outstanding is the one of the state, and the only one. -/
theorem Echoes.of_wait {c : Connection} (h : Echoes c) {wait : Wait}
    (hwait : wait ∈ c.waits) :
    c.socket.isOpen = true ∧ wait = c.session.state.wait ∧ c.waits = [wait] := by
  have hwaits := h.waits
  split at hwaits
  · rename_i hopen
    rw [hwaits] at hwait
    have heq := List.mem_singleton.mp hwait
    exact ⟨hopen, heq, by rw [hwaits, heq]⟩
  · rw [hwaits] at hwait
    cases hwait

theorem Echoes.state_eq {c : Connection} (h : Echoes c) {state : State}
    (hwait : state.wait ∈ c.waits) : c.session.state = state :=
  State.wait_inj (h.of_wait hwait).2.1.symm

/-- When the wait of the state is over, no wait is left. -/
theorem Echoes.idle {c : Connection} (h : Echoes c) {wait : Wait}
    (hwait : wait ∈ c.waits) (readInProgress writeInProgress : Bool)
    (hread : readInProgress = false) (hwrite : writeInProgress = false) :
    Idle { c with waits := c.waits.erase wait, readInProgress, writeInProgress } := by
  rcases h.of_wait hwait with ⟨hopen, _, hwaits⟩
  refine ⟨hopen, hread, hwrite, ?_⟩
  show c.waits.erase wait = []
  rw [hwaits]
  exact List.erase_cons_head ..

/-- A transfer starts no wait. -/
theorem Idle.transferred {c : Connection} (h : Idle c) (session : Session) {socket : Socket}
    (hopen : socket.isOpen = c.socket.isOpen) : Idle { c with session, socket } :=
  ⟨hopen.trans h.isOpen, h.readInProgress, h.writeInProgress, h.waits⟩

theorem isOpen_read (session : Session) (socket : Socket) (readBuffer : List UInt8) :
    (session.read socket readBuffer).2.isOpen = socket.isOpen := by
  rw [Session.read]
  split
  · rfl
  · rfl

theorem isOpen_write (session : Session) (socket : Socket) (transferred : Nat) :
    (session.write socket transferred).2.isOpen = socket.isOpen := by
  rw [Session.write]
  split
  · rfl
  · rfl

theorem Echoes.onRead {c : Connection} (h : Echoes c) (hwait : Wait.waitRead ∈ c.waits)
    (ec : ErrorCode) (readBuffer : List UInt8) (readEc : ErrorCode) :
    Echoes (Connection.onRead { c with waits := c.waits.erase .waitRead }
      ec readBuffer readEc) := by
  have hstate : c.session.state = .reading := h.state_eq hwait
  have hwrite : c.writeInProgress = false := by
    rw [h.writeInProgress, Session.readyWrite, hstate]
    exact Bool.and_false _
  have hidle := h.idle hwait false c.writeInProgress rfl hwrite
  rcases Decidable.em (ec = .success) with rfl | hne
  · rw [Connection.onRead_success]
    have hdone := hidle.transferred (c.session.read c.socket readBuffer).1
      (isOpen_read c.session c.socket readBuffer)
    exact hdone.finish (h.inOrder.read hstate readBuffer) readEc
  · rw [Connection.onRead_failure _ hne]
    exact hidle.finish h.inOrder ec

theorem Echoes.onWrite {c : Connection} (h : Echoes c)
    (hwait : Wait.waitWrite ∈ c.waits) (ec : ErrorCode) (transferred : Nat)
    (writeEc : ErrorCode) :
    Echoes (Connection.onWrite { c with waits := c.waits.erase .waitWrite }
      ec transferred writeEc) := by
  have hstate : c.session.state = .writing := h.state_eq hwait
  have hread : c.readInProgress = false := by
    rw [h.readInProgress, Session.readyRead, hstate]
    exact Bool.and_false _
  have hidle := h.idle hwait c.readInProgress false hread rfl
  rcases Decidable.em (ec = .success) with rfl | hne
  · rw [Connection.onWrite_success]
    have hdone := hidle.transferred (c.session.write c.socket transferred).1
      (isOpen_write c.session c.socket transferred)
    exact hdone.finish (h.inOrder.write transferred) writeEc
  · rw [Connection.onWrite_failure _ hne]
    exact hidle.finish h.inOrder ec

/-- A callback keeps the invariant. -/
theorem Echoes.step {c c' : Connection} {callback : Callback} (h : Echoes c)
    (hstep : Connection.step callback c = some c') : Echoes c' := by
  cases callback with
  | read ec readBuffer readEc =>
      rw [Connection.step] at hstep
      split at hstep
      · rename_i hwait
        cases hstep
        exact h.onRead hwait ec readBuffer readEc
      · cases hstep
  | write ec transferred writeEc =>
      rw [Connection.step] at hstep
      split at hstep
      · rename_i hwait
        cases hstep
        exact h.onWrite hwait.1 ec transferred writeEc
      · cases hstep

theorem echoes_start : Echoes Connection.new.start := by
  have hidle : Idle Connection.new := ⟨rfl, rfl, rfl, rfl⟩
  exact hidle.operations ⟨rfl, fun _ => rfl, fun _ => rfl⟩

theorem echoes_of_reaches {c : Connection}
    (h : Sched.Reaches Connection.step Connection.new.start c) : Echoes c :=
  h.invariant Echoes.step echoes_start

/-! ## Nothing is taken back -/

/-- What was received and what was sent only grows. -/
structure Extends (socket socket' : Socket) : Prop where
  received : socket.received <+: socket'.received
  sent : socket.sent <+: socket'.sent

theorem Extends.refl (socket : Socket) : Extends socket socket :=
  ⟨List.prefix_refl _, List.prefix_refl _⟩

theorem Extends.trans {a b c : Socket} (h : Extends a b) (h' : Extends b c) : Extends a c :=
  ⟨h.received.trans h'.received, h.sent.trans h'.sent⟩

theorem extends_read (session : Session) (socket : Socket) (readBuffer : List UInt8) :
    Extends socket (session.read socket readBuffer).2 := by
  rw [Session.read]
  split
  · exact ⟨List.prefix_append _ _, List.prefix_refl _⟩
  · exact ⟨List.prefix_append _ _, List.prefix_refl _⟩

theorem extends_write (session : Session) (socket : Socket) (transferred : Nat) :
    Extends socket (session.write socket transferred).2 := by
  rw [Session.write]
  split
  · exact ⟨List.prefix_refl _, List.prefix_append _ _⟩
  · exact ⟨List.prefix_refl _, List.prefix_append _ _⟩

theorem operations_socket (c : Connection) : c.operations.socket = c.socket := by
  rw [Connection.operations]
  repeat' split
  all_goals rfl

theorem extends_finish {socket : Socket} {c : Connection} (h : Extends socket c.socket)
    (ec : ErrorCode) : Extends socket (c.finish ec).socket := by
  rw [Connection.finish]
  split
  · rw [operations_socket]
    exact h
  · exact ⟨h.received, h.sent⟩

theorem extends_step {c c' : Connection} {callback : Callback}
    (hstep : Connection.step callback c = some c') : Extends c.socket c'.socket := by
  cases callback with
  | read ec readBuffer readEc =>
      rw [Connection.step] at hstep
      split at hstep
      · cases hstep
        rcases Decidable.em (ec = .success) with rfl | hne
        · rw [Connection.onRead_success]
          exact extends_finish (extends_read c.session c.socket readBuffer) readEc
        · rw [Connection.onRead_failure _ hne]
          refine extends_finish ?_ ec
          exact .refl c.socket
      · cases hstep
  | write ec transferred writeEc =>
      rw [Connection.step] at hstep
      split at hstep
      · cases hstep
        rcases Decidable.em (ec = .success) with rfl | hne
        · rw [Connection.onWrite_success]
          exact extends_finish (extends_write c.session c.socket transferred) writeEc
        · rw [Connection.onWrite_failure _ hne]
          refine extends_finish ?_ ec
          exact .refl c.socket
      · cases hstep

theorem extends_of_reaches {c c' : Connection} (h : Sched.Reaches Connection.step c c') :
    Extends c.socket c'.socket :=
  Sched.Reaches.invariant (P := fun d => Extends c.socket d.socket)
    (fun hd hstep => hd.trans (extends_step hstep)) h (.refl _)

/-! ## The echo server -/

/-- **The echo server is safe.**  Between any two callbacks, the bytes that were read are the
bytes that were written back and then the buffer, which is empty while the session reads; an
open connection has one wait outstanding, the one of its state; and in any later state the
bytes that were read and the bytes that were written back are still the first ones, in order. -/
theorem echo_safe {c : Connection}
    (h : Sched.Reaches Connection.step Connection.new.start c) :
    c.socket.received = c.socket.sent ++ c.session.writeBuffer ∧
      (c.session.state = .reading → c.session.writeBuffer = []) ∧
      (c.socket.isOpen = true →
        c.readInProgress = decide (c.session.state = .reading) ∧
        c.writeInProgress = decide (c.session.state = .writing) ∧
        c.readInProgress ≠ c.writeInProgress ∧
        c.waits = [c.session.state.wait]) ∧
      ∀ c', Sched.Reaches Connection.step c c' →
        c.socket.received <+: c'.socket.received ∧ c.socket.sent <+: c'.socket.sent := by
  have hc := echoes_of_reaches h
  refine ⟨hc.inOrder.bytes, hc.inOrder.empty.mp, ?_, ?_⟩
  · intro hopen
    have hread := hc.readInProgress
    have hwrite := hc.writeInProgress
    have hwaits := hc.waits
    rw [hopen] at hread hwrite hwaits
    refine ⟨hread, hwrite, ?_, hwaits⟩
    rw [hread, hwrite, Session.readyRead, Session.readyWrite]
    cases c.session.state with
    | reading => nofun
    | writing => nofun
  · intro c' hreach
    have hext := extends_of_reaches hreach
    exact ⟨hext.received, hext.sent⟩

/-- `abc` comes with `would_block`, `a` goes with `would_block`, then the rest. -/
def abcRun : List Callback :=
  [.read .success [97, 98, 99] .wouldBlock, .write .success 1 .wouldBlock,
    .write .success 2 .success]

/-- The connection after it: all is echoed. -/
def abcEchoed : Connection :=
  { socket := ⟨true, [97, 98, 99], [97, 98, 99]⟩
    session := ⟨.reading, []⟩
    readInProgress := true
    writeInProgress := false
    waits := [.waitRead] }

theorem echo_safe_abcRun :
    Sched.run Connection.step abcRun Connection.new.start = some abcEchoed ∧
      abcEchoed.socket.received =
        abcEchoed.socket.sent ++ abcEchoed.session.writeBuffer := by
  have hrun : Sched.run Connection.step abcRun Connection.new.start = some abcEchoed := by decide
  exact ⟨hrun, (echo_safe (Sched.reaches_of_run hrun)).1⟩

end Smoll.Echo
