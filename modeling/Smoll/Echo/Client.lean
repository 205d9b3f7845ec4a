/-
# `Smoll.Echo.Client` — the client of the echo server, and the two together

The client opens one connection for each request and handles all of them in
one thread, its `io_context`.  Its socket is not made non-blocking: within a
handler `asio::write` goes on until everything is written, `asio::read` until
the stream ends, and meanwhile the thread runs no other handler.

A `Link` is one connection from end to end: what the client has of it, the bytes
under way in both directions, and the `Connection` of the server.  Nothing
fails but the resolving; how many bytes an operation transfers at a time is
left open, and so is the order in which the links move.
-/
import Smoll.Echo.Connection

namespace Smoll.Echo.Client

abbrev Bytes := List UInt8

/-! ## The source -/

structure Session where
  state : State
  writeBuffer : Bytes
  readBuffer : Bytes
  deriving DecidableEq

namespace Session

def new : Session := ⟨.writing, [], []⟩

def readyRead (self : Session) : Bool := self.state == .reading

def readyWrite (self : Session) : Bool := self.state == .writing

/-- The end of `read`, with what it prints: a C string. -/
def read (self : Session) (response : Bytes) : Session × List Bytes :=
  if response.length ≠ 0 then
    ({ self with readBuffer := response }, [response.takeWhile (· ≠ 0)])
  else (self, [])

/-- The end of `write`. -/
def write (self : Session) (transferred : Nat) : Session :=
  if transferred ≠ 0 then
    { self with state := if self.writeBuffer.length > 0 then .writing else .reading }
  else self

end Session

/-- A connection, with its waits that are outstanding in the io_context. -/
structure Connection where
  isOpen : Bool
  session : Session
  readInProgress : Bool
  writeInProgress : Bool
  waits : List Wait
  deriving DecidableEq

namespace Connection

def new : Connection := ⟨false, .new, false, false, []⟩

def start (self : Connection) : Connection := { self with isOpen := true }

def request (self : Connection) : Connection :=
  if self.session.readyWrite && !self.writeInProgress then
    { self with writeInProgress := true, waits := self.waits ++ [.waitWrite] }
  else self

def response (self : Connection) : Connection :=
  if self.session.readyRead && !self.readInProgress then
    { self with readInProgress := true, waits := self.waits ++ [.waitRead] }
  else self

def close (self : Connection) : Connection := { self with isOpen := false }

end Connection

/-- The handler in which the thread is: what `asio::write` has left and has written, or what
`asio::read` has so far. -/
inductive Handler where
  | writing (rest : Bytes) (transferred : Nat)
  | reading (response : Bytes)
  deriving DecidableEq

/-! ## One connection -/

structure Link where
  req : Bytes
  resolving : Bool
  client : Connection
  handler : Option Handler
  printed : List Bytes
  up : Bytes
  down : Bytes
  server : Option Echo.Connection
  deriving DecidableEq

namespace Link

/-- `async_request`, as far as the resolver. -/
def request (req : Bytes) : Link := ⟨req, true, .new, none, [], [], [], none⟩

/-- The handler of the resolver; `asio::connect` lets the server accept. -/
def resolved (self : Link) (ok : Bool) : Link :=
  let self := { self with resolving := false }
  if ok then
    { self with client := self.client.start.request, server := some Echo.Connection.new.start }
  else { self with client := self.client.close }

/-- `asio::write` returns. -/
def written (self : Link) (transferred : Nat) : Link :=
  { self with
    handler := none
    client := { self.client with session := self.client.session.write transferred }.response }

/-- The server has closed its end. -/
def serverClosed (self : Link) : Bool := self.server.any fun server => !server.socket.isOpen

end Link

inductive Move where
  | resolved (ok : Bool)
  | waitOver (wait : Wait)
  | transfer (n : Nat)
  | endOfStream
  | serverRead
  | serverWrite (n : Nat)
  deriving DecidableEq

/-- The io_context runs a handler. -/
def Move.runsHandler : Move → Bool
  | .resolved _ | .waitOver _ => true
  | _ => false

/-- The wait for a read is over when there is something to read; `asio::read` takes all there is. -/
def Link.step : Move → Link → Option Link
  | .resolved ok, self => if self.resolving then some (self.resolved ok) else none
  | .waitOver .waitWrite, self =>
      if Wait.waitWrite ∈ self.client.waits then
        let self := { self with
          client := { self.client with
            writeInProgress := false
            waits := self.client.waits.erase .waitWrite } }
        if self.req = [] then some (self.written 0)
        else some { self with handler := some (.writing self.req 0) }
      else none
  | .waitOver .waitRead, self =>
      if Wait.waitRead ∈ self.client.waits ∧ (self.down ≠ [] ∨ self.serverClosed) then
        some { self with
          handler := some (.reading [])
          client := { self.client with
            readInProgress := false
            waits := self.client.waits.erase .waitRead } }
      else none
  | .transfer n, self =>
      match self.handler with
      | some (.writing rest transferred) =>
          if 0 < n ∧ n ≤ rest.length then
            let self := { self with up := self.up ++ rest.take n }
            if n = rest.length then some (self.written (transferred + n))
            else some { self with handler := some (.writing (rest.drop n) (transferred + n)) }
          else none
      | some (.reading response) =>
          if 0 < n ∧ n ≤ self.down.length then
            some { self with
              handler := some (.reading (response ++ self.down.take n))
              down := self.down.drop n }
          else none
      | none => none
  | .endOfStream, self =>
      match self.handler with
      | some (.reading response) =>
          if self.down = [] ∧ self.serverClosed then
            let done := self.client.session.read response
            some { self with
              handler := none
              client := { self.client with session := done.1 }
              printed := self.printed ++ done.2 }
          else none
      | _ => none
  | .serverRead, self =>
      match self.server with
      | some server =>
          if self.up ≠ [] ∨ !self.client.isOpen then
            let readEc := if self.client.isOpen then .wouldBlock else .eof
            (Echo.Connection.step (.read .success self.up readEc) server).map fun server =>
              { self with server := some server, up := [] }
          else none
      | none => none
  | .serverWrite n, self =>
      match self.server with
      | some server =>
          if 0 < n then
            let writeEc :=
              if n = server.session.writeBuffer.length then .success else .wouldBlock
            (Echo.Connection.step (.write .success n writeEc) server).map fun server' =>
              { self with
                server := some server'
                down := self.down ++ server.session.writeBuffer.take n }
          else none
      | none => none

/-! ## The program -/

structure World where
  links : List Link
  finished : Bool
  deriving DecidableEq

namespace World

/-- `main`, as far as `io_context.run()`. -/
def main (requests : List Bytes) : World := ⟨requests.map Link.request, false⟩

/-- The thread is in a handler. -/
def busy (self : World) : Bool := self.links.any fun link => link.handler.isSome

/-- Nothing is left to do for the io_context. -/
def done (self : World) : Bool :=
  !self.busy && self.links.all fun link => !link.resolving && link.client.waits.isEmpty

/-- A move of a link, or `run` returns and the client ends. -/
def step : Option (Nat × Move) → World → Option World
  | some (i, move), self =>
      match self.links[i]? with
      | some link =>
          if move.runsHandler && (self.busy || self.finished) then none
          else (link.step move).map fun link => { self with links := self.links.set i link }
      | none => none
  | none, self =>
      if self.done && !self.finished then
        some
          { links := self.links.map fun link => { link with client := link.client.close }
            finished := true }
      else none

end World
end Smoll.Echo.Client
