/-
# `Smoll.Bank.Threads` — the five threads of the bank

`BankDriver.main` starts four threads: the network, the server, the sending
and the receiving client.  Each of them, and `main` itself, is an automaton
here: a program counter with the thread's own data, and a function `act`
that says what the thread does next,

    read      one call of a getter of `Network`, a single read
    transfer  one call of `send`, `receive`, `transferIn` or `transferOut`
    link      one call of `connect` or `disconnect`
    work      a step on the thread's own data
    stop      nothing any more

with the thread's next state as a function of the outcome.  A busy-wait
loop is a `read` that may lead back to the same program counter.  What an
action does to the network is not said here: `Smoll.Bank.Atomic` performs a
call in one step, `Smoll.Bank.Locks` one read or write at a time.

The transaction array of the clients is a list split at the sender's loop
index, `sent` before it and `unsent` from it on; what the receiving client
prints is the list `received`, whose length is its loop index.
-/
import Smoll.Bank.Network
import Smoll.Bank.Server
import Smoll.Lib.Pipe

namespace Smoll.Bank

/-! ## Actions -/

/-- The four packet transfers of `Network`. -/
inductive Transfer where
  | send | receive | transferIn | transferOut
  deriving DecidableEq, Repr

/-- The two connection requests of `Network`. -/
inductive Link where
  | connect | disconnect
  deriving DecidableEq, Repr

/-- What a thread in local states `L` does next. -/
inductive Act (M : Type) (maxNbPackets : Nat) (L : Type) where
  | read (k : Network M maxNbPackets → L)
  | transfer (d : Transfer) (packet : Transactions M) (k : Transactions M → L)
  | link (d : Link) (IP : String) (k : Bool → L)
  | work (l : L)
  | stop

/-! ## The sending client

`Client.run` with `clientOperation` "sending", and `sendTransactions`. -/

inductive SenderPc where
  | awaitNetwork
  | getClientIP
  | connect (IP : String)
  | loopTest
  | awaitSlot
  | send
  | done
  deriving DecidableEq, Repr

structure Sender (M : Type) where
  pc : SenderPc
  sent : List (Transactions M)
  unsent : List (Transactions M)

section Parties

variable {M : Type} {maxNbPackets : Nat}

def Sender.act (c : Sender M) : Act M maxNbPackets (Sender M) :=
  match c.pc with
  | .awaitNetwork => .read fun net =>
      if net.networkStatus = .active then { c with pc := .getClientIP } else c
  | .getClientIP => .read fun net => { c with pc := .connect net.clientIP }
  | .connect IP => .link .connect IP fun _ => { c with pc := .loopTest }
  | .loopTest =>
      match c.unsent with
      | [] => .work { c with pc := .done }
      | _ :: _ => .work { c with pc := .awaitSlot }
  | .awaitSlot => .read fun net =>
      if net.inComing.status = .full then c else { c with pc := .send }
  | .send =>
      match c.unsent with
      | [] => .stop
      | t :: rest =>
          -- `transaction[i].setTransactionStatus("sent")`, then the call
          .transfer .send (t.setTransactionStatus "sent") fun t' =>
            { pc := .loopTest, sent := c.sent ++ [t'], unsent := rest }
  | .done => .stop

/-! ## The receiving client

`Client.run` with `clientOperation` "receiving", and `receiveTransactions`. -/

inductive ReceiverPc where
  | awaitNetwork
  | getClientIP
  | connect (IP : String)
  | loopTest
  | awaitPacket
  | receive
  | getIPToLeave
  | disconnect (IP : String)
  | done
  deriving DecidableEq, Repr

structure Receiver (M : Type) where
  pc : ReceiverPc
  transact : Transactions M
  received : List (Transactions M)
  numberOfTransactions : Nat

/-- The loop of `receiveTransactions` is over. -/
def ReceiverPc.left : ReceiverPc → Bool
  | .getIPToLeave | .disconnect _ | .done => true
  | _ => false

def Receiver.act (c : Receiver M) : Act M maxNbPackets (Receiver M) :=
  match c.pc with
  | .awaitNetwork => .read fun net =>
      if net.networkStatus = .active then { c with pc := .getClientIP } else c
  | .getClientIP => .read fun net => { c with pc := .connect net.clientIP }
  | .connect IP => .link .connect IP fun _ => { c with pc := .loopTest }
  | .loopTest =>
      if c.received.length < c.numberOfTransactions then .work { c with pc := .awaitPacket }
      else .work { c with pc := .getIPToLeave }
  | .awaitPacket => .read fun net =>
      if net.outGoing.status = .empty then c else { c with pc := .receive }
  | .receive => .transfer .receive c.transact fun t =>
      { c with pc := .loopTest, transact := t, received := c.received ++ [t] }
  | .getIPToLeave => .read fun net => { c with pc := .disconnect net.clientIP }
  | .disconnect IP => .link .disconnect IP fun _ => { c with pc := .done }
  | .done => .stop

/-! ## The server

`Server.run` and `processTransactions`.  An exception in the account search
ends the thread. -/

inductive ServerPc where
  | awaitNetwork
  | getServerIP
  | connect (IP : String)
  | loopTest
  | pollStatus
  | pollConnection
  | checkStatus
  | transferIn
  | process
  | awaitSlot
  | transferOut
  | count
  | getIPToLeave
  | disconnect (IP : String)
  | done
  | crashed (e : JavaException)
  deriving DecidableEq, Repr

structure ServerThread (M : Type) where
  pc : ServerPc
  trans : Transactions M
  table : AccountsTable M
  numberOfTransactions : Nat

/-- The loop of `processTransactions` is over. -/
def ServerPc.left : ServerPc → Bool
  | .getIPToLeave | .disconnect _ | .done => true
  | _ => false

/-- The packet the server holds: taken in and not yet transferred out. -/
def ServerThread.holding (v : ServerThread M) : List (Transactions M) :=
  match v.pc with
  | .process | .crashed _ | .awaitSlot | .transferOut => [v.trans]
  | _ => []

/-- The content of the packet the server holds, before or after its
processing. -/
def ServerThread.held (v : ServerThread M) :
    Held (Transactions.Content M) (Transactions.Content M) :=
  match v.pc with
  | .process | .crashed _ => .raw v.trans.content
  | .awaitSlot | .transferOut => .cooked v.trans.content
  | _ => .idle

/-- How many packets have been transferred out. -/
def ServerThread.served (v : ServerThread M) : Nat :=
  v.numberOfTransactions + if v.pc = .count then 1 else 0

def ServerThread.act [Add M] [Sub M] (v : ServerThread M) : Act M maxNbPackets (ServerThread M) :=
  match v.pc with
  | .awaitNetwork => .read fun net =>
      if net.networkStatus = .active then { v with pc := .getServerIP } else v
  | .getServerIP => .read fun net => { v with pc := .connect net.serverIP }
  | .connect IP => .link .connect IP fun _ => { v with pc := .loopTest }
  -- the outer loop runs until the client disconnects
  | .loopTest => .read fun net =>
      if net.clientConnectionStatus = .disconnected then { v with pc := .getIPToLeave }
      else { v with pc := .pollStatus }
  -- the inner loop runs while the buffer is empty and the client there
  | .pollStatus => .read fun net =>
      if net.inComing.status = .empty then { v with pc := .pollConnection }
      else { v with pc := .checkStatus }
  | .pollConnection => .read fun net =>
      if net.clientConnectionStatus = .disconnected then { v with pc := .checkStatus }
      else { v with pc := .pollStatus }
  | .checkStatus => .read fun net =>
      if net.inComing.status = .empty then { v with pc := .loopTest }
      else { v with pc := .transferIn }
  | .transferIn => .transfer .transferIn v.trans fun t => { v with pc := .process, trans := t }
  | .process =>
      match v.table.process v.trans with
      | .ok (t, tbl) => .work { v with pc := .awaitSlot, trans := t, table := tbl }
      | .error e => .work { v with pc := .crashed e }
  | .awaitSlot => .read fun net =>
      if net.outGoing.status = .full then v else { v with pc := .transferOut }
  | .transferOut => .transfer .transferOut v.trans fun t => { v with pc := .count, trans := t }
  | .count =>
      .work { v with pc := .loopTest, numberOfTransactions := v.numberOfTransactions + 1 }
  | .getIPToLeave => .read fun net => { v with pc := .disconnect net.serverIP }
  | .disconnect IP => .link .disconnect IP fun _ => { v with pc := .done }
  | .done => .stop
  | .crashed _ => .stop

/-! ## The network thread and `main` -/

/-- `Network.run`: the two tests of its loop. -/
inductive NetworkPc where
  | testClient
  | testServer
  | done
  deriving DecidableEq, Repr

def NetworkPc.act : NetworkPc → Act M maxNbPackets NetworkPc
  | .testClient => .read fun net =>
      if net.clientConnectionStatus = .disconnected then .testServer else .testClient
  | .testServer => .read fun net =>
      if net.serverConnectionStatus = .disconnected then .done else .testClient
  | .done => .stop

/-- `BankDriver.main`, the constructors of the server and of the sending client
included: each connects before its thread is started, and ends the program
if it cannot.  At `joining` it only waits for the network thread. -/
inductive MainPc where
  | startNetwork
  | getServerIP
  | connectServer (IP : String)
  | startServer
  | getClientIP
  | connectClient (IP : String)
  | startSender
  | startReceiver
  | joining
  | exited
  deriving DecidableEq, Repr

def MainPc.act : MainPc → Act M maxNbPackets MainPc
  | .startNetwork => .work .getServerIP
  | .getServerIP => .read fun net => .connectServer net.serverIP
  | .connectServer IP => .link .connect IP fun ok => if ok then .startServer else .exited
  | .startServer => .work .getClientIP
  | .getClientIP => .read fun net => .connectClient net.clientIP
  | .connectClient IP => .link .connect IP fun ok => if ok then .startSender else .exited
  | .startSender => .work .startReceiver
  | .startReceiver => .work .joining
  | .joining => .stop
  | .exited => .stop

end Parties

/-! ## The state of the program -/

/-- The threads. -/
inductive Thread where
  | main | network | server | sender | receiver
  deriving DecidableEq, Repr

/-- How far `main` has come. -/
def MainPc.stage : MainPc → Nat
  | .startNetwork => 0
  | .getServerIP => 1
  | .connectServer _ => 2
  | .startServer => 3
  | .getClientIP => 4
  | .connectClient _ => 5
  | .startSender => 6
  | .startReceiver => 7
  | .joining => 8
  | .exited => 0

/-- The stage of `main` from which on a thread runs. -/
def Thread.startStage : Thread → Nat
  | .main => 0
  | .network => 1
  | .server => 4
  | .sender => 7
  | .receiver => 8

/-- `main` has started this thread. -/
def MainPc.started (m : MainPc) (t : Thread) : Prop := t.startStage ≤ m.stage

instance (m : MainPc) (t : Thread) : Decidable (m.started t) :=
  inferInstanceAs (Decidable (_ ≤ _))

/-- The static state of the network and the local state of each thread. -/
structure State (M : Type) (maxNbPackets : Nat) where
  net : Network M maxNbPackets
  main : MainPc
  network : NetworkPc
  server : ServerThread M
  sender : Sender M
  receiver : Receiver M

/-- The beginning of `main`, after `new Network("network")`, for an accounts
file and a transactions file that hold `table` and `transaction`. -/
def State.init {M : Type} [Zero M] {maxNbPackets : Nat} (h : 0 < maxNbPackets)
    (table : AccountsTable M) (transaction : List (Transactions M)) : State M maxNbPackets where
  net := Network.new h
  main := .startNetwork
  network := .testClient
  server := ⟨.awaitNetwork, Transactions.new, table, 0⟩
  sender := ⟨.awaitNetwork, [], transaction⟩
  receiver := ⟨.awaitNetwork, Transactions.new, [], transaction.length⟩

end Smoll.Bank
