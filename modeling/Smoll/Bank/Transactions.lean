/-
# `Smoll.Bank.Transactions` — the packets of the bank network

`Transactions.java`: the one kind of object the clients, the network buffers
and the server hand around.  Amounts and balances are of an arbitrary type
`M`; the code uses them only through `+`, `-` and the initial `0.00`.

Two fields deserve a look.  `setTransactionStatus` assigns to
`transactionError`, so every "status" of a packet lands in its error field
and `transactionStatus` keeps the blank the constructor put there.  The
model follows the code; `content` is what a packet carries besides these two
texts.
-/
import Mathlib

namespace Smoll.Bank

/-- The fields of a transaction object. -/
@[ext]
structure Transactions (M : Type) where
  accountNumber : String
  operationType : String
  transactionAmount : M
  transactionBalance : M
  transactionError : String
  transactionStatus : String
  deriving DecidableEq

namespace Transactions

variable {M : Type}

/-- The constructor. -/
def new [Zero M] : Transactions M :=
  ⟨" ", " ", 0, 0, "none", " "⟩

/-! ## The setters -/

def setAccountNumber (t : Transactions M) (accNumber : String) : Transactions M :=
  { t with accountNumber := accNumber }

def setOperationType (t : Transactions M) (opType : String) : Transactions M :=
  { t with operationType := opType }

def setTransactionAmount (t : Transactions M) (transAmount : M) : Transactions M :=
  { t with transactionAmount := transAmount }

def setTransactionBalance (t : Transactions M) (transBalance : M) : Transactions M :=
  { t with transactionBalance := transBalance }

def setTransactionError (t : Transactions M) (transError : String) : Transactions M :=
  { t with transactionError := transError }

/-- The setter of the status writes the error field. -/
def setTransactionStatus (t : Transactions M) (transStatus : String) : Transactions M :=
  { t with transactionError := transStatus }

/-! ## Copying a packet

Each of `send`, `receive`, `transferOut` and `transferIn` copies a packet
with the same six setter calls, the last of them with a text of its own. -/

/-- The six setter calls, in the order the code makes them. -/
inductive Field where
  | accountNumber
  | operationType
  | transactionAmount
  | transactionBalance
  | transactionError
  | transactionStatus
  deriving DecidableEq

/-- The setter calls of one packet copy. -/
def Field.all : List Field :=
  [.accountNumber, .operationType, .transactionAmount, .transactionBalance,
   .transactionError, .transactionStatus]

/-- One setter call: the field of `src` into `dst`, and `stamp` as status. -/
def Field.copy (stamp : String) (src : Transactions M) :
    Field → Transactions M → Transactions M
  | .accountNumber, dst => dst.setAccountNumber src.accountNumber
  | .operationType, dst => dst.setOperationType src.operationType
  | .transactionAmount, dst => dst.setTransactionAmount src.transactionAmount
  | .transactionBalance, dst => dst.setTransactionBalance src.transactionBalance
  | .transactionError, dst => dst.setTransactionError src.transactionError
  | .transactionStatus, dst => dst.setTransactionStatus stamp

/-- The given setter calls, one after another. -/
def copyFields (stamp : String) (src : Transactions M) (fs : List Field)
    (dst : Transactions M) : Transactions M :=
  fs.foldl (fun d f => f.copy stamp src d) dst

/-- The whole copy: all six setter calls. -/
def copyFrom (dst src : Transactions M) (stamp : String) : Transactions M :=
  copyFields stamp src Field.all dst

/-! ## What a packet carries -/

/-- A packet without its two message texts. -/
@[ext]
structure Content (M : Type) where
  accountNumber : String
  operationType : String
  transactionAmount : M
  transactionBalance : M
  deriving DecidableEq

/-- The part of a packet that transport must not change. -/
def content (t : Transactions M) : Content M :=
  ⟨t.accountNumber, t.operationType, t.transactionAmount, t.transactionBalance⟩

/-- The part of a packet the client has written and nobody may change. -/
def Content.request (c : Content M) : String × String × M :=
  (c.accountNumber, c.operationType, c.transactionAmount)

/-- Account number, operation and amount of a packet. -/
def request (t : Transactions M) : String × String × M := t.content.request

@[simp] theorem content_setTransactionStatus (t : Transactions M) (s : String) :
    (t.setTransactionStatus s).content = t.content := rfl

@[simp] theorem content_copyFrom (dst src : Transactions M) (stamp : String) :
    (dst.copyFrom src stamp).content = src.content := rfl

end Transactions
end Smoll.Bank
