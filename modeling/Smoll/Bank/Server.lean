/-
# `Smoll.Bank.Server` — the accounts and what the server does with a packet

`Server.java` without its threads: the account array, the search for an
account and the three operations, and the part of the loop body of
`processTransactions` between `transferIn` and `transferOut`
(`AccountsTable.process`).  A Java exception is an `Except.error`.

The account array has `maxNbAccounts` places of which `initializeAccounts`
fills the first `numberOfAccounts`; the others stay `null`.  `findAccount`
walks along the array until it meets the account, without looking at
`numberOfAccounts` on the way, so it can walk into the `null`s or past the
end.  That is why `findAccount` is in `Except`, and why its answer `-1`
never comes (`findAccount_ne_neg_one`): a search that finds the account
stops before `numberOfAccounts`, and one that does not find it never stops.
-/
import Smoll.Bank.Transactions
import Mathlib.Data.List.Basic

namespace Smoll.Bank

/-- The exceptions an array access can throw. -/
inductive JavaException where
  | nullPointer
  | arrayIndexOutOfBounds
  deriving DecidableEq, Repr

/-- The fields of an account object. -/
structure Accounts (M : Type) where
  accountNumber : String
  accountType : String
  firstName : String
  lastName : String
  balance : M
  deriving DecidableEq

/-- Length of the account array. -/
def maxNbAccounts : Nat := 100

/-- The account array: the accounts in its first places. -/
@[ext]
structure AccountsTable (M : Type) where
  account : List (Accounts M)
  fits : account.length ≤ maxNbAccounts

namespace AccountsTable

variable {M : Type}

/-- How many accounts were read. -/
def numberOfAccounts (tbl : AccountsTable M) : Nat := tbl.account.length

/-- What an access beyond the filled part throws: the places up to
`maxNbAccounts` hold `null`. -/
def emptyPlace (i : Nat) : JavaException :=
  if i < maxNbAccounts then .nullPointer else .arrayIndexOutOfBounds

/-- `account[i]`, dereferenced. -/
def get (tbl : AccountsTable M) (i : Int) : Except JavaException (Accounts M) :=
  if i < 0 then .error .arrayIndexOutOfBounds
  else
    match tbl.account[i.toNat]? with
    | some a => .ok a
    | none => .error (emptyPlace i.toNat)

/-- `account[i].setBalance(bal)`, for an account that is there. -/
def setBalance (tbl : AccountsTable M) (i : Nat) (bal : M) : AccountsTable M where
  account := tbl.account.modify i fun a => { a with balance := bal }
  fits := by simpa using tbl.fits

/-! ## Finding an account -/

/-- The search loop, from index `i` on: `accounts` is what the array holds
there. -/
def findFrom (accNumber : String) : List (Accounts M) → Nat → Except JavaException Nat
  | [], i => .error (emptyPlace i)
  | a :: accounts, i =>
      if a.accountNumber = accNumber then .ok i else findFrom accNumber accounts (i + 1)

/-- The index of an account, or -1. -/
def findAccount (tbl : AccountsTable M) (accNumber : String) : Except JavaException Int := do
  let i ← findFrom accNumber tbl.account 0
  if i = tbl.numberOfAccounts then return -1 else return i

/-! ## The three operations -/

section Operations

variable [Add M] [Sub M]

/-- Add an amount to a balance; the answer is the new balance. -/
def deposit (tbl : AccountsTable M) (i : Int) (amount : M) :
    Except JavaException (M × AccountsTable M) := do
  let curBalance := (← tbl.get i).balance
  let tbl := tbl.setBalance i.toNat (curBalance + amount)
  return ((← tbl.get i).balance, tbl)

/-- Subtract an amount from a balance; the answer is the new balance. -/
def withdraw (tbl : AccountsTable M) (i : Int) (amount : M) :
    Except JavaException (M × AccountsTable M) := do
  let curBalance := (← tbl.get i).balance
  let tbl := tbl.setBalance i.toNat (curBalance - amount)
  return ((← tbl.get i).balance, tbl)

/-- The current balance. -/
def query (tbl : AccountsTable M) (i : Int) : Except JavaException (M × AccountsTable M) := do
  let curBalance := (← tbl.get i).balance
  return (curBalance, tbl)

/-- Find the account of a packet, do the packet's operation and write the new
balance into the packet.  An operation that is none of the three leaves the
packet as it came. -/
def process (tbl : AccountsTable M) (packet : Transactions M) :
    Except JavaException (Transactions M × AccountsTable M) := do
  let accIndex ← tbl.findAccount packet.accountNumber
  if packet.operationType = "DEPOSIT" then
    let (newBalance, tbl) ← tbl.deposit accIndex packet.transactionAmount
    return ((packet.setTransactionBalance newBalance).setTransactionStatus "done", tbl)
  else if packet.operationType = "WITHDRAW" then
    let (newBalance, tbl) ← tbl.withdraw accIndex packet.transactionAmount
    return ((packet.setTransactionBalance newBalance).setTransactionStatus "done", tbl)
  else if packet.operationType = "QUERY" then
    let (newBalance, tbl) ← tbl.query accIndex
    return ((packet.setTransactionBalance newBalance).setTransactionStatus "done", tbl)
  else
    return (packet, tbl)

/-- Packets processed one after another: the replies, and the accounts
afterwards. -/
def processAll (tbl : AccountsTable M) :
    List (Transactions M) → Except JavaException (List (Transactions M) × AccountsTable M)
  | [] => return ([], tbl)
  | packet :: rest => do
      let (reply, tbl) ← tbl.process packet
      let (replies, tbl) ← tbl.processAll rest
      return (reply :: replies, tbl)

end Operations

/-! ## The search, closed up -/

/-- Some account of the table has this number. -/
def Known (tbl : AccountsTable M) (accNumber : String) : Prop :=
  ∃ a ∈ tbl.account, a.accountNumber = accNumber

instance (tbl : AccountsTable M) (accNumber : String) : Decidable (tbl.Known accNumber) :=
  inferInstanceAs (Decidable (∃ a ∈ tbl.account, a.accountNumber = accNumber))

/-- The first place with this account number. -/
def place (tbl : AccountsTable M) (accNumber : String) : Nat :=
  tbl.account.findIdx (·.accountNumber = accNumber)

/-- The balance of the first account with this number. -/
def balanceOf (tbl : AccountsTable M) (accNumber : String) : Option M :=
  tbl.account[tbl.place accNumber]?.map Accounts.balance

/-- The loop stops at the first account with the number. -/
theorem findFrom_of_mem {accNumber : String} (l : List (Accounts M)) (i : Nat)
    (h : ∃ a ∈ l, a.accountNumber = accNumber) :
    findFrom accNumber l i = .ok (i + l.findIdx (·.accountNumber = accNumber)) := by
  induction l generalizing i with
  | nil => simp at h
  | cons a l ih =>
      by_cases ha : a.accountNumber = accNumber
      · simp [findFrom, ha, List.findIdx_cons]
      · have hrest : ∃ a ∈ l, a.accountNumber = accNumber := by simpa [ha] using h
        simp only [findFrom, ha, if_false, ih _ hrest, List.findIdx_cons, decide_false, cond_false]
        congr 1
        omega

/-- Without such an account the loop leaves the filled part of the array. -/
theorem findFrom_of_not_mem {accNumber : String} (l : List (Accounts M)) (i : Nat)
    (h : ¬ ∃ a ∈ l, a.accountNumber = accNumber) :
    findFrom accNumber l i = .error (emptyPlace (i + l.length)) := by
  induction l generalizing i with
  | nil => rfl
  | cons a l ih =>
      have ha : ¬ a.accountNumber = accNumber := fun ha => h ⟨a, by simp, ha⟩
      have hrest : ¬ ∃ a ∈ l, a.accountNumber = accNumber :=
        fun ⟨b, hb, heq⟩ => h ⟨b, List.mem_cons_of_mem _ hb, heq⟩
      simp only [findFrom, ha, if_false, ih _ hrest, List.length_cons]
      congr 2
      omega

theorem place_lt_iff {tbl : AccountsTable M} {accNumber : String} :
    tbl.place accNumber < tbl.account.length ↔ tbl.Known accNumber := by
  simp [place, Known, List.findIdx_lt_length]

/-- The search finds an account that is there. -/
theorem findAccount_of_known {tbl : AccountsTable M} {accNumber : String}
    (h : tbl.Known accNumber) : tbl.findAccount accNumber = .ok (tbl.place accNumber : Int) := by
  have hlt : tbl.place accNumber < tbl.account.length := place_lt_iff.mpr h
  unfold findAccount
  rw [findFrom_of_mem _ _ h, Nat.zero_add]
  have hne : tbl.place accNumber ≠ tbl.numberOfAccounts := Nat.ne_of_lt hlt
  show (if tbl.place accNumber = tbl.numberOfAccounts then _ else _) = _
  rw [if_neg hne]
  rfl

/-- The search for an account that is not there runs out of the filled part of
the array. -/
theorem findAccount_of_unknown {tbl : AccountsTable M} {accNumber : String}
    (h : ¬ tbl.Known accNumber) :
    tbl.findAccount accNumber = .error (emptyPlace tbl.numberOfAccounts) := by
  unfold findAccount
  rw [findFrom_of_not_mem _ _ h, Nat.zero_add]
  rfl

/-- The documented answer -1 is never given. -/
theorem findAccount_ne_neg_one (tbl : AccountsTable M) (accNumber : String) :
    tbl.findAccount accNumber ≠ .ok (-1) := by
  by_cases h : tbl.Known accNumber
  · rw [findAccount_of_known h]
    intro heq
    have := Except.ok.inj heq
    omega
  · rw [findAccount_of_unknown h]
    nofun

/-! ## Changing one balance -/

section SetBalance

variable {tbl : AccountsTable M} {accNumber : String}

theorem numbers_setBalance (tbl : AccountsTable M) (i : Nat) (bal : M) :
    (tbl.setBalance i bal).account.map Accounts.accountNumber
      = tbl.account.map Accounts.accountNumber := by
  apply List.ext_getElem
  · simp [setBalance]
  · intro k h₁ h₂
    simp only [setBalance, List.getElem_map, List.getElem_modify]
    split <;> rfl

theorem known_iff_mem_numbers :
    tbl.Known accNumber ↔ accNumber ∈ tbl.account.map Accounts.accountNumber := by
  simp [Known]

/-- Knowing an account does not depend on balances. -/
@[simp] theorem known_setBalance (tbl : AccountsTable M) (i : Nat) (bal : M) :
    (tbl.setBalance i bal).Known accNumber ↔ tbl.Known accNumber := by
  rw [known_iff_mem_numbers, numbers_setBalance, ← known_iff_mem_numbers]

theorem place_eq_findIdx_numbers (tbl : AccountsTable M) :
    tbl.place accNumber
      = (tbl.account.map Accounts.accountNumber).findIdx (· = accNumber) := by
  simp [place, List.findIdx_map, Function.comp_def]

/-- Nor does the place of an account. -/
@[simp] theorem place_setBalance (tbl : AccountsTable M) (i : Nat) (bal : M) :
    (tbl.setBalance i bal).place accNumber = tbl.place accNumber := by
  rw [place_eq_findIdx_numbers, numbers_setBalance, ← place_eq_findIdx_numbers]

theorem balanceOf_setBalance (h : tbl.Known accNumber) (bal : M) :
    (tbl.setBalance (tbl.place accNumber) bal).balanceOf accNumber = some bal := by
  have hlt : tbl.place accNumber < tbl.account.length := place_lt_iff.mpr h
  unfold balanceOf
  rw [place_setBalance]
  simp [setBalance, List.getElem?_eq_getElem hlt]

/-- Writing back the balance an account has changes nothing. -/
theorem setBalance_self {i : Nat} {a : Accounts M} (h : tbl.account[i]? = some a) :
    tbl.setBalance i a.balance = tbl := by
  apply AccountsTable.ext
  apply List.ext_getElem?
  intro k
  simp only [setBalance, List.getElem?_modify]
  by_cases hk : i = k
  · subst hk
    simp [h]
  · simp [hk]

/-- `account[i]` at the place of an account that is there. -/
theorem get_place (h : tbl.Known accNumber) :
    ∃ a, tbl.account[tbl.place accNumber]? = some a ∧
      tbl.get (tbl.place accNumber : Int) = .ok a := by
  have hlt : tbl.place accNumber < tbl.account.length := place_lt_iff.mpr h
  have hsome : tbl.account[tbl.place accNumber]? = some tbl.account[tbl.place accNumber] :=
    List.getElem?_eq_getElem hlt
  have hneg : ¬ ((tbl.place accNumber : Int) < 0) := by omega
  refine ⟨tbl.account[tbl.place accNumber], hsome, ?_⟩
  simp only [get, hneg, if_false, Int.toNat_natCast, hsome]

theorem get_setBalance_place (h : tbl.Known accNumber) (bal : M) :
    ∃ a, (tbl.setBalance (tbl.place accNumber) bal).get (tbl.place accNumber : Int) = .ok a ∧
      a.balance = bal := by
  have h' : (tbl.setBalance (tbl.place accNumber) bal).Known accNumber := by simpa using h
  obtain ⟨a, hsome, hget⟩ := get_place h'
  have hbal := balanceOf_setBalance h bal
  rw [place_setBalance] at hsome hget
  refine ⟨a, hget, ?_⟩
  simpa [balanceOf, hsome] using hbal

end SetBalance

/-! ## What processing a packet does -/

/-- The operations `processTransactions` distinguishes. -/
def Recognised (operationType : String) : Prop :=
  operationType = "DEPOSIT" ∨ operationType = "WITHDRAW" ∨ operationType = "QUERY"

instance (operationType : String) : Decidable (Recognised operationType) :=
  inferInstanceAs (Decidable (_ ∨ _))

/-- The balance an operation leaves. -/
def newBalance [Add M] [Sub M] (operationType : String) (balance amount : M) : M :=
  if operationType = "DEPOSIT" then balance + amount
  else if operationType = "WITHDRAW" then balance - amount
  else balance

/-- The reply to a packet whose account has the given new balance. -/
def reply (packet : Transactions M) (balance : M) : Transactions M :=
  if Recognised packet.operationType then
    (packet.setTransactionBalance balance).setTransactionStatus "done"
  else packet

section Process

variable [Add M] [Sub M] {tbl : AccountsTable M} {packet : Transactions M}

/-- A packet for a known account is processed: its account gets the new
balance, which is also in the reply. -/
theorem process_of_known (h : tbl.Known packet.accountNumber) :
    ∃ a, tbl.account[tbl.place packet.accountNumber]? = some a ∧
      tbl.process packet = .ok
        (reply packet (newBalance packet.operationType a.balance packet.transactionAmount),
         tbl.setBalance (tbl.place packet.accountNumber)
           (newBalance packet.operationType a.balance packet.transactionAmount)) := by
  obtain ⟨a, hsome, hget⟩ := get_place h
  refine ⟨a, hsome, ?_⟩
  unfold process
  rw [findAccount_of_known h]
  by_cases hd : packet.operationType = "DEPOSIT"
  · obtain ⟨a', hget', hbal⟩ := get_setBalance_place h (a.balance + packet.transactionAmount)
    simp [hd, deposit, hget, hget', hbal, newBalance, reply, Recognised, Bind.bind, Except.bind,
      Pure.pure, Except.pure]
  by_cases hw : packet.operationType = "WITHDRAW"
  · obtain ⟨a', hget', hbal⟩ := get_setBalance_place h (a.balance - packet.transactionAmount)
    simp [hw, withdraw, hget, hget', hbal, newBalance, reply, Recognised, Bind.bind, Except.bind,
      Pure.pure, Except.pure]
  by_cases hq : packet.operationType = "QUERY"
  · simp [hq, query, hget, newBalance, reply, Recognised, setBalance_self hsome, Bind.bind,
      Except.bind, Pure.pure, Except.pure]
  · simp [hd, hw, hq, newBalance, reply, Recognised, setBalance_self hsome, Bind.bind,
      Except.bind, Pure.pure, Except.pure]

/-- A packet for an unknown account throws, whatever its operation. -/
theorem process_of_unknown (h : ¬ tbl.Known packet.accountNumber) :
    tbl.process packet = .error (emptyPlace tbl.numberOfAccounts) := by
  unfold process
  rw [findAccount_of_unknown h]
  rfl

theorem process_ok_of_known (h : tbl.Known packet.accountNumber) :
    ∃ answer tbl', tbl.process packet = .ok (answer, tbl') := by
  obtain ⟨a, -, hproc⟩ := process_of_known h
  exact ⟨_, _, hproc⟩

theorem processAll_cons {answer : Transactions M} {tbl' : AccountsTable M}
    (h : tbl.process packet = .ok (answer, tbl')) (rest : List (Transactions M)) :
    tbl.processAll (packet :: rest)
      = (tbl'.processAll rest).map fun r => (answer :: r.1, r.2) := by
  simp only [processAll, h, Bind.bind, Except.bind]
  cases tbl'.processAll rest <;> rfl

theorem processAll_cons_error {e : JavaException} (h : tbl.process packet = .error e)
    (rest : List (Transactions M)) : tbl.processAll (packet :: rest) = .error e := by
  simp only [processAll, h, Bind.bind, Except.bind]

theorem processAll_append {ts us : List (Transactions M)} {answers : List (Transactions M)}
    {tbl' : AccountsTable M} (h : tbl.processAll ts = .ok (answers, tbl')) :
    tbl.processAll (ts ++ us) = (tbl'.processAll us).map fun r => (answers ++ r.1, r.2) := by
  induction ts generalizing tbl answers with
  | nil =>
      cases h
      cases hus : tbl'.processAll us <;> simp [hus, Except.map]
  | cons t ts ih =>
      cases hproc : tbl.process t with
      | error e =>
          rw [processAll_cons_error hproc] at h
          cases h
      | ok r =>
          rw [processAll_cons hproc] at h
          cases hrest : r.2.processAll ts with
          | error e =>
              rw [hrest] at h
              cases h
          | ok q =>
              rw [hrest] at h
              cases h
              rw [List.cons_append, processAll_cons hproc, ih hrest]
              cases q.2.processAll us <;> rfl

/-- A reply to one of the three operations shows the account's new balance. -/
theorem process_balance {answer : Transactions M} {tbl' : AccountsTable M}
    (h : tbl.process packet = .ok (answer, tbl')) (hop : Recognised packet.operationType) :
    tbl'.balanceOf packet.accountNumber = some answer.transactionBalance := by
  by_cases hk : tbl.Known packet.accountNumber
  · obtain ⟨a, -, hproc⟩ := process_of_known hk
    rw [hproc] at h
    cases h
    rw [balanceOf_setBalance hk, reply, if_pos hop]
    rfl
  · rw [process_of_unknown hk] at h
    cases h

/-- Processing changes balances only. -/
theorem process_numbers {answer : Transactions M} {tbl' : AccountsTable M}
    (h : tbl.process packet = .ok (answer, tbl')) :
    tbl'.account.map Accounts.accountNumber = tbl.account.map Accounts.accountNumber := by
  by_cases hk : tbl.Known packet.accountNumber
  · obtain ⟨a, -, hproc⟩ := process_of_known hk
    rw [hproc] at h
    cases h
    exact numbers_setBalance _ _ _
  · rw [process_of_unknown hk] at h
    cases h

theorem process_known_iff {answer : Transactions M} {tbl' : AccountsTable M}
    (h : tbl.process packet = .ok (answer, tbl')) (accNumber : String) :
    tbl'.Known accNumber ↔ tbl.Known accNumber := by
  rw [known_iff_mem_numbers, process_numbers h, ← known_iff_mem_numbers]

theorem process_numberOfAccounts {answer : Transactions M} {tbl' : AccountsTable M}
    (h : tbl.process packet = .ok (answer, tbl')) :
    tbl'.numberOfAccounts = tbl.numberOfAccounts := by
  simpa [numberOfAccounts] using congrArg List.length (process_numbers h)

end Process

end AccountsTable
end Smoll.Bank
