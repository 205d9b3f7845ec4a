/-
# `Smoll.Bank.Loading` — reading the two input files

`Server.initializeAccounts` and `Client.readTransactions` have the same loop:
as long as there is a next line, the next place of the array gets a new object,
and its fields are read token by token (`readRecords`).

    places left   input left            the next record
    0             anything              ArrayIndexOutOfBoundsException
    some          no token              NoSuchElementException, not caught
    some          a word for a number   InputMismatchException, caught: exit

`WritesFile` is a file that holds some records, one per line.  The readers give
back what was written when nothing comes behind the last record
(`readRecords_writes`).  A line terminator there is a next line without a
token, so the loop goes on to a record that is not there.
-/
import Smoll.Lib.Scanner
import Smoll.Bank.Server

namespace Smoll.Bank

open Scanner

variable {α : Type} {M : Type}

/-! ## The source -/

/-- What ends the program while it reads: an exception that nobody catches, or `System.exit`. -/
inductive Stop where
  | scanner (e : Scanner.Exception)
  | array (e : JavaException)
  | exit (printed : List String)
  deriving DecidableEq, Repr

/-- The loop over the lines, with so many places of the array left and the next index; the records
read, and the index at the end. -/
def readRecords (record : Scan α) (invalid : Nat → String) :
    Nat → Nat → List Char → Except Stop (List α × Nat)
  | 0, i, inputStream =>
      if hasNextLine inputStream then .error (.array .arrayIndexOutOfBounds) else .ok ([], i)
  | places + 1, i, inputStream =>
      if hasNextLine inputStream then
        match record.run inputStream with
        | .ok (r, inputStream) => do
            let (rs, n) ← readRecords record invalid places (i + 1) inputStream
            return (r :: rs, n)
        | .error .inputMismatch => .error (.exit [invalid i])
        | .error .noSuchElement => .error (.scanner .noSuchElement)
      else .ok ([], i)

namespace Server

/-- One account. -/
def readAccount (parseDouble : String → Option M) : Scan (Accounts M) := do
  let accountNumber ← next
  let accountType ← next
  let firstName ← next
  let lastName ← next
  let balance ← nextDouble parseDouble
  return { accountNumber, accountType, firstName, lastName, balance }

/-- The accounts in the array and `numberOfAccounts`; `none` is a file that is not there. -/
def initializeAccounts (parseDouble : String → Option M) :
    Option (List Char) → Except Stop (List (Accounts M) × Nat)
  | none => .error (.exit ["File account.txt was not found", "or could not be opened."])
  | some inputStream =>
      readRecords (readAccount parseDouble)
        (fun i => "Line " ++ toString i ++ "file account.txt invalid input")
        maxNbAccounts 0 inputStream

end Server

namespace Client

/-- Length of the transaction array. -/
def maxNbTransactions : Nat := 100

/-- One transaction. -/
def readTransaction [Zero M] (parseDouble : String → Option M) : Scan (Transactions M) := do
  let transaction := Transactions.new
  let transaction := transaction.setAccountNumber (← next)
  let transaction := transaction.setOperationType (← next)
  let transaction := transaction.setTransactionAmount (← nextDouble parseDouble)
  return transaction.setTransactionStatus "pending"

/-- The transactions in the array and `numberOfTransactions`. -/
def readTransactions [Zero M] (parseDouble : String → Option M) :
    Option (List Char) → Except Stop (List (Transactions M) × Nat)
  | none => .error (.exit ["File transaction.txt was not found", "or could not be opened."])
  | some inputStream =>
      readRecords (readTransaction parseDouble)
        (fun i => "Line " ++ toString i ++ "file transactions.txt invalid input")
        maxNbTransactions 0 inputStream

end Client

/-- What is loaded fits the array, and is counted. -/
theorem readRecords_counts {record : Scan α} {invalid : Nat → String} {places i n : Nat}
    {inputStream : List Char} {rs : List α}
    (h : readRecords record invalid places i inputStream = .ok (rs, n)) :
    rs.length ≤ places ∧ n = i + rs.length := by
  induction places generalizing i inputStream rs with
  | zero =>
      rw [readRecords] at h
      split at h
      · cases h
      · cases h
        exact ⟨Nat.le_refl 0, rfl⟩
  | succ places ih =>
      rw [readRecords] at h
      split at h
      · split at h
        · rename_i r inputStream' _
          cases hrest : readRecords record invalid places (i + 1) inputStream' with
          | error e =>
              rw [hrest] at h
              cases h
          | ok loaded =>
              rw [hrest] at h
              cases h
              rcases ih hrest with ⟨hlen, hn⟩
              rw [List.length_cons]
              exact ⟨Nat.succ_le_succ hlen, by omega⟩
        · cases h
        · cases h
      · cases h
        exact ⟨Nat.zero_le _, rfl⟩

/-- The accounts of the server. -/
def Server.loadAccounts (parseDouble : String → Option M) (file : Option (List Char)) :
    Except Stop (AccountsTable M) :=
  match h : Server.initializeAccounts parseDouble file with
  | .error e => .error e
  | .ok (account, _) => .ok
      { account
        fits := by
          cases file with
          | none => cases h
          | some inputStream => exact (readRecords_counts h).1 }

/-! ## Files of records -/

/-- The end of a line. -/
inductive LineTerminator where
  | lf
  | crlf
  | cr
  deriving DecidableEq, Repr

def LineTerminator.text : LineTerminator → List Char
  | .lf => ['\n']
  | .crlf => ['\r', '\n']
  | .cr => ['\r']

/-- What comes behind the last record. -/
def ending : Option LineTerminator → List Char
  | none => []
  | some t => t.text

/-- What separates two fields. -/
structure Blanks where
  text : List Char
  nonempty : text ≠ []
  blank : ∀ c ∈ text, c = ' ' ∨ c = '\t'

/-- The fields of one record on a line. -/
inductive WritesLine : List String → List Char → Prop where
  | last (field : String) : WritesLine [field] field.toList
  | more (field : String) (blanks : Blanks) {fields : List String} {text : List Char} :
      WritesLine fields text →
        WritesLine (field :: fields) (field.toList ++ (blanks.text ++ text))

/-- Some records, one per line. -/
inductive WritesFile : Option LineTerminator → List (List String) → List Char → Prop where
  | empty : WritesFile none [] []
  | last (terminator : Option LineTerminator) {fields : List String} {text : List Char} :
      WritesLine fields text → WritesFile terminator [fields] (text ++ ending terminator)
  | more (t : LineTerminator) {terminator : Option LineTerminator}
      {fields fields' : List String} {rest : List (List String)} {text file : List Char} :
      WritesLine fields text → WritesFile terminator (fields' :: rest) file →
        WritesFile terminator (fields :: fields' :: rest) (text ++ (t.text ++ file))

theorem Blanks.whitespace (blanks : Blanks) : Blank blanks.text := by
  intro c hc
  rcases blanks.blank c hc with rfl | rfl
  · rfl
  · rfl

theorem LineTerminator.whitespace (t : LineTerminator) : Blank t.text := by
  intro c hc
  cases t with
  | lf => exact List.mem_singleton.mp hc ▸ rfl
  | crlf =>
      rcases List.mem_cons.mp hc with rfl | hc
      · rfl
      · exact List.mem_singleton.mp hc ▸ rfl
  | cr => exact List.mem_singleton.mp hc ▸ rfl

theorem LineTerminator.nonempty (t : LineTerminator) : t.text ≠ [] := by
  cases t with
  | lf => exact List.cons_ne_nil _ _
  | crlf => exact List.cons_ne_nil _ _
  | cr => exact List.cons_ne_nil _ _

theorem ending_delimits (terminator : Option LineTerminator) : Delimits (ending terminator) := by
  cases terminator with
  | none =>
      intro c hc
      cases hc
  | some t =>
      have h := t.whitespace.delimits t.nonempty []
      rwa [List.append_nil] at h

/-- The scanner finds the fields of a line. -/
theorem WritesLine.tokens {fields : List String} {text rest : List Char}
    (h : WritesLine fields text) (hrest : Delimits rest) (htokens : ∀ f ∈ fields, IsToken f) :
    Tokens fields (text ++ rest) rest := by
  induction h with
  | last field =>
      exact .first (htokens field (List.mem_singleton_self field)) hrest .done
  | @more field blanks fields text hline ih =>
      have hne : fields ≠ [] := by cases hline <;> exact List.cons_ne_nil _ _
      have hfields := ih fun f hf => htokens f (List.mem_cons_of_mem field hf)
      rw [List.append_assoc, List.append_assoc]
      exact .first (htokens field (List.mem_cons_self ..))
        (blanks.whitespace.delimits blanks.nonempty _) (hfields.after blanks.whitespace hne)

/-! ## Reading what was written -/

/-- A reader of records, and how the fields of its records are written. -/
structure Understands (record : Scan α) (written : α → List String → Prop) : Prop where
  nonempty : ∀ {r fields}, written r fields → fields ≠ []
  tokens : ∀ {r fields}, written r fields → ∀ f ∈ fields, IsToken f
  reads : ∀ {r fields input rest}, written r fields → Tokens fields input rest →
    record.run input = .ok (r, rest)
  blank : ∀ {input}, Blank input → record.run input = .error .noSuchElement

/-- What the loop gives at the end of the records. -/
def outcome (rs : List α) (n places : Nat) : Option LineTerminator → Except Stop (List α × Nat)
  | none => .ok (rs, n)
  | some _ =>
      if rs.length < places then .error (.scanner .noSuchElement)
      else .error (.array .arrayIndexOutOfBounds)

section Reading

variable {record : Scan α} {invalid : Nat → String} {written : α → List String → Prop}
  {terminator : Option LineTerminator}

/-- Behind the last record. -/
theorem readRecords_ending (h : Understands record written) (places i : Nat) :
    readRecords record invalid places i (ending terminator) = outcome [] i places terminator := by
  cases terminator with
  | none =>
      cases places with
      | zero => rfl
      | succ places => rfl
  | some t =>
      have hline : hasNextLine (ending (some t)) = true := by cases t <;> rfl
      cases places with
      | zero =>
          rw [readRecords, if_pos hline]
          rfl
      | succ places =>
          have hblank : record.run (ending (some t)) = .error .noSuchElement :=
            h.blank t.whitespace
          rw [readRecords, if_pos hline, hblank, outcome, List.length_nil,
            if_pos (Nat.succ_pos places)]

/-- One record. -/
theorem readRecords_record (h : Understands record written) {r : α} {fields : List String}
    (hr : written r fields) {input rest : List Char} (hts : Tokens fields input rest)
    (places i : Nat) :
    readRecords record invalid (places + 1) i input = do
      let (rs, n) ← readRecords record invalid places (i + 1) rest
      return (r :: rs, n) := by
  have hline : hasNextLine input = true := by
    cases hts with
    | done => exact absurd rfl (h.nonempty hr)
    | @more text ts gap input rest hgap htext hinput hts =>
        cases gap with
        | cons c gap => rfl
        | nil =>
            cases htoken : text.toList with
            | nil => exact absurd htoken htext.nonempty
            | cons c cs => rfl
  rw [readRecords, if_pos hline, h.reads hr hts]

theorem outcome_cons (r : α) (rs : List α) (n places : Nat) :
    (do
      let (rs, n) ← outcome rs n places terminator
      return (r :: rs, n)) = outcome (r :: rs) n (places + 1) terminator := by
  cases terminator with
  | none => rfl
  | some t =>
      simp only [outcome, List.length_cons, Nat.add_lt_add_iff_right]
      split
      · rfl
      · rfl

/-- Reading what was written, behind some whitespace. -/
theorem readRecords_behind (h : Understands record written) {records : List α}
    {lines : List (List String)} {file : List Char} (hfile : WritesFile terminator lines file) :
    ∀ (gap : List Char) (places i : Nat), List.Forall₂ written records lines →
      records.length ≤ places → Blank gap → (lines = [] → gap = []) →
      readRecords record invalid places i (gap ++ file) =
        outcome records (i + records.length) places terminator := by
  induction hfile generalizing records with
  | empty =>
      intro gap places i hrecords _ _ hgap
      cases hrecords
      rw [hgap rfl]
      exact @readRecords_ending _ _ _ _ none h places i
  | last terminator hline =>
      intro gap places i hrecords hlen hgap _
      rcases hrecords with _ | ⟨hr, hnil⟩
      cases hnil
      cases places with
      | zero => exact absurd hlen (Nat.not_succ_le_zero 0)
      | succ places =>
          have hts := (hline.tokens (ending_delimits terminator) (h.tokens hr)).after hgap
            (h.nonempty hr)
          rw [readRecords_record h hr hts, readRecords_ending h, outcome_cons]
          rfl
  | @more t terminator fields fields' rest text file hline hfile ih =>
      intro gap places i hrecords hlen hgap _
      rcases hrecords with _ | ⟨hr, hrest⟩
      rename_i r rs
      cases places with
      | zero => exact absurd hlen (Nat.not_succ_le_zero _)
      | succ places =>
          have hts := (hline.tokens (t.whitespace.delimits t.nonempty file) (h.tokens hr)).after
            hgap (h.nonempty hr)
          have hloop := ih t.text places (i + 1) hrest (Nat.le_of_succ_le_succ hlen)
            t.whitespace (fun hnil => absurd hnil (List.cons_ne_nil _ _))
          rw [readRecords_record h hr hts, hloop, outcome_cons, List.length_cons]
          congr 1
          omega

/-- **Reading what was written.** -/
theorem readRecords_writes (h : Understands record written) {records : List α}
    {lines : List (List String)} {file : List Char} (hfile : WritesFile terminator lines file)
    (hrecords : List.Forall₂ written records lines) {places : Nat}
    (hlen : records.length ≤ places) :
    readRecords record invalid places 0 file = outcome records records.length places terminator := by
  have hloop := @readRecords_behind _ _ invalid _ _ h _ _ _ hfile [] places 0 hrecords hlen
    (fun _ hc => absurd hc List.not_mem_nil) (fun _ => rfl)
  rwa [Nat.zero_add] at hloop

/-- The loop gives all records if nothing comes behind them. -/
theorem outcome_eq_ok_iff (rs : List α) (places : Nat) :
    outcome rs rs.length places terminator = .ok (rs, rs.length) ↔ terminator = none := by
  cases terminator with
  | none => exact iff_of_true rfl rfl
  | some t =>
      refine iff_of_false ?_ fun hnone => by cases hnone
      rw [outcome]
      split
      · intro h
        cases h
      · intro h
        cases h

end Reading

/-! ## The two files -/

section Files

variable (parseDouble : String → Option M)

/-- How an account is written. -/
structure WritesAccount (a : Accounts M) (fields : List String) : Prop where
  inOrder : ∃ balance, fields = [a.accountNumber, a.accountType, a.firstName, a.lastName, balance] ∧
    parseDouble balance = some a.balance
  tokens : ∀ f ∈ fields, IsToken f

theorem understands_account : Understands (Server.readAccount parseDouble)
    (WritesAccount parseDouble) where
  nonempty h := by
    rcases h.inOrder with ⟨balance, rfl, _⟩
    exact List.cons_ne_nil _ _
  tokens h := h.tokens
  reads {a fields input rest} h hts := by
    rcases h.inOrder with ⟨balance, rfl, hbalance⟩
    rcases hts.next with ⟨i₁, hnumber, hts⟩
    rcases hts.next with ⟨i₂, htype, hts⟩
    rcases hts.next with ⟨i₃, hfirst, hts⟩
    rcases hts.next with ⟨i₄, hlast, hts⟩
    rcases hts.nextDouble hbalance with ⟨i₅, hdouble, hts⟩
    cases hts
    simp only [Server.readAccount, StateT.run, bind, StateT.bind, Except.bind, hnumber, htype,
      hfirst, hlast, hdouble, pure, StateT.pure, Except.pure]
  blank h := by
    simp only [Server.readAccount, StateT.run, bind, StateT.bind, Except.bind, next_blank h]

variable [Zero M]

/-- The loaded transaction, of an account number, an operation and an amount. -/
def pending (record : String × String × M) : Transactions M :=
  (((Transactions.new.setAccountNumber record.1).setOperationType record.2.1).setTransactionAmount
    record.2.2).setTransactionStatus "pending"

/-- How a transaction is written. -/
structure WritesTransaction (record : String × String × M) (fields : List String) : Prop where
  inOrder : ∃ amount, fields = [record.1, record.2.1, amount] ∧ parseDouble amount = some record.2.2
  tokens : ∀ f ∈ fields, IsToken f

theorem understands_transaction : Understands (Client.readTransaction parseDouble)
    fun t fields => ∃ record, t = pending record ∧ WritesTransaction parseDouble record fields where
  nonempty h := by
    rcases h with ⟨record, rfl, h⟩
    rcases h.inOrder with ⟨amount, rfl, _⟩
    exact List.cons_ne_nil _ _
  tokens h := by
    rcases h with ⟨record, rfl, h⟩
    exact h.tokens
  reads {t fields input rest} h hts := by
    rcases h with ⟨record, rfl, h⟩
    rcases h.inOrder with ⟨amount, rfl, hamount⟩
    rcases hts.next with ⟨i₁, hnumber, hts⟩
    rcases hts.next with ⟨i₂, htype, hts⟩
    rcases hts.nextDouble hamount with ⟨i₃, hdouble, hts⟩
    cases hts
    simp only [Client.readTransaction, StateT.run, bind, StateT.bind, Except.bind, hnumber, htype,
      hdouble, pure, StateT.pure, Except.pure, pending]
  blank h := by
    simp only [Client.readTransaction, StateT.run, bind, StateT.bind, Except.bind, next_blank h]

end Files

/-- **Loading undoes writing, but for a line terminator at the end.**  A file of at most 100
records is loaded, in order and counted, if and only if nothing comes behind the last record. -/
theorem loading_undoes_writing_iff [Zero M] (parseDouble : String → Option M)
    (terminator : Option LineTerminator) (lines : List (List String)) (file : List Char)
    (hfile : WritesFile terminator lines file) :
    (∀ accounts : List (Accounts M), accounts.length ≤ 100 →
      List.Forall₂ (WritesAccount parseDouble) accounts lines →
        (Server.initializeAccounts parseDouble (some file) = .ok (accounts, accounts.length) ↔
          terminator = none)) ∧
    ∀ records : List (String × String × M), records.length ≤ 100 →
      List.Forall₂ (WritesTransaction parseDouble) records lines →
        (Client.readTransactions parseDouble (some file) =
            .ok (records.map pending, records.length) ↔
          terminator = none) := by
  constructor
  · intro accounts hlen haccounts
    replace hlen : accounts.length ≤ maxNbAccounts := hlen
    rw [Server.initializeAccounts,
      readRecords_writes (understands_account parseDouble) hfile haccounts hlen, outcome_eq_ok_iff]
  · intro records hlen hrecords
    have hloaded : List.Forall₂
        (fun t fields => ∃ record, t = pending record ∧ WritesTransaction parseDouble record fields)
        (records.map pending) lines :=
      List.forall₂_map_left_iff.mpr (hrecords.imp fun record fields h => ⟨record, rfl, h⟩)
    have hcount : (records.map pending).length = records.length := List.length_map ..
    have hlen' : (records.map pending).length ≤ Client.maxNbTransactions := hcount ▸ hlen
    rw [Client.readTransactions,
      readRecords_writes (understands_transaction parseDouble) hfile hloaded hlen', ← hcount,
      outcome_eq_ok_iff]

/-- Numbers of digits only, as in the two files. -/
def wholeNumber (text : String) : Option Int :=
  if text.toList.all Char.isDigit && !text.toList.isEmpty then
    some (text.toList.foldl (fun n c => 10 * n + (c.toNat - '0'.toNat : Nat)) 0)
  else none

def oneBlank : Blanks where
  text := [' ']
  nonempty := List.cons_ne_nil _ _
  blank _ hc := .inl (List.mem_singleton.mp hc)

/-- The first two lines of `transaction.txt`, without a line terminator at the end. -/
theorem loading_undoes_writing_twoLines :
    Client.readTransactions wholeNumber
        (some "31718 DEPOSIT 90\r\n11528 WITHDRAW 500".toList) =
      .ok ([pending ("31718", "DEPOSIT", 90), pending ("11528", "WITHDRAW", 500)], 2) := by
  have hfirst : WritesLine ["31718", "DEPOSIT", "90"] "31718 DEPOSIT 90".toList :=
    .more "31718" oneBlank (.more "DEPOSIT" oneBlank (.last "90"))
  have hsecond : WritesLine ["11528", "WITHDRAW", "500"] "11528 WITHDRAW 500".toList :=
    .more "11528" oneBlank (.more "WITHDRAW" oneBlank (.last "500"))
  have htokens : ∀ f ∈ ["31718", "DEPOSIT", "90", "11528", "WITHDRAW", "500"], IsToken f := by
    decide
  refine ((loading_undoes_writing_iff wholeNumber none _ _
    (.more .crlf hfirst (.last none hsecond))).2
      [("31718", "DEPOSIT", 90), ("11528", "WITHDRAW", 500)] (by decide) ?_).mpr rfl
  refine .cons ⟨⟨"90", rfl, by decide⟩, ?_⟩ (.cons ⟨⟨"500", rfl, by decide⟩, ?_⟩ .nil)
  · intro f hf
    exact htokens f (List.mem_append_left ["11528", "WITHDRAW", "500"] hf)
  · intro f hf
    exact htokens f (List.mem_append_right ["31718", "DEPOSIT", "90"] hf)

/-- One transaction, and a line terminator behind it. -/
theorem not_loading_undoes_writing :
    WritesFile (some .lf) [["31718", "DEPOSIT", "90"]] "31718 DEPOSIT 90\n".toList ∧
      Client.readTransactions wholeNumber (some "31718 DEPOSIT 90\n".toList) =
        .error (.scanner .noSuchElement) ∧
      Server.initializeAccounts wholeNumber
          (some "31718 CHEQUING PHILLIP LENNOX 10\n".toList) =
        .error (.scanner .noSuchElement) := by
  refine ⟨?_, by decide, by decide⟩
  exact .last (some .lf) (.more "31718" oneBlank (.more "DEPOSIT" oneBlank (.last "90")))

end Smoll.Bank
