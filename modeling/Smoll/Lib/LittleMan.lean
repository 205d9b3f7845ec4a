/-
# `Smoll.Lib.LittleMan` — the Little Man Computer

A machine with 100 mailboxes of three decimal digits, an accumulator, a
program counter, an inbox and an outbox.  Words are `Fin 1000`, so addition
and subtraction are modulo 1000; a word is also an instruction,

    1xx ADD   2xx SUB   3xx STO   5xx LDA   6xx BR   7xx BRZ   8xx BRP
    901 IN    902 OUT   000 HLT

with `xx` a mailbox.  `BRP` branches when the accumulator is 0..499, the
words that stand for the numbers 0..499 in ten's complement; `IN` waits as
long as the inbox is empty.  Instructions are fetched from the same
mailboxes that `STO` writes, so a program can change itself.

`step` is one instruction.  `Runs` is a run; its rules `Runs.lda`, `Runs.sto`,
… execute one instruction each, from what the fetched word decodes to.  An
assembler from labelled lines (`assemble`) gives a program its mailboxes.
-/
import Mathlib

namespace Smoll.LittleMan

/-! ## Words and instructions -/

/-- The content of a mailbox. -/
abbrev Word := Fin 1000

/-- A mailbox. -/
abbrev Mailbox := Fin 100

instance words_neZero : NeZero 1000 := ⟨by decide⟩

instance mailboxes_neZero : NeZero 100 := ⟨by decide⟩

/-- The word of a number, modulo 1000. -/
def word (n : Nat) : Word := ⟨n % 1000, Nat.mod_lt _ (by decide)⟩

/-- The accumulator passes `BRP`. -/
def nonneg (w : Word) : Bool := w.val < 500

/-- The number a word stands for in ten's complement. -/
def signed (w : Word) : Int := if w.val < 500 then w.val else (w.val : Int) - 1000

inductive Instr where
  | HLT
  | ADD (a : Mailbox)
  | SUB (a : Mailbox)
  | STO (a : Mailbox)
  | LDA (a : Mailbox)
  | BR (a : Mailbox)
  | BRZ (a : Mailbox)
  | BRP (a : Mailbox)
  | IN
  | OUT
  | illegal
  deriving DecidableEq, Repr

/-- The mailbox in the last two digits. -/
def operand (w : Word) : Mailbox := ⟨w.val % 100, Nat.mod_lt _ (by decide)⟩

/-- A word as an instruction. -/
def decode (w : Word) : Instr :=
  match w.val / 100 with
  | 0 => if w.val = 0 then .HLT else .illegal
  | 1 => .ADD (operand w)
  | 2 => .SUB (operand w)
  | 3 => .STO (operand w)
  | 5 => .LDA (operand w)
  | 6 => .BR (operand w)
  | 7 => .BRZ (operand w)
  | 8 => .BRP (operand w)
  | 9 => if w.val = 901 then .IN else if w.val = 902 then .OUT else .illegal
  | _ => .illegal

/-! ## The machine -/

structure State where
  mem : Mailbox → Word
  acc : Word
  pc : Mailbox
  inbox : List Word
  outbox : List Word

/-- One instruction; `none` at `HLT`, at a word that is no instruction, and at `IN`
with an empty inbox. -/
def step (s : State) : Option State :=
  match decode (s.mem s.pc) with
  | .HLT => none
  | .ADD a => some { s with acc := s.acc + s.mem a, pc := s.pc + 1 }
  | .SUB a => some { s with acc := s.acc - s.mem a, pc := s.pc + 1 }
  | .STO a => some { s with mem := Function.update s.mem a s.acc, pc := s.pc + 1 }
  | .LDA a => some { s with acc := s.mem a, pc := s.pc + 1 }
  | .BR a => some { s with pc := a }
  | .BRZ a => some { s with pc := if s.acc = 0 then a else s.pc + 1 }
  | .BRP a => some { s with pc := if nonneg s.acc then a else s.pc + 1 }
  | .IN =>
      match s.inbox with
      | [] => none
      | w :: rest => some { s with acc := w, inbox := rest, pc := s.pc + 1 }
  | .OUT => some { s with outbox := s.outbox ++ [s.acc], pc := s.pc + 1 }
  | .illegal => none

/-- The machine has come to a `HLT`. -/
def State.halted (s : State) : Prop := decode (s.mem s.pc) = .HLT

theorem State.halted.step_eq {s : State} (h : s.halted) : step s = none := by
  unfold step
  rw [show decode (s.mem s.pc) = .HLT from h]

/-- The machine gets from one state to another. -/
def Runs : State → State → Prop :=
  Relation.ReflTransGen fun s t => step s = some t

namespace Runs

variable {mem mem' : Mailbox → Word} {acc : Word} {pc a : Mailbox} {inbox outbox : List Word}
  {w : Word}

theorem refl (s : State) : Runs s s := Relation.ReflTransGen.refl

theorem trans {s t u : State} (h : Runs s t) (h' : Runs t u) : Runs s u :=
  Relation.ReflTransGen.trans h h'

theorem of_step {s t : State} (h : step s = some t) : Runs s t := Relation.ReflTransGen.single h

/-! ### One instruction -/

theorem lda (h : decode (mem pc) = .LDA a) (ha : mem a = w) :
    Runs ⟨mem, acc, pc, inbox, outbox⟩ ⟨mem, w, pc + 1, inbox, outbox⟩ :=
  of_step (by simp only [step, h, ha])

theorem add (h : decode (mem pc) = .ADD a) (ha : mem a = w) :
    Runs ⟨mem, acc, pc, inbox, outbox⟩ ⟨mem, acc + w, pc + 1, inbox, outbox⟩ :=
  of_step (by simp only [step, h, ha])

theorem sub (h : decode (mem pc) = .SUB a) (ha : mem a = w) :
    Runs ⟨mem, acc, pc, inbox, outbox⟩ ⟨mem, acc - w, pc + 1, inbox, outbox⟩ :=
  of_step (by simp only [step, h, ha])

/-- A store, with the mailboxes afterwards in whatever form they are known. -/
theorem sto (h : decode (mem pc) = .STO a) (hmem : Function.update mem a acc = mem') :
    Runs ⟨mem, acc, pc, inbox, outbox⟩ ⟨mem', acc, pc + 1, inbox, outbox⟩ :=
  of_step (by simp only [step, h, hmem])

theorem br (h : decode (mem pc) = .BR a) :
    Runs ⟨mem, acc, pc, inbox, outbox⟩ ⟨mem, acc, a, inbox, outbox⟩ :=
  of_step (by simp only [step, h])

theorem brz_zero (h : decode (mem pc) = .BRZ a) (hacc : acc = 0) :
    Runs ⟨mem, acc, pc, inbox, outbox⟩ ⟨mem, acc, a, inbox, outbox⟩ :=
  of_step (by simp only [step, h, hacc, if_true])

theorem brz_ne (h : decode (mem pc) = .BRZ a) (hacc : acc ≠ 0) :
    Runs ⟨mem, acc, pc, inbox, outbox⟩ ⟨mem, acc, pc + 1, inbox, outbox⟩ :=
  of_step (by simp only [step, h, hacc, if_false])

theorem brp_taken (h : decode (mem pc) = .BRP a) (hacc : nonneg acc = true) :
    Runs ⟨mem, acc, pc, inbox, outbox⟩ ⟨mem, acc, a, inbox, outbox⟩ :=
  of_step (by simp only [step, h, hacc, if_true])

theorem brp_not (h : decode (mem pc) = .BRP a) (hacc : nonneg acc = false) :
    Runs ⟨mem, acc, pc, inbox, outbox⟩ ⟨mem, acc, pc + 1, inbox, outbox⟩ :=
  of_step (by simp [step, h, hacc])

theorem input (h : decode (mem pc) = .IN) :
    Runs ⟨mem, acc, pc, w :: inbox, outbox⟩ ⟨mem, w, pc + 1, inbox, outbox⟩ :=
  of_step (by simp only [step, h])

theorem output (h : decode (mem pc) = .OUT) :
    Runs ⟨mem, acc, pc, inbox, outbox⟩ ⟨mem, acc, pc + 1, inbox, outbox ++ [acc]⟩ :=
  of_step (by simp only [step, h])

/-! ### The end of a run -/

/-- A machine that stands still has one end: every run can be taken to it. -/
theorem to_end {s t f : State} (ht : Runs s t) (hf : Runs s f) (hend : step f = none) :
    Runs t f := by
  have hunique : Relator.RightUnique fun s t : State => step s = some t := by
    intro s t u ht hu
    exact Option.some.inj (ht.symm.trans hu)
  rcases Relation.ReflTransGen.total_of_right_unique hunique ht hf with htf | hft
  · exact htf
  · rcases Relation.ReflTransGen.cases_head hft with heq | ⟨u, hu, _⟩
    · rw [heq]
      exact refl t
    · rw [hend] at hu
      cases hu

/-- What was put out stays. -/
theorem outbox_step {s t : State} (h : step s = some t) : s.outbox <+: t.outbox := by
  unfold step at h
  cases hinstr : decode (s.mem s.pc) with
  | HLT | illegal =>
      rw [hinstr] at h
      cases h
  | ADD a | SUB a | STO a | LDA a | BR a | BRZ a | BRP a =>
      rw [hinstr] at h
      cases h
      exact List.prefix_rfl
  | IN =>
      rw [hinstr] at h
      cases hinbox : s.inbox with
      | nil =>
          simp only [hinbox] at h
          cases h
      | cons w rest =>
          simp only [hinbox] at h
          cases h
          exact List.prefix_rfl
  | OUT =>
      rw [hinstr] at h
      cases h
      exact List.prefix_append _ _

theorem outbox_prefix {s t : State} (h : Runs s t) : s.outbox <+: t.outbox := by
  induction h with
  | refl => exact List.prefix_rfl
  | tail _ hstep ih => exact ih.trans (outbox_step hstep)

end Runs

/-! ## Arithmetic of words -/

theorem word_add (m n : Nat) : word m + word n = word (m + n) := by
  apply Fin.ext
  simp [word, Fin.val_add]

theorem word_sub {m n : Nat} (h : n ≤ m) : word m - word n = word (m - n) := by
  apply Fin.ext
  simp only [word, Fin.sub_def]
  omega

/-- The word of an instruction decodes to it. -/
theorem decode_word_sto {n : Nat} (h : n < 100) : decode (word (300 + n)) = .STO ⟨n, h⟩ := by
  have hval : (word (300 + n)).val = 300 + n := Nat.mod_eq_of_lt (by omega)
  have hop : operand (word (300 + n)) = ⟨n, h⟩ := by
    apply Fin.ext
    simp only [operand, hval]
    omega
  have hdiv : (word (300 + n)).val / 100 = 3 := by omega
  simp only [decode, hdiv, hop]

theorem decode_word_lda {n : Nat} (h : n < 100) : decode (word (500 + n)) = .LDA ⟨n, h⟩ := by
  have hval : (word (500 + n)).val = 500 + n := Nat.mod_eq_of_lt (by omega)
  have hop : operand (word (500 + n)) = ⟨n, h⟩ := by
    apply Fin.ext
    simp only [operand, hval]
    omega
  have hdiv : (word (500 + n)).val / 100 = 5 := by omega
  simp only [decode, hdiv, hop]

/-! ## The assembler -/

/-- A line's operation, mailboxes given by labels. -/
inductive Mnemonic (Label : Type) where
  | HLT
  | ADD (l : Label)
  | SUB (l : Label)
  | STO (l : Label)
  | LDA (l : Label)
  | BR (l : Label)
  | BRZ (l : Label)
  | BRP (l : Label)
  | IN
  | OUT
  | DAT (n : Nat)

/-- A line of a program: the labels in front of it and its operation. -/
structure Line (Label : Type) where
  labels : List Label
  op : Mnemonic Label

section Assembler

variable {Label : Type} [DecidableEq Label]

/-- The mailbox of a label: the number of lines before it. -/
def address (lines : List (Line Label)) (l : Label) : Nat :=
  lines.findIdx fun line => l ∈ line.labels

/-- The word of an operation. -/
def Mnemonic.assemble (lines : List (Line Label)) : Mnemonic Label → Word
  | .HLT => word 0
  | .ADD l => word (100 + address lines l)
  | .SUB l => word (200 + address lines l)
  | .STO l => word (300 + address lines l)
  | .LDA l => word (500 + address lines l)
  | .BR l => word (600 + address lines l)
  | .BRZ l => word (700 + address lines l)
  | .BRP l => word (800 + address lines l)
  | .IN => word 901
  | .OUT => word 902
  | .DAT n => word n

/-- The words of a program, one a line. -/
def assemble (lines : List (Line Label)) : List Word :=
  lines.map fun line => line.op.assemble lines

/-- The machine with a program in its first mailboxes and zeros behind, at the
first of them. -/
def load (program : List Word) (inbox : List Word) : State where
  mem := fun a => program.getD a.val 0
  acc := 0
  pc := 0
  inbox := inbox
  outbox := []

end Assembler

end Smoll.LittleMan
