/-
# `Smoll.Lib.Throughout` — what holds all along a run of the Little Man Computer

A run is taken together with the mailboxes it stores into (`Stores`), so a
statement may speak of what was written before.  `Until P Q` says that `P` holds
from here on, at every instruction, up to a place where `Q` does.  With `Q` the
assertions at the heads of a program's loops, each loop is one such piece, and
the pieces make up every run (`Stores.throughout`).

A piece is gone through instruction by instruction: `Steps` is one of them, with
a rule for each, from what the fetched word decodes to.
-/
import Smoll.Lib.LittleMan

namespace Smoll.LittleMan

/-! ## Runs and their stores -/

/-- The mailbox the next instruction stores into. -/
def stored (s : State) : List Mailbox :=
  match decode (s.mem s.pc) with
  | .STO a => [a]
  | _ => []

/-- A run, and the mailboxes it stores into, one after another. -/
inductive Stores : State → List Mailbox → State → Prop
  | refl {s} : Stores s [] s
  | tail {s t u ws} : Stores s ws t → step t = some u → Stores s (ws ++ stored t) u

/-- Every run stores into some mailboxes, and only a run does. -/
theorem exists_stores_iff {s t : State} : (∃ ws, Stores s ws t) ↔ Runs s t := by
  constructor
  · rintro ⟨ws, h⟩
    induction h with
    | refl => exact Runs.refl _
    | tail _ hstep ih => exact Relation.ReflTransGen.tail ih hstep
  · intro h
    induction h with
    | refl => exact ⟨[], .refl⟩
    | tail _ hstep ih =>
        rcases ih with ⟨ws, hws⟩
        exact ⟨_, hws.tail hstep⟩

/-! ## Assertions -/

/-- `P` holds here, and `R` behind the next instruction, if there is one. -/
structure Steps (P R : List Mailbox → State → Prop) (ws : List Mailbox) (s : State) : Prop where
  now : P ws s
  next : ∀ t, step s = some t → R (ws ++ stored s) t

/-- `P` holds up to a place where `Q` does, or as long as the machine goes on. -/
inductive Until (P Q : List Mailbox → State → Prop) : List Mailbox → State → Prop
  | here {ws s} : Q ws s → Until P Q ws s
  | next {ws s} : P ws s → (∀ t, step s = some t → Until P Q (ws ++ stored s) t) → Until P Q ws s

variable {P Q R : List Mailbox → State → Prop}

theorem Until.go {ws : List Mailbox} {s : State} (h : Steps P (Until P Q) ws s) : Until P Q ws s :=
  .next h.now h.next

/-- If from every `Q` on `P` holds until the next, it holds throughout. -/
theorem Stores.throughout (hQ : ∀ ws s, Q ws s → Steps P (Until P Q) ws s) {s t : State}
    {ws : List Mailbox} (h : Stores s ws t) (h0 : Until P Q [] s) : P ws t := by
  have hsteps : ∀ {ws s}, Until P Q ws s → Steps P (Until P Q) ws s := by
    intro ws s h
    cases h with
    | here h => exact hQ ws s h
    | next hnow hnext => exact ⟨hnow, hnext⟩
  have huntil : Until P Q ws t := by
    induction h with
    | refl => exact h0
    | tail _ hstep ih => exact (hsteps ih).next _ hstep
  exact (hsteps huntil).now

/-! ## One instruction -/

namespace Steps

variable {ws : List Mailbox} {mem mem' : Mailbox → Word} {acc w : Word} {pc a : Mailbox}
  {inbox outbox : List Word}

/-- An instruction that goes on to a state and stores nothing. -/
theorem of_step {s t : State} (hP : P ws s) (hstep : step s = some t) (hstored : stored s = [])
    (h : R ws t) : Steps P R ws s := by
  refine ⟨hP, fun u hu => ?_⟩
  rw [hstored, List.append_nil]
  rw [hstep] at hu
  cases hu
  exact h

theorem lda (hP : P ws ⟨mem, acc, pc, inbox, outbox⟩) (h : decode (mem pc) = .LDA a)
    (ha : mem a = w) (hR : R ws ⟨mem, w, pc + 1, inbox, outbox⟩) :
    Steps P R ws ⟨mem, acc, pc, inbox, outbox⟩ :=
  of_step hP (by simp only [step, h, ha]) (by simp only [stored, h]) hR

theorem add (hP : P ws ⟨mem, acc, pc, inbox, outbox⟩) (h : decode (mem pc) = .ADD a)
    (ha : mem a = w) (hR : R ws ⟨mem, acc + w, pc + 1, inbox, outbox⟩) :
    Steps P R ws ⟨mem, acc, pc, inbox, outbox⟩ :=
  of_step hP (by simp only [step, h, ha]) (by simp only [stored, h]) hR

theorem sub (hP : P ws ⟨mem, acc, pc, inbox, outbox⟩) (h : decode (mem pc) = .SUB a)
    (ha : mem a = w) (hR : R ws ⟨mem, acc - w, pc + 1, inbox, outbox⟩) :
    Steps P R ws ⟨mem, acc, pc, inbox, outbox⟩ :=
  of_step hP (by simp only [step, h, ha]) (by simp only [stored, h]) hR

/-- The one instruction that stores. -/
theorem sto (hP : P ws ⟨mem, acc, pc, inbox, outbox⟩) (h : decode (mem pc) = .STO a)
    (hmem : Function.update mem a acc = mem')
    (hR : R (ws ++ [a]) ⟨mem', acc, pc + 1, inbox, outbox⟩) :
    Steps P R ws ⟨mem, acc, pc, inbox, outbox⟩ := by
  refine ⟨hP, fun u hu => ?_⟩
  have hstored : stored ⟨mem, acc, pc, inbox, outbox⟩ = [a] := by simp only [stored, h]
  have hstep : step ⟨mem, acc, pc, inbox, outbox⟩ = some ⟨mem', acc, pc + 1, inbox, outbox⟩ := by
    simp only [step, h, hmem]
  rw [hstored]
  rw [hstep] at hu
  cases hu
  exact hR

theorem br (hP : P ws ⟨mem, acc, pc, inbox, outbox⟩) (h : decode (mem pc) = .BR a)
    (hR : R ws ⟨mem, acc, a, inbox, outbox⟩) : Steps P R ws ⟨mem, acc, pc, inbox, outbox⟩ :=
  of_step hP (by simp only [step, h]) (by simp only [stored, h]) hR

theorem brz (hP : P ws ⟨mem, acc, pc, inbox, outbox⟩) (h : decode (mem pc) = .BRZ a)
    (hzero : acc = 0 → R ws ⟨mem, acc, a, inbox, outbox⟩)
    (hne : acc ≠ 0 → R ws ⟨mem, acc, pc + 1, inbox, outbox⟩) :
    Steps P R ws ⟨mem, acc, pc, inbox, outbox⟩ := by
  by_cases hacc : acc = 0
  · exact of_step hP (by simp only [step, h, hacc, if_true]) (by simp only [stored, h])
      (hacc ▸ hzero hacc)
  · exact of_step hP (by simp only [step, h, hacc, if_false]) (by simp only [stored, h])
      (hne hacc)

theorem brp (hP : P ws ⟨mem, acc, pc, inbox, outbox⟩) (h : decode (mem pc) = .BRP a)
    (htaken : R ws ⟨mem, acc, a, inbox, outbox⟩)
    (hnot : R ws ⟨mem, acc, pc + 1, inbox, outbox⟩) :
    Steps P R ws ⟨mem, acc, pc, inbox, outbox⟩ := by
  cases hacc : nonneg acc with
  | true => exact of_step hP (by simp only [step, h, hacc, if_true]) (by simp only [stored, h]) htaken
  | false =>
      exact of_step hP (by simp only [step, h, hacc, Bool.false_eq_true, if_false])
        (by simp only [stored, h]) hnot

theorem input (hP : P ws ⟨mem, acc, pc, inbox, outbox⟩) (h : decode (mem pc) = .IN)
    (hR : ∀ w rest, inbox = w :: rest → R ws ⟨mem, w, pc + 1, rest, outbox⟩) :
    Steps P R ws ⟨mem, acc, pc, inbox, outbox⟩ := by
  cases inbox with
  | nil =>
      refine ⟨hP, fun u hu => ?_⟩
      simp only [step, h] at hu
      cases hu
  | cons w rest =>
      exact of_step hP (by simp only [step, h]) (by simp only [stored, h]) (hR w rest rfl)

theorem output (hP : P ws ⟨mem, acc, pc, inbox, outbox⟩) (h : decode (mem pc) = .OUT)
    (hR : R ws ⟨mem, acc, pc + 1, inbox, outbox ++ [acc]⟩) :
    Steps P R ws ⟨mem, acc, pc, inbox, outbox⟩ :=
  of_step hP (by simp only [step, h]) (by simp only [stored, h]) hR

theorem halt (hP : P ws ⟨mem, acc, pc, inbox, outbox⟩) (h : decode (mem pc) = .HLT) :
    Steps P R ws ⟨mem, acc, pc, inbox, outbox⟩ := by
  refine ⟨hP, fun u hu => ?_⟩
  simp only [step, h] at hu
  cases hu

end Steps
end Smoll.LittleMan
