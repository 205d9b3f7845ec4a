/-
# `Smoll.Lmc.Program` — the program that combines two ordered lists

`combine_two_ordered_lists.elmc`, line by line, under its labels.  Six of its
instructions are rewritten while it runs,

    VALUE_AT_OF_LIST1, VALUE_AT_OF_LIST2     where the next input goes
    SET_L1_FOR_COMPARE, SET_L2_FOR_COMPARE   which elements are compared
    SHOW_REST_LIST1, SHOW_REST_LIST2         which element is shown next

and serve as its pointers into the area behind it, where the lists are kept.

`Image` is all that ever changes: these six words, the four variables the
program writes, and the words written into the area.  `Image.mem` is the
mailboxes with an image in them; a store into one of them is a change of the
image (`Image.store`, `Image.store_array`).
-/
import Smoll.Lib.LittleMan
import Mathlib.Data.List.Basic

namespace Smoll.Lmc

open LittleMan

/-! ## The source -/

inductive Label where
  | INIT | INPUT_LIST1 | VALUE_AT_OF_LIST1 | SEPARATE_LISTS_BY_ZERO | INPUT_LIST2
  | VALUE_AT_OF_LIST2 | INIT_COMPARE | START_COMPARE | SET_L2_FOR_COMPARE | SET_L1_FOR_COMPARE
  | NB1_IS_SMALLER | NB2_IS_SMALLER | ARRANGE_COMPARE | ARRANGE_SHOW_LIST2_REST
  | SHOW_REST_LIST2 | ARRANGE_SHOW_REST_LIST1 | SHOW_REST_LIST1 | FIN
  | one | st | ld | nb1 | nb2 | idx_l1 | idx_l2 | sarray | s2array | array
  deriving DecidableEq, Repr

open Label in
/-- The lines of the program. -/
def combine_two_ordered_lists : List (Line Label) := [
  ⟨[INIT], .LDA VALUE_AT_OF_LIST1⟩,
  ⟨[], .STO sarray⟩,

  ⟨[INPUT_LIST1], .IN⟩,
  ⟨[], .BRZ SEPARATE_LISTS_BY_ZERO⟩,

  ⟨[VALUE_AT_OF_LIST1], .STO array⟩,
  ⟨[], .LDA VALUE_AT_OF_LIST1⟩,
  ⟨[], .ADD one⟩,
  ⟨[], .STO VALUE_AT_OF_LIST1⟩,
  ⟨[], .BR INPUT_LIST1⟩,

  ⟨[SEPARATE_LISTS_BY_ZERO], .LDA VALUE_AT_OF_LIST1⟩,
  ⟨[], .ADD one⟩,
  ⟨[], .STO VALUE_AT_OF_LIST2⟩,
  ⟨[], .SUB st⟩,
  ⟨[], .STO s2array⟩,

  ⟨[INPUT_LIST2], .IN⟩,
  ⟨[], .BRZ INIT_COMPARE⟩,
  ⟨[VALUE_AT_OF_LIST2], .STO array⟩,
  ⟨[], .LDA VALUE_AT_OF_LIST2⟩,
  ⟨[], .ADD one⟩,
  ⟨[], .STO VALUE_AT_OF_LIST2⟩,
  ⟨[], .BR INPUT_LIST2⟩,

  ⟨[INIT_COMPARE], .LDA sarray⟩,
  ⟨[], .SUB st⟩,
  ⟨[], .ADD ld⟩,
  ⟨[], .STO SET_L1_FOR_COMPARE⟩,

  ⟨[], .LDA s2array⟩,
  ⟨[], .ADD ld⟩,
  ⟨[], .STO SET_L2_FOR_COMPARE⟩,

  ⟨[START_COMPARE, SET_L2_FOR_COMPARE], .LDA nb2⟩,
  ⟨[], .STO nb2⟩,

  ⟨[SET_L1_FOR_COMPARE], .LDA nb1⟩,
  ⟨[], .STO nb1⟩,

  ⟨[], .SUB nb2⟩,
  ⟨[], .BRP NB2_IS_SMALLER⟩,

  ⟨[NB1_IS_SMALLER], .LDA nb1⟩,
  ⟨[], .BRZ ARRANGE_SHOW_LIST2_REST⟩,
  ⟨[], .OUT⟩,
  ⟨[], .LDA SET_L1_FOR_COMPARE⟩,
  ⟨[], .ADD one⟩,
  ⟨[], .STO SET_L1_FOR_COMPARE⟩,
  ⟨[], .BR ARRANGE_COMPARE⟩,

  ⟨[NB2_IS_SMALLER], .LDA nb2⟩,
  ⟨[], .BRZ ARRANGE_SHOW_REST_LIST1⟩,
  ⟨[], .OUT⟩,
  ⟨[], .LDA SET_L2_FOR_COMPARE⟩,
  ⟨[], .ADD one⟩,
  ⟨[], .STO SET_L2_FOR_COMPARE⟩,

  ⟨[ARRANGE_COMPARE], .BR START_COMPARE⟩,

  ⟨[ARRANGE_SHOW_LIST2_REST], .LDA nb2⟩,
  ⟨[], .BRZ FIN⟩,
  ⟨[], .LDA SET_L2_FOR_COMPARE⟩,
  ⟨[], .STO SHOW_REST_LIST2⟩,
  ⟨[SHOW_REST_LIST2], .LDA idx_l2⟩,
  ⟨[], .BRZ FIN⟩,
  ⟨[], .OUT⟩,
  ⟨[], .LDA SHOW_REST_LIST2⟩,
  ⟨[], .ADD one⟩,
  ⟨[], .STO SHOW_REST_LIST2⟩,
  ⟨[], .BR SHOW_REST_LIST2⟩,

  ⟨[ARRANGE_SHOW_REST_LIST1], .LDA nb1⟩,
  ⟨[], .BRZ FIN⟩,
  ⟨[], .LDA SET_L1_FOR_COMPARE⟩,
  ⟨[], .STO SHOW_REST_LIST1⟩,
  ⟨[SHOW_REST_LIST1], .LDA idx_l1⟩,
  ⟨[], .BRZ FIN⟩,
  ⟨[], .OUT⟩,
  ⟨[], .LDA SHOW_REST_LIST1⟩,
  ⟨[], .ADD one⟩,
  ⟨[], .STO SHOW_REST_LIST1⟩,
  ⟨[], .BR SHOW_REST_LIST1⟩,

  ⟨[FIN], .HLT⟩,

  ⟨[one], .DAT 1⟩,
  ⟨[st], .DAT 300⟩,
  ⟨[ld], .DAT 500⟩,

  ⟨[nb1], .DAT 0⟩,
  ⟨[nb2], .DAT 0⟩,

  ⟨[idx_l1], .DAT 0⟩,
  ⟨[idx_l2], .DAT 0⟩,

  ⟨[sarray], .DAT 0⟩,
  ⟨[s2array], .DAT 0⟩,
  ⟨[array], .DAT 0⟩]

/-- The program, assembled. -/
def code : List Word := [
  504, 378, 901, 709, 380, 504, 171, 304, 602, 504, 171, 316, 272, 379,
  901, 721, 380, 516, 171, 316, 614,
  578, 272, 173, 330, 579, 173, 328,
  575, 375, 574, 374, 275, 841, 574, 748, 902, 530, 171, 330, 647,
  575, 759, 902, 528, 171, 328, 628,
  575, 770, 528, 352, 577, 770, 902, 552, 171, 352, 652,
  574, 770, 530, 363, 576, 770, 902, 563, 171, 363, 663,
  0, 1, 300, 500, 0, 0, 0, 0, 0, 0, 0]

theorem assemble_eq_code : assemble combine_two_ordered_lists = code := by decide

/-! ## What changes -/

/-- The words the program rewrites, outside the array. -/
inductive Var where
  | valueAt1 | valueAt2 | setL2 | setL1 | show2 | show1 | nb1 | nb2 | sarray | s2array
  deriving DecidableEq, Repr

/-- The first mailbox of the array. -/
def arrayStart : Nat := 80

/-- What a mailbox holds: a rewritten word, an element of the array, or a word of
the program that stays. -/
inductive Place where
  | var (v : Var)
  | array (i : Nat)
  | fixed (w : Word)
  deriving DecidableEq, Repr

def place (a : Mailbox) : Place :=
  match a.val with
  | 4 => .var .valueAt1
  | 16 => .var .valueAt2
  | 28 => .var .setL2
  | 30 => .var .setL1
  | 52 => .var .show2
  | 63 => .var .show1
  | 74 => .var .nb1
  | 75 => .var .nb2
  | 78 => .var .sarray
  | 79 => .var .s2array
  | n => if arrayStart ≤ n then .array (n - arrayStart) else .fixed (code.getD n 0)

/-- The mailbox of a rewritten word. -/
def Var.mailbox : Var → Mailbox
  | .valueAt1 => 4
  | .valueAt2 => 16
  | .setL2 => 28
  | .setL1 => 30
  | .show2 => 52
  | .show1 => 63
  | .nb1 => 74
  | .nb2 => 75
  | .sarray => 78
  | .s2array => 79

theorem place_eq_var : ∀ (a : Mailbox) (v : Var), place a = .var v ↔ a = v.mailbox := by
  intro a v
  revert a
  cases v <;> decide

theorem place_mailbox (v : Var) : place v.mailbox = .var v := (place_eq_var _ v).mpr rfl

theorem array_of_place (a : Mailbox) (i : Nat) (h : place a = .array i) :
    a.val = arrayStart + i := by
  have hall : ∀ a : Mailbox,
      (match place a with
        | .array i => decide (a.val = arrayStart + i)
        | _ => true) = true := by decide
  have ha := hall a
  rw [h] at ha
  exact of_decide_eq_true ha

/-- The mailbox of an element of the array. -/
def arrayMailbox (i : Fin 20) : Mailbox := ⟨arrayStart + i.val, by unfold arrayStart; omega⟩

theorem place_arrayMailbox : ∀ i : Fin 20, place (arrayMailbox i) = .array i.val := by decide

/-- The rewritten words, and the words written into the array so far. -/
structure Image where
  valueAt1 : Word
  valueAt2 : Word
  setL2 : Word
  setL1 : Word
  show2 : Word
  show1 : Word
  nb1 : Word
  nb2 : Word
  sarray : Word
  s2array : Word
  array : List Word

namespace Image

def read (img : Image) : Var → Word
  | .valueAt1 => img.valueAt1
  | .valueAt2 => img.valueAt2
  | .setL2 => img.setL2
  | .setL1 => img.setL1
  | .show2 => img.show2
  | .show1 => img.show1
  | .nb1 => img.nb1
  | .nb2 => img.nb2
  | .sarray => img.sarray
  | .s2array => img.s2array

def write (img : Image) (w : Word) : Var → Image
  | .valueAt1 => { img with valueAt1 := w }
  | .valueAt2 => { img with valueAt2 := w }
  | .setL2 => { img with setL2 := w }
  | .setL1 => { img with setL1 := w }
  | .show2 => { img with show2 := w }
  | .show1 => { img with show1 := w }
  | .nb1 => { img with nb1 := w }
  | .nb2 => { img with nb2 := w }
  | .sarray => { img with sarray := w }
  | .s2array => { img with s2array := w }

/-- The mailboxes. -/
def mem (img : Image) (a : Mailbox) : Word :=
  match place a with
  | .var v => img.read v
  | .array i => img.array.getD i 0
  | .fixed w => w

/-- The image of the assembled program. -/
def start : Image where
  valueAt1 := 380
  valueAt2 := 380
  setL2 := 575
  setL1 := 574
  show2 := 577
  show1 := 576
  nb1 := 0
  nb2 := 0
  sarray := 0
  s2array := 0
  array := []

theorem mem_start : start.mem = fun a => code.getD a.val 0 := by
  have hall : ∀ a, start.mem a = code.getD a.val 0 := by decide
  exact funext hall

/-- The machine at an instruction, with an image in its mailboxes. -/
def at' (img : Image) (pc : Mailbox) (acc : Word) (inbox outbox : List Word) : LittleMan.State :=
  ⟨img.mem, acc, pc, inbox, outbox⟩

/-- An instruction that is never rewritten. -/
theorem fetch {img : Image} {pc : Mailbox} {w : Word} {instr : Instr} (hpc : place pc = .fixed w)
    (hw : decode w = instr) : decode (img.mem pc) = instr := by
  simp only [mem, hpc, hw]

theorem mem_one (img : Image) : img.mem 71 = 1 := rfl

theorem mem_st (img : Image) : img.mem 72 = 300 := rfl

theorem mem_ld (img : Image) : img.mem 73 = 500 := rfl

/-! ## Stores -/

theorem read_write (img : Image) (w : Word) (v u : Var) :
    (img.write w v).read u = if u = v then w else img.read u := by
  cases v <;> cases u <;> rfl

theorem array_write (img : Image) (w : Word) (v : Var) : (img.write w v).array = img.array := by
  cases v <;> rfl

theorem read_array (img : Image) (array : List Word) (v : Var) :
    { img with array := array }.read v = img.read v := by
  cases v <;> rfl

theorem mem_of_place (img : Image) {a : Mailbox} {v : Var} (ha : place a = .var v) :
    img.mem a = img.read v := by
  simp only [mem, ha]

theorem mem_arrayMailbox (img : Image) (i : Fin 20) :
    img.mem (arrayMailbox i) = img.array.getD i.val 0 := by
  simp only [mem, place_arrayMailbox]

/-- The zeros behind the array need not be written. -/
theorem mem_append_zero (img : Image) :
    { img with array := img.array ++ [0] }.mem = img.mem := by
  funext a
  unfold mem
  cases place a with
  | var v => exact img.read_array _ v
  | array i =>
      show (img.array ++ [0]).getD i 0 = img.array.getD i 0
      rcases Nat.lt_trichotomy i img.array.length with hlt | heq | hgt
      · simp [List.getElem?_append_left hlt]
      · simp [heq]
      · simp [List.getElem?_eq_none (Nat.le_of_lt hgt),
          List.getElem?_eq_none (show (img.array ++ [0]).length ≤ i by simp; omega)]
  | fixed w => rfl

/-- A store into a rewritten word. -/
theorem store (img : Image) (w : Word) {a : Mailbox} {v : Var} (ha : place a = .var v) :
    Function.update img.mem a w = (img.write w v).mem := by
  funext b
  rcases Decidable.em (b = a) with rfl | hne
  · rw [Function.update_self]
    simp only [mem, ha, read_write, if_true]
  · rw [Function.update_of_ne hne]
    have hplace : place b ≠ .var v := by
      intro hb
      exact hne (((place_eq_var b v).mp hb).trans ((place_eq_var a v).mp ha).symm)
    unfold mem
    cases h : place b with
    | var u =>
        have hu : u ≠ v := fun huv => hplace (huv ▸ h)
        simp only [read_write, if_neg hu]
    | array i => simp only [array_write]
    | fixed w => rfl

/-- A zero behind the array is there already. -/
theorem at'_append_zero (img : Image) (pc : Mailbox) (acc : Word) (inbox outbox : List Word) :
    img.at' pc acc inbox outbox =
      { img with array := img.array ++ [0] }.at' pc acc inbox outbox := by
  simp only [at', mem_append_zero]

/-- A store behind the last element of the array. -/
theorem store_array (img : Image) (w : Word) {i : Fin 20} (hi : img.array.length = i.val) :
    Function.update img.mem (arrayMailbox i) w = { img with array := img.array ++ [w] }.mem := by
  funext a
  rcases Decidable.em (a = arrayMailbox i) with rfl | hne
  · rw [Function.update_self, mem_arrayMailbox]
    simp [← hi]
  · rw [Function.update_of_ne hne]
    unfold mem
    cases h : place a with
    | var v => exact (img.read_array _ v).symm
    | array j =>
        have hj : j ≠ img.array.length := by
          intro hj
          have ha := array_of_place a j h
          exact hne (Fin.ext (by rw [ha, hj, hi]; rfl))
        show img.array.getD j 0 = (img.array ++ [w]).getD j 0
        rcases Nat.lt_or_gt_of_ne hj with hlt | hgt
        · simp [List.getElem?_append_left hlt]
        · simp [List.getElem?_eq_none (Nat.le_of_lt hgt),
            List.getElem?_eq_none (show (img.array ++ [w]).length ≤ j by simp; omega)]
    | fixed w => rfl

end Image

/-- The program at its first instruction. -/
theorem load_eq (inbox : List Word) : load (assemble combine_two_ordered_lists) inbox =
    Image.start.at' 0 0 inbox [] := by
  rw [assemble_eq_code]
  simp only [load, Image.at', Image.mem_start]

end Smoll.Lmc
