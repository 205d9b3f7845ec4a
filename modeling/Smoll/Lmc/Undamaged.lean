/-
# `Smoll.Lmc.Undamaged` — the program does not damage its own code

The program writes into six of its instructions, and through two of them into
the array.  One step too far, and it would write into what is not its own, or
turn one instruction into another.  That it does not is proved here for every
input that fits, in whatever order its values are, and along the whole run.

`Sound` is what holds of the words the program changes, at every instruction:
a pointer that has been set is an `STO`, or an `LDA`, of an element of the
array.  At the head of a loop more is known (`Head`):

    INPUT_LIST1, INPUT_LIST2    the loop's pointer is behind what is in the array
    START_COMPARE               both pointers have a zero in front of them
    SHOW_REST_LIST1, ..LIST2    the loop's pointer has a zero in front of it

A comparison may come out either way.  What is behind it looks at the word it
is about to show, and goes on to the next only if that is not zero; so a
pointer never gets past a zero (`Stops.load`).
-/
import Smoll.Lib.Throughout
import Smoll.Lmc.Merge

namespace Smoll.Lmc

open LittleMan

/-! ## What is promised -/

/-- The words in front of the first zero, and between the first and the second. -/
def list1 (inbox : List Word) : List Word := inbox.takeWhile (· ≠ 0)

def list2 (inbox : List Word) : List Word := list1 (inbox.dropWhile (· ≠ 0)).tail

/-- A mailbox as it is assembled. -/
def assembled (a : Mailbox) : Word := (assemble combine_two_ordered_lists).getD a.val 0

/-- The mailbox of a label. -/
def mailbox (l : Label) : Nat := address combine_two_ordered_lists l

/-- The instructions that are rewritten. -/
def patched : List Label := [.VALUE_AT_OF_LIST1, .VALUE_AT_OF_LIST2, .SET_L1_FOR_COMPARE,
  .SET_L2_FOR_COMPARE, .SHOW_REST_LIST1, .SHOW_REST_LIST2]

/-- Those that are set up from the beginning. -/
def ready : List Label := [.VALUE_AT_OF_LIST1, .VALUE_AT_OF_LIST2]

/-- Their opcode. -/
def opcode (l : Label) : Mailbox → Instr := if l ∈ ready then .STO else .LDA

/-- A state behind a run that stored into these mailboxes. -/
structure Undamaged (ws : List Mailbox) (s : LittleMan.State) : Prop where
  counter : s.pc.val ≤ mailbox .FIN
  code : ∀ a : Mailbox, a.val ≤ mailbox .FIN → (∀ l ∈ patched, a.val ≠ mailbox l) →
    s.mem a = assembled a
  constants : ∀ l ∈ [Label.one, .st, .ld], ∀ a : Mailbox, a.val = mailbox l → s.mem a = assembled a
  setUp : ∀ l ∈ patched, ∀ a : Mailbox, a.val = mailbox l → l ∈ ready ∨ a ∈ ws →
    ∃ b : Mailbox, mailbox .array ≤ b.val ∧ decode (s.mem a) = opcode l b
  notYet : ∀ l ∈ patched, ∀ a : Mailbox, a.val = mailbox l → a ∉ ws → s.mem a = assembled a
  once : (ws.filter fun a => mailbox .array ≤ a.val).Nodup

/-! ## What holds at every instruction -/

/-- The pointers stay in the array. -/
def Valid : Var → Word → Prop
  | .valueAt1, w | .valueAt2, w => ∃ i : Fin 20, w = stoArray i.val
  | .setL1, w | .setL2, w | .show1, w | .show2, w => ∃ i : Fin 20, w = ldaArray i.val
  | _, _ => True

structure Sound (ws : List Mailbox) (img : Image) : Prop where
  valid : ∀ v : Var, v.mailbox ∈ ws → Valid v (img.read v)
  notYet : ∀ v : Var, v.mailbox ∉ ws → img.read v = Image.start.read v
  once : (ws.filter fun a => arrayStart ≤ a.val).Nodup
  below : ∀ a ∈ ws, arrayStart ≤ a.val → a.val < arrayStart + img.array.length

def Safe (ws : List Mailbox) (s : LittleMan.State) : Prop :=
  s.pc.val ≤ 70 ∧ ∃ img : Image, s.mem = img.mem ∧ Sound ws img

theorem Var.mailbox_injective {u v : Var} (h : u.mailbox = v.mailbox) : u = v :=
  Place.var.inj ((place_mailbox u).symm.trans ((congrArg place h).trans (place_mailbox v)))

theorem Var.mailbox_lt (v : Var) : v.mailbox.val < arrayStart := by
  cases v <;> decide

namespace Sound

variable {ws : List Mailbox} {img : Image} {pc : Mailbox} {acc : Word} {inbox outbox : List Word}

theorem start : Sound [] .start where
  valid := fun _ hv => absurd hv List.not_mem_nil
  notYet := fun _ _ => rfl
  once := List.nodup_nil
  below := fun _ ha => absurd ha List.not_mem_nil

theorem safe (h : Sound ws img) (hpc : Nat.ble pc.val 70 = true) :
    Safe ws (img.at' pc acc inbox outbox) :=
  ⟨Nat.le_of_ble_eq_true hpc, img, rfl, h⟩

/-- A store into a rewritten word. -/
theorem write (h : Sound ws img) {w : Word} {v : Var} (hw : Valid v w) :
    Sound (ws ++ [v.mailbox]) (img.write w v) where
  valid := by
    intro u hu
    rw [Image.read_write]
    by_cases huv : u = v
    · rw [if_pos huv, huv]
      exact hw
    · rw [if_neg huv]
      refine h.valid u ?_
      rcases List.mem_append.mp hu with hu | hu
      · exact hu
      · exact absurd (Var.mailbox_injective (List.mem_singleton.mp hu)) huv
  notYet := by
    intro u hu
    have huv : u ≠ v := fun huv =>
      hu (List.mem_append_right _ (List.mem_singleton.mpr (congrArg Var.mailbox huv)))
    rw [Image.read_write, if_neg huv]
    exact h.notYet u fun hmem => hu (List.mem_append_left _ hmem)
  once := by
    have hout : ¬ arrayStart ≤ v.mailbox.val := Nat.not_le_of_lt v.mailbox_lt
    rw [List.filter_append, List.filter_cons_of_neg (by simpa using hout), List.filter_nil,
      List.append_nil]
    exact h.once
  below := by
    intro a ha hle
    rw [Image.array_write]
    rcases List.mem_append.mp ha with ha | ha
    · exact h.below a ha hle
    · rw [List.mem_singleton.mp ha] at hle
      exact absurd hle (Nat.not_le_of_lt v.mailbox_lt)

/-- A store behind the last element of the array. -/
theorem push (h : Sound ws img) (w : Word) {i : Fin 20} (hi : img.array.length = i.val) :
    Sound (ws ++ [arrayMailbox i]) { img with array := img.array ++ [w] } where
  valid := by
    intro u hu
    rcases List.mem_append.mp hu with hu | hu
    · rw [Image.read_array]
      exact h.valid u hu
    · have hlt := u.mailbox_lt
      rw [List.mem_singleton.mp hu] at hlt
      exact absurd hlt (Nat.not_lt_of_le (Nat.le_add_right _ _))
  notYet := by
    intro u hu
    rw [Image.read_array]
    exact h.notYet u fun hmem => hu (List.mem_append_left _ hmem)
  once := by
    rw [List.filter_append]
    refine List.nodup_append.mpr ⟨h.once, ?_, ?_⟩
    · exact (List.nodup_singleton _).filter _
    · intro a ha b hb hab
      have hb' : b = arrayMailbox i := List.mem_singleton.mp (List.mem_of_mem_filter hb)
      have ha' := List.mem_filter.mp ha
      have hlt := h.below a ha'.1 (of_decide_eq_true ha'.2)
      rw [hab, hb', hi] at hlt
      exact Nat.lt_irrefl _ hlt
  below := by
    intro a ha hle
    rw [List.length_append, List.length_singleton]
    rcases List.mem_append.mp ha with ha | ha
    · exact Nat.lt_succ_of_lt (h.below a ha hle)
    · rw [List.mem_singleton.mp ha, hi]
      exact Nat.lt_succ_self _

/-- A zero behind the array, which is there already. -/
theorem zero (h : Sound ws img) : Sound ws { img with array := img.array ++ [0] } where
  valid := by
    intro u hu
    rw [Image.read_array]
    exact h.valid u hu
  notYet := by
    intro u hu
    rw [Image.read_array]
    exact h.notYet u hu
  once := h.once
  below := by
    intro a ha hle
    rw [List.length_append, List.length_singleton]
    exact Nat.lt_succ_of_lt (h.below a ha hle)

end Sound

/-! ## A pointer that stops -/

/-- A pointer into the array with a zero at it or behind it. -/
def Stops (array : List Word) (ptr : Word) : Prop :=
  ∃ i z : Fin 20, ptr = ldaArray i.val ∧ i ≤ z ∧ array.getD z.val 0 = 0

theorem Stops.valid {array : List Word} {ptr : Word} (h : Stops array ptr) :
    ∃ i : Fin 20, ptr = ldaArray i.val := by
  rcases h with ⟨i, _, hptr, _, _⟩
  exact ⟨i, hptr⟩

/-- What the instruction at the pointer loads; behind it there is more if that is not zero. -/
theorem Stops.load {img : Image} {v : Var} (h : Stops img.array (img.read v)) :
    ∃ a w, decode (img.mem v.mailbox) = .LDA a ∧
      (∀ img' : Image, img'.array = img.array → img'.mem a = w) ∧
      (w ≠ 0 → Stops img.array (img.read v + 1)) := by
  rcases h with ⟨i, z, hptr, hle, hz⟩
  refine ⟨arrayMailbox i, img.array.getD i.val 0, ?_, ?_, ?_⟩
  · rw [Image.mem_of_place _ (place_mailbox _), hptr]
    exact decode_ldaArray i
  · intro img' harray
    rw [Image.mem_arrayMailbox, harray]
  · intro hne
    have hlt : i.val < z.val := by
      refine Nat.lt_of_le_of_ne hle fun heq => hne ?_
      rw [heq]
      exact hz
    refine ⟨⟨i.val + 1, Nat.lt_of_le_of_lt hlt z.isLt⟩, z, ?_, hlt, hz⟩
    rw [hptr, ldaArray_add_one]

/-! ## At the head of a loop -/

/-- The assertions at the heads of the loops. -/
inductive Head : List Mailbox → LittleMan.State → Prop
  | input1 {ws img acc inbox outbox} : Sound ws img →
      img.valueAt1 = stoArray img.array.length → img.sarray = stoArray 0 →
      img.array.length + ((list1 inbox).length + (list2 inbox).length) ≤ 18 →
      Head ws (img.at' 2 acc inbox outbox)
  | input2 {ws img acc inbox outbox} : Sound ws img →
      img.valueAt2 = stoArray img.array.length → img.sarray = stoArray 0 →
      (∃ j, j ≤ img.array.length ∧ img.s2array = stoArray j - 300) →
      img.array.length + (list1 inbox).length ≤ 19 →
      Head ws (img.at' 14 acc inbox outbox)
  | compare {ws img acc inbox outbox} : Sound ws img →
      Stops img.array img.setL1 → Stops img.array img.setL2 →
      Head ws (img.at' 28 acc inbox outbox)
  | showRest (no : ListNo) {ws img acc inbox outbox} : Sound ws img →
      Stops img.array (img.read no.showRest) →
      Head ws (img.at' no.showRest.mailbox acc inbox outbox)

/-- Safe from here on, up to the head of a loop. -/
abbrev Goes (ws : List Mailbox) (s : LittleMan.State) : Prop := Until Safe Head ws s

section Blocks

variable {ws : List Mailbox} {img : Image} {pc : Mailbox} {acc : Word} {inbox outbox : List Word}

/-- `STO` into a rewritten word. -/
theorem sto {R : List Mailbox → LittleMan.State → Prop} (hs : Sound ws img)
    (hpc : Nat.ble pc.val 70 = true) {v : Var} (hsto : decode (img.mem pc) = .STO v.mailbox)
    (hv : Valid v acc)
    (hR : Sound (ws ++ [v.mailbox]) (img.write acc v) →
      R (ws ++ [v.mailbox]) ((img.write acc v).at' (pc + 1) acc inbox outbox)) :
    Steps Safe R ws (img.at' pc acc inbox outbox) :=
  .sto (hs.safe hpc) hsto (Image.store img acc (place_mailbox v)) (hR (hs.write hv))

/-- `LDA`, `ADD one`, `STO`. -/
theorem advances (hs : Sound ws img) {u v : Var} {pc' : Mailbox} (hpc' : pc + 1 + 1 + 1 = pc')
    (hlda : decode (img.mem pc) = .LDA u.mailbox) (hadd : decode (img.mem (pc + 1)) = .ADD 71)
    (hsto : decode (img.mem (pc + 1 + 1)) = .STO v.mailbox)
    (hpc : (Nat.ble pc.val 70 && Nat.ble (pc + 1).val 70 && Nat.ble (pc + 1 + 1).val 70) = true)
    (hv : Valid v (img.read u + 1))
    (hgoes : Sound (ws ++ [v.mailbox]) (img.write (img.read u + 1) v) →
      Goes (ws ++ [v.mailbox])
        ((img.write (img.read u + 1) v).at' pc' (img.read u + 1) inbox outbox)) :
    Goes ws (img.at' pc acc inbox outbox) := by
  rw [Bool.and_eq_true, Bool.and_eq_true] at hpc
  refine .go (.lda (hs.safe hpc.1.1) hlda (img.mem_of_place (place_mailbox u)) ?_)
  refine .go (.add (hs.safe hpc.1.2) hadd img.mem_one ?_)
  refine .go (sto hs hpc.2 hsto hv fun hs' => ?_)
  rw [hpc']
  exact hgoes hs'

/-! ### `INPUT_LIST1`, `INPUT_LIST2` -/

/-- A turn of an input loop, up to its end or to its next. -/
theorem input_turn (no : ListNo) (hs : Sound ws img)
    (hptr : img.read no.valueAt = stoArray img.array.length)
    (hroom : ∀ w rest, inbox = w :: rest → w ≠ 0 → img.array.length + 1 < 20)
    (hdone : ∀ rest, inbox = 0 :: rest → Goes ws (img.at' no.inputDone 0 rest outbox))
    (hback : ∀ w rest ws', inbox = w :: rest → w ≠ 0 →
      Sound ws' ({ img with array := img.array ++ [w] }.write
        (stoArray (img.array.length + 1)) no.valueAt) →
      Goes ws' (({ img with array := img.array ++ [w] }.write
        (stoArray (img.array.length + 1)) no.valueAt).at' no.input
          (stoArray (img.array.length + 1)) rest outbox)) :
    Steps Safe Goes ws (img.at' no.input acc inbox outbox) := by
  have hstore : ∀ w rest, inbox = w :: rest → w ≠ 0 →
      Goes ws (img.at' no.valueAt.mailbox w rest outbox) := by
    intro w rest hinbox hw
    have hlt := hroom w rest hinbox hw
    let i : Fin 20 := ⟨img.array.length, Nat.lt_of_succ_lt hlt⟩
    let img' : Image := { img with array := img.array ++ [w] }
    have hptr' : img'.read no.valueAt + 1 = stoArray (img.array.length + 1) := by
      rw [← stoArray_add_one, ← hptr]
      cases no <;> rfl
    have hvalid : Valid no.valueAt (img'.read no.valueAt + 1) := by
      rw [hptr']
      cases no <;> exact ⟨⟨_, hlt⟩, rfl⟩
    have hdec : decode (img.mem no.valueAt.mailbox) = .STO (arrayMailbox i) := by
      rw [Image.mem_of_place _ (place_mailbox _), hptr]
      exact decode_stoArray i
    cases no with
    | list1 | list2 =>
        refine .go (.sto (hs.safe rfl) hdec (img.store_array w rfl) ?_)
        refine advances (hs.push w rfl) rfl (Image.fetch rfl rfl) (Image.fetch rfl rfl)
          (Image.fetch rfl rfl) rfl hvalid fun hs' => ?_
        rw [hptr'] at hs' ⊢
        exact .go (.br (hs'.safe rfl) (Image.fetch rfl rfl) (hback w rest _ hinbox hw hs'))
  cases no with
  | list1 | list2 =>
      refine .input (hs.safe rfl) (Image.fetch rfl rfl) fun w rest hinbox => ?_
      refine .go (.brz (hs.safe rfl) (Image.fetch rfl rfl) (fun hw => ?_) fun hw => ?_)
      · subst hw
        exact hdone rest hinbox
      · exact hstore w rest hinbox hw

theorem list1_cons {w : Word} (hw : w ≠ 0) (rest : List Word) :
    list1 (w :: rest) = w :: list1 rest := List.takeWhile_cons_of_pos (decide_eq_true hw)

theorem list2_cons {w : Word} (hw : w ≠ 0) (rest : List Word) :
    list2 (w :: rest) = list2 rest := by
  have hdrop : (w :: rest).dropWhile (· ≠ 0) = rest.dropWhile (· ≠ 0) :=
    List.dropWhile_cons_of_pos (decide_eq_true hw)
  rw [list2, hdrop, list2]

theorem list2_zero (rest : List Word) : list2 (0 :: rest) = list1 rest := rfl

/-! ### `SEPARATE_LISTS_BY_ZERO`, `INIT_COMPARE` -/

theorem separate_goes (hs : Sound ws img) (hptr : img.valueAt1 = stoArray img.array.length)
    (hsarray : img.sarray = stoArray 0)
    (hroom : img.array.length + (list1 inbox).length ≤ 18) :
    Goes ws (img.at' 9 acc inbox outbox) := by
  let img0 : Image := { img with array := img.array ++ [0] }
  have hlen : img0.array.length = img.array.length + 1 := List.length_append
  have hptr0 : img0.read .valueAt1 + 1 = stoArray img0.array.length := by
    rw [hlen, ← stoArray_add_one]
    exact congrArg (· + 1) hptr
  have hvalid : Valid .valueAt2 (img0.read .valueAt1 + 1) := by
    rw [hptr0]
    exact ⟨⟨_, by rw [hlen]; omega⟩, rfl⟩
  rw [Image.at'_append_zero img]
  refine advances (v := .valueAt2) hs.zero rfl (Image.fetch rfl rfl) (Image.fetch rfl rfl)
    (Image.fetch rfl rfl) rfl hvalid fun hs2 => ?_
  refine .go (.sub (hs2.safe rfl) (Image.fetch rfl rfl) (Image.mem_st _) ?_)
  refine .go (sto (v := .s2array) hs2 rfl (Image.fetch rfl rfl) trivial fun hs3 => ?_)
  refine .here (.input2 hs3 hptr0 hsarray ⟨img0.array.length, Nat.le_refl _, ?_⟩ ?_)
  · exact congrArg (· - 300) hptr0
  · show img0.array.length + (list1 inbox).length ≤ 19
    rw [hlen]
    omega

theorem init_compare_goes (hs : Sound ws img) (hsarray : img.sarray = stoArray 0)
    (hs2array : ∃ j, j ≤ img.array.length ∧ img.s2array = stoArray j - 300)
    (hlen : img.array.length ≤ 19) : Goes ws (img.at' 21 acc inbox outbox) := by
  rcases hs2array with ⟨j, hj, hs2array⟩
  have hset1 : img.sarray - 300 + 500 = ldaArray 0 := by rw [hsarray, stoArray_toLda]
  have hset2 : img.s2array + 500 = ldaArray j := by rw [hs2array, stoArray_toLda]
  -- the mailbox behind list 2 was never written
  let z : Fin 20 := ⟨img.array.length, Nat.lt_succ_of_le hlen⟩
  have hz : img.array.getD z.val 0 = 0 := by simp [z]
  have hstops1 : Stops img.array (img.sarray - 300 + 500) :=
    ⟨0, z, hset1, Nat.zero_le _, hz⟩
  have hstops2 : Stops img.array (img.s2array + 500) :=
    ⟨⟨j, Nat.lt_of_le_of_lt hj z.isLt⟩, z, hset2, hj, hz⟩
  refine .go (.lda (hs.safe rfl) (Image.fetch rfl rfl) (Image.mem_of_place (v := .sarray) _ rfl) ?_)
  refine .go (.sub (hs.safe rfl) (Image.fetch rfl rfl) (Image.mem_st _) ?_)
  refine .go (.add (hs.safe rfl) (Image.fetch rfl rfl) (Image.mem_ld _) ?_)
  show Goes ws (img.at' 24 (img.sarray - 300 + 500) inbox outbox)
  generalize img.sarray - 300 + 500 = ptr1 at hstops1 ⊢
  refine .go (sto (v := .setL1) hs rfl (Image.fetch rfl rfl) hstops1.valid fun hs1 => ?_)
  refine .go (.lda (hs1.safe rfl) (Image.fetch rfl rfl)
    (Image.mem_of_place (v := .s2array) _ rfl) ?_)
  refine .go (.add (hs1.safe rfl) (Image.fetch rfl rfl) (Image.mem_ld _) ?_)
  show Goes _ ((img.write ptr1 .setL1).at' 27 (img.s2array + 500) inbox outbox)
  generalize img.s2array + 500 = ptr2 at hstops2 ⊢
  refine .go (sto (v := .setL2) hs1 rfl (Image.fetch rfl rfl) hstops2.valid fun hs2 => ?_)
  exact .here (.compare hs2 hstops1 hstops2)

/-! ### `SHOW_REST_LIST1`, `SHOW_REST_LIST2` -/

theorem fin_goes (hs : Sound ws img) : Goes ws (img.at' 70 acc inbox outbox) :=
  .go (.halt (hs.safe rfl) (Image.fetch rfl rfl))

/-- A turn of a show loop. -/
theorem show_rest_turn (no : ListNo) (hs : Sound ws img)
    (hptr : Stops img.array (img.read no.showRest)) :
    Steps Safe Goes ws (img.at' no.showRest.mailbox acc inbox outbox) := by
  rcases hptr.load with ⟨a, w, hlda, ha, hnext⟩
  have hvalid : w ≠ 0 → Valid no.showRest (img.read no.showRest + 1) := by
    intro hw
    cases no <;> exact (hnext hw).valid
  have hstops : w ≠ 0 → Stops img.array
      ((img.write (img.read no.showRest + 1) no.showRest).read no.showRest) := by
    intro hw
    rw [Image.read_write, if_pos rfl]
    exact hnext hw
  cases no with
  | list1 | list2 =>
      refine .lda (hs.safe rfl) hlda (ha img rfl) ?_
      refine .go (.brz (hs.safe rfl) (Image.fetch rfl rfl) (fun _ => fin_goes hs) fun hw => ?_)
      refine .go (.output (hs.safe rfl) (Image.fetch rfl rfl) ?_)
      refine advances hs rfl (Image.fetch rfl rfl) (Image.fetch rfl rfl) (Image.fetch rfl rfl) rfl
        (hvalid hw) fun hs' => ?_
      exact .go (.br (hs'.safe rfl) (Image.fetch rfl rfl) (.here (.showRest _ hs' (hstops hw))))

/-! ### `START_COMPARE` -/

/-- List 1 is at its end. -/
theorem arrange_show_two_goes (hs : Sound ws img) (h2 : Stops img.array img.setL2) :
    Goes ws (img.at' 48 acc inbox outbox) := by
  refine .go (.lda (hs.safe rfl) (Image.fetch rfl rfl) (Image.mem_of_place (v := .nb2) _ rfl) ?_)
  refine .go (.brz (hs.safe rfl) (Image.fetch rfl rfl) (fun _ => fin_goes hs) fun _ => ?_)
  refine .go (.lda (hs.safe rfl) (Image.fetch rfl rfl) (Image.mem_of_place (v := .setL2) _ rfl) ?_)
  refine .go (sto (v := .show2) hs rfl (Image.fetch rfl rfl) h2.valid fun hs' => ?_)
  exact .here (.showRest .list2 hs' h2)

/-- List 2 is at its end. -/
theorem arrange_show_one_goes (hs : Sound ws img) (h1 : Stops img.array img.setL1) :
    Goes ws (img.at' 59 acc inbox outbox) := by
  refine .go (.lda (hs.safe rfl) (Image.fetch rfl rfl) (Image.mem_of_place (v := .nb1) _ rfl) ?_)
  refine .go (.brz (hs.safe rfl) (Image.fetch rfl rfl) (fun _ => fin_goes hs) fun _ => ?_)
  refine .go (.lda (hs.safe rfl) (Image.fetch rfl rfl) (Image.mem_of_place (v := .setL1) _ rfl) ?_)
  refine .go (sto (v := .show1) hs rfl (Image.fetch rfl rfl) h1.valid fun hs' => ?_)
  exact .here (.showRest .list1 hs' h1)

/-- The head of list 1 is looked at, and shown if it is not zero. -/
theorem nb1_is_smaller_goes (hs : Sound ws img) (h2 : Stops img.array img.setL2)
    (hnext : img.nb1 ≠ 0 → Stops img.array (img.setL1 + 1)) :
    Goes ws (img.at' 34 acc inbox outbox) := by
  refine .go (.lda (hs.safe rfl) (Image.fetch rfl rfl) (Image.mem_of_place (v := .nb1) _ rfl) ?_)
  refine .go (.brz (hs.safe rfl) (Image.fetch rfl rfl) (fun _ => arrange_show_two_goes hs h2)
    fun hnb1 => ?_)
  refine .go (.output (hs.safe rfl) (Image.fetch rfl rfl) ?_)
  refine advances (u := .setL1) (v := .setL1) hs rfl (Image.fetch rfl rfl) (Image.fetch rfl rfl)
    (Image.fetch rfl rfl) rfl (hnext hnb1).valid fun hs' => ?_
  refine .go (.br (hs'.safe rfl) (Image.fetch rfl rfl) ?_)
  exact .go (.br (hs'.safe rfl) (Image.fetch rfl rfl) (.here (.compare hs' (hnext hnb1) h2)))

/-- The same for list 2. -/
theorem nb2_is_smaller_goes (hs : Sound ws img) (h1 : Stops img.array img.setL1)
    (hnext : img.nb2 ≠ 0 → Stops img.array (img.setL2 + 1)) :
    Goes ws (img.at' 41 acc inbox outbox) := by
  refine .go (.lda (hs.safe rfl) (Image.fetch rfl rfl) (Image.mem_of_place (v := .nb2) _ rfl) ?_)
  refine .go (.brz (hs.safe rfl) (Image.fetch rfl rfl) (fun _ => arrange_show_one_goes hs h1)
    fun hnb2 => ?_)
  refine .go (.output (hs.safe rfl) (Image.fetch rfl rfl) ?_)
  refine advances (u := .setL2) (v := .setL2) hs rfl (Image.fetch rfl rfl) (Image.fetch rfl rfl)
    (Image.fetch rfl rfl) rfl (hnext hnb2).valid fun hs' => ?_
  exact .go (.br (hs'.safe rfl) (Image.fetch rfl rfl) (.here (.compare hs' h1 (hnext hnb2))))

/-- A turn of the comparison, whichever way it comes out. -/
theorem compare_turn (hs : Sound ws img) (h1 : Stops img.array img.setL1)
    (h2 : Stops img.array img.setL2) :
    Steps Safe Goes ws (img.at' 28 acc inbox outbox) := by
  rcases Stops.load (v := .setL2) h2 with ⟨a2, w2, hlda2, ha2, hnext2⟩
  have h1' : Stops (img.write w2 .nb2).array ((img.write w2 .nb2).read .setL1) := h1
  rcases h1'.load with ⟨a1, w1, hlda1, ha1, hnext1⟩
  refine .lda (hs.safe rfl) hlda2 (ha2 img rfl) ?_
  refine .go (sto (v := .nb2) hs rfl (Image.fetch rfl rfl) trivial fun hs2 => ?_)
  refine .go (.lda (hs2.safe rfl) hlda1 (ha1 _ rfl) ?_)
  refine .go (sto (v := .nb1) hs2 rfl (Image.fetch rfl rfl) trivial fun hs3 => ?_)
  refine .go (.sub (hs3.safe rfl) (Image.fetch rfl rfl)
    (Image.mem_of_place (v := .nb2) _ rfl) ?_)
  refine .go (.brp (hs3.safe rfl) (Image.fetch rfl rfl) ?_ ?_)
  · exact nb2_is_smaller_goes hs3 h1 hnext2
  · exact nb1_is_smaller_goes hs3 h2 hnext1

end Blocks

/-! ## Along the whole run -/

/-- From the head of a loop, it is safe up to the next. -/
theorem Head.goes {ws : List Mailbox} {s : LittleMan.State} (h : Head ws s) :
    Steps Safe Goes ws s := by
  cases h with
  | @input1 _ img acc inbox outbox hs hptr hsarray hroom =>
      refine input_turn .list1 hs hptr ?_ ?_ ?_
      · rintro w rest rfl hw
        rw [list1_cons hw, List.length_cons] at hroom
        omega
      · rintro rest rfl
        rw [list2_zero] at hroom
        exact separate_goes hs hptr hsarray (Nat.le_trans (by omega) hroom)
      · rintro w rest ws' rfl hw hs'
        rw [list1_cons hw, list2_cons hw, List.length_cons] at hroom
        have hlen : (img.array ++ [w]).length = img.array.length + 1 := List.length_append
        refine .here (.input1 hs' (congrArg stoArray hlen.symm) hsarray ?_)
        show (img.array ++ [w]).length + _ ≤ 18
        rw [hlen]
        omega
  | @input2 _ img acc inbox outbox hs hptr hsarray hs2array hroom =>
      refine input_turn .list2 hs hptr ?_ ?_ ?_
      · rintro w rest rfl hw
        rw [list1_cons hw, List.length_cons] at hroom
        omega
      · rintro rest rfl
        exact init_compare_goes hs hsarray hs2array (Nat.le_trans (Nat.le_add_right _ _) hroom)
      · rintro w rest ws' rfl hw hs'
        rw [list1_cons hw, List.length_cons] at hroom
        have hlen : (img.array ++ [w]).length = img.array.length + 1 := List.length_append
        rcases hs2array with ⟨j, hj, hs2array⟩
        refine .here (.input2 hs' (congrArg stoArray hlen.symm) hsarray ⟨j, ?_, hs2array⟩ ?_)
        · show j ≤ (img.array ++ [w]).length
          rw [hlen]
          exact Nat.le_succ_of_le hj
        · show (img.array ++ [w]).length + _ ≤ 19
          rw [hlen]
          omega
  | compare hs h1 h2 => exact compare_turn hs h1 h2
  | showRest no hs hptr => exact show_rest_turn no hs hptr

/-- Every state of a run is safe. -/
theorem safe_of_stores {inbox : List Word} {ws : List Mailbox} {s : LittleMan.State}
    (hlen : (list1 inbox).length + (list2 inbox).length ≤ 18)
    (h : Stores (load (assemble combine_two_ordered_lists) inbox) ws s) : Safe ws s := by
  rw [load_eq] at h
  refine h.throughout (fun ws s => Head.goes) ?_
  refine .go (.lda (Sound.start.safe rfl) (Image.fetch rfl rfl)
    (Image.mem_of_place (v := .valueAt1) _ rfl) ?_)
  refine .go (sto (v := .sarray) .start rfl (Image.fetch rfl rfl) trivial fun hs => ?_)
  exact .here (.input1 hs rfl rfl ((Nat.zero_add _).trans_le hlen))

/-! ## The promise kept -/

theorem assembled_eq (a : Mailbox) : assembled a = Image.start.mem a := by
  rw [assembled, assemble_eq_code, Image.mem_start]

/-- Neither rewritten nor in the array. -/
theorem Image.mem_eq_assembled (img : Image) {a : Mailbox} (hvar : ∀ v : Var, a ≠ v.mailbox)
    (ha : a.val < arrayStart) : img.mem a = assembled a := by
  rw [assembled_eq, Image.mem, Image.mem]
  cases hplace : place a with
  | var v => exact absurd ((place_eq_var a v).mp hplace) (hvar v)
  | array i =>
      rw [array_of_place a i hplace] at ha
      exact absurd ha (Nat.not_lt_of_le (Nat.le_add_right _ _))
  | fixed w => rfl

theorem exists_sto {w : Word} (h : ∃ i : Fin 20, w = stoArray i.val) :
    ∃ b : Mailbox, arrayStart ≤ b.val ∧ decode w = .STO b := by
  rcases h with ⟨i, rfl⟩
  exact ⟨arrayMailbox i, Nat.le_add_right _ _, decode_stoArray i⟩

theorem exists_lda {w : Word} (h : ∃ i : Fin 20, w = ldaArray i.val) :
    ∃ b : Mailbox, arrayStart ≤ b.val ∧ decode w = .LDA b := by
  rcases h with ⟨i, rfl⟩
  exact ⟨arrayMailbox i, Nat.le_add_right _ _, decode_ldaArray i⟩

/-- The word of a rewritten instruction. -/
structure Rewritten (l : Label) (v : Var) : Prop where
  mailbox : mailbox l = v.mailbox.val
  decode : ∀ w, Valid v w → ∃ b : Mailbox, arrayStart ≤ b.val ∧ decode w = opcode l b
  ready : l ∈ ready → Valid v (Image.start.read v)

theorem exists_rewritten {l : Label} (h : l ∈ patched) : ∃ v, Rewritten l v := by
  have hlda : ∀ {l : Label} {v : Var}, mailbox l = v.mailbox.val → l ∉ ready →
      (∀ w, Valid v w → ∃ i : Fin 20, w = ldaArray i.val) → Rewritten l v := by
    intro l v hl hready hvalid
    refine ⟨hl, fun w hw => ?_, fun h => absurd h hready⟩
    rw [opcode, if_neg hready]
    exact exists_lda (hvalid w hw)
  have hsto : ∀ {l : Label} {v : Var}, mailbox l = v.mailbox.val → l ∈ ready →
      (∀ w, Valid v w → ∃ i : Fin 20, w = stoArray i.val) → Valid v (Image.start.read v) →
      Rewritten l v := by
    intro l v hl hready hvalid hstart
    refine ⟨hl, fun w hw => ?_, fun _ => hstart⟩
    rw [opcode, if_pos hready]
    exact exists_sto (hvalid w hw)
  simp only [patched, List.mem_cons, List.not_mem_nil, or_false] at h
  rcases h with rfl | rfl | rfl | rfl | rfl | rfl
  · exact ⟨.valueAt1, hsto (by decide) (by decide) (fun w hw => hw) ⟨0, rfl⟩⟩
  · exact ⟨.valueAt2, hsto (by decide) (by decide) (fun w hw => hw) ⟨0, rfl⟩⟩
  · exact ⟨.setL1, hlda (by decide) (by decide) fun w hw => hw⟩
  · exact ⟨.setL2, hlda (by decide) (by decide) fun w hw => hw⟩
  · exact ⟨.show1, hlda (by decide) (by decide) fun w hw => hw⟩
  · exact ⟨.show2, hlda (by decide) (by decide) fun w hw => hw⟩

theorem mailbox_fin : mailbox .FIN = 70 := by decide

theorem mailbox_array : mailbox .array = arrayStart := by decide

/-- What is rewritten is a patched instruction, or stands behind the code. -/
theorem patched_or_behind (v : Var) :
    (∃ l ∈ patched, mailbox l = v.mailbox.val) ∨ mailbox .FIN < v.mailbox.val := by
  cases v <;> decide

theorem constant_place {l : Label} (h : l ∈ [Label.one, .st, .ld]) :
    mailbox l < arrayStart ∧ ∀ v : Var, v.mailbox.val ≠ mailbox l := by
  simp only [List.mem_cons, List.not_mem_nil, or_false] at h
  rcases h with rfl | rfl | rfl
  · exact ⟨by decide, fun v => by cases v <;> decide⟩
  · exact ⟨by decide, fun v => by cases v <;> decide⟩
  · exact ⟨by decide, fun v => by cases v <;> decide⟩

/-- A safe state is undamaged. -/
theorem Safe.undamaged {ws : List Mailbox} {s : LittleMan.State} (h : Safe ws s) :
    Undamaged ws s := by
  rcases h with ⟨hpc, img, hmem, hs⟩
  have hread : ∀ {l : Label} {v : Var} {a : Mailbox}, Rewritten l v → a.val = mailbox l →
      a = v.mailbox ∧ s.mem a = img.read v := by
    intro l v a hv ha
    have hav : a = v.mailbox := Fin.ext (ha.trans hv.mailbox)
    refine ⟨hav, ?_⟩
    rw [hmem, hav, Image.mem_of_place _ (place_mailbox v)]
  constructor
  · rw [mailbox_fin]
    exact hpc
  · intro a ha hpatched
    rw [hmem]
    refine img.mem_eq_assembled ?_ (Nat.lt_of_le_of_lt ha (by decide))
    rintro v rfl
    rcases patched_or_behind v with ⟨l, hl, hv⟩ | hbehind
    · exact hpatched l hl hv.symm
    · exact absurd ha (Nat.not_le_of_lt hbehind)
  · intro l hl a ha
    rcases constant_place hl with ⟨hlt, hne⟩
    rw [hmem]
    refine img.mem_eq_assembled ?_ (ha ▸ hlt)
    rintro v rfl
    exact hne v ha
  · intro l hl a ha hset
    rcases exists_rewritten hl with ⟨v, hv⟩
    rcases hread hv ha with ⟨rfl, hword⟩
    rw [hword, mailbox_array]
    refine hv.decode _ ?_
    by_cases hws : v.mailbox ∈ ws
    · exact hs.valid v hws
    · rw [hs.notYet v hws]
      exact hv.ready (hset.resolve_right hws)
  · intro l hl a ha hws
    rcases exists_rewritten hl with ⟨v, hv⟩
    rcases hread hv ha with ⟨rfl, hword⟩
    rw [hword, hs.notYet v hws, assembled_eq, Image.mem_of_place _ (place_mailbox v)]
  · simp only [mailbox_array]
    exact hs.once

/-- **The program never damages its own code.**  On every input that fits, in every state that is
reached, its words are as they were assembled or as they are meant to be patched, no element of
the array was written twice, and an instruction of the program is next. -/
theorem never_damages_its_code (inbox : List Word)
    (hlen : (list1 inbox).length + (list2 inbox).length ≤ 18) {s : LittleMan.State}
    (h : Runs (load (assemble combine_two_ordered_lists) inbox) s) :
    (∃ ws, Stores (load (assemble combine_two_ordered_lists) inbox) ws s) ∧
      ∀ ws, Stores (load (assemble combine_two_ordered_lists) inbox) ws s → Undamaged ws s :=
  ⟨exists_stores_iff.mpr h, fun _ hws => (safe_of_stores hlen hws).undamaged⟩

/-- Two lists in no order, at the `HLT`. -/
theorem never_damages_its_code_sample :
    ∃ ws s, Runs (load (assemble combine_two_ordered_lists) [7, 998, 5, 0, 600, 2, 0]) s ∧
      s.halted ∧ s.outbox.length = 5 ∧ Undamaged ws s := by
  rcases runs_to_halt [7, 998, 5] [600, 2] (by simp) (by simp) (by decide) with
    ⟨s, hrun, hhalt, houtbox⟩
  rcases never_damages_its_code [7, 998, 5, 0, 600, 2, 0] (by decide) hrun with ⟨⟨ws, hws⟩, hall⟩
  refine ⟨ws, s, hrun, hhalt, ?_, hall ws hws⟩
  rw [houtbox]
  exact (List.merge_perm_append _).length_eq

end Smoll.Lmc
