/-
# `Smoll.Lmc.Merge` — the program combines two ordered lists

The run, block by block:

    0..1     INIT                    sarray := STO array
    2..8     INPUT_LIST1             list 1 into the array
    9..13    SEPARATE_LISTS_BY_ZERO  one mailbox is left zero, s2array behind it
    14..20   INPUT_LIST2             list 2 into the array
    21..27   INIT_COMPARE            the two LDA pointers
    28..47   START_COMPARE           the smaller head is shown, its pointer moves
    48..58   ARRANGE_SHOW_LIST2_REST the rest of list 2 is shown
    59..69   ARRANGE_SHOW_REST_LIST1 the rest of list 1 is shown
    70       FIN

What a pointer points at is `Holds`: the array holds a list from an index on,
and a zero behind it.  The zero is how the program finds the end of a list,
and it is compared like an element: an exhausted list takes part as the value
0.  `ShowsMerge` has a rule for each way out of `BRP NB2_IS_SMALLER`;
`compare_lists` is the induction over both lists.
-/
import Smoll.Lmc.Program
import Mathlib.Data.List.Perm.Basic

namespace Smoll.Lmc

open LittleMan

/-! ## The array pointers -/

/-- `STO` into an element of the array. -/
def stoArray (i : Nat) : Word := word (300 + (arrayStart + i))

/-- `LDA` of an element of the array. -/
def ldaArray (i : Nat) : Word := word (500 + (arrayStart + i))

theorem stoArray_add_one (i : Nat) : stoArray i + 1 = stoArray (i + 1) := word_add _ 1

theorem ldaArray_add_one (i : Nat) : ldaArray i + 1 = ldaArray (i + 1) := word_add _ 1

theorem decode_stoArray (i : Fin 20) : decode (stoArray i.val) = .STO (arrayMailbox i) :=
  decode_word_sto (arrayMailbox i).isLt

theorem decode_ldaArray (i : Fin 20) : decode (ldaArray i.val) = .LDA (arrayMailbox i) :=
  decode_word_lda (arrayMailbox i).isLt

/-- The opcode of a pointer is exchanged by `SUB st`, `ADD ld`. -/
theorem stoArray_toLda (i : Nat) : stoArray i - 300 + 500 = ldaArray i := by
  have hsub : stoArray i - word 300 = word (300 + (arrayStart + i) - 300) :=
    word_sub (Nat.le_add_right _ _)
  have hadd : word (300 + (arrayStart + i) - 300) + word 500 = ldaArray i := by
    rw [word_add]
    exact congrArg word (by omega)
  calc stoArray i - 300 + 500 = word (300 + (arrayStart + i) - 300) + word 500 :=
        congrArg (· + word 500) hsub
    _ = ldaArray i := hadd

/-- The words hold a list from an index on, and a zero behind it. -/
def Holds (array : List Word) (i : Nat) (L : List Word) : Prop :=
  ∃ post, array.drop i = L ++ 0 :: post

namespace Holds

variable {array : List Word} {i : Nat} {w : Word} {L : List Word}

theorem lt (h : Holds array i L) : i < array.length := by
  rcases h with ⟨post, hpost⟩
  have hlen : (array.drop i).length = (L ++ 0 :: post).length := congrArg List.length hpost
  rw [List.length_drop, List.length_append, List.length_cons] at hlen
  omega

theorem getD (h : Holds array i L) : array.getD i 0 = L.headD 0 := by
  rcases h with ⟨post, hpost⟩
  have hget : array[i]? = (L ++ 0 :: post).head? := by rw [← hpost, List.head?_drop]
  cases L with
  | nil => rw [List.getD_eq_getElem?_getD, hget]; rfl
  | cons w L => rw [List.getD_eq_getElem?_getD, hget]; rfl

theorem tail (h : Holds array i (w :: L)) : Holds array (i + 1) L := by
  rcases h with ⟨post, hpost⟩
  refine ⟨post, ?_⟩
  rw [← List.drop_drop, hpost]
  rfl

end Holds

/-- A pointer into the array, at a list. -/
def Points (array : List Word) (ptr : Word) (L : List Word) : Prop :=
  ∃ i : Fin 20, ptr = ldaArray i.val ∧ Holds array i.val L

namespace Points

variable {array : List Word} {ptr w : Word} {L : List Word}

theorem of_holds {i : Nat} (h : Holds array i L) (hlen : array.length ≤ 20) :
    Points array (ldaArray i) L :=
  ⟨⟨i, Nat.lt_of_lt_of_le h.lt hlen⟩, rfl, h⟩

theorem next (h : Points array ptr (w :: L)) (hlen : array.length ≤ 20) :
    Points array (ptr + 1) L := by
  rcases h with ⟨i, rfl, hi⟩
  rw [ldaArray_add_one]
  exact of_holds hi.tail hlen

/-- The instruction at the pointer loads the head of the list, a zero at its end. -/
theorem load {img : Image} {v : Var} (h : Points img.array (img.read v) L) :
    ∃ a, decode (img.mem v.mailbox) = .LDA a ∧
      ∀ img' : Image, img'.array = img.array → img'.mem a = L.headD 0 := by
  rcases h with ⟨i, hptr, hi⟩
  refine ⟨arrayMailbox i, ?_, ?_⟩
  · rw [Image.mem_of_place _ (place_mailbox _), hptr]
    exact decode_ldaArray i
  · intro img' harray
    rw [Image.mem_arrayMailbox, harray]
    exact hi.getD

end Points

/-! ## The two lists -/

inductive ListNo where
  | list1 | list2
  deriving DecidableEq, Repr

namespace ListNo

/-- `INPUT_LIST1`, `INPUT_LIST2`. -/
def input : ListNo → Mailbox
  | list1 => 2
  | list2 => 14

/-- `SEPARATE_LISTS_BY_ZERO`, `INIT_COMPARE`. -/
def inputDone : ListNo → Mailbox
  | list1 => 9
  | list2 => 21

/-- `VALUE_AT_OF_LIST1`, `VALUE_AT_OF_LIST2`. -/
def valueAt : ListNo → Var
  | list1 => .valueAt1
  | list2 => .valueAt2

/-- `SET_L1_FOR_COMPARE`, `SET_L2_FOR_COMPARE`. -/
def set : ListNo → Var
  | list1 => .setL1
  | list2 => .setL2

/-- `SHOW_REST_LIST1`, `SHOW_REST_LIST2`. -/
def showRest : ListNo → Var
  | list1 => .show1
  | list2 => .show2

end ListNo

/-! ## `LDA`, `ADD one`, `STO` -/

/-- How the program moves its pointers: three lines that store a rewritten word plus one. -/
theorem advance (img : Image) {u v : Var} {pc a b : Mailbox} (acc : Word)
    (inbox outbox : List Word)
    (hlda : decode (img.mem pc) = .LDA a) (ha : place a = .var u)
    (hadd : decode (img.mem (pc + 1)) = .ADD 71)
    (hsto : decode (img.mem (pc + 2)) = .STO b) (hb : place b = .var v) :
    Runs (img.at' pc acc inbox outbox)
      ((img.write (img.read u + 1) v).at' (pc + 3) (img.read u + 1) inbox outbox) := by
  have htwo : pc + 1 + 1 = pc + 2 := Fin.ext (by simp only [Fin.val_add]; omega)
  have hthree : pc + 2 + 1 = pc + 3 := Fin.ext (by simp only [Fin.val_add]; omega)
  rw [← hthree, ← htwo]
  rw [← htwo] at hsto
  refine Runs.trans (Runs.lda hlda (img.mem_of_place ha)) ?_
  refine Runs.trans (Runs.add hadd img.mem_one) ?_
  exact Runs.sto hsto (Image.store _ _ hb)

/-! ## `INPUT_LIST1`, `INPUT_LIST2` -/

/-- One turn of an input loop. -/
theorem input_one (no : ListNo) (img : Image) (acc w : Word) (inbox outbox : List Word)
    {i : Fin 20} (hptr : img.read no.valueAt = stoArray i.val) (hi : img.array.length = i.val)
    (hw : w ≠ 0) :
    Runs (img.at' no.input acc (w :: inbox) outbox)
      (({ img with array := img.array ++ [w] }.write (stoArray (i.val + 1)) no.valueAt).at'
        no.input (stoArray (i.val + 1)) inbox outbox) := by
  have hdec : decode (img.mem no.valueAt.mailbox) = .STO (arrayMailbox i) := by
    rw [Image.mem_of_place _ (place_mailbox _), hptr]
    exact decode_stoArray i
  rw [← stoArray_add_one, ← hptr]
  cases no with
  | list1 | list2 =>
      refine Runs.trans (Runs.input (Image.fetch rfl rfl)) ?_
      refine Runs.trans (Runs.brz_ne (Image.fetch rfl rfl) hw) ?_
      refine Runs.trans (Runs.sto hdec (img.store_array w hi)) ?_
      refine Runs.trans (advance _ _ _ _ (Image.fetch rfl rfl) rfl (Image.fetch rfl rfl)
        (Image.fetch rfl rfl) rfl) ?_
      exact Runs.br (Image.fetch rfl rfl)

/-- An input loop up to the zero that ends the list: the list is behind what was in the array,
and the loop's pointer behind the list. -/
theorem input_list (no : ListNo) (inbox outbox : List Word) (L : List Word) :
    ∀ (img : Image) (acc : Word), img.read no.valueAt = stoArray img.array.length →
      img.array.length + L.length ≤ 20 → (∀ w ∈ L, w ≠ 0) →
      ∃ img' : Image, Runs (img.at' no.input acc (L ++ 0 :: inbox) outbox)
          (img'.at' no.inputDone 0 inbox outbox) ∧
        img'.array = img.array ++ L ∧ img'.read no.valueAt = stoArray img'.array.length ∧
        ∀ v, v ≠ no.valueAt → img'.read v = img.read v := by
  induction L with
  | nil =>
      intro img acc hptr hlen hL
      refine ⟨img, ?_, (List.append_nil _).symm, hptr, fun v hv => rfl⟩
      cases no with
      | list1 | list2 =>
          refine Runs.trans (Runs.input (Image.fetch rfl rfl)) ?_
          exact Runs.brz_zero (Image.fetch rfl rfl) rfl
  | cons w L ih =>
      intro img acc hptr hlen hL
      rw [List.length_cons] at hlen
      have hone := input_one (i := ⟨img.array.length, by omega⟩) no img acc w (L ++ 0 :: inbox)
        outbox hptr rfl (hL w (List.mem_cons_self ..))
      rcases ih ({ img with array := img.array ++ [w] }.write
          (stoArray (img.array.length + 1)) no.valueAt) (stoArray (img.array.length + 1))
          (by rw [Image.read_write, if_pos rfl, Image.array_write, List.length_append]; rfl)
          (by rw [Image.array_write, List.length_append, List.length_singleton]; omega)
          (fun u hu => hL u (List.mem_cons_of_mem w hu))
        with ⟨img', hrest, harray, hptr', hread⟩
      refine ⟨img', Runs.trans hone hrest, ?_, hptr', ?_⟩
      · rw [harray, Image.array_write, List.append_assoc]
        rfl
      · intro v hv
        rw [hread v hv, Image.read_write, if_neg hv, Image.read_array]

/-! ## `SEPARATE_LISTS_BY_ZERO`, `INIT_COMPARE` -/

/-- One element of the array stays zero, `s2array` is the one behind it. -/
theorem separate (img : Image) (acc : Word) (inbox outbox : List Word) :
    ∃ img' acc', Runs (img.at' 9 acc inbox outbox) (Image.at' img' 14 acc' inbox outbox) ∧
      img'.valueAt2 = img.valueAt1 + 1 ∧ img'.s2array = img.valueAt1 + 1 - 300 ∧
      img'.sarray = img.sarray ∧ img'.array = img.array ++ [0] := by
  let img0 : Image := { img with array := img.array ++ [0] }
  have hptr : Runs (img0.at' 9 acc inbox outbox)
      ((img0.write (img.valueAt1 + 1) .valueAt2).at' 12 (img.valueAt1 + 1) inbox outbox) :=
    advance img0 acc inbox outbox (u := .valueAt1) (v := .valueAt2) (Image.fetch rfl rfl) rfl
      (Image.fetch rfl rfl) (Image.fetch rfl rfl) rfl
  have hs2array : Runs
      ((img0.write (img.valueAt1 + 1) .valueAt2).at' 12 (img.valueAt1 + 1) inbox outbox)
      (((img0.write (img.valueAt1 + 1) .valueAt2).write (img.valueAt1 + 1 - 300) .s2array).at' 14
        (img.valueAt1 + 1 - 300) inbox outbox) := by
    refine Runs.trans (Runs.sub (Image.fetch rfl rfl) (Image.mem_st _)) ?_
    exact Runs.sto (Image.fetch rfl rfl) (Image.store _ _ rfl)
  rw [Image.at'_append_zero img]
  exact ⟨_, _, Runs.trans hptr hs2array, rfl, rfl, rfl, rfl⟩

/-- The pointer into list 1, for the comparison. -/
theorem init_compare_one (img : Image) (acc : Word) (inbox outbox : List Word) :
    Runs (img.at' 21 acc inbox outbox)
      ((img.write (img.sarray - 300 + 500) .setL1).at' 25 (img.sarray - 300 + 500) inbox
        outbox) := by
  refine Runs.trans (Runs.lda (Image.fetch rfl rfl) (Image.mem_of_place _ rfl)) ?_
  refine Runs.trans (Runs.sub (Image.fetch rfl rfl) (Image.mem_st _)) ?_
  refine Runs.trans (Runs.add (Image.fetch rfl rfl) (Image.mem_ld _)) ?_
  exact Runs.sto (Image.fetch rfl rfl) (Image.store _ _ rfl)

/-- The pointer into list 2. -/
theorem init_compare_two (img : Image) (acc : Word) (inbox outbox : List Word) :
    Runs (img.at' 25 acc inbox outbox)
      ((img.write (img.s2array + 500) .setL2).at' 28 (img.s2array + 500) inbox outbox) := by
  refine Runs.trans (Runs.lda (Image.fetch rfl rfl) (Image.mem_of_place _ rfl)) ?_
  refine Runs.trans (Runs.add (Image.fetch rfl rfl) (Image.mem_ld _)) ?_
  exact Runs.sto (Image.fetch rfl rfl) (Image.store _ _ rfl)

/-- `INIT` to `INIT_COMPARE`: both lists are in the array, a zero behind each, and the two
pointers at their heads. -/
theorem input_lists (L1 L2 inbox : List Word) (h1 : ∀ w ∈ L1, w ≠ 0) (h2 : ∀ w ∈ L2, w ≠ 0)
    (hlen : L1.length + L2.length ≤ 18) :
    ∃ img acc, Runs (load (assemble combine_two_ordered_lists) (L1 ++ 0 :: (L2 ++ 0 :: inbox)))
        (Image.at' img 28 acc inbox []) ∧
      img.array.length ≤ 20 ∧ Points img.array img.setL1 L1 ∧ Points img.array img.setL2 L2 := by
  have hinit : Runs (Image.start.at' 0 0 (L1 ++ 0 :: (L2 ++ 0 :: inbox)) [])
      ((Image.start.write (stoArray 0) .sarray).at' 2 (stoArray 0)
        (L1 ++ 0 :: (L2 ++ 0 :: inbox)) []) := by
    refine Runs.trans (Runs.lda (Image.fetch rfl rfl) (Image.mem_of_place _ rfl)) ?_
    exact Runs.sto (Image.fetch rfl rfl) (Image.store _ _ rfl)
  rcases input_list .list1 (L2 ++ 0 :: inbox) [] L1 _ (stoArray 0)
      (show (Image.start.write (stoArray 0) .sarray).read .valueAt1 = stoArray 0 from rfl)
      (show 0 + L1.length ≤ 20 by omega) h1
    with ⟨img1, hin1, harray1, hptr1, hread1⟩
  rcases separate img1 0 (L2 ++ 0 :: inbox) []
    with ⟨img2, acc2, hsep, hptr2, hs2array2, hsarray2, harray2⟩
  rcases input_list .list2 inbox [] L2 img2 acc2
      (show img2.valueAt2 = stoArray img2.array.length by
        rw [hptr2, harray2, List.length_append, List.length_singleton, ← stoArray_add_one]
        exact congrArg (· + 1) hptr1)
      (by
        rw [harray2, harray1, List.length_append, List.length_singleton]
        show ([] ++ L1).length + 1 + L2.length ≤ 20
        rw [List.nil_append]
        omega) h2
    with ⟨img3, hin2, harray3, hptr3, hread3⟩
  let img4 : Image := { img3 with array := img3.array ++ [0] }
  let img5 := (img4.write (img4.sarray - 300 + 500) .setL1).write (img4.s2array + 500) .setL2
  have hcmp : Runs (img3.at' 21 0 inbox []) (img5.at' 28 (img4.s2array + 500) inbox []) := by
    rw [Image.at'_append_zero img3]
    exact Runs.trans (init_compare_one img4 0 inbox []) (init_compare_two _ _ inbox [])
  have harray : img5.array = L1 ++ 0 :: (L2 ++ [0]) := by
    show img3.array ++ [0] = L1 ++ 0 :: (L2 ++ [0])
    rw [harray3, harray2, harray1]
    simp [Image.write, Image.start]
  have hlen5 : img5.array.length ≤ 20 := by
    rw [harray]
    simp only [List.length_append, List.length_cons, List.length_nil]
    omega
  refine ⟨img5, img4.s2array + 500, ?_, hlen5, ?_, ?_⟩
  · rw [load_eq]
    exact Runs.trans hinit (Runs.trans hin1 (Runs.trans hsep (Runs.trans hin2 hcmp)))
  · have hset : img5.setL1 = ldaArray 0 := by
      rw [← stoArray_toLda]
      have hsarray3 : img3.sarray = img2.sarray := hread3 .sarray fun h => by cases h
      have hsarray1 : img1.sarray = stoArray 0 := hread1 .sarray fun h => by cases h
      exact congrArg (· - 300 + 500) (hsarray3.trans (hsarray2.trans hsarray1))
    refine ⟨0, hset, L2 ++ [0], ?_⟩
    rw [harray]
    rfl
  · have hset : img5.setL2 = ldaArray (L1.length + 1) := by
      rw [← stoArray_toLda, ← stoArray_add_one]
      refine congrArg (· + 500) ?_
      have hs2array : img3.s2array = img1.valueAt1 + 1 - 300 :=
        (hread3 .s2array (fun h => by cases h)).trans hs2array2
      have hptr : img1.valueAt1 = stoArray L1.length := by
        rw [show img1.valueAt1 = stoArray img1.array.length from hptr1, harray1]
        rfl
      rw [← hptr, ← hs2array]
    rw [hset]
    refine Points.of_holds ⟨[], ?_⟩ hlen5
    rw [harray, show L1 ++ 0 :: (L2 ++ [0]) = (L1 ++ [0]) ++ (L2 ++ [0]) by simp]
    exact List.drop_left' (List.length_append ..)

/-! ## `SHOW_REST_LIST1`, `SHOW_REST_LIST2` -/

/-- A show loop puts out the list at its pointer. -/
theorem show_rest (no : ListNo) (inbox : List Word) (L : List Word) :
    ∀ (img : Image) (acc : Word) (outbox : List Word),
      Points img.array (img.read no.showRest) L → img.array.length ≤ 20 → (∀ w ∈ L, w ≠ 0) →
      ∃ img', Runs (img.at' no.showRest.mailbox acc inbox outbox)
        (Image.at' img' 70 0 inbox (outbox ++ L)) := by
  induction L with
  | nil =>
      intro img acc outbox hptr hlen hL
      rcases hptr.load with ⟨a, hlda, ha⟩
      refine ⟨img, ?_⟩
      rw [List.append_nil]
      cases no with
      | list1 | list2 =>
          refine Runs.trans (Runs.lda hlda (ha img rfl)) ?_
          exact Runs.brz_zero (Image.fetch rfl rfl) rfl
  | cons w L ih =>
      intro img acc outbox hptr hlen hL
      rcases hptr.load with ⟨a, hlda, ha⟩
      have hw : w ≠ 0 := hL w (List.mem_cons_self ..)
      let next := img.write (img.read no.showRest + 1) no.showRest
      have hturn : Runs (img.at' no.showRest.mailbox acc inbox outbox)
          (next.at' no.showRest.mailbox (img.read no.showRest + 1) inbox (outbox ++ [w])) := by
        cases no with
        | list1 | list2 =>
            refine Runs.trans (Runs.lda hlda (ha img rfl)) ?_
            refine Runs.trans (Runs.brz_ne (Image.fetch rfl rfl) hw) ?_
            refine Runs.trans (Runs.output (Image.fetch rfl rfl)) ?_
            refine Runs.trans (advance _ _ _ _ (Image.fetch rfl rfl) rfl (Image.fetch rfl rfl)
              (Image.fetch rfl rfl) rfl) ?_
            exact Runs.br (Image.fetch rfl rfl)
      have hnext : Points next.array (next.read no.showRest) L := by
        rw [Image.array_write, Image.read_write, if_pos rfl]
        exact hptr.next hlen
      rcases ih next (img.read no.showRest + 1) (outbox ++ [w]) hnext
          (by rw [Image.array_write]; exact hlen) (fun u hu => hL u (List.mem_cons_of_mem w hu))
        with ⟨img', hrest⟩
      refine ⟨img', Runs.trans hturn ?_⟩
      rw [List.append_assoc] at hrest
      exact hrest

/-! ## `START_COMPARE` -/

/-- Both heads are loaded, and their difference. -/
theorem start_compare (img : Image) (acc : Word) (inbox outbox : List Word) {L1 L2 : List Word}
    (h1 : Points img.array img.setL1 L1) (h2 : Points img.array img.setL2 L2) :
    Runs (img.at' 28 acc inbox outbox)
      ({ img with nb2 := L2.headD 0, nb1 := L1.headD 0 }.at' 33 (L1.headD 0 - L2.headD 0) inbox
        outbox) := by
  rcases Points.load (v := .setL2) h2 with ⟨a2, hlda2, ha2⟩
  have h1' : Points (img.write (L2.headD 0) .nb2).array ((img.write (L2.headD 0) .nb2).read .setL1)
      L1 := h1
  rcases h1'.load with ⟨a1, hlda1, ha1⟩
  refine Runs.trans (Runs.lda hlda2 (ha2 img rfl)) ?_
  refine Runs.trans (Runs.sto (Image.fetch rfl rfl) (Image.store _ _ rfl)) ?_
  refine Runs.trans (Runs.lda hlda1 (ha1 _ rfl)) ?_
  refine Runs.trans (Runs.sto (Image.fetch rfl rfl) (Image.store _ _ rfl)) ?_
  exact Runs.sub (Image.fetch rfl rfl) (Image.mem_of_place (v := .nb2) _ rfl)

/-- The head of list 2 is shown. -/
theorem take_two (img : Image) (acc : Word) (inbox outbox : List Word)
    (hacc : nonneg acc = true) (hnb2 : img.nb2 ≠ 0) :
    Runs (img.at' 33 acc inbox outbox)
      ((img.write (img.setL2 + 1) .setL2).at' 28 (img.setL2 + 1) inbox (outbox ++ [img.nb2])) := by
  refine Runs.trans (Runs.brp_taken (Image.fetch rfl rfl) hacc) ?_
  refine Runs.trans (Runs.lda (Image.fetch rfl rfl) (Image.mem_of_place _ rfl)) ?_
  refine Runs.trans (Runs.brz_ne (Image.fetch rfl rfl) hnb2) ?_
  refine Runs.trans (Runs.output (Image.fetch rfl rfl)) ?_
  refine Runs.trans (advance _ _ _ _ (Image.fetch rfl rfl) rfl (Image.fetch rfl rfl)
    (Image.fetch rfl rfl) rfl) ?_
  exact Runs.br (Image.fetch rfl rfl)

/-- The head of list 1 is shown. -/
theorem take_one (img : Image) (acc : Word) (inbox outbox : List Word)
    (hacc : nonneg acc = false) (hnb1 : img.nb1 ≠ 0) :
    Runs (img.at' 33 acc inbox outbox)
      ((img.write (img.setL1 + 1) .setL1).at' 28 (img.setL1 + 1) inbox (outbox ++ [img.nb1])) := by
  refine Runs.trans (Runs.brp_not (Image.fetch rfl rfl) hacc) ?_
  refine Runs.trans (Runs.lda (Image.fetch rfl rfl) (Image.mem_of_place _ rfl)) ?_
  refine Runs.trans (Runs.brz_ne (Image.fetch rfl rfl) hnb1) ?_
  refine Runs.trans (Runs.output (Image.fetch rfl rfl)) ?_
  refine Runs.trans (advance _ _ _ _ (Image.fetch rfl rfl) rfl (Image.fetch rfl rfl)
    (Image.fetch rfl rfl) rfl) ?_
  refine Runs.trans (Runs.br (Image.fetch rfl rfl)) ?_
  exact Runs.br (Image.fetch rfl rfl)

/-- List 1 is exhausted, and its zero is the smaller. -/
theorem arrange_show_two (img : Image) (acc : Word) (inbox outbox : List Word)
    (hacc : nonneg acc = false) (hnb1 : img.nb1 = 0) (hnb2 : img.nb2 ≠ 0) :
    Runs (img.at' 33 acc inbox outbox)
      ((img.write img.setL2 .show2).at' 52 img.setL2 inbox outbox) := by
  refine Runs.trans (Runs.brp_not (Image.fetch rfl rfl) hacc) ?_
  refine Runs.trans (Runs.lda (Image.fetch rfl rfl) (Image.mem_of_place _ rfl)) ?_
  refine Runs.trans (Runs.brz_zero (Image.fetch rfl rfl) hnb1) ?_
  refine Runs.trans (Runs.lda (Image.fetch rfl rfl) (Image.mem_of_place _ rfl)) ?_
  refine Runs.trans (Runs.brz_ne (Image.fetch rfl rfl) hnb2) ?_
  refine Runs.trans (Runs.lda (Image.fetch rfl rfl) (Image.mem_of_place _ rfl)) ?_
  exact Runs.sto (Image.fetch rfl rfl) (Image.store _ _ rfl)

/-- List 2 is exhausted, and its zero is the smaller. -/
theorem arrange_show_one (img : Image) (acc : Word) (inbox outbox : List Word)
    (hacc : nonneg acc = true) (hnb2 : img.nb2 = 0) (hnb1 : img.nb1 ≠ 0) :
    Runs (img.at' 33 acc inbox outbox)
      ((img.write img.setL1 .show1).at' 63 img.setL1 inbox outbox) := by
  refine Runs.trans (Runs.brp_taken (Image.fetch rfl rfl) hacc) ?_
  refine Runs.trans (Runs.lda (Image.fetch rfl rfl) (Image.mem_of_place _ rfl)) ?_
  refine Runs.trans (Runs.brz_zero (Image.fetch rfl rfl) hnb2) ?_
  refine Runs.trans (Runs.lda (Image.fetch rfl rfl) (Image.mem_of_place _ rfl)) ?_
  refine Runs.trans (Runs.brz_ne (Image.fetch rfl rfl) hnb1) ?_
  refine Runs.trans (Runs.lda (Image.fetch rfl rfl) (Image.mem_of_place _ rfl)) ?_
  exact Runs.sto (Image.fetch rfl rfl) (Image.store _ _ rfl)

/-- Both lists are exhausted. -/
theorem both_exhausted (img : Image) (acc : Word) (inbox outbox : List Word)
    (hacc : nonneg acc = true) (hnb2 : img.nb2 = 0) (hnb1 : img.nb1 = 0) :
    Runs (img.at' 33 acc inbox outbox) (img.at' 70 img.nb1 inbox outbox) := by
  refine Runs.trans (Runs.brp_taken (Image.fetch rfl rfl) hacc) ?_
  refine Runs.trans (Runs.lda (Image.fetch rfl rfl) (Image.mem_of_place _ rfl)) ?_
  refine Runs.trans (Runs.brz_zero (Image.fetch rfl rfl) hnb2) ?_
  refine Runs.trans (Runs.lda (Image.fetch rfl rfl) (Image.mem_of_place _ rfl)) ?_
  exact Runs.brz_zero (Image.fetch rfl rfl) hnb1

/-! ## The textbook merge -/

/-- The textbook merge: the head of `L2` when `nb1 - nb2` passes `BRP`, the head of `L1`
otherwise, and what is left once a list is exhausted. -/
def mergeLists (L1 L2 : List Word) : List Word :=
  List.merge L1 L2 fun nb1 nb2 => !nonneg (nb1 - nb2)

theorem mergeLists_nil_left (L2 : List Word) : mergeLists [] L2 = L2 := List.nil_merge L2

theorem mergeLists_nil_right (L1 : List Word) : mergeLists L1 [] = L1 := List.merge_right L1

theorem mergeLists_two {nb1 nb2 : Word} {L1 L2 : List Word} (h : nonneg (nb1 - nb2) = true) :
    mergeLists (nb1 :: L1) (nb2 :: L2) = nb2 :: mergeLists (nb1 :: L1) L2 := by
  refine List.cons_merge_cons_neg _ L1 L2 ?_
  rw [h]
  nofun

theorem mergeLists_one {nb1 nb2 : Word} {L1 L2 : List Word} (h : nonneg (nb1 - nb2) = false) :
    mergeLists (nb1 :: L1) (nb2 :: L2) = nb1 :: mergeLists L1 (nb2 :: L2) := by
  refine List.cons_merge_cons_pos _ L1 L2 ?_
  rw [h]
  rfl

/-- From `START_COMPARE` on, with the two pointers at these lists, the merge is put out. -/
def ShowsMerge (inbox L1 L2 : List Word) : Prop :=
  ∀ (img : Image) (acc : Word) (outbox : List Word), img.array.length ≤ 20 →
    Points img.array img.setL1 L1 → Points img.array img.setL2 L2 →
    ∃ img' acc', Runs (img.at' 28 acc inbox outbox)
      (Image.at' img' 70 acc' inbox (outbox ++ mergeLists L1 L2))

namespace ShowsMerge

variable {inbox L1 L2 : List Word} {nb1 nb2 : Word}

/-- A turn that shows the head of list 2. -/
theorem two (h : ShowsMerge inbox L1 L2) (hnb2 : nb2 ≠ 0)
    (hacc : nonneg (L1.headD 0 - nb2) = true)
    (hmerge : mergeLists L1 (nb2 :: L2) = nb2 :: mergeLists L1 L2) :
    ShowsMerge inbox L1 (nb2 :: L2) := by
  intro img acc outbox hlen hp1 hp2
  let loaded : Image := { img with nb2, nb1 := L1.headD 0 }
  have hload := start_compare img acc inbox outbox hp1 hp2
  have htake := take_two loaded _ inbox outbox hacc hnb2
  rcases h (loaded.write (loaded.setL2 + 1) .setL2) (loaded.setL2 + 1) (outbox ++ [nb2]) hlen hp1
    (hp2.next hlen) with ⟨img', acc', hrest⟩
  rw [List.append_assoc] at hrest
  refine ⟨img', acc', ?_⟩
  rw [hmerge]
  exact Runs.trans hload (Runs.trans htake hrest)

/-- A turn that shows the head of list 1. -/
theorem one (h : ShowsMerge inbox L1 L2) (hnb1 : nb1 ≠ 0)
    (hacc : nonneg (nb1 - L2.headD 0) = false)
    (hmerge : mergeLists (nb1 :: L1) L2 = nb1 :: mergeLists L1 L2) :
    ShowsMerge inbox (nb1 :: L1) L2 := by
  intro img acc outbox hlen hp1 hp2
  let loaded : Image := { img with nb2 := L2.headD 0, nb1 }
  have hload := start_compare img acc inbox outbox hp1 hp2
  have htake := take_one loaded _ inbox outbox hacc hnb1
  rcases h (loaded.write (loaded.setL1 + 1) .setL1) (loaded.setL1 + 1) (outbox ++ [nb1]) hlen
    (hp1.next hlen) hp2 with ⟨img', acc', hrest⟩
  rw [List.append_assoc] at hrest
  refine ⟨img', acc', ?_⟩
  rw [hmerge]
  exact Runs.trans hload (Runs.trans htake hrest)

/-- Nothing is left. -/
theorem none : ShowsMerge inbox [] [] := by
  intro img acc outbox _ hp1 hp2
  refine ⟨{ img with nb2 := 0, nb1 := 0 }, 0, ?_⟩
  rw [mergeLists_nil_left, List.append_nil]
  exact Runs.trans (start_compare img acc inbox outbox hp1 hp2)
    (both_exhausted _ _ inbox outbox rfl rfl rfl)

/-- List 1 is exhausted. -/
theorem rest_two (h2 : ∀ w ∈ nb2 :: L2, w ≠ 0) (hacc : nonneg (0 - nb2) = false) :
    ShowsMerge inbox [] (nb2 :: L2) := by
  intro img acc outbox hlen hp1 hp2
  let loaded : Image := { img with nb2, nb1 := 0 }
  have hload := start_compare img acc inbox outbox hp1 hp2
  have harrange := arrange_show_two loaded _ inbox outbox hacc rfl (h2 nb2 (List.mem_cons_self ..))
  rcases show_rest .list2 inbox (nb2 :: L2) (loaded.write loaded.setL2 .show2) loaded.setL2 outbox
    hp2 hlen h2 with ⟨img', hrest⟩
  rw [mergeLists_nil_left]
  exact ⟨img', 0, Runs.trans hload (Runs.trans harrange hrest)⟩

/-- List 2 is exhausted. -/
theorem rest_one (h1 : ∀ w ∈ nb1 :: L1, w ≠ 0) (hacc : nonneg (nb1 - 0) = true) :
    ShowsMerge inbox (nb1 :: L1) [] := by
  intro img acc outbox hlen hp1 hp2
  let loaded : Image := { img with nb2 := 0, nb1 }
  have hload := start_compare img acc inbox outbox hp1 hp2
  have harrange := arrange_show_one loaded _ inbox outbox hacc rfl (h1 nb1 (List.mem_cons_self ..))
  rcases show_rest .list1 inbox (nb1 :: L1) (loaded.write loaded.setL1 .show1) loaded.setL1 outbox
    hp1 hlen h1 with ⟨img', hrest⟩
  rw [mergeLists_nil_right]
  exact ⟨img', 0, Runs.trans hload (Runs.trans harrange hrest)⟩

end ShowsMerge

/-- The comparison, from the two pointers on: an exhausted list takes part as the value 0, and
either way the rest of the other list is shown. -/
theorem compare_lists (inbox : List Word) (L1 : List Word) (h1 : ∀ w ∈ L1, w ≠ 0) :
    ∀ L2 : List Word, (∀ w ∈ L2, w ≠ 0) → ShowsMerge inbox L1 L2 := by
  induction L1 with
  | nil =>
      intro L2 h2
      induction L2 with
      | nil => exact .none
      | cons nb2 L2 ih2 =>
          rcases List.forall_mem_cons.mp h2 with ⟨hnb2, hL2⟩
          cases hacc : nonneg (0 - nb2) with
          | true =>
              refine .two (ih2 hL2) hnb2 hacc ?_
              rw [mergeLists_nil_left, mergeLists_nil_left]
          | false => exact .rest_two h2 hacc
  | cons nb1 L1 ih1 =>
      rcases List.forall_mem_cons.mp h1 with ⟨hnb1, hL1⟩
      intro L2 h2
      induction L2 with
      | nil =>
          cases hacc : nonneg (nb1 - 0) with
          | true => exact .rest_one h1 hacc
          | false =>
              refine .one (ih1 hL1 [] h2) hnb1 hacc ?_
              rw [mergeLists_nil_right, mergeLists_nil_right]
      | cons nb2 L2 ih2 =>
          rcases List.forall_mem_cons.mp h2 with ⟨hnb2, hL2⟩
          cases hacc : nonneg (nb1 - nb2) with
          | true => exact .two (ih2 hL2) hnb2 hacc (mergeLists_two hacc)
          | false => exact .one (ih1 hL1 (nb2 :: L2) h2) hnb1 hacc (mergeLists_one hacc)

/-! ## Ordered lists -/

/-- Non-decreasing, as signed numbers. -/
def Ordered (L : List Word) : Prop := L.Pairwise fun v w => signed v ≤ signed w

/-- The values whose differences never leave the machine's range. -/
def Small (L : List Word) : Prop := ∀ w ∈ L, -249 ≤ signed w ∧ signed w ≤ 249

/-- Between small values, `BRP` compares. -/
theorem nonneg_sub {v w : Word} (hv : -249 ≤ signed v ∧ signed v ≤ 249)
    (hw : -249 ≤ signed w ∧ signed w ≤ 249) :
    nonneg (v - w) = decide (signed w ≤ signed v) := by
  have hvlt := v.isLt
  have hwlt := w.isLt
  refine decide_eq_decide.mpr ?_
  rw [Fin.sub_def]
  show (1000 - w.val + v.val) % 1000 < 500 ↔ signed w ≤ signed v
  simp only [signed] at hv hw ⊢
  split_ifs at hv hw ⊢ <;> omega

/-- A merge with its lists exchanged, when the two comparisons are each other's converse on
the lists' elements. -/
theorem merge_exchange {α : Type} {le le' : α → α → Bool} {L1 L2 : List α}
    (h : ∀ v ∈ L1, ∀ w ∈ L2, le v w = !le' w v) :
    List.merge L1 L2 le = List.merge L2 L1 le' := by
  induction L1 generalizing L2 with
  | nil => rw [List.nil_merge, List.merge_right]
  | cons v L1 ih1 =>
      induction L2 with
      | nil => rw [List.nil_merge, List.merge_right]
      | cons w L2 ih2 =>
          have hvw : le v w = !le' w v := h v (List.mem_cons_self ..) w (List.mem_cons_self ..)
          have hl1 : List.merge L1 (w :: L2) le = List.merge (w :: L2) L1 le' :=
            ih1 fun x hx y hy => h x (List.mem_cons_of_mem v hx) y hy
          have hl2 : List.merge (v :: L1) L2 le = List.merge L2 (v :: L1) le' :=
            ih2 fun x hx y hy => h x hx y (List.mem_cons_of_mem w hy)
          rw [List.cons_merge_cons, List.cons_merge_cons, hl1, hl2, hvw]
          cases le' w v with
          | true => rfl
          | false => rfl

/-- The merge of small ordered lists is ordered. -/
theorem mergeLists_ordered {L1 L2 : List Word} (h1 : Ordered L1) (h2 : Ordered L2)
    (hs1 : Small L1) (hs2 : Small L2) : Ordered (mergeLists L1 L2) := by
  let le : Word → Word → Bool := fun v w => decide (signed v ≤ signed w)
  have hexchange : mergeLists L1 L2 = List.merge L2 L1 le :=
    merge_exchange fun v hv w hw => by rw [nonneg_sub (hs1 v hv) (hs2 w hw)]
  have hpair : (List.merge L2 L1 le).Pairwise fun v w => le v w = true := by
    refine List.pairwise_merge ?_ ?_ L2 L1 (h2.imp fun h => decide_eq_true h)
      (h1.imp fun h => decide_eq_true h)
    · intro u v w huv hvw
      exact decide_eq_true (Int.le_trans (of_decide_eq_true huv) (of_decide_eq_true hvw))
    · intro v w
      rw [Bool.or_eq_true, decide_eq_true_eq, decide_eq_true_eq]
      exact Int.le_total _ _
  rw [hexchange]
  exact hpair.imp fun h => of_decide_eq_true h

/-! ## The whole run -/

theorem runs_to_halt (L1 L2 : List Word) (h1 : ∀ w ∈ L1, w ≠ 0) (h2 : ∀ w ∈ L2, w ≠ 0)
    (hlen : L1.length + L2.length ≤ 18) :
    ∃ s, Runs (load (assemble combine_two_ordered_lists) (L1 ++ 0 :: (L2 ++ [0]))) s ∧
      s.halted ∧ s.outbox = mergeLists L1 L2 := by
  rcases input_lists L1 L2 [] h1 h2 hlen with ⟨img, acc, hinput, harray, hp1, hp2⟩
  rcases compare_lists [] L1 h1 L2 h2 img acc [] harray hp1 hp2 with ⟨img', acc', hcompare⟩
  refine ⟨_, Runs.trans hinput hcompare, ?_, rfl⟩
  show decode (img'.mem 70) = .HLT
  exact Image.fetch rfl rfl

/-- **The program merges.**  On two lists of non-zero words that fit behind it, each ended by a
zero, it comes to its `HLT` with their merge in the outbox. -/
theorem combines_two_ordered_lists (L1 L2 : List Word) (h1 : ∀ w ∈ L1, w ≠ 0)
    (h2 : ∀ w ∈ L2, w ≠ 0) (hlen : L1.length + L2.length ≤ 18) :
    ∃ s, Runs (load (assemble combine_two_ordered_lists) (L1 ++ 0 :: (L2 ++ [0]))) s ∧
      s.halted ∧ s.outbox = mergeLists L1 L2 ∧ s.outbox.Perm (L1 ++ L2) ∧
      (Ordered L1 → Ordered L2 → Small L1 → Small L2 → Ordered s.outbox) := by
  rcases runs_to_halt L1 L2 h1 h2 hlen with ⟨s, hrun, hhalt, houtbox⟩
  refine ⟨s, hrun, hhalt, houtbox, ?_, ?_⟩
  · rw [houtbox]
    exact List.merge_perm_append _
  · rw [houtbox]
    exact mergeLists_ordered

/-- The last of the author's sample pairs, with -2 and -10 as 998 and 990. -/
theorem combines_two_ordered_lists_sample :
    ∃ s, Runs (load (assemble combine_two_ordered_lists) [998, 5, 7, 0, 990, 2, 4, 15, 0]) s ∧
      s.halted ∧ s.outbox = [990, 998, 2, 4, 5, 7, 15] ∧ Ordered s.outbox := by
  rcases combines_two_ordered_lists [998, 5, 7] [990, 2, 4, 15] (by simp) (by simp)
    (by decide) with ⟨s, hrun, hhalt, hout, _, hordered⟩
  refine ⟨s, hrun, hhalt, ?_, ?_⟩
  · rw [hout]
    simp [mergeLists, nonneg]
  · exact hordered (by simp [Ordered, signed]) (by simp [Ordered, signed])
      (by simp [Small, signed]) (by simp [Small, signed])

end Smoll.Lmc
