/-
# `Smoll.Lmc.Overflow` — lists that do not fit

The comment of the program allows around 20 elements.  Behind the program there
is room for 20 words, that is for two lists of 18 words together, with the zero
behind each.  Nothing checks it, and the pointers go on:

    a pointer of        one past the last mailbox       is the instruction
    INPUT_LIST1, ..2    399 + 1 = 400                   none
    START_COMPARE,
    SHOW_REST_LIST2     599 + 1 = 600                   BR 0

With 19 words only the zero behind list 2 is missing.  The comparison then runs
into `BR 0`: the program starts again and waits for input, with the rest of list
1 not shown; and so it does when 20 words are all in list 1.  Any others stop it
at the store that does not fit.  So `halts_iff_fits`; and in no case is anything
shown but the merge, from its front (`shows_prefix_of_merge`).
-/
import Smoll.Lmc.Merge

namespace Smoll.Lmc

open LittleMan

/-- Both lists, each ended by a zero. -/
def bothLists (L1 L2 : List Word) : List Word := L1 ++ 0 :: (L2 ++ [0])

/-- The machine stands still short of a `HLT`. -/
structure Stuck (f : LittleMan.State) : Prop where
  ends : step f = none
  short : ¬ f.halted

theorem Stuck.of_illegal {s : LittleMan.State} (h : decode (s.mem s.pc) = .illegal) : Stuck s := by
  refine ⟨?_, ?_⟩
  · unfold step
    rw [h]
  · intro hhalt
    rw [LittleMan.State.halted, h] at hhalt
    cases hhalt

theorem Stuck.of_input {s : LittleMan.State} (h : decode (s.mem s.pc) = .IN)
    (hinbox : s.inbox = []) : Stuck s := by
  refine ⟨?_, ?_⟩
  · unfold step
    rw [h, hinbox]
  · intro hhalt
    rw [LittleMan.State.halted, h] at hhalt
    cases hhalt

/-- At the store of an input loop, which is no instruction any more. -/
def AtStore (f : LittleMan.State) : Prop :=
  ∃ no : ListNo, f.pc = no.valueAt.mailbox ∧ decode (f.mem f.pc) = .illegal

/-- At the first input again, with nothing to read. -/
def Waits (f : LittleMan.State) : Prop := f.pc = 2 ∧ decode (f.mem f.pc) = .IN ∧ f.inbox = []

theorem AtStore.stuck {f : LittleMan.State} : AtStore f → Stuck f := by
  rintro ⟨_, _, hillegal⟩
  exact .of_illegal hillegal

theorem Waits.stuck {f : LittleMan.State} : Waits f → Stuck f := by
  rintro ⟨_, hinput, hinbox⟩
  exact .of_input hinput hinbox

/-- The machine gets stuck so, with `shown` put out. -/
def Sticks (how : LittleMan.State → Prop) (s : LittleMan.State) (shown : List Word) : Prop :=
  ∃ f, Runs s f ∧ how f ∧ f.outbox = s.outbox ++ shown

theorem Sticks.of_runs {how : LittleMan.State → Prop} {s t : LittleMan.State} {shown : List Word}
    (hrun : Runs s t) (h : Sticks how t shown) (hshown : t.outbox = s.outbox) :
    Sticks how s shown := by
  obtain ⟨f, hf, hhow, houtbox⟩ := h
  exact ⟨f, Runs.trans hrun hf, hhow, by rw [houtbox, hshown]⟩

/-! ## Input -/

/-- An input loop, as long as there is room. -/
theorem input_many (no : ListNo) (more outbox : List Word) (L : List Word) :
    ∀ (img : Image) (acc : Word), img.read no.valueAt = stoArray img.array.length →
      (L = [] ∨ img.array.length + L.length ≤ 20) → (∀ w ∈ L, w ≠ 0) →
      ∃ (img' : Image) (acc' : Word), Runs (img.at' no.input acc (L ++ more) outbox)
          (img'.at' no.input acc' more outbox) ∧
        img'.array = img.array ++ L ∧ img'.read no.valueAt = stoArray img'.array.length ∧
        ∀ v, v ≠ no.valueAt → img'.read v = img.read v := by
  induction L with
  | nil =>
      intro img acc hptr _ _
      exact ⟨img, acc, Runs.refl _, (List.append_nil _).symm, hptr, fun _ _ => rfl⟩
  | cons w L ih =>
      intro img acc hptr hroom hL
      have hlen : img.array.length + (L.length + 1) ≤ 20 := hroom.resolve_left nofun
      have hone := input_one (i := ⟨img.array.length, by omega⟩) no img acc w (L ++ more)
        outbox hptr rfl (hL w (List.mem_cons_self ..))
      obtain ⟨img', acc', hrest, harray, hptr', hread⟩ :=
        ih ({ img with array := img.array ++ [w] }.write (stoArray (img.array.length + 1)) no.valueAt)
          (stoArray (img.array.length + 1))
          (by rw [Image.read_write, if_pos rfl, Image.array_write, List.length_append]; rfl)
          (Or.inr (by rw [Image.array_write, List.length_append, List.length_singleton]; omega))
          (fun u hu => hL u (List.mem_cons_of_mem w hu))
      refine ⟨img', acc', Runs.trans hone hrest, ?_, hptr', ?_⟩
      · rw [harray, Image.array_write, List.append_assoc]
        rfl
      · intro v hv
        rw [hread v hv, Image.read_write, if_neg hv, Image.read_array]

/-- The zero that ends a list. -/
theorem input_zero (no : ListNo) (img : Image) (acc : Word) (inbox outbox : List Word) :
    Runs (img.at' no.input acc (0 :: inbox) outbox) (img.at' no.inputDone 0 inbox outbox) := by
  cases no with
  | list1 | list2 =>
      refine Runs.trans (Runs.input (Image.fetch rfl rfl)) ?_
      exact Runs.brz_zero (Image.fetch rfl rfl) rfl

/-- The pointer of an input loop is no instruction any more. -/
theorem input_overflow (no : ListNo) (img : Image) (acc w : Word) (rest outbox : List Word)
    (hptr : decode (img.read no.valueAt) = .illegal) (hw : w ≠ 0) :
    Sticks AtStore (img.at' no.input acc (w :: rest) outbox) [] := by
  have hdec : decode (img.mem no.valueAt.mailbox) = .illegal := by
    rw [Image.mem_of_place _ (place_mailbox _)]
    exact hptr
  refine ⟨img.at' no.valueAt.mailbox w rest outbox, ?_, ⟨no, rfl, hdec⟩, ?_⟩
  · cases no with
    | list1 | list2 =>
        refine Runs.trans (Runs.input (Image.fetch rfl rfl)) ?_
        exact Runs.brz_ne (Image.fetch rfl rfl) hw
  · exact (List.append_nil _).symm

/-- A list that is too long for its loop. -/
theorem input_list_overflow (no : ListNo) (img : Image) (acc : Word) (A B outbox : List Word)
    (w : Word) (hptr : img.read no.valueAt = stoArray img.array.length)
    (hroom : A = [] ∨ img.array.length + A.length ≤ 20) (hA : ∀ u ∈ A, u ≠ 0) (hw : w ≠ 0)
    (hend : decode (stoArray (img.array.length + A.length)) = .illegal) :
    Sticks AtStore (img.at' no.input acc (A ++ w :: B) outbox) [] := by
  obtain ⟨img', acc', hrun, harray, hptr', _⟩ :=
    input_many no (w :: B) outbox A img acc hptr hroom hA
  refine .of_runs hrun (input_overflow no img' acc' w B outbox ?_ hw) rfl
  rw [hptr', harray, List.length_append]
  exact hend

/-! ## Once more from the beginning -/

/-- Without further input, the program that starts again waits for ever. -/
theorem restart (img : Image) (acc : Word) (outbox : List Word) {b : Mailbox}
    (hb : b = 0 ∨ b = 1) : Sticks Waits (img.at' b acc [] outbox) [] := by
  have hone : ∀ acc, Sticks Waits (img.at' 1 acc [] outbox) [] := by
    intro acc
    have hinput : decode ((img.write acc .sarray).mem 2) = .IN := Image.fetch rfl rfl
    refine ⟨(img.write acc .sarray).at' 2 acc [] outbox, ?_, ⟨rfl, hinput, rfl⟩,
      (List.append_nil _).symm⟩
    exact Runs.sto (Image.fetch rfl rfl) (Image.store _ _ rfl)
  rcases hb with rfl | rfl
  · exact .of_runs (Runs.lda (Image.fetch rfl rfl) (Image.mem_of_place _ rfl)) (hone _) rfl
  · exact hone acc

/-! ## 19 words -/

/-- A pointer at a list that goes on to the last mailbox. -/
def Open (array : List Word) (ptr : Word) (L : List Word) : Prop :=
  ∃ i, ptr = ldaArray i ∧ i + L.length = 20 ∧ array.drop i = L

namespace Open

variable {array : List Word} {ptr w : Word} {L : List Word}

/-- Behind the last mailbox. -/
theorem decode_end (h : Open array ptr []) : decode ptr = .BR 0 := by
  obtain ⟨i, rfl, hi, _⟩ := h
  have hend : i = 20 := hi
  rw [hend]
  decide

theorem next (h : Open array ptr (w :: L)) : Open array (ptr + 1) L := by
  obtain ⟨i, rfl, hi, hdrop⟩ := h
  rw [List.length_cons] at hi
  refine ⟨i + 1, ldaArray_add_one i, by omega, ?_⟩
  rw [← List.drop_drop, hdrop]
  rfl

theorem load {img : Image} {v : Var} (h : Open img.array (img.read v) (w :: L)) :
    ∃ a, decode (img.mem v.mailbox) = .LDA a ∧
      ∀ img' : Image, img'.array = img.array → img'.mem a = w := by
  obtain ⟨i, hptr, hi, hdrop⟩ := h
  rw [List.length_cons] at hi
  have hlt : i < 20 := by omega
  have hget : img.array[i]? = some w := by rw [← List.head?_drop, hdrop, List.head?_cons]
  refine ⟨arrayMailbox ⟨i, hlt⟩, ?_, ?_⟩
  · rw [Image.mem_of_place _ (place_mailbox _), hptr]
    exact decode_ldaArray ⟨i, hlt⟩
  · intro img' harray
    rw [Image.mem_arrayMailbox, harray, List.getD_eq_getElem?_getD, hget]
    rfl

end Open

/-- The rest of list 2 is shown, and the program starts again. -/
theorem show_rest_open (L : List Word) :
    ∀ (img : Image) (acc : Word) (outbox : List Word), Open img.array img.show2 L →
      (∀ w ∈ L, w ≠ 0) → Sticks Waits (img.at' 52 acc [] outbox) L := by
  induction L with
  | nil =>
      intro img acc outbox hptr _
      refine .of_runs (Runs.br ?_) (restart img acc outbox (Or.inl rfl)) rfl
      rw [Image.mem_of_place (v := .show2) _ rfl]
      exact hptr.decode_end
  | cons w L ih =>
      intro img acc outbox hptr hL
      have hw : w ≠ 0 := hL w (List.mem_cons_self ..)
      obtain ⟨a, hlda, ha⟩ := Open.load (v := .show2) hptr
      let next := img.write (img.show2 + 1) .show2
      have hturn : Runs (img.at' 52 acc [] outbox)
          (next.at' 52 (img.show2 + 1) [] (outbox ++ [w])) := by
        refine Runs.trans (Runs.lda hlda (ha img rfl)) ?_
        refine Runs.trans (Runs.brz_ne (Image.fetch rfl rfl) hw) ?_
        refine Runs.trans (Runs.output (Image.fetch rfl rfl)) ?_
        refine Runs.trans (advance _ _ _ _ (Image.fetch rfl rfl) rfl (Image.fetch rfl rfl)
          (Image.fetch rfl rfl) rfl) ?_
        exact Runs.br (Image.fetch rfl rfl)
      obtain ⟨f, hrest, hstuck, houtbox⟩ := ih next (img.show2 + 1) (outbox ++ [w]) hptr.next
        fun u hu => hL u (List.mem_cons_of_mem w hu)
      exact ⟨f, Runs.trans hturn hrest, hstuck, houtbox.trans (List.append_assoc ..)⟩

/-- Both heads are loaded, and their difference. -/
theorem start_compare_open (img : Image) (acc : Word) (outbox : List Word) {nb2 : Word}
    {L1 L2 : List Word} (h1 : Points img.array img.setL1 L1)
    (h2 : Open img.array img.setL2 (nb2 :: L2)) :
    Runs (img.at' 28 acc [] outbox)
      ({ img with nb2, nb1 := L1.headD 0 }.at' 33 (L1.headD 0 - nb2) [] outbox) := by
  obtain ⟨a2, hlda2, ha2⟩ := Open.load (v := .setL2) h2
  have h1' : Points (img.write nb2 .nb2).array ((img.write nb2 .nb2).read .setL1) L1 := h1
  obtain ⟨a1, hlda1, ha1⟩ := h1'.load
  refine Runs.trans (Runs.lda hlda2 (ha2 img rfl)) ?_
  refine Runs.trans (Runs.sto (Image.fetch rfl rfl) (Image.store _ _ rfl)) ?_
  refine Runs.trans (Runs.lda hlda1 (ha1 _ rfl)) ?_
  refine Runs.trans (Runs.sto (Image.fetch rfl rfl) (Image.store _ _ rfl)) ?_
  exact Runs.sub (Image.fetch rfl rfl) (Image.mem_of_place (v := .nb2) _ rfl)

/-- From `START_COMPARE` on, with list 2 up to the last mailbox, the program gets stuck and
has shown a front part of the merge. -/
def ShowsFront (L1 L2 : List Word) : Prop :=
  ∀ (img : Image) (acc : Word) (outbox : List Word), img.array.length = 20 →
    Points img.array img.setL1 L1 → Open img.array img.setL2 L2 →
    ∃ shown, shown <+: mergeLists L1 L2 ∧ Sticks Waits (img.at' 28 acc [] outbox) shown

namespace ShowsFront

variable {L1 L2 : List Word} {nb1 nb2 : Word}

/-- List 2 is exhausted. -/
theorem done : ShowsFront L1 [] := by
  intro img acc outbox _ _ hp2
  refine ⟨[], List.nil_prefix, .of_runs (Runs.br ?_) (restart img acc outbox (Or.inl rfl)) rfl⟩
  rw [Image.mem_of_place (v := .setL2) _ rfl]
  exact hp2.decode_end

/-- A turn that shows the head of list 2. -/
theorem two (h : ShowsFront L1 L2) (hnb2 : nb2 ≠ 0)
    (hacc : nonneg (L1.headD 0 - nb2) = true)
    (hmerge : mergeLists L1 (nb2 :: L2) = nb2 :: mergeLists L1 L2) :
    ShowsFront L1 (nb2 :: L2) := by
  intro img acc outbox hlen hp1 hp2
  let loaded : Image := { img with nb2, nb1 := L1.headD 0 }
  have hload := start_compare_open img acc outbox hp1 hp2
  have htake := take_two loaded _ [] outbox hacc hnb2
  obtain ⟨shown, hfront, f, hrest, hstuck, houtbox⟩ :=
    h (loaded.write (loaded.setL2 + 1) .setL2) (loaded.setL2 + 1) (outbox ++ [nb2]) hlen hp1
      hp2.next
  refine ⟨nb2 :: shown, ?_, f, Runs.trans hload (Runs.trans htake hrest), hstuck,
    houtbox.trans (List.append_assoc ..)⟩
  rw [hmerge]
  exact List.cons_prefix_cons.mpr ⟨rfl, hfront⟩

/-- A turn that shows the head of list 1. -/
theorem one (h : ShowsFront L1 (nb2 :: L2)) (hnb1 : nb1 ≠ 0)
    (hacc : nonneg (nb1 - nb2) = false) : ShowsFront (nb1 :: L1) (nb2 :: L2) := by
  intro img acc outbox hlen hp1 hp2
  let loaded : Image := { img with nb2, nb1 }
  have hload := start_compare_open img acc outbox hp1 hp2
  have htake := take_one loaded _ [] outbox hacc hnb1
  obtain ⟨shown, hfront, f, hrest, hstuck, houtbox⟩ :=
    h (loaded.write (loaded.setL1 + 1) .setL1) (loaded.setL1 + 1) (outbox ++ [nb1]) hlen
      (hp1.next (Nat.le_of_eq hlen)) hp2
  refine ⟨nb1 :: shown, ?_, f, Runs.trans hload (Runs.trans htake hrest), hstuck,
    houtbox.trans (List.append_assoc ..)⟩
  rw [mergeLists_one hacc]
  exact List.cons_prefix_cons.mpr ⟨rfl, hfront⟩

/-- List 1 is exhausted. -/
theorem rest_two (h2 : ∀ w ∈ nb2 :: L2, w ≠ 0) (hacc : nonneg (0 - nb2) = false) :
    ShowsFront [] (nb2 :: L2) := by
  intro img acc outbox _ hp1 hp2
  let loaded : Image := { img with nb2, nb1 := 0 }
  have hload := start_compare_open img acc outbox hp1 hp2
  have harrange := arrange_show_two loaded _ [] outbox hacc rfl (h2 nb2 (List.mem_cons_self ..))
  refine ⟨nb2 :: L2, ?_, .of_runs (Runs.trans hload harrange) ?_ rfl⟩
  · rw [mergeLists_nil_left]
  · exact show_rest_open (nb2 :: L2) (loaded.write loaded.setL2 .show2) loaded.setL2 outbox hp2 h2

end ShowsFront

/-- The comparison, with no zero behind list 2. -/
theorem compare_open (L1 : List Word) (h1 : ∀ w ∈ L1, w ≠ 0) :
    ∀ L2 : List Word, (∀ w ∈ L2, w ≠ 0) → ShowsFront L1 L2 := by
  induction L1 with
  | nil =>
      intro L2 h2
      induction L2 with
      | nil => exact .done
      | cons nb2 L2 ih2 =>
          obtain ⟨hnb2, hL2⟩ := List.forall_mem_cons.mp h2
          cases hacc : nonneg (0 - nb2) with
          | true =>
              refine .two (ih2 hL2) hnb2 hacc ?_
              rw [mergeLists_nil_left, mergeLists_nil_left]
          | false => exact .rest_two h2 hacc
  | cons nb1 L1 ih1 =>
      obtain ⟨hnb1, hL1⟩ := List.forall_mem_cons.mp h1
      intro L2 h2
      induction L2 with
      | nil => exact .done
      | cons nb2 L2 ih2 =>
          obtain ⟨hnb2, hL2⟩ := List.forall_mem_cons.mp h2
          cases hacc : nonneg (nb1 - nb2) with
          | true => exact .two (ih2 hL2) hnb2 hacc (mergeLists_two hacc)
          | false => exact .one (ih1 hL1 (nb2 :: L2) h2) hnb1 hacc

/-! ## The whole run -/

/-- The program on two lists. -/
def combining (L1 L2 : List Word) : LittleMan.State :=
  load (assemble combine_two_ordered_lists) (bothLists L1 L2)

theorem init_runs (inbox : List Word) :
    Runs (load (assemble combine_two_ordered_lists) inbox)
      ((Image.start.write (stoArray 0) .sarray).at' 2 (stoArray 0) inbox []) := by
  rw [load_eq]
  refine Runs.trans (Runs.lda (Image.fetch rfl rfl) (Image.mem_of_place _ rfl)) ?_
  exact Runs.sto (Image.fetch rfl rfl) (Image.store _ _ rfl)

section Lengths

variable {L1 L2 : List Word}

/-- List 1 alone is too long. -/
theorem sticks_list1 (h1 : ∀ w ∈ L1, w ≠ 0) (hlen : 20 < L1.length) :
    Sticks AtStore (combining L1 L2) [] := by
  have hdrop : L1 = L1.take 20 ++ L1[20] :: L1.drop 21 := by
    rw [← List.drop_eq_getElem_cons hlen, List.take_append_drop]
  have htake : (L1.take 20).length = 20 := List.length_take_of_le (Nat.le_of_lt hlen)
  have hinbox : bothLists L1 L2 =
      L1.take 20 ++ L1[20] :: (L1.drop 21 ++ 0 :: (L2 ++ [0])) := by
    rw [bothLists]
    conv_lhs => rw [hdrop]
    rw [List.append_assoc, List.cons_append]
  refine .of_runs (init_runs _) ?_ rfl
  rw [hinbox]
  refine input_list_overflow .list1 _ _ _ _ _ _ rfl (Or.inr ?_)
    (fun u hu => h1 u (List.mem_of_mem_take hu)) (h1 _ (List.getElem_mem hlen)) ?_
  · rw [htake]
    exact Nat.le_refl 20
  · rw [htake]
    decide

/-- Up to the head of `INPUT_LIST2`. -/
theorem input_list1 (L2 : List Word) (h1 : ∀ w ∈ L1, w ≠ 0) (hlen : L1.length ≤ 20) :
    ∃ img acc, Runs (combining L1 L2) (Image.at' img 14 acc (L2 ++ [0]) []) ∧
      img.array = L1 ++ [0] ∧ img.valueAt2 = stoArray (L1.length + 1) ∧
      img.sarray = stoArray 0 ∧ img.s2array = stoArray (L1.length + 1) - 300 := by
  obtain ⟨img1, hin1, harray1, hptr1, hread1⟩ := input_list .list1 (L2 ++ [0]) [] L1
    (Image.start.write (stoArray 0) .sarray) (stoArray 0) rfl (by
      show 0 + L1.length ≤ 20
      omega) h1
  obtain ⟨img2, acc2, hsep, hptr2, hs2array2, hsarray2, harray2⟩ :=
    separate img1 0 (L2 ++ [0]) []
  have harray : img1.array = L1 := harray1.trans (List.nil_append L1)
  have hptr : img1.valueAt1 + 1 = stoArray (L1.length + 1) := by
    rw [show img1.valueAt1 = stoArray img1.array.length from hptr1, harray, stoArray_add_one]
  refine ⟨img2, acc2, Runs.trans (init_runs _) (Runs.trans hin1 hsep), ?_, ?_, ?_, ?_⟩
  · rw [harray2, harray]
  · rw [hptr2, hptr]
  · exact hsarray2.trans (hread1 .sarray nofun)
  · rw [hs2array2, hptr]

/-- List 2 goes past the last mailbox. -/
theorem sticks_list2 (h1 : ∀ w ∈ L1, w ≠ 0) (h2 : ∀ w ∈ L2, w ≠ 0) (hlen1 : L1.length ≤ 20)
    (hne : L2 ≠ []) (hlen : 20 ≤ L1.length + L2.length) :
    Sticks AtStore (combining L1 L2) [] := by
  obtain ⟨img, acc, hrun, harray, hptr, _, _⟩ := input_list1 L2 h1 hlen1
  have hlength : img.array.length = L1.length + 1 := by
    rw [harray, List.length_append, List.length_singleton]
  have hpos : 0 < L2.length := List.length_pos_iff.mpr hne
  let room := 19 - L1.length
  have hroom : room < L2.length := by omega
  have hdrop : L2 = L2.take room ++ L2[room] :: L2.drop (room + 1) := by
    rw [← List.drop_eq_getElem_cons hroom, List.take_append_drop]
  have htake : (L2.take room).length = room := List.length_take_of_le (Nat.le_of_lt hroom)
  have hinbox : L2 ++ [0] = L2.take room ++ L2[room] :: (L2.drop (room + 1) ++ [0]) := by
    conv_lhs => rw [hdrop]
    rw [List.append_assoc, List.cons_append]
  refine .of_runs hrun ?_ rfl
  rw [hinbox]
  refine input_list_overflow .list2 img acc _ _ [] _ ?_ ?_
    (fun u hu => h2 u (List.mem_of_mem_take hu)) (h2 _ (List.getElem_mem hroom)) ?_
  · rw [hlength]
    exact hptr
  · rcases Nat.lt_or_ge L1.length 20 with hlt | hge
    · refine Or.inr ?_
      rw [hlength, htake]
      omega
    · refine Or.inl (List.eq_nil_of_length_eq_zero ?_)
      rw [htake]
      omega
  · rw [hlength, htake]
    rcases Nat.lt_or_ge L1.length 20 with hlt | hge
    · rw [show L1.length + 1 + room = 20 by omega]
      decide
    · rw [show L1.length + 1 + room = 21 by omega]
      decide

/-- The end of list 2, and both pointers for the comparison. -/
theorem end_input (img : Image) (acc : Word) : ∃ img' acc',
    Runs (img.at' 14 acc [0] []) (Image.at' img' 28 acc' [] []) ∧ img'.array = img.array ∧
      img'.setL1 = img.sarray - 300 + 500 ∧ img'.setL2 = img.s2array + 500 := by
  have hcompare := Runs.trans (init_compare_one img 0 [] []) (init_compare_two _ _ [] [])
  refine ⟨_, _, Runs.trans (input_zero .list2 img acc [] []) hcompare, ?_, ?_, ?_⟩
  · rw [Image.array_write, Image.array_write]
  · show Image.read _ .setL1 = _
    rw [Image.read_write, if_neg nofun, Image.read_write, if_pos rfl]
  · show Image.read _ .setL2 = _
    rw [Image.read_write, if_pos rfl]
    exact congrArg (· + 500) (img.read_write _ .setL1 .s2array)

/-- List 1 fills the last mailbox, and list 2 is empty. -/
theorem sticks_twenty (h1 : ∀ w ∈ L1, w ≠ 0) (hlen : L1.length = 20) :
    Sticks Waits (combining L1 []) [] := by
  obtain ⟨img, acc, hrun, _, _, _, hs2array⟩ :=
    input_list1 [] h1 (Nat.le_of_eq hlen)
  obtain ⟨img', acc', hinit, _, _, hset⟩ := end_input img acc
  have hbr : decode (img'.mem 28) = .BR 1 := by
    rw [Image.mem_of_place (v := .setL2) _ rfl, show img'.read .setL2 = img'.setL2 from rfl, hset,
      hs2array, hlen, stoArray_toLda]
    decide
  refine .of_runs (Runs.trans hrun (Runs.trans hinit (Runs.br hbr))) ?_ rfl
  exact restart img' _ [] (Or.inr rfl)

/-- Only the zero behind list 2 does not fit. -/
theorem sticks_nineteen (h1 : ∀ w ∈ L1, w ≠ 0) (h2 : ∀ w ∈ L2, w ≠ 0)
    (hlen : L1.length + L2.length = 19) :
    ∃ shown, shown <+: mergeLists L1 L2 ∧ Sticks Waits (combining L1 L2) shown := by
  obtain ⟨img, acc, hrun, harray, hptr, hsarray, hs2array⟩ :=
    input_list1 L2 h1 (by omega)
  have hlength : img.array.length = L1.length + 1 := by
    rw [harray, List.length_append, List.length_singleton]
  obtain ⟨img3, acc3, hin2, harray3, _, hread3⟩ := input_many .list2 [0] [] L2 img acc
    (by rw [hlength]; exact hptr) (Or.inr (by rw [hlength]; omega)) h2
  obtain ⟨img4, acc4, hinit, harray4, hsetL1, hsetL2⟩ := end_input img3 acc3
  have harray : img4.array = L1 ++ 0 :: L2 := by
    rw [harray4, harray3, harray, List.append_assoc]
    rfl
  have hp1 : Points img4.array img4.setL1 L1 := by
    have hsarray3 : img3.sarray = stoArray 0 := (hread3 .sarray nofun).trans hsarray
    have hset : img4.setL1 = ldaArray 0 := by rw [hsetL1, hsarray3, stoArray_toLda]
    refine ⟨0, hset, L2, ?_⟩
    rw [harray]
    rfl
  have hp2 : Open img4.array img4.setL2 L2 := by
    have hs2array3 : img3.s2array = stoArray (L1.length + 1) - 300 :=
      (hread3 .s2array nofun).trans hs2array
    have hset : img4.setL2 = ldaArray (L1.length + 1) := by
      rw [hsetL2, hs2array3, stoArray_toLda]
    refine ⟨L1.length + 1, hset, by omega, ?_⟩
    rw [harray, show L1 ++ 0 :: L2 = (L1 ++ [0]) ++ L2 from (List.append_assoc L1 [0] L2).symm]
    exact List.drop_left' List.length_append
  have hlen4 : img4.array.length = 20 := by
    rw [harray, List.length_append, List.length_cons]
    omega
  obtain ⟨shown, hfront, hsticks⟩ := compare_open L1 h1 L2 h2 img4 acc4 [] hlen4 hp1 hp2
  exact ⟨shown, hfront, .of_runs (Runs.trans hrun (Runs.trans hin2 hinit)) hsticks rfl⟩

/-- One word too many: the pointer at list 2 goes past the last mailbox. -/
def JustOver (L1 L2 : List Word) : Prop :=
  L1.length + L2.length = 19 ∨ L1.length = 20 ∧ L2 = []

theorem sticks_of_justOver (h1 : ∀ w ∈ L1, w ≠ 0) (h2 : ∀ w ∈ L2, w ≠ 0) (hlen : JustOver L1 L2) :
    ∃ shown, shown <+: mergeLists L1 L2 ∧ Sticks Waits (combining L1 L2) shown := by
  rcases hlen with hnineteen | ⟨htwenty, rfl⟩
  · exact sticks_nineteen h1 h2 hnineteen
  · exact ⟨[], List.nil_prefix, sticks_twenty h1 htwenty⟩

/-- More: an input does not fit. -/
theorem sticks_of_over (h1 : ∀ w ∈ L1, w ≠ 0) (h2 : ∀ w ∈ L2, w ≠ 0)
    (hlen : 18 < L1.length + L2.length) (hover : ¬ JustOver L1 L2) :
    Sticks AtStore (combining L1 L2) [] := by
  rcases Nat.lt_or_ge 20 L1.length with hlong | hlen1
  · exact sticks_list1 h1 hlong
  have hne : L1.length + L2.length ≠ 19 := fun heq => hover (.inl heq)
  refine sticks_list2 h1 h2 hlen1 ?_ (by omega)
  rintro rfl
  rw [List.length_nil] at hlen hne
  exact hover (.inr ⟨by omega, rfl⟩)

/-- Lists that do not fit. -/
theorem sticks_of_overflow (h1 : ∀ w ∈ L1, w ≠ 0) (h2 : ∀ w ∈ L2, w ≠ 0)
    (hlen : 18 < L1.length + L2.length) :
    ∃ shown, shown <+: mergeLists L1 L2 ∧ Sticks Stuck (combining L1 L2) shown := by
  by_cases hover : JustOver L1 L2
  · obtain ⟨shown, hfront, f, hrun, hwaits, houtbox⟩ := sticks_of_justOver h1 h2 hover
    exact ⟨shown, hfront, f, hrun, hwaits.stuck, houtbox⟩
  · obtain ⟨f, hrun, hstore, houtbox⟩ := sticks_of_over h1 h2 hlen hover
    exact ⟨[], List.nil_prefix, f, hrun, hstore.stuck, houtbox⟩

/-- Where the run ends. -/
theorem exists_end (h1 : ∀ w ∈ L1, w ≠ 0) (h2 : ∀ w ∈ L2, w ≠ 0) :
    ∃ f, Runs (combining L1 L2) f ∧ step f = none ∧ f.outbox <+: mergeLists L1 L2 ∧
      (f.halted ↔ L1.length + L2.length ≤ 18) := by
  rcases Nat.lt_or_ge 18 (L1.length + L2.length) with hover | hfits
  · obtain ⟨shown, hfront, f, hrun, hstuck, houtbox⟩ := sticks_of_overflow h1 h2 hover
    refine ⟨f, hrun, hstuck.ends, ?_, fun hhalt => absurd hhalt hstuck.short, fun hle => ?_⟩
    · rw [houtbox]
      exact hfront
    · exact absurd hle (Nat.not_le_of_lt hover)
  · obtain ⟨f, hrun, hhalt, houtbox⟩ := runs_to_halt L1 L2 h1 h2 hfits
    refine ⟨f, hrun, hhalt.step_eq, ?_, fun _ => hfits, fun _ => hhalt⟩
    rw [houtbox]

end Lengths

/-- **The program halts exactly on lists that fit.**  On others it stops at a store that is no
instruction, with nothing shown, or is at its beginning again and waits for input. -/
theorem halts_iff_fits (L1 L2 : List Word) (h1 : ∀ w ∈ L1, w ≠ 0) (h2 : ∀ w ∈ L2, w ≠ 0) :
    ((∃ s, Runs (combining L1 L2) s ∧ s.halted) ↔ L1.length + L2.length ≤ 18) ∧
      (JustOver L1 L2 → ∃ s, Runs (combining L1 L2) s ∧ Waits s) ∧
      (18 < L1.length + L2.length → ¬ JustOver L1 L2 →
        ∃ s, Runs (combining L1 L2) s ∧ AtStore s ∧ s.outbox = []) := by
  obtain ⟨f, hrun, hend, _, hhalts⟩ := exists_end h1 h2
  refine ⟨⟨?_, ?_⟩, ?_, ?_⟩
  · rintro ⟨s, hs, hhalt⟩
    have hstep : step s = none := hhalt.step_eq
    have heq : s = f := by
      rcases Relation.ReflTransGen.cases_head (Runs.to_end hs hrun hend) with heq | ⟨u, hu, _⟩
      · exact heq
      · rw [hstep] at hu
        cases hu
    rw [heq] at hhalt
    exact hhalts.mp hhalt
  · intro hfits
    exact ⟨f, hrun, hhalts.mpr hfits⟩
  · intro hover
    obtain ⟨_, _, s, hs, hwaits, _⟩ := sticks_of_justOver h1 h2 hover
    exact ⟨s, hs, hwaits⟩
  · intro hlen hover
    obtain ⟨s, hs, hstore, houtbox⟩ := sticks_of_over h1 h2 hlen hover
    exact ⟨s, hs, hstore, houtbox⟩

/-- One word too many, and two. -/
theorem halts_iff_fits_nineteen :
    (¬ (∃ s, Runs (combining (List.replicate 10 1) (List.replicate 9 1)) s ∧ s.halted) ∧
      ∃ s, Runs (combining (List.replicate 10 1) (List.replicate 9 1)) s ∧ Waits s) ∧
      ∃ s, Runs (combining (List.replicate 10 1) (List.replicate 10 1)) s ∧ AtStore s ∧
        s.outbox = [] := by
  have hones : ∀ n, ∀ w ∈ List.replicate n (1 : Word), w ≠ 0 := by simp
  obtain ⟨hfits, hwaits, _⟩ :=
    halts_iff_fits (List.replicate 10 1) (List.replicate 9 1) (hones 10) (hones 9)
  obtain ⟨_, _, hstore⟩ :=
    halts_iff_fits (List.replicate 10 1) (List.replicate 10 1) (hones 10) (hones 10)
  refine ⟨⟨fun hhalts => ?_, hwaits (.inl rfl)⟩, hstore (by decide) ?_⟩
  · have hle := hfits.mp hhalts
    rw [List.length_replicate, List.length_replicate] at hle
    omega
  · rintro (h | ⟨h, _⟩)
    · cases h
    · cases h

/-- **Nothing is shown but the merge, from its front**, whether the lists fit or not. -/
theorem shows_prefix_of_merge (L1 L2 : List Word) (h1 : ∀ w ∈ L1, w ≠ 0)
    (h2 : ∀ w ∈ L2, w ≠ 0) {s : LittleMan.State} (h : Runs (combining L1 L2) s) :
    s.outbox <+: mergeLists L1 L2 := by
  obtain ⟨f, hrun, hend, hfront, _⟩ := exists_end h1 h2
  exact (Runs.outbox_prefix (Runs.to_end h hrun hend)).trans hfront

/-- The state 19 words get stuck in. -/
theorem shows_prefix_of_merge_nineteen : ∃ s,
    Runs (combining (List.replicate 10 1) (List.replicate 9 1)) s ∧ Stuck s ∧
      s.outbox <+: mergeLists (List.replicate 10 1) (List.replicate 9 1) := by
  have h1 : ∀ w ∈ List.replicate 10 (1 : Word), w ≠ 0 := by simp
  have h2 : ∀ w ∈ List.replicate 9 (1 : Word), w ≠ 0 := by simp
  obtain ⟨_, _, f, hrun, hstuck, _⟩ := sticks_of_overflow h1 h2 (by simp)
  exact ⟨f, hrun, hstuck, shows_prefix_of_merge _ _ h1 h2 hrun⟩

end Smoll.Lmc
