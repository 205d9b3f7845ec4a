/-
# `Smoll.Lib.Lines` — a text taken line by line

`lines nl s` is what reading the text `s` line by line gives: what stands in
front of each `nl`, and what stands behind the last one unless that is nothing.

    a nl b nl      gives   a, b
    a nl b         gives   a, b

A text is `Whole` if no unfinished line is at its end. Cutting a text into
fragments and reading each by itself adds one line for each fragment that is
not whole (`length_flatMap_lines`), and where all are whole changes nothing
(`flatMap_lines`).
-/
import Mathlib.Data.List.Basic
import Mathlib.Data.List.Count

namespace Smoll.Lines

variable {α : Type} [DecidableEq α]

def lines (nl : α) : List α → List (List α)
  | [] => []
  | c :: s =>
      if c = nl then
        [] :: lines nl s
      else
        match lines nl s with
        | [] => [[c]]
        | line :: rest => (c :: line) :: rest

/-- Nothing is left behind the last `nl`. -/
def Whole (nl : α) (s : List α) : Prop :=
  ∀ c ∈ s.getLast?, c = nl

instance instDecidableWhole (nl : α) (s : List α) : Decidable (Whole nl s) :=
  inferInstanceAs (Decidable (∀ c ∈ s.getLast?, c = nl))

variable {nl : α}

theorem lines_nl (s : List α) : lines nl (nl :: s) = [] :: lines nl s :=
  if_pos rfl

/-- A character in front of a line. -/
theorem lines_cons {c : α} {s line : List α} {rest : List (List α)} (hc : c ≠ nl)
    (hlines : lines nl s = line :: rest) : lines nl (c :: s) = (c :: line) :: rest := by
  rw [lines, if_neg hc, hlines]

theorem exists_lines_cons (c : α) (s : List α) :
    ∃ line rest, lines nl (c :: s) = line :: rest := by
  rw [lines]
  split
  · exact ⟨_, _, rfl⟩
  · split
    · exact ⟨_, _, rfl⟩
    · exact ⟨_, _, rfl⟩

theorem lines_append_nl {line : List α} (s : List α) :
    nl ∉ line → lines nl (line ++ nl :: s) = line :: lines nl s := by
  induction line with
  | nil =>
      intro _
      exact lines_nl s
  | cons c line ih =>
      intro hfree
      have hc : c ≠ nl := List.ne_of_not_mem_cons hfree |>.symm
      exact lines_cons hc (ih (List.not_mem_of_not_mem_cons hfree))

/-- Lines that were written are read back. -/
theorem lines_flatMap {ls : List (List α)} :
    (∀ line ∈ ls, nl ∉ line) → lines nl (ls.flatMap fun line => line ++ [nl]) = ls := by
  induction ls with
  | nil =>
      intro _
      rfl
  | cons line ls ih =>
      intro hfree
      have hrest := ih fun l hl => hfree l (List.mem_cons_of_mem line hl)
      rw [List.flatMap_cons, List.append_assoc, List.singleton_append,
        lines_append_nl _ (hfree line (List.mem_cons_self ..)), hrest]

/-- What is finished is not touched by what comes behind it. -/
theorem lines_append {s : List α} (t : List α) :
    Whole nl s → lines nl (s ++ t) = lines nl s ++ lines nl t := by
  induction s with
  | nil =>
      intro _
      rfl
  | cons c s ih =>
      intro hwhole
      cases s with
      | nil =>
          have hc : c = nl := hwhole c rfl
          rw [List.cons_append, List.nil_append, lines, lines, if_pos hc, if_pos hc]
          rfl
      | cons d s =>
          have htail := ih hwhole
          rcases @exists_lines_cons α _ nl d s with ⟨line, rest, hlines⟩
          rw [hlines] at htail
          by_cases hc : c = nl
          · rw [hc, List.cons_append, lines_nl, lines_nl, htail, hlines]
            rfl
          · rw [List.cons_append, lines_cons hc htail, lines_cons hc hlines]
            rfl

theorem flatMap_lines {fragments : List (List α)} :
    (∀ f ∈ fragments, Whole nl f) → fragments.flatMap (lines nl) = lines nl fragments.flatten := by
  induction fragments with
  | nil =>
      intro _
      rfl
  | cons f fragments ih =>
      intro hwhole
      have hrest := ih fun g hg => hwhole g (List.mem_cons_of_mem f hg)
      rw [List.flatMap_cons, List.flatten_cons, lines_append _ (hwhole f List.mem_cons_self), hrest]

/-- One line for each `nl`, and one more for what is not finished. -/
theorem length_lines (s : List α) :
    (lines nl s).length = s.count nl + if Whole nl s then 0 else 1 := by
  induction s with
  | nil => rfl
  | cons c s ih =>
      cases s with
      | nil =>
          by_cases hc : c = nl
          · have hwhole : Whole nl [c] := by
              intro d hd
              exact Option.some.inj hd ▸ hc
            rw [lines, if_pos hc, if_pos hwhole, hc, List.count_singleton_self]
            rfl
          · have hwhole : ¬ Whole nl [c] := by
              intro h
              exact hc (h c rfl)
            rw [lines, if_neg hc, if_neg hwhole, List.count_cons_of_ne hc]
            rfl
      | cons d s =>
          have hwhole : Whole nl (c :: d :: s) ↔ Whole nl (d :: s) := Iff.rfl
          simp only [hwhole]
          rcases @exists_lines_cons α _ nl d s with ⟨line, rest, hlines⟩
          by_cases hc : c = nl
          · rw [hc, lines_nl, List.length_cons, ih, List.count_cons_self]
            omega
          · rw [lines_cons hc hlines, List.count_cons_of_ne hc, ← ih, hlines]
            rfl

/-- Each fragment that is not whole costs a line. -/
theorem length_flatMap_lines (fragments : List (List α)) :
    (fragments.flatMap (lines nl)).length =
      fragments.flatten.count nl + fragments.countP fun f => ¬ Whole nl f := by
  induction fragments with
  | nil => rfl
  | cons f fragments ih =>
      rw [List.flatMap_cons, List.length_append, ih, length_lines, List.flatten_cons,
        List.count_append, List.countP_cons]
      by_cases hf : Whole nl f
      · simp only [hf, if_true, not_true_eq_false, decide_false, Bool.false_eq_true, if_false]
        omega
      · simp only [hf, if_false, not_false_eq_true, decide_true, if_true]
        omega

end Smoll.Lines
