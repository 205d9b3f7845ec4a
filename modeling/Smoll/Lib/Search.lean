/-
# `Smoll.Lib.Search` — the first place in a text

`find p s` looks for the first place in the text `s` where `p` accepts what is
left; it gives what stands in front of that place, and the result of `p` there.

    find (·.dropPrefix? w)     cuts the text at the word `w`

A text `a ++ s` is cut behind `a` when `p` accepts `s` and rejects at every
place before (`find_append`, `find_word`), and only then (`of_find`,
`of_find_word`).
-/
import Mathlib.Data.List.Basic
import Mathlib.Data.List.Infix

namespace Smoll.Search

variable {α β : Type}

def find (p : List α → Option β) : List α → Option (List α × β)
  | [] => (p []).map fun b => ([], b)
  | c :: s =>
      match p (c :: s) with
      | some b => some ([], b)
      | none => (find p s).map fun (a, b) => (c :: a, b)

theorem find_of_some {p : List α → Option β} {s : List α} {b : β} (hb : p s = some b) :
    find p s = some ([], b) := by
  cases s with
  | nil => rw [find, hb]; rfl
  | cons c s => rw [find, hb]

/-- The first place: `p` rejects at every place before. -/
theorem find_append {p : List α → Option β} {s : List α} {b : β} (hb : p s = some b) (a : List α) :
    (∀ y, y <:+ a → y ≠ [] → p (y ++ s) = none) → find p (a ++ s) = some (a, b) := by
  induction a with
  | nil =>
      intro _
      exact find_of_some hb
  | cons c a ih =>
      intro hbefore
      have hc : p (c :: (a ++ s)) = none := hbefore (c :: a) List.suffix_rfl (List.cons_ne_nil _ _)
      have hrest := ih fun y hy hne => hbefore y (hy.trans (List.suffix_cons c a)) hne
      rw [List.cons_append, find, hc, hrest]
      rfl

/-- Where the search stops: `p` accepts there and rejects at every place before. -/
theorem of_find {p : List α → Option β} {b : β} {a : List α} :
    ∀ {l : List α}, find p l = some (a, b) →
      ∃ s, l = a ++ s ∧ p s = some b ∧ ∀ y, y <:+ a → y ≠ [] → p (y ++ s) = none := by
  induction a with
  | nil =>
      intro l h
      have hnil : ∀ s : List α, ∀ y, y <:+ [] → y ≠ [] → p (y ++ s) = none := by
        intro s y hy hne
        exact absurd (List.suffix_nil.mp hy) hne
      cases l with
      | nil =>
          rcases Option.map_eq_some_iff.mp h with ⟨b', hb', heq⟩
          exact ⟨[], rfl, hb'.trans (congrArg some (Prod.mk.inj heq).2), hnil []⟩
      | cons c l =>
          rw [find] at h
          split at h
          · rename_i b' hb'
            have hb : b' = b := (Prod.mk.inj (Option.some.inj h)).2
            exact ⟨c :: l, rfl, hb'.trans (congrArg some hb), hnil _⟩
          · rcases Option.map_eq_some_iff.mp h with ⟨⟨a', b'⟩, _, heq⟩
            exact absurd (Prod.mk.inj heq).1 (List.cons_ne_nil _ _)
  | cons d a ih =>
      intro l h
      cases l with
      | nil =>
          rcases Option.map_eq_some_iff.mp h with ⟨b', _, heq⟩
          exact absurd (Prod.mk.inj heq).1.symm (List.cons_ne_nil _ _)
      | cons c l =>
          rw [find] at h
          split at h
          · exact absurd (Prod.mk.inj (Option.some.inj h)).1.symm (List.cons_ne_nil _ _)
          · rename_i hnone
            rcases Option.map_eq_some_iff.mp h with ⟨⟨a', b'⟩, hfind, heq⟩
            rcases Prod.mk.inj heq with ⟨ha, hb⟩
            rcases List.cons.inj ha with ⟨rfl, rfl⟩
            subst hb
            rcases ih hfind with ⟨s, rfl, hs, hbefore⟩
            refine ⟨s, rfl, hs, ?_⟩
            intro y hy hne
            rcases List.suffix_cons_iff.mp hy with rfl | hy
            · exact hnone
            · exact hbefore y hy hne

/-! ## Words -/

variable [BEq α] [LawfulBEq α]

theorem dropPrefix?_append (w s : List α) : (w ++ s).dropPrefix? w = some s :=
  List.dropPrefix?_append_of_beq s (beq_self_eq_true w)

theorem dropPrefix?_eq_some {w l s : List α} : l.dropPrefix? w = some s ↔ l = w ++ s := by
  rw [List.dropPrefix?_eq_some_iff]
  constructor
  · rintro ⟨w', rfl, hw⟩
    rw [eq_of_beq hw]
  · rintro rfl
    exact ⟨w, rfl, beq_self_eq_true w⟩

theorem dropPrefix?_eq_none {w l : List α} (h : ¬ w <+: l) : l.dropPrefix? w = none := by
  cases hdrop : l.dropPrefix? w with
  | none => rfl
  | some s => exact absurd ⟨s, (dropPrefix?_eq_some.mp hdrop).symm⟩ h

/-- The text is cut at the first occurrence of the word. -/
theorem find_word {w a s : List α}
    (hfirst : ∀ y, y <:+ a → y ≠ [] → ¬ w <+: y ++ (w ++ s)) :
    find (fun l => l.dropPrefix? w) (a ++ (w ++ s)) = some (a, s) := by
  refine find_append (p := fun l => l.dropPrefix? w) (dropPrefix?_append w s) a ?_
  intro y hy hne
  exact dropPrefix?_eq_none (hfirst y hy hne)

/-- What stands in front of the word does not hold it. -/
theorem of_find_word {w l a s : List α} (h : find (fun l => l.dropPrefix? w) l = some (a, s)) :
    l = a ++ (w ++ s) ∧ (w ≠ [] → ¬ w <:+: a) := by
  rcases of_find h with ⟨l', hl, hl', hbefore⟩
  rw [dropPrefix?_eq_some.mp hl'] at hl hbefore
  refine ⟨hl, ?_⟩
  rintro hw ⟨u, v, huv⟩
  have hsuf : w ++ v <:+ a := ⟨u, by rw [← huv, List.append_assoc]⟩
  have hnone := hbefore (w ++ v) hsuf (List.append_ne_nil_of_left_ne_nil hw v)
  rw [List.append_assoc, dropPrefix?_append] at hnone
  exact absurd hnone (Option.some_ne_none _)

/-- A word of one letter: the text in front does not hold the letter. -/
theorem find_letter {x : α} {a : List α} (hx : x ∉ a) (s : List α) :
    find (fun l => l.dropPrefix? [x]) (a ++ x :: s) = some (a, s) := by
  refine find_word (w := [x]) ?_
  intro y hy hne
  cases y with
  | nil => exact absurd rfl hne
  | cons c y =>
      rw [List.cons_append, List.prefix_cons_iff]
      simp only [List.cons_ne_nil, List.cons.injEq, false_or, not_exists, not_and]
      intro t ⟨hc, _⟩
      exact fun _ => hx (hc ▸ hy.mem List.mem_cons_self)

end Smoll.Search
