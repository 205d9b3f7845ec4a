/-
# `Smoll.Lib.Distinct` — the distinct elements of a list, each where it first occurs

`List.eraseDups` keeps the first of equal elements.  It is what a loop ends up
with that looks every element up in what it has and adds it behind if it is
new.  `foldl_eraseDups` says so of any loop: `view` is the list the loop
keeps, whatever else is in its state, and `label` what an input adds to it.
-/
import Mathlib.Data.List.Induction
import Mathlib.Data.List.Nodup

namespace Smoll.Distinct

variable {α : Type*} [DecidableEq α]

/-- Behind the list if it is new. -/
def push (l : List α) (a : α) : List α := if a ∈ l then l else l ++ [a]

theorem push_of_mem {l : List α} {a : α} (h : a ∈ l) : push l a = l := if_pos h

theorem push_of_not_mem {l : List α} {a : α} (h : a ∉ l) : push l a = l ++ [a] := if_neg h

theorem push_cons_self (l : List α) (a : α) : push (a :: l) a = a :: l :=
  push_of_mem (List.mem_cons_self ..)

/-- Past an element that is different. -/
theorem push_cons_of_ne {a b : α} (h : a ≠ b) (l : List α) : push (a :: l) b = a :: push l b := by
  by_cases hmem : b ∈ l
  · rw [push_of_mem hmem, push_of_mem (List.mem_cons_of_mem a hmem)]
  · have hmem' : b ∉ a :: l := by
      intro hb
      rcases List.mem_cons.mp hb with rfl | hb
      · exact h rfl
      · exact hmem hb
    rw [push_of_not_mem hmem, push_of_not_mem hmem', List.cons_append]

theorem eraseDups_concat (l : List α) (a : α) :
    (l ++ [a]).eraseDups = push l.eraseDups a := by
  rw [List.eraseDups_append]
  by_cases h : a ∈ l
  · rw [push_of_mem (List.mem_eraseDups.mpr h)]
    simp [List.removeAll, h]
  · rw [push_of_not_mem fun ha => h (List.mem_eraseDups.mp ha)]
    simp [List.removeAll, h, List.eraseDups_cons]

theorem push_nodup {l : List α} (h : l.Nodup) (a : α) : (push l a).Nodup := by
  by_cases ha : a ∈ l
  · rw [push_of_mem ha]
    exact h
  · rw [push_of_not_mem ha]
    exact List.nodup_append.mpr ⟨h, List.nodup_singleton a, fun b hb c hc hbc => by
      rw [List.mem_singleton] at hc
      exact ha (hc ▸ hbc ▸ hb)⟩

theorem nodup_eraseDups (l : List α) : l.eraseDups.Nodup := by
  induction l using List.reverseRecOn with
  | nil => exact List.nodup_nil
  | append_singleton l a ih =>
      rw [eraseDups_concat]
      exact push_nodup ih a

theorem eraseDups_of_nodup {l : List α} (h : l.Nodup) : l.eraseDups = l := by
  induction l using List.reverseRecOn with
  | nil => rfl
  | append_singleton l a ih =>
      have hla := List.nodup_append.mp h
      have ha : a ∉ l := fun hmem => hla.2.2 a hmem a (List.mem_singleton_self a) rfl
      rw [eraseDups_concat, ih hla.1, push_of_not_mem ha]

theorem eraseDups_sublist (l : List α) : l.eraseDups.Sublist l := by
  induction l using List.reverseRecOn with
  | nil => exact List.Sublist.refl _
  | append_singleton l a ih =>
      rw [eraseDups_concat]
      by_cases h : a ∈ l.eraseDups
      · rw [push_of_mem h]
        exact ih.trans (List.sublist_append_left l [a])
      · rw [push_of_not_mem h]
        exact ih.append (List.Sublist.refl [a])

/-- Something is left out exactly if something comes twice. -/
theorem length_eraseDups_eq_iff {l : List α} : l.eraseDups.length = l.length ↔ l.Nodup := by
  constructor
  · intro h
    rw [← (eraseDups_sublist l).eq_of_length h]
    exact nodup_eraseDups l
  · intro h
    rw [eraseDups_of_nodup h]

theorem eraseDups_eq_nil {l : List α} : l.eraseDups = [] ↔ l = [] := by
  constructor
  · intro h
    refine List.eq_nil_iff_forall_not_mem.mpr fun a ha => ?_
    exact List.not_mem_nil (h ▸ List.mem_eraseDups.mpr ha)
  · rintro rfl
    rfl

/-- A loop that keeps a list and pushes what its inputs add. -/
theorem foldl_eraseDups {σ β : Type*} (view : σ → List α) (next : σ → β → σ)
    (label : β → Option α) (P : σ → Prop) (hP : ∀ s b, P s → P (next s b))
    (hnext : ∀ s b, P s → view (next s b) = (label b).elim (view s) (push (view s)))
    {s : σ} (hs : P s) (hnodup : (view s).Nodup) (bs : List β) :
    view (bs.foldl next s) = (view s ++ bs.filterMap label).eraseDups := by
  have hall : P (bs.foldl next s) ∧
      view (bs.foldl next s) = (view s ++ bs.filterMap label).eraseDups := by
    induction bs using List.reverseRecOn with
    | nil => exact ⟨hs, by rw [List.filterMap_nil, List.append_nil, eraseDups_of_nodup hnodup]; rfl⟩
    | append_singleton bs b ih =>
        rw [List.foldl_append, List.foldl_cons, List.foldl_nil, List.filterMap_append,
          ← List.append_assoc]
        refine ⟨hP _ b ih.1, ?_⟩
        rw [hnext _ b ih.1, ih.2]
        cases hlabel : label b with
        | none => simp [hlabel]
        | some a =>
            rw [List.filterMap_cons_some hlabel, List.filterMap_nil, eraseDups_concat]
            rfl
  exact hall.2

end Smoll.Distinct
