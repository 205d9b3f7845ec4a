/-
# `Smoll.Lib.Outline` — a tree written down line by line, and read back

    a               (0, a)
        b           (1, b)
            c       (2, c)
        d           (1, d)
    e               (0, e)

`outline` gives every node a line with its depth.  `ofOutline` reads such
lines: below a line at some depth stand its children, one deeper, until a line
comes that is no deeper than it.  What was written is read back
(`ofOutline_outline`).

A writer that cannot go deeper than some level stops at the first line there:
`through level` are the lines up to it.
-/
import Smoll.Lib.Trie

namespace Smoll.Trie.KeyTree

variable {α : Type*}

def outline (depth : Nat) : KeyTree α → List (Nat × α)
  | nil => []
  | node key sub rest => (depth, key) :: (outline (depth + 1) sub ++ outline depth rest)

/-- The tree at this depth at the head of the lines; deeper lines belong to a node before. -/
def ofOutline (depth : Nat) : List (Nat × α) → KeyTree α
  | [] => nil
  | (d, key) :: ls =>
      if d < depth then nil
      else if d = depth then node key (ofOutline (depth + 1) ls) (ofOutline depth ls)
      else ofOutline depth ls

/-- The lines up to the first one at this level. -/
def through (level : Nat) : List (Nat × α) → List (Nat × α)
  | [] => []
  | l :: ls => if l.1 = level then [l] else l :: through level ls

/-- One tree behind another. -/
def append : KeyTree α → KeyTree α → KeyTree α
  | nil, u => u
  | node key sub rest, u => node key sub (rest.append u)

theorem append_nil (t : KeyTree α) : t.append nil = t := by
  induction t with
  | nil => rfl
  | node key sub rest _ ih => rw [append, ih]

/-- Deeper lines are passed over. -/
theorem ofOutline_deeper (t : KeyTree α) (ls : List (Nat × α)) :
    ∀ {depth d : Nat}, depth < d → ofOutline depth (outline d t ++ ls) = ofOutline depth ls := by
  induction t generalizing ls with
  | nil =>
      intro depth d _
      rfl
  | node key sub rest ihsub ihrest =>
      intro depth d h
      rw [outline, List.cons_append, List.append_assoc, ofOutline, if_neg (Nat.lt_asymm h),
        if_neg (Nat.ne_of_gt h), ihsub _ (Nat.lt_succ_of_lt h), ihrest _ h]

/-- In front of lines that are not deeper than a tree, nothing of them is taken into it. -/
theorem ofOutline_append (t : KeyTree α) :
    ∀ (depth : Nat) (ls : List (Nat × α)), (∀ d, depth < d → ofOutline d ls = nil) →
      ofOutline depth (outline depth t ++ ls) = t.append (ofOutline depth ls) := by
  induction t with
  | nil =>
      intro depth ls _
      rfl
  | node key sub rest ihsub ihrest =>
      intro depth ls h
      have hrest : ∀ d, depth < d → ofOutline d (outline depth rest ++ ls) = nil := by
        intro d hd
        cases rest with
        | nil => exact h d hd
        | node key' sub' rest' => exact if_pos hd
      have hsub : ofOutline (depth + 1) (outline (depth + 1) sub ++ (outline depth rest ++ ls)) =
          sub := by
        rw [ihsub (depth + 1) _ fun d hd => hrest d (Nat.lt_of_succ_lt hd),
          hrest _ (Nat.lt_succ_self depth), append_nil]
      rw [outline, List.cons_append, List.append_assoc, ofOutline, if_neg (Nat.lt_irrefl depth),
        if_pos rfl, hsub, ofOutline_deeper sub _ (Nat.lt_succ_self depth), ihrest depth ls h, append]

theorem ofOutline_outline (t : KeyTree α) : ofOutline 0 (outline 0 t) = t := by
  have h := ofOutline_append t 0 [] fun _ _ => rfl
  rw [List.append_nil] at h
  rw [h]
  exact append_nil t

/-- A line for each node. -/
theorem length_outline (t : KeyTree α) : ∀ depth, (outline depth t).length = t.paths.length := by
  induction t with
  | nil =>
      intro depth
      rfl
  | node key sub rest ihsub ihrest =>
      intro depth
      rw [outline, paths, List.length_cons, List.length_cons, List.length_append,
        List.length_append, List.length_map, ihsub, ihrest]

/-- The keys of the lines are the keys of the nodes. -/
theorem exists_of_mem_outline {t : KeyTree α} {d : Nat} {key : α} :
    ∀ {depth : Nat}, (d, key) ∈ outline depth t → ∃ p ∈ t.paths, key ∈ p := by
  induction t with
  | nil =>
      intro depth h
      cases h
  | node k sub rest ihsub ihrest =>
      intro depth h
      rw [outline, List.mem_cons, List.mem_append] at h
      rcases h with h | h | h
      · cases h
        exact ⟨[key], List.mem_cons_self .., List.mem_singleton_self key⟩
      · rcases ihsub h with ⟨p, hp, hkey⟩
        exact ⟨k :: p, mem_paths_node.mpr (.inr (.inl ⟨p, hp, rfl⟩)), List.mem_cons_of_mem k hkey⟩
      · rcases ihrest h with ⟨p, hp, hkey⟩
        exact ⟨p, mem_paths_node.mpr (.inr (.inr hp)), hkey⟩

/-! ## Levels -/

theorem level_of_mem_outline {t : KeyTree α} {l : Nat × α} :
    ∀ {depth : Nat}, l ∈ outline depth t → depth ≤ l.1 := by
  induction t with
  | nil =>
      intro depth h
      cases h
  | node key sub rest ihsub ihrest =>
      intro depth h
      rw [outline, List.mem_cons, List.mem_append] at h
      rcases h with rfl | h | h
      · exact Nat.le_refl depth
      · exact Nat.le_of_succ_le (ihsub h)
      · exact ihrest h

/-- The nodes at a level are the paths of one length. -/
theorem exists_level_outline {t : KeyTree α} :
    ∀ {depth k : Nat}, (∃ l ∈ outline depth t, l.1 = depth + k) ↔
      ∃ p ∈ t.paths, p.length = k + 1 := by
  induction t with
  | nil =>
      intro depth k
      constructor
      · rintro ⟨l, hl, _⟩
        cases hl
      · rintro ⟨p, hp, _⟩
        cases hp
  | node key sub rest ihsub ihrest =>
      intro depth k
      constructor
      · rintro ⟨l, hl, hlevel⟩
        rw [outline, List.mem_cons, List.mem_append] at hl
        rcases hl with rfl | hl | hl
        · refine ⟨[key], List.mem_cons_self .., ?_⟩
          have hk : depth = depth + k := hlevel
          rw [List.length_singleton]
          omega
        · have hdeeper := level_of_mem_outline hl
          obtain ⟨j, rfl⟩ : ∃ j, k = j + 1 := ⟨k - 1, by omega⟩
          have hbelow : l.1 = depth + 1 + j := by omega
          rcases ihsub.mp ⟨l, hl, hbelow⟩ with ⟨p, hp, hlength⟩
          exact ⟨key :: p, mem_paths_node.mpr (.inr (.inl ⟨p, hp, rfl⟩)),
            by rw [List.length_cons, hlength]⟩
        · rcases ihrest.mp ⟨l, hl, hlevel⟩ with ⟨p, hp, hlength⟩
          exact ⟨p, mem_paths_node.mpr (.inr (.inr hp)), hlength⟩
      · rintro ⟨p, hp, hlength⟩
        rcases mem_paths_node.mp hp with rfl | ⟨q, hq, rfl⟩ | hp
        · refine ⟨(depth, key), List.mem_cons_self .., ?_⟩
          rw [List.length_singleton] at hlength
          show depth = depth + k
          omega
        · rw [List.length_cons] at hlength
          rcases exists_of_mem_paths hq with ⟨_, _, _, hcons⟩
          obtain ⟨j, rfl⟩ : ∃ j, k = j + 1 := by
            rw [hcons, List.length_cons] at hlength
            exact ⟨k - 1, by omega⟩
          have hbelow : q.length = j + 1 := Nat.succ.inj hlength
          rcases ihsub.mpr ⟨q, hq, hbelow⟩ with ⟨l, hl, hlevel⟩
          refine ⟨l, List.mem_cons_of_mem _ (List.mem_append_left _ hl), ?_⟩
          rw [hlevel]
          omega
        · rcases ihrest.mpr ⟨p, hp, hlength⟩ with ⟨l, hl, hlevel⟩
          exact ⟨l, List.mem_cons_of_mem _ (List.mem_append_right _ hl), hlevel⟩

/-! ## Up to a line -/

theorem through_prefix (level : Nat) (ls : List (Nat × α)) : through level ls <+: ls := by
  induction ls with
  | nil => exact List.prefix_refl []
  | cons l ls ih =>
      rw [through]
      by_cases h : l.1 = level
      · rw [if_pos h]
        exact ⟨ls, rfl⟩
      · rw [if_neg h, List.cons_prefix_cons]
        exact ⟨rfl, ih⟩

theorem through_eq_self {level : Nat} {ls : List (Nat × α)} (h : ¬ ∃ l ∈ ls, l.1 = level) :
    through level ls = ls := by
  induction ls with
  | nil => rfl
  | cons l ls ih =>
      rw [List.exists_mem_cons_iff, not_or] at h
      rw [through, if_neg h.1, ih h.2]

theorem through_append_of_exists {level : Nat} {ls : List (Nat × α)}
    (h : ∃ l ∈ ls, l.1 = level) (ls' : List (Nat × α)) :
    through level (ls ++ ls') = through level ls := by
  induction ls with
  | nil =>
      rcases h with ⟨l, hl, _⟩
      cases hl
  | cons l ls ih =>
      rw [List.cons_append, through, through]
      by_cases hl : l.1 = level
      · rw [if_pos hl, if_pos hl]
      · rw [if_neg hl, if_neg hl, ih ((List.exists_mem_cons_iff ..).mp h |>.resolve_left hl)]

theorem through_append_of_not_exists {level : Nat} {ls : List (Nat × α)}
    (h : ¬ ∃ l ∈ ls, l.1 = level) (ls' : List (Nat × α)) :
    through level (ls ++ ls') = ls ++ through level ls' := by
  induction ls with
  | nil => rfl
  | cons l ls ih =>
      rw [List.exists_mem_cons_iff, not_or] at h
      rw [List.cons_append, through, if_neg h.1, ih h.2, List.cons_append]

/-- Of a tree's lines, those up to the first at a level are not below it. -/
theorem level_le_of_mem_through {t : KeyTree α} {level : Nat} {l : Nat × α} :
    ∀ {depth : Nat}, depth ≤ level → l ∈ through level (outline depth t) → l.1 ≤ level := by
  induction t with
  | nil =>
      intro depth _ hl
      cases hl
  | node key sub rest ihsub ihrest =>
      intro depth hdepth hl
      rw [outline, through] at hl
      by_cases heq : depth = level
      · rw [if_pos heq, List.mem_singleton] at hl
        rw [hl]
        exact hdepth
      · have hbelow : depth + 1 ≤ level := Nat.lt_of_le_of_ne hdepth heq
        rw [if_neg heq, List.mem_cons] at hl
        rcases hl with rfl | hl
        · exact hdepth
        · by_cases hsub : ∃ l ∈ outline (depth + 1) sub, l.1 = level
          · rw [through_append_of_exists hsub] at hl
            exact ihsub hbelow hl
          · rw [through_append_of_not_exists hsub, List.mem_append] at hl
            rcases hl with hl | hl
            · rw [← through_eq_self hsub] at hl
              exact ihsub hbelow hl
            · exact ihrest hdepth hl

/-- What is read from lines above a level has no longer paths. -/
theorem length_le_of_mem_ofOutline {n : Nat} (ls : List (Nat × α)) :
    ∀ {depth : Nat} {p : List α}, (∀ l ∈ ls, l.1 < n) → p ∈ (ofOutline depth ls).paths →
      depth + p.length ≤ n := by
  induction ls with
  | nil =>
      intro depth p _ hp
      cases hp
  | cons l ls ih =>
      intro depth p h hp
      obtain ⟨d, key⟩ := l
      have hfirst : d < n := h (d, key) (List.mem_cons_self ..)
      have hrest : ∀ l ∈ ls, l.1 < n := fun l hl => h l (List.mem_cons_of_mem _ hl)
      rw [ofOutline] at hp
      by_cases hlt : d < depth
      · rw [if_pos hlt] at hp
        cases hp
      · rw [if_neg hlt] at hp
        by_cases heq : d = depth
        · rw [if_pos heq] at hp
          rcases mem_paths_node.mp hp with rfl | ⟨q, hq, rfl⟩ | hp
          · rw [List.length_singleton]
            omega
          · have hbelow := ih hrest hq
            rw [List.length_cons]
            omega
          · exact ih hrest hp
        · rw [if_neg heq] at hp
          exact ih hrest hp

end Smoll.Trie.KeyTree
