/-
# `Smoll.Lib.BreadthFirst` — breadth-first search of a tree

A tree is given by the `children` of a node; it may be infinite.  The search
keeps a queue: it takes the first node, stops when that is a goal, and puts
the node's children at the end otherwise.  Nothing is remembered of the nodes
taken, so the search visits the levels of the tree one after another,

    level 0 = the first queue,    level (k + 1) = the children of level k,

and stops in the first level that has a goal (`search_first_level`).  The queue
is always the rest of one level and the beginning of the next; `search_block`
is the step from level to level, `search_levels` the induction on them.  Without
a goal the search ends when, and only when, a level is empty
(`search_empties_iff`); a tree that never ends is searched for ever.

`search` takes a number of nodes to visit: `none` means that these were not
enough, `some none` that the queue has run empty.
-/
import Mathlib.Init

namespace Smoll.BreadthFirst

variable {τ : Type} (children : τ → List τ) (goal : τ → Bool)

/-- The search, visiting at most so many nodes. -/
def search : Nat → List τ → Option (Option τ)
  | 0, _ => none
  | _ + 1, [] => some none
  | n + 1, t :: queue =>
      if goal t = true then some (some t) else search n (queue ++ children t)

/-- The levels of the tree. -/
def level (roots : List τ) : Nat → List τ
  | 0 => roots
  | k + 1 => (level roots k).flatMap children

variable {children goal}

theorem search_goal {t : τ} (ht : goal t = true) (n : Nat) (queue : List τ) :
    search children goal (n + 1) (t :: queue) = some (some t) := if_pos ht

theorem search_other {t : τ} (ht : goal t = false) (n : Nat) (queue : List τ) :
    search children goal (n + 1) (t :: queue) = search children goal n (queue ++ children t) := by
  refine if_neg ?_
  rw [ht]
  nofun

/-- A result stays when more nodes may be visited. -/
theorem search_mono {r : Option τ} (n : Nat) :
    ∀ {m : Nat} {queue : List τ}, search children goal n queue = some r → n ≤ m →
      search children goal m queue = some r := by
  induction n with
  | zero =>
      intro m queue h
      cases h
  | succ n ih =>
      intro m queue h hle
      cases m with
      | zero => omega
      | succ m =>
          cases queue with
          | nil => exact h
          | cons t queue =>
              cases ht : goal t with
              | true =>
                  rw [search_goal ht] at h ⊢
                  exact h
              | false =>
                  rw [search_other ht] at h ⊢
                  exact ih h (Nat.le_of_succ_le_succ hle)

/-- Nodes that are no goals are replaced by their children, behind the rest of the queue. -/
theorem search_block (front : List τ) :
    ∀ (rest : List τ) (n : Nat), (∀ t ∈ front, goal t = false) →
      search children goal (front.length + n) (front ++ rest) =
        search children goal n (rest ++ front.flatMap children) := by
  induction front with
  | nil =>
      intro rest n _
      rw [List.flatMap_nil, List.append_nil, List.nil_append, List.length_nil, Nat.zero_add]
  | cons t front ih =>
      intro rest n hfront
      have ht : goal t = false := hfront t (List.mem_cons_self ..)
      have hrest := ih (rest ++ children t) n fun u hu => hfront u (List.mem_cons_of_mem t hu)
      rw [List.length_cons, Nat.add_right_comm, List.cons_append, search_other ht,
        List.append_assoc, hrest, List.flatMap_cons, List.append_assoc]

/-- Levels without a goal are passed. -/
theorem search_levels (roots : List τ) (k : Nat) :
    (∀ j < k, ∀ t ∈ level children roots j, goal t = false) →
      ∃ m, ∀ n, search children goal (m + n) roots =
        search children goal n (level children roots k) := by
  induction k with
  | zero =>
      intro _
      refine ⟨0, fun n => ?_⟩
      rw [Nat.zero_add]
      rfl
  | succ k ih =>
      intro hnone
      rcases ih fun j hj => hnone j (Nat.lt_succ_of_lt hj) with ⟨m, hm⟩
      refine ⟨m + (level children roots k).length, fun n => ?_⟩
      have hblock : search children goal ((level children roots k).length + n)
          (level children roots k ++ []) =
            search children goal n ([] ++ level children roots (k + 1)) :=
        search_block _ [] n (hnone k (Nat.lt_succ_self k))
      rw [List.append_nil, List.nil_append] at hblock
      rw [Nat.add_assoc, hm, hblock]

/-- A queue with a goal in it: the first one is found. -/
theorem search_queue (children : τ → List τ) {queue : List τ} (h : ∃ t ∈ queue, goal t = true) :
    ∃ n t, search children goal n queue = some (some t) ∧ t ∈ queue ∧ goal t = true := by
  rcases Option.isSome_iff_exists.mp (List.find?_isSome.mpr h) with ⟨t, hfind⟩
  rcases List.find?_eq_some_iff_append.mp hfind with ⟨ht, front, rest, rfl, hfront⟩
  have hnone : ∀ u ∈ front, goal u = false := fun u hu => Bool.not_eq_true' _ ▸ hfront u hu
  refine ⟨front.length + 1, t, ?_, List.mem_append_right front (List.mem_cons_self ..), ht⟩
  rw [search_block front (t :: rest) 1 hnone]
  exact search_goal ht 0 _

/-- **The first level with a goal.**  The search stops there, at a goal. -/
theorem search_first_level {roots : List τ} {d : Nat}
    (hgoal : ∃ t ∈ level children roots d, goal t = true)
    (hnone : ∀ j < d, ∀ t ∈ level children roots j, goal t = false) :
    ∃ n t, search children goal n roots = some (some t) ∧ t ∈ level children roots d ∧
      goal t = true := by
  rcases search_levels roots d hnone with ⟨m, hm⟩
  rcases search_queue children hgoal with ⟨n, t, hfound, ht, hgoalt⟩
  exact ⟨m + n, t, (hm n).trans hfound, ht, hgoalt⟩

/-! ## Which goal of the level -/

/-- `v` stands in the list, and `w` does not stand in front of it. -/
def Leads (l : List τ) (v w : τ) : Prop := ∃ front rest, l = front ++ v :: rest ∧ w ∉ front

theorem Leads.mem {l : List τ} {v w : τ} (h : Leads l v w) : v ∈ l := by
  obtain ⟨front, rest, rfl, _⟩ := h
  exact List.mem_append_right front (List.mem_cons_self ..)

theorem Leads.cons {x v w : τ} {l : List τ} (h : Leads l v w) (hx : w ≠ x) :
    Leads (x :: l) v w := by
  obtain ⟨front, rest, rfl, hfront⟩ := h
  refine ⟨x :: front, rest, rfl, ?_⟩
  intro hmem
  rcases List.mem_cons.mp hmem with heq | hmem
  · exact hx heq
  · exact hfront hmem

/-- Images, under a map that keeps `w` apart. -/
theorem Leads.of_map {σ : Type} {f : σ → τ} (hf : ∀ a b, f a = f b → a = b) {l : List σ}
    {v w : σ} (h : Leads (l.map f) (f v) (f w)) : Leads l v w := by
  obtain ⟨front, rest, hsplit, hfront⟩ := h
  obtain ⟨front', rest', rfl, rfl, hrest⟩ := List.map_eq_append_iff.mp hsplit
  obtain ⟨v', rest'', rfl, hv, _⟩ := List.map_eq_cons_iff.mp hrest
  obtain rfl := hf v' v hv
  exact ⟨front', rest'', rfl, fun hw => hfront (List.mem_map_of_mem hw)⟩

/-- The children that lead have a parent that leads, or lead among the children of one. -/
theorem Leads.of_flatMap {f : τ → List τ} {u u' v w : τ} (hv : ∀ x, v ∈ f x → x = u)
    (hw : w ∈ f u') (l : List τ) :
    Leads (l.flatMap f) v w → u = u' ∧ Leads (f u) v w ∨ u ≠ u' ∧ Leads l u u' := by
  induction l with
  | nil =>
      intro h
      cases h.mem
  | cons x l ih =>
      rintro ⟨front, rest, hsplit, hfront⟩
      rw [List.flatMap_cons] at hsplit
      -- `v` stands behind the children of `x`, or among them
      have hbehind : ∀ front', front = f x ++ front' →
          l.flatMap f = front' ++ v :: rest →
            u = u' ∧ Leads (f u) v w ∨ u ≠ u' ∧ Leads (x :: l) u u' := by
        intro front' hfront' hrest
        rw [hfront'] at hfront
        have hx : u' ≠ x := by
          rintro rfl
          exact hfront (List.mem_append_left _ hw)
        have hw' : w ∉ front' := fun hmem => hfront (List.mem_append_right _ hmem)
        rcases ih ⟨front', rest, hrest, hw'⟩ with hsame | ⟨hne, hleads⟩
        · exact .inl hsame
        · exact .inr ⟨hne, hleads.cons hx⟩
      rcases List.append_eq_append_iff.mp hsplit with ⟨front', hfront', hrest⟩ | ⟨mid, hx, hmid⟩
      · exact hbehind front' hfront' hrest
      · cases mid with
        | nil =>
            rw [List.append_nil] at hx
            rw [List.nil_append] at hmid
            exact hbehind [] (by rw [List.append_nil, hx]) hmid.symm
        | cons c mid =>
            obtain ⟨rfl, _⟩ := List.cons.inj hmid
            have hmem : v ∈ f x := by
              rw [hx]
              exact List.mem_append_right front (List.mem_cons_self ..)
            obtain rfl := hv x hmem
            by_cases hsame : x = u'
            · exact .inl ⟨hsame, front, mid, hx, hfront⟩
            · exact .inr ⟨hsame, [], l, rfl, List.not_mem_nil⟩

/-- **The first goal of the level.**  The search stops at the goal that leads all others. -/
theorem search_first_goal {roots : List τ} {d : Nat}
    (hgoal : ∃ t ∈ level children roots d, goal t = true)
    (hnone : ∀ j < d, ∀ t ∈ level children roots j, goal t = false) :
    ∃ n t, search children goal n roots = some (some t) ∧ goal t = true ∧
      ∀ w, goal w = true → Leads (level children roots d) t w := by
  obtain ⟨m, hm⟩ := search_levels roots d hnone
  obtain ⟨t, hfind⟩ := Option.isSome_iff_exists.mp (List.find?_isSome.mpr hgoal)
  obtain ⟨ht, front, rest, hlevel, hfront⟩ := List.find?_eq_some_iff_append.mp hfind
  have hnone : ∀ u ∈ front, goal u = false := fun u hu => Bool.not_eq_true' _ ▸ hfront u hu
  refine ⟨m + (front.length + 1), t, ?_, ht, ?_⟩
  · rw [hm, hlevel, search_block front (t :: rest) 1 hnone]
    exact search_goal ht 0 _
  · intro w hw
    refine ⟨front, rest, hlevel, fun hmem => ?_⟩
    have hother := hnone w hmem
    rw [hw] at hother
    cases hother

/-! ## A tree without a goal -/

theorem level_append (a b : List τ) (k : Nat) :
    level children (a ++ b) k = level children a k ++ level children b k := by
  induction k with
  | zero => rfl
  | succ k ih =>
      show (level children (a ++ b) k).flatMap children = _
      rw [ih, List.flatMap_append]
      rfl

theorem level_nil (k : Nat) : level children [] k = [] := by
  induction k with
  | zero => rfl
  | succ k ih =>
      show (level children [] k).flatMap children = []
      rw [ih]
      rfl

/-- The levels below the first are those of its children. -/
theorem level_succ (roots : List τ) (k : Nat) :
    level children roots (k + 1) = level children (roots.flatMap children) k := by
  induction k with
  | zero => rfl
  | succ k ih =>
      show (level children roots (k + 1)).flatMap children = _
      rw [ih]
      rfl

/-- What the search returns is a goal, of some level. -/
theorem search_some {t : τ} (n : Nat) :
    ∀ {queue : List τ}, search children goal n queue = some (some t) →
      goal t = true ∧ ∃ k, t ∈ level children queue k := by
  induction n with
  | zero =>
      intro queue h
      cases h
  | succ n ih =>
      intro queue h
      cases queue with
      | nil => cases h
      | cons u queue =>
          cases hu : goal u with
          | true =>
              rw [search_goal hu] at h
              cases h
              exact ⟨hu, 0, List.mem_cons_self ..⟩
          | false =>
              rw [search_other hu] at h
              rcases ih h with ⟨ht, k, hk⟩
              refine ⟨ht, ?_⟩
              rw [level_append] at hk
              rcases List.mem_append.mp hk with hk | hk
              · refine ⟨k, ?_⟩
                rw [← List.singleton_append, level_append]
                exact List.mem_append_right _ hk
              · refine ⟨k + 1, ?_⟩
                rw [level_succ, List.flatMap_cons, level_append]
                exact List.mem_append_left _ hk

/-- A search that runs empty in `n` steps has no level `n`. -/
theorem level_of_search_none (n : Nat) :
    ∀ {queue : List τ}, search children goal n queue = some none → level children queue n = [] := by
  induction n with
  | zero =>
      intro queue h
      cases h
  | succ n ih =>
      intro queue h
      rw [level_succ]
      cases queue with
      | nil => exact level_nil n
      | cons u queue =>
          cases hu : goal u with
          | true =>
              rw [search_goal hu] at h
              cases h
          | false =>
              rw [search_other hu] at h
              have hlevel := ih h
              rw [level_append, List.append_eq_nil_iff] at hlevel
              rw [List.flatMap_cons, level_append, hlevel.2, ← level_succ, List.nil_append]
              show (level children queue n).flatMap children = []
              rw [hlevel.1]
              rfl

/-- **A tree without a goal.**  The search ends exactly when a level is empty. -/
theorem search_empties_iff {roots : List τ}
    (hnone : ∀ k, ∀ t ∈ level children roots k, goal t = false) :
    (∃ n, search children goal n roots = some none) ↔ ∃ k, level children roots k = [] := by
  constructor
  · rintro ⟨n, hn⟩
    exact ⟨n, level_of_search_none n hn⟩
  · rintro ⟨k, hk⟩
    rcases search_levels roots k fun j _ => hnone j with ⟨m, hm⟩
    refine ⟨m + 1, ?_⟩
    rw [hm, hk]
    rfl

end Smoll.BreadthFirst
