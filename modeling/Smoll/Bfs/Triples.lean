/-
# `Smoll.Bfs.Triples` — the graph and the visited nodes of `triad-bfs.lisp`

A graph is a list of triples `(a label b)`. `filter-all-visited` is to take
out the triples with a visited node at either end; it compares only the first
component, so an edge into a visited node stays (`filter_all_visited_iff`).

The visited nodes are kept by `push-unique`, which adds a node at the end of
the list unless it is there.  It ends a list that is empty from the start
before it comes to the node, so from `'()`, with which `bfs` is called, nothing
is ever kept (`push_unique_iff`).
-/
import Smoll.Lib.Distinct
import Mathlib.Data.List.Basic

namespace Smoll.Bfs

variable {α β : Type}

/-- `(a label b)`. -/
structure Triple (α β : Type) where
  first : α
  label : β
  third : α
deriving DecidableEq, Repr

abbrev Graph (α β : Type) := List (Triple α β)

variable [DecidableEq α]

/-! ## The source -/

def filterVisited : Graph α β → α → Graph α β
  | [], _ => []
  | t :: g, e => if t.first = e then filterVisited g e else t :: filterVisited g e

def filterAllVisited : Graph α β → List α → Graph α β
  | g, [] => g
  | g, e :: els => filterAllVisited (filterVisited g e) els

/-! ## What is filtered -/

theorem filterVisited_eq (g : Graph α β) (e : α) :
    filterVisited g e = g.filter fun t => t.first ≠ e := by
  induction g with
  | nil => rfl
  | cons t g ih =>
      rw [filterVisited, List.filter_cons, ih]
      by_cases h : t.first = e
      · rw [if_pos h, decide_eq_false (not_not_intro h), if_neg Bool.false_ne_true]
      · rw [if_neg h, decide_eq_true h, if_pos rfl]

/-- The first components decide. -/
theorem filterAllVisited_eq (els : List α) :
    ∀ g : Graph α β, filterAllVisited g els = g.filter fun t => t.first ∉ els := by
  induction els with
  | nil =>
      intro g
      have hall : ∀ t ∈ g, decide (t.first ∉ ([] : List α)) = true := by
        intro t _
        exact decide_eq_true List.not_mem_nil
      rw [filterAllVisited, List.filter_eq_self.mpr hall]
  | cons e els ih =>
      intro g
      rw [filterAllVisited, ih, filterVisited_eq, List.filter_filter]
      apply List.filter_congr
      intro t _
      rw [← Bool.decide_and, decide_eq_decide, List.mem_cons, not_or]
      exact And.comm

/-- No visited node at either end; and it only matters which nodes are visited. -/
structure FiltersVisited (g : Graph α β) (els : List α) : Prop where
  ends : filterAllVisited g els = g.filter fun t => t.first ∉ els ∧ t.third ∉ els
  asSet : ∀ els', (∀ e, e ∈ els' ↔ e ∈ els) → filterAllVisited g els' = filterAllVisited g els

theorem filterAllVisited_congr {els els' : List α} (h : ∀ e, e ∈ els' ↔ e ∈ els)
    (g : Graph α β) : filterAllVisited g els' = filterAllVisited g els := by
  rw [filterAllVisited_eq, filterAllVisited_eq]
  apply List.filter_congr
  intro t _
  rw [decide_eq_decide, h]

/-- The visited nodes are filtered out exactly if no edge comes into one of them from a
node that is not visited. -/
theorem filter_all_visited_iff (g : Graph α β) (els : List α) :
    FiltersVisited g els ↔ ∀ t ∈ g, t.third ∈ els → t.first ∈ els := by
  constructor
  · intro h t ht hthird
    by_contra hfirst
    have hleft : t ∈ filterAllVisited g els := by
      rw [filterAllVisited_eq]
      exact List.mem_filter.mpr ⟨ht, decide_eq_true hfirst⟩
    rw [h.ends] at hleft
    exact (of_decide_eq_true (List.mem_filter.mp hleft).2).2 hthird
  · intro h
    refine ⟨?_, fun els' hels' => filterAllVisited_congr hels' g⟩
    rw [filterAllVisited_eq]
    apply List.filter_congr
    intro t ht
    rw [decide_eq_decide]
    constructor
    · intro hfirst
      exact ⟨hfirst, fun hthird => hfirst (h t ht hthird)⟩
    · intro hends
      exact hends.1

/-- The edge `(a 1 b)` comes into the visited node `b`. -/
theorem not_filter_all_visited :
    ¬ ∀ (g : Graph Char Nat) (els : List Char), FiltersVisited g els := by
  intro h
  exact absurd (h [⟨'a', 1, 'b'⟩] ['b']).ends (by decide)

/-! ## The visited nodes -/

def pushUnique : List α → α → List α
  | [], _ => []
  | a :: lst, e =>
      if a = e then a :: lst
      else
        match lst with
        | [] => [a, e]
        | b :: rest => a :: pushUnique (b :: rest) e

/-- The visited list after the nodes were pushed one after another, as `bfs` does. -/
def pushAll (v nodes : List α) : List α := nodes.foldl pushUnique v

/-- A list with something in it gets what is new at its end. -/
theorem pushUnique_cons (a : α) (lst : List α) (e : α) :
    pushUnique (a :: lst) e = Distinct.push (a :: lst) e := by
  induction lst generalizing a with
  | nil =>
      by_cases h : a = e
      · subst h
        rw [pushUnique, if_pos rfl, Distinct.push_cons_self]
      · rw [pushUnique, if_neg h, Distinct.push_cons_of_ne h]
        rfl
  | cons b rest ih =>
      by_cases h : a = e
      · subst h
        rw [pushUnique, if_pos rfl, Distinct.push_cons_self]
      · rw [pushUnique, if_neg h, Distinct.push_cons_of_ne h]
        exact congrArg (a :: ·) (ih b)

theorem pushUnique_of_ne_nil {lst : List α} (h : lst ≠ []) (e : α) :
    pushUnique lst e = Distinct.push lst e := by
  cases lst with
  | nil => exact absurd rfl h
  | cons a lst => exact pushUnique_cons a lst e

/-- Nothing gets into the empty list. -/
theorem pushAll_nil (nodes : List α) : pushAll [] nodes = [] := by
  induction nodes with
  | nil => rfl
  | cons e nodes ih => exact ih

/-- From a first visited node on, the nodes are kept in order of first occurrence. -/
theorem pushAll_of_ne_nil {v : List α} (hv : v ≠ []) (hnodup : v.Nodup) (nodes : List α) :
    pushAll v nodes = (v ++ nodes).eraseDups := by
  have hkeep : ∀ (lst : List α) (e : α), lst ≠ [] → pushUnique lst e ≠ [] := by
    intro lst e hlst
    rw [pushUnique_of_ne_nil hlst]
    unfold Distinct.push
    split
    · exact hlst
    · exact List.append_ne_nil_of_left_ne_nil hlst [e]
  have hloop := Distinct.foldl_eraseDups id pushUnique some (· ≠ []) hkeep
    (fun lst e hlst => pushUnique_of_ne_nil hlst e) hv hnodup nodes
  rw [List.filterMap_some] at hloop
  exact hloop

/-- The element at the end, unless it is there. -/
def PushesUnique (lst : List α) (e : α) : Prop :=
  pushUnique lst e = if e ∈ lst then lst else lst ++ [e]

/-- From `'()`: the distinct nodes in order of first occurrence. -/
structure KeepsVisited (nodes : List α) : Prop where
  order : pushAll [] nodes = nodes.eraseDups
  nodup : (pushAll [] nodes).Nodup
  all : ∀ e, e ∈ pushAll [] nodes ↔ e ∈ nodes

/-- **A node is pushed onto any list but the empty one**, and so no node ever gets into the
visited list that is empty to begin with. -/
theorem push_unique_iff (α : Type) [DecidableEq α] :
    (∀ (lst : List α) (e : α), PushesUnique lst e ↔ lst ≠ []) ∧
      ∀ nodes : List α, KeepsVisited nodes ↔ nodes = [] := by
  constructor
  · intro lst e
    constructor
    · rintro h rfl
      have hnil : ([] : List α) = [e] := h
      cases hnil
    · intro hlst
      exact pushUnique_of_ne_nil hlst e
  · intro nodes
    constructor
    · intro h
      have horder : ([] : List α) = nodes.eraseDups := (pushAll_nil nodes).symm.trans h.order
      exact Distinct.eraseDups_eq_nil.mp horder.symm
    · rintro rfl
      exact ⟨rfl, List.nodup_nil, fun e => Iff.rfl⟩

/-- `(push-unique '() 'a)` is `nil`. -/
theorem not_push_unique :
    ¬ ((∀ (lst : List Char) (e : Char), PushesUnique lst e) ∧
      ∀ nodes : List Char, KeepsVisited nodes) := by
  intro h
  have hnil : ([] : List Char) = ['a'] := h.1 [] 'a'
  cases hnil

end Smoll.Bfs
