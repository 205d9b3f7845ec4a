/-
# `Smoll.Bfs.Unreachable` — `shortest-path` when there is no path

The clause `((null q) (nil)) ; not found` is meant to return `nil`; it calls a
function named NIL, which does not exist.  So the search never returns `nil`.
When `end` cannot be reached no path of the tree is a goal, and two things are
left: the queue runs empty, when the walks from `start` are bounded, and the
call raises an error; or it never does, and the search goes on for ever.
-/
import Smoll.Bfs.ShortestPath

namespace Smoll.Bfs

open BreadthFirst

variable {α : Type} [DecidableEq α]

/-- The search returns `nil`, for every bound on its calls from some number on. -/
def ReturnsNil (start e : α) (net : Net α) : Prop :=
  ∃ n, ∀ calls, n ≤ calls → shortestPath start e net calls = some (.ok [])

/-- The search raises the error of the clause "not found". -/
def Raises (start e : α) (net : Net α) : Prop :=
  ∃ n, ∀ calls, n ≤ calls →
    shortestPath start e net calls = some (.error (.undefinedFunction "NIL"))

/-- No number of calls is enough. -/
def SearchesForEver (start e : α) (net : Net α) : Prop :=
  ∀ calls, shortestPath start e net calls = none

/-- No walk from `start` has more than so many nodes. -/
def WalksBounded (net : Net α) (start : α) : Prop :=
  ∃ k, ∀ walk : List α, walk.head? = some start → walk.IsChain (Edge net) → walk.length ≤ k

/-! ## The levels -/

theorem level_eq_nil_of_le {net : Net α} {roots : List (Path α)} {k m : Nat} (hle : k ≤ m)
    (hk : level (children net) roots k = []) : level (children net) roots m = [] := by
  induction hle with
  | refl => exact hk
  | step _ ih =>
      show (level (children net) roots _).flatMap _ = []
      rw [ih]
      rfl

/-- A level is empty exactly when the walks are bounded. -/
theorem level_eq_nil_iff (net : Net α) (start : α) :
    (∃ k, level (children net) [⟨start, []⟩] k = []) ↔ WalksBounded net start := by
  constructor
  · rintro ⟨k, hk⟩
    refine ⟨k, fun walk hhead hchain => ?_⟩
    cases hlast : walk.getLast? with
    | none =>
        rw [List.getLast?_eq_none_iff.mp hlast]
        exact Nat.zero_le k
    | some e =>
        have hwalk : IsWalk net start e walk := ⟨hhead, hlast, hchain⟩
        rcases hwalk.exists_path with ⟨v, hfrom, _, hlen⟩
        by_contra hlong
        have hv := (mem_level net start v.cdr.length v).mpr ⟨rfl, hfrom⟩
        rw [level_eq_nil_of_le (by omega) hk] at hv
        cases hv
  · rintro ⟨k, hk⟩
    refine ⟨k, List.eq_nil_iff_forall_not_mem.mpr fun v hv => ?_⟩
    rcases (mem_level net start k v).mp hv with ⟨hlen, hfrom⟩
    have hwalk := hk v.reverse hfrom.isWalk.begins hfrom.isWalk.edges
    have hreverse : v.reverse.length = v.cdr.length + 1 := List.length_reverse
    omega

/-- The last node of a walk can be reached. -/
theorem Path.From.reaches {net : Net α} {start : α} {v : Path α} (h : v.From net start) :
    Relation.ReflTransGen (Edge net) start v.car := by
  rcases v with ⟨c, cdr⟩
  rcases h with ⟨hbegins, hedges⟩
  induction cdr generalizing c with
  | nil =>
      cases hbegins
      exact .refl
  | cons b cdr ih =>
      rw [List.getLast?_cons_cons] at hbegins
      rcases List.isChain_cons_cons.mp hedges with ⟨hedge, hrest⟩
      exact (ih b hbegins hrest).tail hedge

theorem no_goal_of_unreachable {net : Net α} {start e : α}
    (h : ¬ Relation.ReflTransGen (Edge net) start e) (k : Nat) :
    ∀ t ∈ level (children net) [⟨start, []⟩] k, found e t = false := by
  intro t ht
  refine decide_eq_false fun hcar => h ?_
  rw [← hcar]
  exact ((mem_level net start k t).mp ht).2.reaches

/-! ## What the search does -/

theorem raises_iff_search (net : Net α) (start e : α) :
    Raises start e net ↔
      ∃ n, search (children net) (found e) n [⟨start, []⟩] = some none := by
  constructor
  · rintro ⟨n, hn⟩
    have hrun := hn n (Nat.le_refl n)
    rw [shortestPath, bfs_eq_search] at hrun
    refine ⟨n, ?_⟩
    cases hsearch : search (children net) (found e) n [⟨start, []⟩] with
    | none =>
        rw [hsearch] at hrun
        cases hrun
    | some r =>
        cases r with
        | none => rfl
        | some v =>
            rw [hsearch] at hrun
            cases hrun
  · rintro ⟨n, hn⟩
    refine ⟨n, fun calls hcalls => ?_⟩
    rw [shortestPath, bfs_eq_search, search_mono n hn hcalls]
    rfl

theorem raises_iff_walksBounded {net : Net α} {start e : α}
    (h : ¬ Relation.ReflTransGen (Edge net) start e) :
    Raises start e net ↔ WalksBounded net start := by
  rw [raises_iff_search, search_empties_iff (no_goal_of_unreachable h), level_eq_nil_iff]

/-- A path is found only when there is one. -/
theorem search_ne_some {net : Net α} {start e : α}
    (h : ¬ Relation.ReflTransGen (Edge net) start e) (n : Nat) (t : Path α) :
    search (children net) (found e) n [⟨start, []⟩] ≠ some (some t) := by
  intro hsearch
  rcases search_some n hsearch with ⟨hgoal, k, ht⟩
  rw [no_goal_of_unreachable h k t ht] at hgoal
  cases hgoal

/-- Without a path every bound is too small or the error is raised. -/
theorem shortestPath_cases {net : Net α} {start e : α}
    (h : ¬ Relation.ReflTransGen (Edge net) start e) (calls : Nat) :
    shortestPath start e net calls = none ∨
      shortestPath start e net calls = some (.error (.undefinedFunction "NIL")) := by
  rw [shortestPath, bfs_eq_search]
  cases hsearch : search (children net) (found e) calls [⟨start, []⟩] with
  | none => exact .inl rfl
  | some r =>
      cases r with
      | none => exact .inr rfl
      | some t => exact absurd hsearch (search_ne_some h calls t)

theorem searchesForEver_iff {net : Net α} {start e : α}
    (h : ¬ Relation.ReflTransGen (Edge net) start e) :
    SearchesForEver start e net ↔ ¬ Raises start e net := by
  constructor
  · rintro hever ⟨n, hn⟩
    have hrun := hn n (Nat.le_refl n)
    rw [hever n] at hrun
    cases hrun
  · intro hnot calls
    rcases shortestPath_cases h calls with hnone | herror
    · exact hnone
    · refine absurd ((raises_iff_search net start e).mpr ⟨calls, ?_⟩) hnot
      cases hsearch : search (children net) (found e) calls [⟨start, []⟩] with
      | none =>
          rw [shortestPath, bfs_eq_search, hsearch] at herror
          cases herror
      | some r =>
          cases r with
          | none => rfl
          | some t => exact absurd hsearch (search_ne_some h calls t)

/-- **`nil` is never returned.**  When `end` cannot be reached, `shortest-path` raises the error
of the undefined function NIL if the walks from `start` are bounded, and searches for ever if
they are not. -/
theorem never_returnsNil {net : Net α} {start e : α}
    (h : ¬ Relation.ReflTransGen (Edge net) start e) :
    ¬ ReturnsNil start e net ∧
      (WalksBounded net start → Raises start e net) ∧
      (¬ WalksBounded net start → SearchesForEver start e net) := by
  refine ⟨?_, (raises_iff_walksBounded h).mpr, ?_⟩
  · rintro ⟨n, hn⟩
    have hrun := hn n (Nat.le_refl n)
    rcases shortestPath_cases h n with hnone | herror
    · rw [hnone] at hrun
      cases hrun
    · rw [herror] at hrun
      cases hrun
  · intro hunbounded
    rw [searchesForEver_iff h, raises_iff_walksBounded h]
    exact hunbounded

/-- One node with an edge to itself. -/
def loopNet : Net Nat := [(0, [0])]

theorem loopNet_unreachable : ¬ Relation.ReflTransGen (Edge loopNet) 0 1 := by
  have hzero : ∀ b, Relation.ReflTransGen (Edge loopNet) 0 b → b = 0 := by
    intro b hb
    induction hb with
    | refl => rfl
    | tail _ hedge ih =>
        rw [ih] at hedge
        exact List.mem_singleton.mp hedge
  intro h
  cases hzero 1 h

theorem never_returnsNil_loopNet : ¬ ReturnsNil 0 1 loopNet :=
  (never_returnsNil loopNet_unreachable).1

/-- From `d` to `a` in the net of the source: there is no path, and the result is not `nil`. -/
theorem not_returnsNil_minNet :
    ¬ (¬ Relation.ReflTransGen (Edge minNet) 3 0 → ReturnsNil 3 0 minNet) := by
  intro h
  have hstuck : ∀ b, Relation.ReflTransGen (Edge minNet) 3 b → b = 3 := by
    intro b hb
    induction hb with
    | refl => rfl
    | tail _ hedge ih =>
        rw [ih] at hedge
        cases hedge
  have hunreachable : ¬ Relation.ReflTransGen (Edge minNet) 3 0 := fun hreach => by
    cases hstuck 0 hreach
  rcases h hunreachable with ⟨n, hn⟩
  have hraised : shortestPath 3 0 minNet (n + 2) = some (.error (.undefinedFunction "NIL")) := rfl
  rw [hn (n + 2) (Nat.le_add_right n 2)] at hraised
  cases hraised

end Smoll.Bfs
