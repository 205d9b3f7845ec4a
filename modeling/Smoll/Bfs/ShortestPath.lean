/-
# `Smoll.Bfs.ShortestPath` — `shortest-path`

The second `bfs` of `triad-bfs.lisp`, the one in force once the file is
loaded.  A net is an association list from nodes to neighbours, of which
`assoc` takes the first entry.  The queue holds paths, each with its last node
first; `bfs` keeps no list of visited nodes, so on a net with a cycle the
queue need never run empty.  When it does, `(nil)` calls a function that does
not exist.

The paths are the nodes of a tree, `new-paths` its children, and `bfs` is
breadth-first search of it (`bfs_eq_search`).  Level `k` of the tree is the
walks with `k` edges from `start` (`mem_level`), so the first level with a path
to `end` has the shortest walks.
-/
import Smoll.Lib.BreadthFirst
import Mathlib.Data.List.Chain
import Mathlib.Data.Nat.Find

namespace Smoll.Bfs

open BreadthFirst

variable {α : Type}

/-! ## The source -/

/-- An association list from nodes to neighbours. -/
abbrev Net (α : Type) := List (α × List α)

/-- A path, its last node first; there is no empty one. -/
structure Path (α : Type) where
  car : α
  cdr : List α
  deriving DecidableEq, Repr

/-- `(cons n path)`. -/
def Path.cons (n : α) (path : Path α) : Path α := ⟨n, path.car :: path.cdr⟩

/-- `(reverse path)`. -/
def Path.reverse (path : Path α) : List α := (path.car :: path.cdr).reverse

inductive LispError where
  | undefinedFunction (name : String)
  deriving DecidableEq, Repr

section

variable [DecidableEq α]

/-- The first entry of a node. -/
def assoc (node : α) (net : Net α) : Option (α × List α) :=
  net.find? fun entry => entry.1 = node

/-- `(cdr (assoc node net))`, which is `nil` for a node without an entry. -/
def neighbours (net : Net α) (node : α) : List α :=
  match assoc node net with
  | none => []
  | some entry => entry.2

def newPaths (path : Path α) (node : α) (net : Net α) : List (Path α) :=
  (neighbours net node).map fun n => path.cons n

/-- `bfs`, calling itself less than so many times; `none` when that is not enough. -/
def bfs (g : Net α) (e : α) : Nat → List (Path α) → Option (Except LispError (List α))
  | 0, _ => none
  | _ + 1, [] => some (.error (.undefinedFunction "NIL"))
  | calls + 1, v :: q =>
      let c := v.car
      if c = e then some (.ok v.reverse) else bfs g e calls (q ++ newPaths v c g)

def shortestPath (start e : α) (net : Net α) (calls : Nat) :
    Option (Except LispError (List α)) :=
  bfs net e calls [⟨start, []⟩]

end

/-! ## Walks -/

section

variable [DecidableEq α]

def Edge (net : Net α) (a b : α) : Prop := b ∈ neighbours net a

instance (net : Net α) (a b : α) : Decidable (Edge net a b) :=
  inferInstanceAs (Decidable (b ∈ neighbours net a))

/-- A walk of the net, first node first. -/
structure IsWalk (net : Net α) (start e : α) (walk : List α) : Prop where
  begins : walk.head? = some start
  ends : walk.getLast? = some e
  edges : walk.IsChain (Edge net)

/-- A path is a walk from `start`, backwards. -/
structure Path.From (net : Net α) (start : α) (v : Path α) : Prop where
  begins : (v.car :: v.cdr).getLast? = some start
  edges : (v.car :: v.cdr).IsChain fun b a => Edge net a b

theorem Path.From.isWalk {net : Net α} {start : α} {v : Path α} (h : v.From net start) :
    IsWalk net start v.car v.reverse := by
  refine ⟨?_, ?_, ?_⟩
  · rw [Path.reverse, List.head?_reverse]
    exact h.begins
  · rw [Path.reverse, List.getLast?_reverse]
    rfl
  · exact List.isChain_reverse.mpr h.edges

/-- Every walk is a path backwards. -/
theorem IsWalk.exists_path {net : Net α} {start e : α} {walk : List α}
    (h : IsWalk net start e walk) :
    ∃ v : Path α, v.From net start ∧ v.car = e ∧ v.cdr.length + 1 = walk.length := by
  cases hrev : walk.reverse with
  | nil =>
      have hbegins := h.begins
      rw [List.reverse_eq_nil_iff.mp hrev] at hbegins
      cases hbegins
  | cons c cdr =>
      have hwalk : walk = (c :: cdr).reverse := by rw [← hrev, List.reverse_reverse]
      subst hwalk
      refine ⟨⟨c, cdr⟩, ⟨?_, ?_⟩, ?_, ?_⟩
      · rw [← List.head?_reverse]
        exact h.begins
      · exact List.isChain_reverse.mp h.edges
      · have hends := h.ends
        rw [List.getLast?_reverse] at hends
        exact Option.some.inj hends
      · rw [List.length_reverse, List.length_cons]

/-! ## The tree of paths -/

/-- The children of a path. -/
def children (net : Net α) (v : Path α) : List (Path α) := newPaths v v.car net

/-- The path has come to its end. -/
def found (e : α) (v : Path α) : Bool := decide (v.car = e)

/-- `bfs` is breadth-first search of the paths. -/
theorem bfs_eq_search (net : Net α) (e : α) (calls : Nat) :
    ∀ q, bfs net e calls q =
      (search (children net) (found e) calls q).map fun
        | none => .error (.undefinedFunction "NIL")
        | some v => .ok v.reverse := by
  induction calls with
  | zero =>
      intro q
      rfl
  | succ calls ih =>
      intro q
      cases q with
      | nil => rfl
      | cons v q =>
          rcases Decidable.em (v.car = e) with hfound | hother
          · have hgoal : found e v = true := decide_eq_true hfound
            rw [search_goal hgoal]
            exact if_pos hfound
          · have hgoal : found e v = false := decide_eq_false hother
            rw [search_other hgoal]
            exact (if_neg hother).trans (ih _)

theorem mem_children {net : Net α} {u v : Path α} :
    v ∈ children net u ↔ ∃ n, Edge net u.car n ∧ u.cons n = v := List.mem_map

theorem Path.From.cons {net : Net α} {start n : α} {u : Path α} (h : u.From net start)
    (hn : Edge net u.car n) : (u.cons n).From net start := by
  refine ⟨?_, ?_⟩
  · show (n :: u.car :: u.cdr).getLast? = some start
    rw [List.getLast?_cons_cons]
    exact h.begins
  · exact List.IsChain.cons_cons hn h.edges

/-- Level `k` is the walks with `k` edges. -/
theorem mem_level (net : Net α) (start : α) (k : Nat) :
    ∀ v, v ∈ level (children net) [⟨start, []⟩] k ↔ v.cdr.length = k ∧ v.From net start := by
  induction k with
  | zero =>
      intro v
      constructor
      · intro hv
        rw [List.mem_singleton.mp hv]
        exact ⟨rfl, rfl, List.isChain_singleton _⟩
      · rintro ⟨hlen, hfrom⟩
        rcases v with ⟨c, cdr⟩
        have hcdr : cdr = [] := List.eq_nil_of_length_eq_zero hlen
        subst hcdr
        have hc : c = start := Option.some.inj hfrom.begins
        exact List.mem_singleton.mpr (by rw [hc])
  | succ k ih =>
      intro v
      constructor
      · intro hv
        rcases List.mem_flatMap.mp hv with ⟨u, hu, hchild⟩
        rcases mem_children.mp hchild with ⟨n, hn, rfl⟩
        rcases (ih u).mp hu with ⟨hlen, hfrom⟩
        exact ⟨congrArg (· + 1) hlen, hfrom.cons hn⟩
      · rintro ⟨hlen, hfrom⟩
        rcases v with ⟨n, cdr⟩
        cases cdr with
        | nil => cases hlen
        | cons c cdr =>
            have hbegins : (c :: cdr).getLast? = some start := by
              rw [← List.getLast?_cons_cons]
              exact hfrom.begins
            have hedges := List.isChain_cons_cons.mp hfrom.edges
            have hu : (⟨c, cdr⟩ : Path α) ∈ level (children net) [⟨start, []⟩] k :=
              (ih _).mpr ⟨Nat.succ.inj hlen, hbegins, hedges.2⟩
            exact List.mem_flatMap.mpr ⟨_, hu, mem_children.mpr ⟨n, hedges.1, rfl⟩⟩

/-! ## The reachable case -/

/-- **`shortest-path` finds a shortest path.**  If `e` can be reached, the search returns, for
every bound on its calls from some number on, and returns a walk from `start` to `e` such that
none has fewer nodes. -/
theorem shortestPath_of_reachable (net : Net α) {start e : α}
    (hreach : Relation.ReflTransGen (Edge net) start e) :
    ∃ path n, (∀ calls, n ≤ calls → shortestPath start e net calls = some (.ok path)) ∧
      IsWalk net start e path ∧ ∀ walk, IsWalk net start e walk → path.length ≤ walk.length := by
  -- every walk to `e` is a goal in the level of its edges
  have hlevel : ∀ walk, IsWalk net start e walk →
      ∃ t ∈ level (children net) [⟨start, []⟩] (walk.length - 1), found e t = true := by
    intro walk hwalk
    rcases hwalk.exists_path with ⟨v, hfrom, hcar, hlen⟩
    refine ⟨v, (mem_level net start _ v).mpr ⟨by omega, hfrom⟩, decide_eq_true hcar⟩
  have hsome : ∃ k, ∃ t ∈ level (children net) [⟨start, []⟩] k, found e t = true := by
    rcases List.exists_isChain_cons_of_relationReflTransGen hreach with ⟨l, hchain, hlast⟩
    refine ⟨_, hlevel (start :: l) ⟨rfl, ?_, hchain⟩⟩
    rw [List.getLast?_eq_some_getLast (List.cons_ne_nil start l), hlast]
  classical
  have hnone : ∀ j < Nat.find hsome, ∀ t ∈ level (children net) [⟨start, []⟩] j,
      found e t = false := by
    intro j hj t ht
    cases hgoal : found e t with
    | true => exact absurd ⟨t, ht, hgoal⟩ (Nat.find_min hsome hj)
    | false => rfl
  rcases search_first_level (Nat.find_spec hsome) hnone with ⟨n, t, hsearch, ht, hgoal⟩
  rcases (mem_level net start _ t).mp ht with ⟨hlen, hfrom⟩
  have hcar : t.car = e := of_decide_eq_true hgoal
  refine ⟨t.reverse, n, ?_, ?_, ?_⟩
  · intro calls hcalls
    rw [shortestPath, bfs_eq_search, search_mono n hsearch hcalls]
    rfl
  · rw [← hcar]
    exact hfrom.isWalk
  · intro walk hwalk
    have hmin : Nat.find hsome ≤ walk.length - 1 := Nat.find_min' hsome (hlevel walk hwalk)
    rcases hwalk.exists_path with ⟨_, _, _, hpos⟩
    have hpath : t.reverse.length = t.cdr.length + 1 := List.length_reverse
    omega

/-- The net of the source, `((a b c) (b c) (c d))`, with numbers for its letters. -/
def minNet : Net Nat := [(0, [1, 2]), (1, [2]), (2, [3])]

/-- From `a` to `d`, by `c`. -/
theorem shortestPath_of_reachable_minNet :
    ∃ path n, (∀ calls, n ≤ calls → shortestPath 0 3 minNet calls = some (.ok path)) ∧
      IsWalk minNet 0 3 path ∧ path.length ≤ 3 := by
  have hac : Edge minNet 0 2 := by decide
  have hcd : Edge minNet 2 3 := by decide
  rcases shortestPath_of_reachable minNet (Relation.ReflTransGen.head hac (.single hcd))
    with ⟨path, n, hrun, hwalk, hmin⟩
  exact ⟨path, n, hrun, hwalk,
    hmin [0, 2, 3] ⟨rfl, rfl, .cons_cons hac (.cons_cons hcd (.singleton 3))⟩⟩

example : shortestPath 0 3 minNet 6 = some (.ok [0, 2, 3]) := by decide

end

end Smoll.Bfs
