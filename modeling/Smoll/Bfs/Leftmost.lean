/-
# `Smoll.Bfs.Leftmost` — which shortest path `shortest-path` returns

There can be many shortest walks.  The one returned depends on the order of the
neighbours in the net, and on nothing else: of two shortest walks, look where
they part; the walk that takes the neighbour that is listed first there is
found first (`Earlier`).

    ((a b c) (b d) (c d))      (a b d), not (a c d)

Level `k` of the tree of paths has its walks in this order, whatever the search
does, and also where a neighbour is listed twice (`earlier_of_leads`).
-/
import Smoll.Bfs.ShortestPath

namespace Smoll.Bfs

open BreadthFirst

variable {α : Type} [DecidableEq α]

/-- At the node where the walks part, `v` goes on to a neighbour listed before that of `w`. -/
def Earlier (net : Net α) (v w : List α) : Prop :=
  ∃ front c n m rest rest', v = front ++ c :: n :: rest ∧ w = front ++ c :: m :: rest' ∧
    n ≠ m ∧ Leads (neighbours net c) n m

theorem Earlier.append {net : Net α} {v w : List α} (h : Earlier net v w) (n m : α) :
    Earlier net (v ++ [n]) (w ++ [m]) := by
  obtain ⟨front, c, n', m', rest, rest', rfl, rfl, hne, hleads⟩ := h
  refine ⟨front, c, n', m', rest ++ [n], rest' ++ [m], ?_, ?_, hne, hleads⟩
  · rw [List.append_assoc]
    rfl
  · rw [List.append_assoc]
    rfl

omit [DecidableEq α] in
theorem Path.reverse_cons (u : Path α) (n : α) : (u.cons n).reverse = u.reverse ++ [n] :=
  List.reverse_cons

omit [DecidableEq α] in
theorem Path.cons_inj {u u' : Path α} {n n' : α} (h : u.cons n = u'.cons n') :
    u = u' ∧ n = n' := by
  cases u
  cases u'
  cases h
  exact ⟨rfl, rfl⟩

/-- The paths of a level are in order. -/
theorem earlier_of_leads (net : Net α) (start : α) (k : Nat) :
    ∀ v w, v ≠ w → w ∈ level (children net) [⟨start, []⟩] k →
      Leads (level (children net) [⟨start, []⟩] k) v w →
      Earlier net v.reverse w.reverse := by
  induction k with
  | zero =>
      intro v w hne hw hleads
      have hv := List.mem_singleton.mp hleads.mem
      rw [hv, List.mem_singleton.mp hw] at hne
      exact absurd rfl hne
  | succ k ih =>
      intro v w hne hw hleads
      obtain ⟨u', hu', hchild'⟩ := List.mem_flatMap.mp hw
      obtain ⟨m, _, rfl⟩ := mem_children.mp hchild'
      obtain ⟨u, _, hchild⟩ := List.mem_flatMap.mp hleads.mem
      obtain ⟨n, _, rfl⟩ := mem_children.mp hchild
      have hparent : ∀ x, u.cons n ∈ children net x → x = u := by
        intro x hx
        obtain ⟨n', _, hcons⟩ := mem_children.mp hx
        exact (Path.cons_inj hcons).1
      rw [Path.reverse_cons, Path.reverse_cons]
      rcases Leads.of_flatMap hparent hchild' _ hleads with ⟨rfl, hsiblings⟩ | ⟨hapart, hparents⟩
      · -- the walks part at the last node of `u`
        have hnm : n ≠ m := fun heq => hne (by rw [heq])
        have hneighbours : Leads (neighbours net u.car) n m :=
          hsiblings.of_map fun _ _ heq => (Path.cons_inj heq).2
        have hreverse : ∀ i, u.reverse ++ [i] = u.cdr.reverse ++ u.car :: [i] := by
          intro i
          rw [Path.reverse, List.reverse_cons, List.append_assoc]
          rfl
        exact ⟨u.cdr.reverse, u.car, n, m, [], [], hreverse n, hreverse m, hnm, hneighbours⟩
      · exact (ih u u' hapart hu' hparents).append n m

/-- A walk is a path of the level of its edges. -/
theorem IsWalk.exists_goal {net : Net α} {start e : α} {walk : List α}
    (h : IsWalk net start e walk) :
    ∃ v ∈ level (children net) [⟨start, []⟩] (walk.length - 1),
      found e v = true ∧ v.reverse = walk := by
  cases hrev : walk.reverse with
  | nil =>
      have hbegins := h.begins
      rw [List.reverse_eq_nil_iff.mp hrev] at hbegins
      cases hbegins
  | cons c cdr =>
      have hwalk : (⟨c, cdr⟩ : Path α).reverse = walk := by
        rw [Path.reverse, ← hrev, List.reverse_reverse]
      subst hwalk
      have hlen : (⟨c, cdr⟩ : Path α).reverse.length - 1 = cdr.length := by
        rw [Path.reverse, List.length_reverse, List.length_cons]
        rfl
      have hends := h.ends
      rw [Path.reverse, List.getLast?_reverse] at hends
      refine ⟨⟨c, cdr⟩, ?_, decide_eq_true (Option.some.inj hends), rfl⟩
      rw [hlen]
      refine (mem_level net start _ _).mpr ⟨rfl, ?_, List.isChain_reverse.mp h.edges⟩
      rw [← List.head?_reverse]
      exact h.begins

/-- **The shortest path that is found** is the first: every other walk to `e` has more nodes, or
as many, and where it parts from the path it takes a neighbour that is listed later. -/
theorem shortestPath_first (net : Net α) {start e : α}
    (hreach : Relation.ReflTransGen (Edge net) start e) :
    ∃ path n, (∀ calls, n ≤ calls → shortestPath start e net calls = some (.ok path)) ∧
      IsWalk net start e path ∧
      ∀ walk, IsWalk net start e walk → walk ≠ path →
        path.length < walk.length ∨ path.length = walk.length ∧ Earlier net path walk := by
  have hsome : ∃ k, ∃ t ∈ level (children net) [⟨start, []⟩] k, found e t = true := by
    obtain ⟨l, hchain, hlast⟩ := List.exists_isChain_cons_of_relationReflTransGen hreach
    have hwalk : IsWalk net start e (start :: l) := by
      refine ⟨rfl, ?_, hchain⟩
      rw [List.getLast?_eq_some_getLast (List.cons_ne_nil start l), hlast]
    obtain ⟨t, ht, hgoal, _⟩ := hwalk.exists_goal
    exact ⟨_, t, ht, hgoal⟩
  classical
  have hnone : ∀ j < Nat.find hsome, ∀ t ∈ level (children net) [⟨start, []⟩] j,
      found e t = false := by
    intro j hj t ht
    cases hgoal : found e t with
    | true => exact absurd ⟨t, ht, hgoal⟩ (Nat.find_min hsome hj)
    | false => rfl
  obtain ⟨n, t, hsearch, hgoal, hleads⟩ := search_first_goal (Nat.find_spec hsome) hnone
  obtain ⟨hlen, hfrom⟩ := (mem_level net start _ t).mp (hleads t hgoal).mem
  have hcar : t.car = e := of_decide_eq_true hgoal
  have hpath : t.reverse.length = t.cdr.length + 1 := List.length_reverse
  refine ⟨t.reverse, n, ?_, ?_, ?_⟩
  · intro calls hcalls
    rw [shortestPath, bfs_eq_search, search_mono n hsearch hcalls]
    rfl
  · rw [← hcar]
    exact hfrom.isWalk
  · intro walk hwalk hne
    obtain ⟨v, hv, hfound, rfl⟩ := hwalk.exists_goal
    have hvlen : v.reverse.length = v.cdr.length + 1 := List.length_reverse
    have hmin : Nat.find hsome ≤ v.reverse.length - 1 := Nat.find_min' hsome ⟨v, hv, hfound⟩
    rcases Nat.lt_or_ge t.reverse.length v.reverse.length with hlt | hge
    · exact .inl hlt
    · have hlevel : v.reverse.length - 1 = Nat.find hsome := by omega
      rw [hlevel] at hv
      refine .inr ⟨by omega, ?_⟩
      exact earlier_of_leads net start _ t v (fun heq => hne (by rw [heq])) hv (hleads v hfound)

/-- Two shortest walks from `a` to `d`. -/
def twoWays : Net Nat := [(0, [1, 2]), (1, [3]), (2, [3])]

theorem shortestPath_first_twoWays :
    ∃ path n, (∀ calls, n ≤ calls → shortestPath 0 3 twoWays calls = some (.ok path)) ∧
      IsWalk twoWays 0 3 path ∧
      ∀ walk, IsWalk twoWays 0 3 walk → walk ≠ path →
        path.length < walk.length ∨ path.length = walk.length ∧ Earlier twoWays path walk := by
  have hac : Edge twoWays 0 2 := by decide
  have hcd : Edge twoWays 2 3 := by decide
  exact shortestPath_first twoWays (Relation.ReflTransGen.head hac (.single hcd))

example : shortestPath 0 3 twoWays 6 = some (.ok [0, 1, 3]) := by decide

end Smoll.Bfs
