/-
# `Smoll.Lib.Sweep` — walking a list by index while it changes

A loop walks a list by index.  At each element it may append to the end of the
list, and it removes the element from the list when that fails.  A removal
moves the rest of the list one place to the front, and the index goes on, so
the element behind a removed one is not visited:

    ahead  w, x, y, …      w stays   next is x
                           w fails   next is y, and x stays unvisited

`Sweep joins ahead visited kept`: on a list with `ahead` from the index on, and
`joins` appended during the visits in turn, the loop visits `visited` and
leaves `kept` in the place of `ahead`.
-/
import Mathlib.Data.List.Nodup
import Mathlib.Data.List.Induction

namespace Smoll

variable {σ : Type} {fails : σ → Bool}

inductive Sweep (fails : σ → Bool) : List (List σ) → List σ → List σ → List σ → Prop
  | done {joins : List (List σ)} : Sweep fails joins [] [] []
  | stays {joins : List (List σ)} {w : σ} {rest visited kept : List σ} :
      fails w = false → Sweep fails joins.tail (rest ++ joins.headD []) visited kept →
      Sweep fails joins (w :: rest) (w :: visited) (w :: kept)
  | goes {joins : List (List σ)} {w : σ} {rest visited kept : List σ} :
      fails w = true →
      Sweep fails joins.tail ((rest ++ joins.headD []).drop 1) visited kept →
      Sweep fails joins (w :: rest) (w :: visited) ((rest ++ joins.headD []).take 1 ++ kept)

namespace Sweep

/-- What is appended during the visits. -/
def joined (joins : List (List σ)) (visits : Nat) : List σ := (joins.take visits).flatten

theorem joined_succ (joins : List (List σ)) (n : Nat) :
    joined joins (n + 1) = joins.headD [] ++ joined joins.tail n := by
  cases joins with
  | nil =>
      show (List.take (n + 1) ([] : List (List σ))).flatten = [] ++ (List.take n []).flatten
      rw [List.take_nil, List.take_nil]
      rfl
  | cons j joins => rfl

theorem joined_sublist (joins : List (List σ)) (n : Nat) :
    (joined joins n).Sublist joins.flatten := by
  have hsplit : joins.flatten = joined joins n ++ (joins.drop n).flatten := by
    rw [joined, ← List.flatten_append, List.take_append_drop]
  rw [hsplit]
  exact List.sublist_append_left _ _

/-- An element stays unless it was visited and failed. -/
def survives [DecidableEq σ] (fails : σ → Bool) (visited : List σ) (x : σ) : Bool :=
  !(fails x && decide (x ∈ visited))

/-- The elements ahead after a visit, and the joining ones. -/
theorem cons_append_joined (joins : List (List σ)) (w : σ) (rest : List σ) (n : Nat) :
    w :: rest ++ joined joins (n + 1) =
      w :: (rest ++ joins.headD [] ++ joined joins.tail n) := by
  rw [joined_succ, List.cons_append, List.append_assoc]

/-- Each element is visited in its turn, or never. -/
theorem visited_sublist {joins : List (List σ)} {ahead visited kept : List σ}
    (h : Sweep fails joins ahead visited kept) :
    visited.Sublist (ahead ++ joined joins visited.length) := by
  induction h with
  | done => exact List.nil_sublist _
  | stays _ _ ih =>
      rw [List.length_cons, cons_append_joined]
      exact ih.cons_cons _
  | goes _ _ ih =>
      rw [List.length_cons, cons_append_joined]
      exact (ih.trans ((List.drop_sublist 1 _).append_right _)).cons_cons _

/-- A visit does not affect the other elements. -/
theorem filter_cons_visited [DecidableEq σ] {w : σ} {l visited : List σ} (hw : w ∉ l) :
    l.filter (survives fails (w :: visited)) = l.filter (survives fails visited) := by
  refine List.filter_congr fun x hx => ?_
  have hne : x ≠ w := fun heq => hw (heq ▸ hx)
  have hmem : x ∈ w :: visited ↔ x ∈ visited := by
    rw [List.mem_cons]
    exact or_iff_right hne
  rw [survives, survives, decide_eq_decide.mpr hmem]

/-- What is not visited stays. -/
theorem filter_unvisited [DecidableEq σ] {l visited : List σ} (h : ∀ x ∈ l, x ∉ visited) :
    l.filter (survives fails visited) = l := by
  refine List.filter_eq_self.mpr fun x hx => ?_
  rw [survives, decide_eq_false (h x hx), Bool.and_false]
  rfl

theorem survives_stays [DecidableEq σ] {w : σ} {visited : List σ} (h : fails w = false) :
    survives fails visited w = true := by
  rw [survives, h]
  rfl

theorem not_survives_goes [DecidableEq σ] {w : σ} {visited : List σ} (h : fails w = true) :
    ¬ survives fails (w :: visited) w = true := by
  have hvisited : decide (w ∈ w :: visited) = true := decide_eq_true (List.mem_cons_self ..)
  rw [survives, h, hvisited]
  nofun

/-- **What is kept.**  The list loses exactly the elements that were visited and failed. -/
theorem kept_eq [DecidableEq σ] {joins : List (List σ)} {ahead visited kept : List σ}
    (h : Sweep fails joins ahead visited kept)
    (hnodup : (ahead ++ joined joins visited.length).Nodup) :
    kept = (ahead ++ joined joins visited.length).filter (survives fails visited) := by
  induction h with
  | done => exact (filter_unvisited fun _ _ => List.not_mem_nil).symm
  | @stays joins w rest visited kept hw _ ih =>
      rw [List.length_cons, cons_append_joined] at hnodup ⊢
      rcases List.nodup_cons.mp hnodup with ⟨hfresh, hrest⟩
      rw [List.filter_cons_of_pos (survives_stays hw), filter_cons_visited hfresh, ← ih hrest]
  | @goes joins w rest visited kept hw hsweep ih =>
      rw [List.length_cons, cons_append_joined] at hnodup ⊢
      rcases List.nodup_cons.mp hnodup with ⟨hfresh, hrest⟩
      rw [List.filter_cons_of_neg (not_survives_goes hw), filter_cons_visited hfresh]
      -- the first of the rest is passed over, the others are walked
      have hsplit : rest ++ joins.headD [] ++ joined joins.tail visited.length =
          (rest ++ joins.headD []).take 1 ++
            ((rest ++ joins.headD []).drop 1 ++ joined joins.tail visited.length) := by
        rw [← List.append_assoc, List.take_append_drop]
      rw [hsplit] at hrest ⊢
      have hskipped : ∀ x ∈ (rest ++ joins.headD []).take 1, x ∉ visited := fun x hx hmem =>
        (List.disjoint_of_nodup_append hrest) hx (hsweep.visited_sublist.subset hmem)
      rw [List.filter_append, filter_unvisited hskipped, ← ih hrest.of_append_right]

/-- **Nothing is passed over** when only the last of the old elements may fail. -/
theorem prefix_visited (old : List σ) :
    ∀ {joins : List (List σ)} {more visited kept : List σ},
      Sweep fails joins (old ++ more) visited kept →
      (∀ w ∈ old.dropLast, fails w = false) → ∀ w ∈ old, w ∈ visited := by
  induction old with
  | nil =>
      intro joins more visited kept _ _ w hw
      cases hw
  | cons v old ih =>
      intro joins more visited kept h hlast w hw
      cases old with
      | nil =>
          rw [List.mem_singleton.mp hw]
          cases h with
          | stays => exact List.mem_cons_self ..
          | goes => exact List.mem_cons_self ..
      | cons u old =>
          have hv : fails v = false := hlast v (List.mem_cons_self ..)
          cases h with
          | goes hfails => exact absurd (hv.symm.trans hfails) nofun
          | @stays _ _ _ visited kept _ hrest =>
              have hrest : Sweep fails joins.tail (u :: old ++ (more ++ joins.headD []))
                  visited kept := by
                rw [← List.append_assoc]
                exact hrest
              rcases List.mem_cons.mp hw with rfl | hw
              · exact List.mem_cons_self ..
              · exact List.mem_cons_of_mem v
                  (ih hrest (fun x hx => hlast x (List.mem_cons_of_mem v hx)) w hw)

/-- **One is passed over** when an old element fails that is not the last of them. -/
theorem exists_unvisited (old : List σ) :
    ∀ {joins : List (List σ)} {more visited kept : List σ},
      Sweep fails joins (old ++ more) visited kept →
      (old ++ more ++ joined joins visited.length).Nodup →
      (∃ w ∈ old.dropLast, fails w = true) → ∃ y ∈ old, y ∉ visited := by
  induction old with
  | nil =>
      rintro joins more visited kept _ _ ⟨w, hw, _⟩
      cases hw
  | cons v old ih =>
      rintro joins more visited kept h hnodup ⟨w, hw, hfails⟩
      cases old with
      | nil => cases hw
      | cons u old =>
          cases h with
          | @stays _ _ _ visited kept hv hrest =>
              have hrest : Sweep fails joins.tail (u :: old ++ (more ++ joins.headD []))
                  visited kept := by
                rw [← List.append_assoc]
                exact hrest
              have hnodup : (v :: (u :: old ++ (more ++ joins.headD []) ++
                  joined joins.tail visited.length)).Nodup := by
                rw [← List.append_assoc (u :: old)]
                exact cons_append_joined joins v (u :: old ++ more) visited.length ▸ hnodup
              rcases List.nodup_cons.mp hnodup with ⟨hfresh, hnodup⟩
              have hw' : w ∈ (u :: old).dropLast := by
                rcases List.mem_cons.mp hw with rfl | hw
                · exact absurd (hv.symm.trans hfails) nofun
                · exact hw
              rcases ih hrest hnodup ⟨w, hw', hfails⟩ with ⟨y, hy, hunvisited⟩
              refine ⟨y, List.mem_cons_of_mem v hy, fun hmem => ?_⟩
              rcases List.mem_cons.mp hmem with rfl | hmem
              · exact hfresh (List.mem_append_left _ (List.mem_append_left _ hy))
              · exact hunvisited hmem
          | @goes _ _ _ visited _ _ hrest =>
              -- the index passes over `u`
              have hnodup : (v :: (u :: (old ++ more ++ joins.headD [] ++
                  joined joins.tail visited.length))).Nodup :=
                cons_append_joined joins v (u :: old ++ more) visited.length ▸ hnodup
              have hfresh := (List.nodup_cons.mp hnodup).1
              have hnodup := (List.nodup_cons.mp hnodup).2
              refine ⟨u, List.mem_cons_of_mem v (List.mem_cons_self ..), fun hmem => ?_⟩
              rcases List.mem_cons.mp hmem with rfl | hmem
              · exact hfresh (List.mem_cons_self ..)
              · exact (List.nodup_cons.mp hnodup).1 (hrest.visited_sublist.subset hmem)

/-! ## Which elements are passed over

Whether an element is passed over depends on the one before it alone: that one
has to be visited and to fail.  In a row of failing elements every other one is
passed over, so what counts is the number of them directly before an element. -/

/-- The element behind `before` is passed over; `passed` says it of the first of `before`. -/
def passedOver (fails : σ → Bool) (passed : Bool) (before : List σ) : Bool :=
  before.foldl (fun passed w => fails w && !passed) passed

/-- How many failing elements a list ends with. -/
def endFails (fails : σ → Bool) (before : List σ) : Nat :=
  (before.reverse.takeWhile fails).length

/-- What is before an element in a list. -/
def ahead [DecidableEq σ] (line : List σ) (w : σ) : List σ :=
  line.takeWhile fun x => decide (x ≠ w)

theorem ahead_self [DecidableEq σ] (w : σ) (rest : List σ) : ahead (w :: rest) w = [] :=
  List.takeWhile_cons_of_neg fun h => of_decide_eq_true h rfl

theorem ahead_cons [DecidableEq σ] {w x : σ} (h : w ≠ x) (rest : List σ) :
    ahead (w :: rest) x = w :: ahead rest x :=
  List.takeWhile_cons_of_pos (decide_eq_true h)

/-- The elements of a line that are visited, in a walk that passes over the first if `passed`. -/
def walk (fails : σ → Bool) : Bool → List σ → List σ
  | _, [] => []
  | true, _ :: rest => walk fails false rest
  | false, w :: rest => w :: walk fails (fails w) rest

theorem walk_drop_one (fails : σ → Bool) (line : List σ) :
    walk fails false (line.drop 1) = walk fails true line := by
  cases line with
  | nil => rfl
  | cons w rest => rfl

/-- A sweep is a walk of the line it has in the end. -/
theorem visited_eq_walk {joins : List (List σ)} {line visited kept : List σ}
    (h : Sweep fails joins line visited kept) :
    visited = walk fails false (line ++ joined joins visited.length) := by
  induction h with
  | done => rfl
  | @stays joins w rest visited kept hw _ ih =>
      rw [List.length_cons, cons_append_joined, walk, hw, ← ih]
  | @goes joins w rest visited kept hw hsweep ih =>
      rw [List.length_cons, cons_append_joined, walk, hw, ← walk_drop_one]
      rcases hrest : rest ++ joins.headD [] with _ | ⟨x, more⟩
      · -- nothing is left, and nothing joins any more
        rw [hrest] at hsweep
        cases hsweep
        rfl
      · rw [hrest] at ih
        exact congrArg (List.cons w) ih

/-- A walk visits what is not passed over. -/
theorem walk_eq_filter [DecidableEq σ] (fails : σ → Bool) (line : List σ) :
    ∀ passed : Bool, line.Nodup → walk fails passed line =
      line.filter fun w => !passedOver fails passed (ahead line w) := by
  induction line with
  | nil =>
      intro passed _
      cases passed with
      | false => rfl
      | true => rfl
  | cons w rest ih =>
      intro passed hnodup
      obtain ⟨hfresh, hrest⟩ := List.nodup_cons.mp hnodup
      have hbehind : ∀ x ∈ rest,
          (!passedOver fails passed (ahead (w :: rest) x)) =
            !passedOver fails (fails w && !passed) (ahead rest x) := by
        intro x hx
        have hne : w ≠ x := fun heq => hfresh (heq ▸ hx)
        rw [ahead_cons hne]
        rfl
      have htail := List.filter_congr hbehind
      have hhead : (!passedOver fails passed (ahead (w :: rest) w)) = !passed := by
        rw [ahead_self]
        rfl
      rw [List.filter_cons, hhead, htail]
      cases passed with
      | true =>
          rw [Bool.not_true, Bool.and_false, if_neg Bool.false_ne_true]
          exact ih false hrest
      | false =>
          rw [Bool.not_false, Bool.and_true, if_pos rfl]
          exact congrArg (List.cons w) (ih (fails w) hrest)

/-- Every other element of a row of failing ones is passed over. -/
theorem passedOver_eq (fails : σ → Bool) (before : List σ) :
    passedOver fails false before = decide (endFails fails before % 2 = 1) := by
  induction before using List.reverseRecOn with
  | nil => rfl
  | append_singleton before w ih =>
      have hstep : passedOver fails false (before ++ [w]) =
          (fails w && !passedOver fails false before) := List.foldl_concat ..
      rw [hstep, ih, endFails, endFails, List.reverse_concat]
      cases hw : fails w with
      | false =>
          rw [List.takeWhile_cons_of_neg (by rw [hw]; exact Bool.false_ne_true)]
          rfl
      | true =>
          rw [List.takeWhile_cons_of_pos hw, List.length_cons, Bool.true_and, ← decide_not]
          refine decide_eq_decide.mpr ?_
          omega

/-- **What is visited.**  The elements with an even number of failing ones directly before
them. -/
theorem visited_eq [DecidableEq σ] {joins : List (List σ)} {line visited kept : List σ}
    (h : Sweep fails joins line visited kept)
    (hnodup : (line ++ joined joins visited.length).Nodup) :
    visited = (line ++ joined joins visited.length).filter fun w =>
      decide (endFails fails (ahead (line ++ joined joins visited.length) w) % 2 = 0) := by
  refine h.visited_eq_walk.trans ((walk_eq_filter fails _ false hnodup).trans ?_)
  refine List.filter_congr fun w _ => ?_
  rw [passedOver_eq, ← decide_not]
  refine decide_eq_decide.mpr ?_
  omega

end Sweep

end Smoll
