/-
# `Smoll.Prolog.Descendence` — the rules downwards

`class_descendence` finds the proper descendants of a class, each once: two
children of a class have no common descendant, and no child is a descendant of
another, because `extends` is single and has no cycle.  So the rules down and
up describe one relation (`mem_down`), and `provides_interface` lists a class
that implements the interface with all its descendants.
-/
import Smoll.Prolog.Interface

namespace Smoll.Prolog

open Solutions

variable {C I M : Type} [DecidableEq C]

namespace Database

variable {db : Database C I M}

/-! ## The forest -/

namespace WellFormed

variable (h : db.WellFormed)
include h

/-- No class above `c` is a child of `c`. -/
theorem not_reaches_child {c x : C} (hx : db.Extends x c)
    (hreach : Relation.ReflTransGen db.Extends c x) : False :=
  h.acyclic c (Relation.TransGen.tail' hreach hx)

/-- What is above a child is above its superclass. -/
theorem ancestor_of_child {c x a : C} (hx : db.Extends x c) (ha : db.Ancestor x a) :
    Relation.ReflTransGen db.Extends c a := by
  rcases Relation.TransGen.head'_iff.mp ha with ⟨f, hf, hreach⟩
  rw [h.father_unique hx hf]
  exact hreach

/-- Children of one class do not lie above each other. -/
theorem child_unique {c x y : C} (hx : db.Extends x c) (hy : db.Extends y c)
    (hreach : Relation.ReflTransGen db.Extends x y) : x = y := by
  rcases Relation.reflTransGen_iff_eq_or_transGen.mp hreach with heq | habove
  · exact heq.symm
  · exact (h.not_reaches_child hy (h.ancestor_of_child hx habove)).elim

/-- Children of one class have no common descendant. -/
theorem child_of_common {c x y d : C} (hx : db.Extends x c) (hy : db.Extends y c)
    (hdx : db.Ancestor d x) (hdy : db.Ancestor d y) : x = y := by
  have hunique : Relator.RightUnique db.Extends := fun _ _ _ hf hf' => h.father_unique hf hf'
  rcases Relation.ReflTransGen.total_of_right_unique hunique hdx.to_reflTransGen
    hdy.to_reflTransGen with hxy | hyx
  · exact h.child_unique hx hy hxy
  · exact (h.child_unique hy hx hyx).symm

end WellFormed

/-! ## The descendants -/

/-- The solutions of `inheritance_chain_down`, for every class. -/
structure Descents (db : Database C I M) (down : C → List C) : Prop where
  settles : ∀ c, Settles (fun depth => db.inheritanceChainDown depth (some c)) [down c]
  eq : ∀ c, down c = db.directChildren c ++ (db.children c).flatMap down

theorem WellFormed.exists_descents (h : db.WellFormed) : ∃ down, Descents db down := by
  rcases exists_solutions db.directChildren h.wellFounded_down with ⟨down, hsettles, heq⟩
  refine ⟨down, ⟨fun c => ?_, heq⟩⟩
  have hfound := (hsettles c).map fun xs => [xs]
  simp only [← classDescendence_eq] at hfound
  exact hfound

namespace Descents

variable {down : C → List C} (hdb : db.WellFormed) (h : Descents db down)
include hdb h

theorem mem_down {c d : C} : d ∈ down c ↔ db.Ancestor d c := by
  rw [mem_solutions hdb.wellFounded_down h.eq d c]
  constructor
  · rintro ⟨z, hreach, hd⟩
    refine Relation.TransGen.head' (hdb.mem_directChildren.mp hd) ?_
    refine Relation.reflTransGen_swap.mp ?_
    exact Relation.ReflTransGen.mono (fun _ _ hx => db.mem_children.mp hx) _ _ hreach
  · intro hd
    rcases Relation.TransGen.head'_iff.mp hd with ⟨z, hfirst, hreach⟩
    refine ⟨z, ?_, hdb.mem_directChildren.mpr hfirst⟩
    refine Relation.ReflTransGen.mono (fun _ _ hx => db.mem_children.mpr hx) _ _ ?_
    exact Relation.reflTransGen_swap.mpr hreach

/-- Each descendant is found once. -/
theorem nodup (c : C) : (down c).Nodup := by
  induction c using hdb.wellFounded_down.induction with
  | _ c ih =>
      rw [h.eq c, List.nodup_append']
      refine ⟨hdb.nodup_directChildren c, ?_, ?_⟩
      · refine List.nodup_flatMap.mpr ⟨ih, ?_⟩
        refine (hdb.nodup_children c).imp_of_mem ?_
        intro x y hx hy hne d hdx hdy
        exact hne (hdb.child_of_common (db.mem_children.mp hx) (db.mem_children.mp hy)
          ((h.mem_down hdb).mp hdx) ((h.mem_down hdb).mp hdy))
      · intro d hd hmem
        rcases List.mem_flatMap.mp hmem with ⟨x, hx, hdx⟩
        exact hdb.not_reaches_child (db.mem_children.mp hx)
          (hdb.ancestor_of_child (hdb.mem_directChildren.mp hd) ((h.mem_down hdb).mp hdx))

theorem nodup_self (c : C) : (c :: down c).Nodup :=
  List.nodup_cons.mpr ⟨fun hc => hdb.acyclic c ((h.mem_down hdb).mp hc), h.nodup hdb c⟩

end Descents

/-! ## The interfaces -/

variable [DecidableEq I]

/-- The solutions of `provides_interface`, with `down` for the descendants. -/
def provided (db : Database C I M) (down : C → List C) (class' : Option C)
    (interface : Option I) : List (C × I × List C) :=
  (db.interfaceFacts.filter (unifies interface)).flatMap fun i =>
    (db.implementsFacts.filter fun fact =>
      unifies class' fact.1 && unifies (some i) fact.2).flatMap fun fact =>
        [(fact.1, i, [fact.1] ++ down fact.1)]

theorem Descents.provides_settles {down : C → List C} (h : Descents db down)
    (class' : Option C) (interface : Option I) :
    Settles (fun depth => db.providesInterface depth class' interface)
      (db.provided down class' interface) := by
  have hall : ∃ n, ∀ depth, n ≤ depth → ∀ c ∈ db.implementsFacts.map Prod.fst,
      db.inheritanceChainDown depth (some c) = some [down c] :=
    settles_all _ fun c _ => h.settles c
  rcases hall with ⟨n, hn⟩
  refine ⟨n, fun depth hdepth => ?_⟩
  refine Answers.and_some fun i _ => Answers.and_some fun fact hfact => ?_
  have hmem := List.mem_map_of_mem (f := Prod.fst) (List.mem_filter.mp hfact).1
  rw [hn depth hdepth fact.1 hmem]
  rfl

theorem mem_provided {down : C → List C} {class' : Option C} {interface : Option I}
    {s : C × I × List C} :
    s ∈ db.provided down class' interface ↔
      s.2.1 ∈ db.interfaceFacts ∧ (s.1, s.2.1) ∈ db.implementsFacts ∧
        unifies class' s.1 = true ∧ unifies interface s.2.1 = true ∧ s.2.2 = s.1 :: down s.1 := by
  rcases s with ⟨c, i, list⟩
  constructor
  · intro hs
    rcases List.mem_flatMap.mp hs with ⟨i', hi', hs⟩
    rcases List.mem_flatMap.mp hs with ⟨⟨c', i''⟩, hfact, hs⟩
    cases List.mem_singleton.mp hs
    rcases List.mem_filter.mp hi' with ⟨hi, hinterface⟩
    rcases List.mem_filter.mp hfact with ⟨hmem, hmatch⟩
    rcases (Bool.and_eq_true _ _).mp hmatch with ⟨hclass, hi''⟩
    have heq : i = i'' := of_decide_eq_true hi''
    rw [← heq] at hmem
    exact ⟨hi, hmem, hclass, hinterface, rfl⟩
  · rintro ⟨hi, hmem, hclass, hinterface, hlist⟩
    have hlist : list = c :: down c := hlist
    rw [hlist]
    refine List.mem_flatMap.mpr ⟨i, List.mem_filter.mpr ⟨hi, hinterface⟩, ?_⟩
    refine List.mem_flatMap.mpr ⟨(c, i), List.mem_filter.mpr ⟨hmem, ?_⟩, List.mem_singleton.mpr rfl⟩
    rw [Bool.and_eq_true]
    exact ⟨hclass, decide_eq_true rfl⟩

/-- **Down and up agree.**  `d` is found below `c` exactly when `c` is found above `d`; a class
that implements a declared interface is listed with exactly the classes whose chain has it, each
once; and every class that implements the interface, itself or by an ancestor, is listed. -/
theorem provides_interface_agrees (hdb : db.WellFormed) :
    ∃ up down : C → List C,
      (∀ d, Settles (fun depth => db.inheritanceChain depth (some d)) [up d]) ∧
      (∀ c, Settles (fun depth => db.inheritanceChainDown depth (some c)) [down c]) ∧
      (∀ c d, d ∈ down c ↔ c ∈ up d) ∧
      (∀ c i, i ∈ db.interfaceFacts → (c, i) ∈ db.implementsFacts →
        ∃ solutions,
          Settles (fun depth => db.providesInterface depth (some c) (some i)) solutions ∧
          solutions ≠ [] ∧ ∀ s ∈ solutions, s.1 = c ∧ s.2.1 = i ∧ c ∈ s.2.2 ∧ s.2.2.Nodup ∧
            ∀ d, d ∈ s.2.2 ↔ d = c ∨ c ∈ up d) ∧
      ∀ i ∈ db.interfaceFacts,
        ∃ solutions, Settles (fun depth => db.providesInterface depth none (some i)) solutions ∧
          ∀ d a, (a = d ∨ a ∈ up d) → (a, i) ∈ db.implementsFacts →
            ∃ s ∈ solutions, d ∈ s.2.2 := by
  rcases hdb.exists_chains with ⟨up, hup⟩
  rcases hdb.exists_descents with ⟨down, hdown⟩
  have hagree : ∀ c d, d ∈ down c ↔ c ∈ up d := fun c d => by
    rw [hdown.mem_down hdb, hup.mem_chain hdb]
  refine ⟨up, down, hup.settles, hdown.settles, hagree, ?_, ?_⟩
  · intro c i hi hc
    have hself : ∀ {α : Type} [DecidableEq α] (a : α), unifies (some a) a = true :=
      fun a => decide_eq_true rfl
    refine ⟨_, hdown.provides_settles (some c) (some i), ?_, ?_⟩
    · have hsolution : (c, i, c :: down c) ∈ db.provided down (some c) (some i) :=
        mem_provided.mpr ⟨hi, hc, hself c, hself i, rfl⟩
      exact List.ne_nil_of_mem hsolution
    · intro s hs
      rcases mem_provided.mp hs with ⟨_, _, hclass, hinterface, hlist⟩
      have hc : c = s.1 := of_decide_eq_true hclass
      have hi : i = s.2.1 := of_decide_eq_true hinterface
      rw [hlist, ← hc]
      refine ⟨rfl, hi.symm, List.mem_cons_self .., hdown.nodup_self hdb c, fun d => ?_⟩
      rw [← hagree]
      exact List.mem_cons
  · intro i hi
    refine ⟨_, hdown.provides_settles none (some i), fun d a hda ha => ?_⟩
    refine ⟨(a, i, a :: down a), ?_, ?_⟩
    · exact mem_provided.mpr ⟨hi, ha, rfl, decide_eq_true rfl, rfl⟩
    · rcases hda with rfl | ha
      · exact List.mem_cons_self ..
      · exact List.mem_cons_of_mem a ((hagree a d).mpr ha)

/-- `BoundedStack` implements `Lockable`. -/
theorem provides_interface_agrees_stackClasses :
    ∃ solutions, Settles (fun depth =>
        stackClasses.providesInterface depth (some "BoundedStack") (some "Lockable")) solutions ∧
      ∀ s ∈ solutions, s.2.2.Nodup := by
  rcases provides_interface_agrees stackClasses_wellFormed with ⟨_, _, _, _, _, hlist, _⟩
  rcases hlist "BoundedStack" "Lockable" (List.mem_cons_self ..) (List.mem_cons_self ..)
    with ⟨solutions, hsettles, _, hs⟩
  exact ⟨solutions, hsettles, fun s hmem => (hs s hmem).2.2.2.1⟩

example : stackClasses.providesInterface 4 none (some "Lockable") =
    some [("BoundedStack", "Lockable", ["BoundedStack", "ResettableBoundedStack", "Stack2"])] := by
  decide

end Database

end Smoll.Prolog
