/-
# `Smoll.Prolog.Interface` — the chain of a class and its interface

The chain of `c` is empty at a root, and otherwise the superclass of `c` and
then its chain (`Chains.cases`); by induction along `extends` it is the path
from `c` to its root.  The interface puts the methods of `c` before those of
the chain and drops repetitions, so that the own methods stay in front.
-/
import Smoll.Lib.Distinct
import Smoll.Prolog.Inheritance

namespace Smoll.Prolog

open Solutions

variable {C I M : Type} [DecidableEq C]

namespace Database

variable {db : Database C I M}

/-! ## The chain -/

/-- The solutions of `inheritance_chain`, for every class. -/
structure Chains (db : Database C I M) (chain : C → List C) : Prop where
  settles : ∀ c, Settles (fun depth => db.inheritanceChain depth (some c)) [chain c]
  eq : ∀ c, chain c = db.directFathers c ++ (db.fathers c).flatMap chain

theorem WellFormed.exists_chains (h : db.WellFormed) : ∃ chain, Chains db chain := by
  rcases exists_solutions db.directFathers h.wellFounded_up with ⟨chain, hsettles, heq⟩
  refine ⟨chain, ⟨fun c => ?_, heq⟩⟩
  have hfound := (hsettles c).map fun xs => [xs]
  simp only [← classInheritance_eq] at hfound
  exact hfound

omit [DecidableEq C] in
theorem eq_singleton {l : List C} {x : C} (hnodup : l.Nodup) (hmem : ∀ y, y ∈ l ↔ y = x) :
    l = [x] := by
  refine List.perm_singleton.mp ?_
  refine (List.perm_ext_iff_of_nodup hnodup (List.nodup_singleton x)).mpr fun y => ?_
  rw [hmem, List.mem_singleton]

namespace Chains

variable {chain : C → List C} (hdb : db.WellFormed) (h : Chains db chain)
include hdb h

/-- A class and its superclass. -/
theorem of_extends {c f : C} (hf : db.Extends c f) : chain c = f :: chain f := by
  have hdirect : db.directFathers c = [f] := by
    refine eq_singleton (hdb.nodup_directFathers c) fun y => ?_
    rw [hdb.mem_directFathers]
    exact ⟨fun hy => hdb.father_unique hy hf, fun hy => hy ▸ hf⟩
  have hnext : db.fathers c = [f] := by
    refine eq_singleton (hdb.nodup_fathers c) fun y => ?_
    rw [db.mem_fathers]
    exact ⟨fun hy => hdb.father_unique hy hf, fun hy => hy ▸ hf⟩
  rw [h.eq, hdirect, hnext, List.flatMap_singleton]
  rfl

/-- A root. -/
theorem of_root {c : C} (hc : ∀ f, ¬ db.Extends c f) : chain c = [] := by
  have hdirect : db.directFathers c = [] :=
    List.eq_nil_iff_forall_not_mem.mpr fun f hf => hc f (hdb.mem_directFathers.mp hf)
  have hnext : db.fathers c = [] :=
    List.eq_nil_iff_forall_not_mem.mpr fun f hf => hc f (db.mem_fathers.mp hf)
  rw [h.eq, hdirect, hnext]
  rfl

theorem mem_chain {c a : C} : a ∈ chain c ↔ db.Ancestor c a := by
  rw [mem_solutions hdb.wellFounded_up h.eq a c]
  constructor
  · rintro ⟨z, hreach, ha⟩
    refine Relation.TransGen.tail' ?_ (hdb.mem_directFathers.mp ha)
    exact Relation.ReflTransGen.mono (fun _ _ hf => db.mem_fathers.mp hf) _ _ hreach
  · intro ha
    rcases Relation.TransGen.tail'_iff.mp ha with ⟨z, hreach, hlast⟩
    refine ⟨z, ?_, hdb.mem_directFathers.mpr hlast⟩
    exact Relation.ReflTransGen.mono (fun _ _ hf => db.mem_fathers.mpr hf) _ _ hreach

/-- The path from a class to its root. -/
theorem path (c : C) : (c :: chain c).IsChain db.Extends ∧
    ∀ root ∈ (c :: chain c).getLast?, ∀ f, ¬ db.Extends root f := by
  induction c using hdb.wellFounded_up.induction with
  | _ c ih =>
      rcases Classical.em (∃ f, db.Extends c f) with ⟨f, hf⟩ | hroot
      · rcases ih f (db.mem_fathers.mpr hf) with ⟨hchain, hlast⟩
        rw [h.of_extends hdb hf]
        refine ⟨hchain.cons_cons hf, ?_⟩
        rw [List.getLast?_cons_cons]
        exact hlast
      · have hnone : ∀ f, ¬ db.Extends c f := fun f hf => hroot ⟨f, hf⟩
        rw [h.of_root hdb hnone]
        refine ⟨.singleton c, ?_⟩
        intro root hlast
        cases hlast
        exact hnone

theorem nodup (c : C) : (c :: chain c).Nodup := by
  have hpath : (c :: chain c).IsChain db.Ancestor :=
    (h.path hdb c).1.imp fun _ _ hf => .single hf
  have hpairwise : (c :: chain c).Pairwise db.Ancestor := by
    have htrans : IsTrans C db.Ancestor := ⟨fun _ _ _ hab hbc => hab.trans hbc⟩
    exact List.isChain_iff_pairwise.mp hpath
  refine hpairwise.imp fun {a b} hab heq => ?_
  rw [heq] at hab
  exact hdb.acyclic b hab

end Chains

/-- **Inheritance chain.**  It has one solution: the path from the superclass to the root, each
proper ancestor once. -/
theorem inheritance_chain (hdb : db.WellFormed) (c : C) :
    ∃ chain, Settles (fun depth => db.inheritanceChain depth (some c)) [chain] ∧
      (∀ a, a ∈ chain ↔ db.Ancestor c a) ∧ chain.Nodup ∧
      (c :: chain).IsChain db.Extends ∧
      ∀ root ∈ (c :: chain).getLast?, ∀ f, ¬ db.Extends root f := by
  rcases hdb.exists_chains with ⟨chain, h⟩
  refine ⟨chain c, h.settles c, fun a => h.mem_chain hdb, ?_, h.path hdb c⟩
  exact (List.nodup_cons.mp (h.nodup hdb c)).2

theorem inheritance_chain_stackClasses :
    ∃ chain, Settles (fun depth => stackClasses.inheritanceChain depth (some "Stack2")) [chain] ∧
      ("Stack2" :: chain).IsChain stackClasses.Extends := by
  rcases inheritance_chain stackClasses_wellFormed "Stack2" with ⟨chain, hsettles, _, _, hpath, _⟩
  exact ⟨chain, hsettles, hpath⟩

example : stackClasses.inheritanceChain 4 (some "Stack2") =
    some [["ResettableBoundedStack", "BoundedStack", "Stack"]] := by decide

/-! ## The interface -/

variable [DecidableEq M]

/-- `class'` defines or refines the method itself. -/
def Declares (db : Database C I M) (class' : C) (method : M) : Prop :=
  (class', method) ∈ db.definesFacts ∨ (class', method) ∈ db.refinesFacts

/-- The solutions of `class_methods` of a class. -/
def ownMethods (db : Database C I M) (c : C) : List M :=
  ((db.definesFacts.filter fun fact => unifies (some c) fact.1).map Prod.snd) ++
    ((db.refinesFacts.filter fun fact => unifies (some c) fact.1).map Prod.snd)

omit [DecidableEq M] in
theorem mem_methods {c : C} {method : M} (facts : List (C × M)) :
    method ∈ (facts.filter fun fact => unifies (some c) fact.1).map Prod.snd ↔
      (c, method) ∈ facts := by
  rw [List.mem_map]
  constructor
  · rintro ⟨⟨c', m⟩, hfact, rfl⟩
    rcases List.mem_filter.mp hfact with ⟨hmem, hmatch⟩
    have hc : c = c' := of_decide_eq_true hmatch
    rw [hc]
    exact hmem
  · intro h
    exact ⟨(c, method), List.mem_filter.mpr ⟨h, decide_eq_true rfl⟩, rfl⟩

omit [DecidableEq M] in
theorem mem_ownMethods {c : C} {method : M} :
    method ∈ db.ownMethods c ↔ db.Declares c method := by
  rw [ownMethods, List.mem_append, mem_methods, mem_methods, Declares]

omit [DecidableEq M] in
theorem classMethods_atom (c : C) : db.classMethods (.atom c) = some (db.ownMethods c) := rfl

omit [DecidableEq M] in
/-- Of a list: the methods of its classes in turn. -/
theorem classMethods_ofList (l : List C) :
    db.classMethods (.ofList l) = some (l.flatMap db.ownMethods) := by
  induction l with
  | nil => rfl
  | cons c l ih =>
      rw [Term.ofList, classMethods, classMethods_atom, ih]
      rfl

/-- The first list stays in front. -/
theorem listToSet_append {α : Type} [DecidableEq α] (l l' : List α) :
    ∃ rest, listToSet (l ++ l') = listToSet l ++ rest ∧ ∀ x ∈ rest, x ∉ l := by
  refine ⟨(l'.removeAll l).eraseDups, List.eraseDups_append, fun x hx => ?_⟩
  have hx := (List.mem_filter.mp (List.mem_eraseDups.mp hx)).2
  intro hmem
  rw [List.elem_eq_true_of_mem hmem] at hx
  cases hx

/-- **Interface of a class.**  It has one solution, without repetitions: the methods that the
class or one of its ancestors defines or refines, its own methods first. -/
theorem interface_solution (hdb : db.WellFormed) (c : C) :
    ∃ methods, Settles (fun depth => db.interface depth c) [methods] ∧ methods.Nodup ∧
      (∀ method, method ∈ methods ↔
        ∃ a, (a = c ∨ db.Ancestor c a) ∧ db.Declares a method) ∧
      ∃ own inherited, methods = own ++ inherited ∧
        (∀ method, method ∈ own ↔ db.Declares c method) ∧
        ∀ method ∈ inherited, ¬ db.Declares c method := by
  rcases hdb.exists_chains with ⟨chain, h⟩
  refine ⟨listToSet (db.ownMethods c ++ (chain c).flatMap db.ownMethods), ?_, ?_, ?_, ?_⟩
  · rcases h.settles c with ⟨n, hn⟩
    refine ⟨n, fun depth hdepth => ?_⟩
    have hchain : db.inheritanceChain depth (some c) = some [chain c] := hn depth hdepth
    show db.interface depth c = _
    rw [interface, hchain]
    show Answers.or (Answers.and (Answers.findall (db.classMethods _)) _) (some []) = _
    rw [classMethods_ofList, classMethods_atom]
    rfl
  · exact Distinct.nodup_eraseDups _
  · intro method
    rw [listToSet, List.mem_eraseDups, List.mem_append, List.mem_flatMap]
    constructor
    · rintro (hown | ⟨a, ha, hmethod⟩)
      · exact ⟨c, .inl rfl, mem_ownMethods.mp hown⟩
      · exact ⟨a, .inr ((h.mem_chain hdb).mp ha), mem_ownMethods.mp hmethod⟩
    · rintro ⟨a, rfl | ha, hmethod⟩
      · exact .inl (mem_ownMethods.mpr hmethod)
      · exact .inr ⟨a, (h.mem_chain hdb).mpr ha, mem_ownMethods.mpr hmethod⟩
  · rcases listToSet_append (db.ownMethods c) ((chain c).flatMap db.ownMethods)
      with ⟨inherited, heq, hnew⟩
    refine ⟨_, inherited, heq, fun method => ?_, fun method hmethod hown => ?_⟩
    · rw [listToSet, List.mem_eraseDups, mem_ownMethods]
    · exact hnew method hmethod (mem_ownMethods.mpr hown)

/-- The interface of `BoundedStack` has what `Stack` defines. -/
theorem interface_solution_stackClasses :
    ∃ methods, Settles (fun depth => stackClasses.interface depth "BoundedStack") [methods] ∧
      methods.Nodup ∧ Method.mk "public" "String" "pop" ["void"] ∈ methods := by
  rcases interface_solution stackClasses_wellFormed "BoundedStack"
    with ⟨methods, hsettles, hnodup, hmem, _⟩
  refine ⟨methods, hsettles, hnodup, (hmem _).mpr ⟨"Stack", .inr (.single ?_), .inl ?_⟩⟩
  · exact List.mem_cons_self ..
  · exact List.mem_cons_self ..

end Database

end Smoll.Prolog
