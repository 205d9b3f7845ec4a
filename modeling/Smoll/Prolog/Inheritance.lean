/-
# `Smoll.Prolog.Inheritance` — what the recursive rules find

Under single inheritance, with every class of the `extends` facts declared once
and no cycle, the classes are a forest and the two recursive rules walk it up
and down (`WellFormed`).  Up, the solutions are one path, from the direct
superclass to the root; down, they are the whole subtree, each class once,
because the path from a class to any of its ancestors is unique.
-/
import Smoll.Prolog.JavaAnalysis
import Mathlib.Data.List.Chain
import Mathlib.Data.List.Count
import Mathlib.Data.List.Perm.Basic

namespace Smoll.Prolog

open Solutions

variable {C I M : Type} [DecidableEq C]

namespace Database

variable (db : Database C I M)

/-- `class'` extends `father`. -/
def Extends (class' father : C) : Prop := (class', father) ∈ db.extendsFacts

/-- Proper ancestors. -/
def Ancestor (class' ancestor : C) : Prop := Relation.TransGen db.Extends class' ancestor

structure WellFormed : Prop where
  /-- each class of an `extends` fact has one `class` fact -/
  declared : ∀ fact ∈ db.extendsFacts,
    db.classFacts.count fact.1 = 1 ∧ db.classFacts.count fact.2 = 1
  /-- each class extends at most one class -/
  single : (db.extendsFacts.map Prod.fst).Nodup
  acyclic : ∀ c, ¬ db.Ancestor c c

/-! ## The rules as walks -/

/-- The solutions of the first clause of `class_inheritance`. -/
def directFathers (c : C) : List C :=
  (db.classFacts.filter (unifies (some c))).flatMap fun c' =>
    db.classFacts.flatMap fun father =>
      (db.extendsFacts.filter fun fact =>
        unifies (some c') fact.1 && unifies (some father) fact.2).map fun _ => father

/-- Where the second clause goes. -/
def fathers (c : C) : List C :=
  (db.extendsFacts.filter fun fact => unifies (some c) fact.1 && true).map Prod.snd

/-- The solutions of the first clause of `class_descendence`. -/
def directChildren (c : C) : List C :=
  db.classFacts.flatMap fun child =>
    (db.classFacts.filter (unifies (some c))).flatMap fun c' =>
      (db.extendsFacts.filter fun fact =>
        unifies (some child) fact.1 && unifies (some c') fact.2).map fun _ => child

def children (c : C) : List C :=
  (db.extendsFacts.filter fun fact => true && unifies (some c) fact.2).map Prod.fst

theorem filter_unifies_none {α : Type} [DecidableEq α] (l : List α) :
    l.filter (unifies none) = l := List.filter_eq_self.mpr fun _ _ => rfl

/-- The first clause of `class_inheritance`. -/
theorem inheritance_base (c : C) :
    (Answers.and (db.isClass (some c)) fun c' =>
      Answers.and (db.isClass none) fun father =>
      Answers.and (db.extends' (some c') (some father)) fun _ =>
      some [(c', father)]).map (List.map Prod.snd) = some (db.directFathers c) := by
  have hfacts : ∀ c' father, Answers.and (db.extends' (some c') (some father))
      (fun _ => some [(c', father)]) = some _ := fun c' father => Answers.and_pure _ _
  have hfathers : ∀ c', Answers.and (db.isClass none) (fun father =>
      Answers.and (db.extends' (some c') (some father)) fun _ => some [(c', father)]) = some _ :=
    fun c' => Answers.and_some fun father _ => hfacts c' father
  rw [isClass, Answers.and_some fun c' _ => hfathers c', Option.map_some, List.map_flatMap,
    filter_unifies_none]
  simp only [List.map_flatMap, List.map_map]
  rfl

/-- The first clause of `class_descendence`. -/
theorem descendence_base (c : C) :
    (Answers.and (db.isClass none) fun child =>
      Answers.and (db.isClass (some c)) fun c' =>
      Answers.and (db.extends' (some child) (some c')) fun _ =>
      some [(child, c')]).map (List.map Prod.fst) = some (db.directChildren c) := by
  have hfacts : ∀ child c', Answers.and (db.extends' (some child) (some c'))
      (fun _ => some [(child, c')]) = some _ := fun child c' => Answers.and_pure _ _
  have hclasses : ∀ child, Answers.and (db.isClass (some c)) (fun c' =>
      Answers.and (db.extends' (some child) (some c')) fun _ => some [(child, c')]) = some _ :=
    fun child => Answers.and_some fun c' _ => hfacts child c'
  rw [isClass, Answers.and_some fun child _ => hclasses child, Option.map_some, List.map_flatMap,
    filter_unifies_none]
  simp only [List.map_flatMap, List.map_map]
  rfl

/-- Upward, from one class. -/
theorem classInheritance_eq (depth : Nat) :
    ∀ c, (db.classInheritance depth (some c) none).map (List.map Prod.snd) =
      descend db.directFathers db.fathers depth c := by
  induction depth with
  | zero =>
      intro c
      rfl
  | succ depth ih =>
      intro c
      have hcall : ∀ fact : C × C,
          (Answers.and (db.classInheritance depth (some fact.2) none) fun found =>
            some [(fact.1, found.2)]).map (List.map Prod.snd) =
              descend db.directFathers db.fathers depth fact.2 := by
        intro fact
        rw [Answers.and_pure, Option.map_map, ← ih fact.2]
        congr 1
        funext xs
        exact List.map_map
      rw [classInheritance, ← Answers.or_map, inheritance_base, descend]
      congr 1
      show (Answers.each _ (db.extendsFacts.filter _)).map (List.map Prod.snd) =
        Answers.each _ _
      rw [← Answers.each_map]
      simp only [hcall]
      exact Answers.each_comp Prod.snd _ _

/-- Downward, from one class. -/
theorem classDescendence_eq (depth : Nat) :
    ∀ c, (db.classDescendence depth none (some c)).map (List.map Prod.fst) =
      descend db.directChildren db.children depth c := by
  induction depth with
  | zero =>
      intro c
      rfl
  | succ depth ih =>
      intro c
      have hcall : ∀ fact : C × C,
          (Answers.and (db.classDescendence depth none (some fact.1)) fun found =>
            some [(found.1, fact.2)]).map (List.map Prod.fst) =
              descend db.directChildren db.children depth fact.1 := by
        intro fact
        rw [Answers.and_pure, Option.map_map, ← ih fact.1]
        congr 1
        funext xs
        exact List.map_map
      rw [classDescendence, ← Answers.or_map, descendence_base, descend]
      congr 1
      show (Answers.each _ (db.extendsFacts.filter _)).map (List.map Prod.fst) =
        Answers.each _ _
      rw [← Answers.each_map]
      simp only [hcall]
      exact Answers.each_comp Prod.fst _ _

/-! ## The facts of a well-formed database -/

theorem mem_fathers {c father : C} : father ∈ db.fathers c ↔ db.Extends c father := by
  rw [fathers, List.mem_map]
  constructor
  · rintro ⟨⟨c', father'⟩, hfact, rfl⟩
    rcases List.mem_filter.mp hfact with ⟨hmem, hmatch⟩
    rw [Bool.and_true] at hmatch
    have hc : c = c' := of_decide_eq_true hmatch
    rw [hc]
    exact hmem
  · intro h
    refine ⟨(c, father), List.mem_filter.mpr ⟨h, ?_⟩, rfl⟩
    rw [Bool.and_true]
    exact decide_eq_true rfl

theorem mem_children {c child : C} : child ∈ db.children c ↔ db.Extends child c := by
  rw [children, List.mem_map]
  constructor
  · rintro ⟨⟨child', c'⟩, hfact, rfl⟩
    rcases List.mem_filter.mp hfact with ⟨hmem, hmatch⟩
    rw [Bool.true_and] at hmatch
    have hc : c = c' := of_decide_eq_true hmatch
    rw [hc]
    exact hmem
  · intro h
    refine ⟨(child, c), List.mem_filter.mpr ⟨h, ?_⟩, rfl⟩
    rw [Bool.true_and]
    exact decide_eq_true rfl

instance (c father : C) : Decidable (db.Extends c father) :=
  inferInstanceAs (Decidable ((c, father) ∈ db.extendsFacts))

variable {db}

namespace WellFormed

variable (h : db.WellFormed)
include h

theorem father_unique {c f f' : C} (hf : db.Extends c f) (hf' : db.Extends c f') : f = f' := by
  have hnodup := h.single
  have hpair := List.inj_on_of_nodup_map hnodup hf hf' rfl
  exact congrArg Prod.snd hpair

theorem wellFounded_up : WellFounded fun f c => f ∈ db.fathers c := by
  have hwf := wellFounded_of_acyclic db.extendsFacts h.acyclic
  exact Subrelation.wf (fun hf => db.mem_fathers.mp hf) hwf

theorem wellFounded_down : WellFounded fun d c => d ∈ db.children c := by
  have hswap : ∀ c d, (c, d) ∈ db.extendsFacts.map Prod.swap ↔ db.Extends d c := by
    intro c d
    rw [List.mem_map]
    constructor
    · rintro ⟨fact, hfact, hpair⟩
      cases hpair
      exact hfact
    · intro hfact
      exact ⟨(d, c), hfact, rfl⟩
  refine Subrelation.wf (fun hd => ?_) (wellFounded_of_acyclic (db.extendsFacts.map Prod.swap) ?_)
  · exact (hswap _ _).mpr (db.mem_children.mp hd)
  · intro a hcycle
    refine h.acyclic a (Relation.transGen_swap.mp ?_)
    exact Relation.TransGen.mono (fun c d hcd => (hswap c d).mp hcd) _ _ hcycle

/-- One `extends` fact for each pair. -/
theorem extends_once (a b x : C) :
    ((db.extendsFacts.filter fun fact =>
        unifies (some a) fact.1 && unifies (some b) fact.2).map fun _ => x) =
      if db.Extends a b then [x] else [] := by
  have hmatch : (db.extendsFacts.filter fun fact =>
      unifies (some a) fact.1 && unifies (some b) fact.2) =
        List.replicate (db.extendsFacts.count (a, b)) (a, b) := by
    rw [← List.filter_eq]
    refine List.filter_congr fun fact _ => ?_
    rw [unifies, unifies, ← Bool.decide_and, decide_eq_decide, Prod.ext_iff]
    exact and_congr eq_comm eq_comm
  rw [hmatch, (List.Nodup.of_map _ h.single).count]
  show List.map _ (List.replicate (if db.Extends a b then 1 else 0) _) = _
  split
  · rfl
  · rfl

omit h in
/-- The `class` check of a class that has one fact, or where nothing follows. -/
theorem class_once {β : Type} {c : C} {goal : C → List β}
    (hc : goal c = [] ∨ db.classFacts.count c = 1) :
    (db.classFacts.filter (unifies (some c))).flatMap goal = goal c := by
  have hmatch : db.classFacts.filter (unifies (some c)) =
      List.replicate (db.classFacts.count c) c := by
    rw [← List.filter_eq]
    exact List.filter_congr fun c' _ => decide_eq_decide.mpr eq_comm
  rw [hmatch]
  rcases hc with hnil | hone
  · rw [hnil]
    refine List.flatMap_eq_nil_iff.mpr fun c' hc' => ?_
    rw [List.eq_of_mem_replicate hc', hnil]
  · rw [hone]
    exact List.append_nil _

theorem directFathers_eq (c : C) :
    db.directFathers c = db.classFacts.filter fun f => decide (db.Extends c f) := by
  have hgoal : ∀ c', (db.classFacts.flatMap fun father =>
      (db.extendsFacts.filter fun fact =>
        unifies (some c') fact.1 && unifies (some father) fact.2).map fun _ => father) =
      db.classFacts.filter fun f => decide (db.Extends c' f) := by
    intro c'
    simp only [h.extends_once]
    exact flatMap_guard _ _
  rw [directFathers]
  simp only [hgoal]
  refine class_once ?_
  rcases Classical.em (∃ f, db.Extends c f) with ⟨f, hf⟩ | hnone
  · exact .inr (h.declared _ hf).1
  · refine .inl (List.filter_eq_nil_iff.mpr fun f _ hf => hnone ⟨f, of_decide_eq_true hf⟩)

theorem directChildren_eq (c : C) :
    db.directChildren c = db.classFacts.filter fun d => decide (db.Extends d c) := by
  have hgoal : ∀ d, ((db.classFacts.filter (unifies (some c))).flatMap fun c' =>
      (db.extendsFacts.filter fun fact =>
        unifies (some d) fact.1 && unifies (some c') fact.2).map fun _ => d) =
      if db.Extends d c then [d] else [] := by
    intro d
    simp only [h.extends_once]
    refine class_once ?_
    rcases Decidable.em (db.Extends d c) with hd | hd
    · exact .inr (h.declared _ hd).2
    · exact .inl (if_neg hd)
  rw [directChildren]
  simp only [hgoal]
  exact flatMap_guard _ _

omit h in
theorem mem_of_count {c : C} (hc : db.classFacts.count c = 1) : c ∈ db.classFacts :=
  List.count_pos_iff.mp (by omega)

theorem mem_directFathers {c f : C} : f ∈ db.directFathers c ↔ db.Extends c f := by
  rw [h.directFathers_eq, List.mem_filter, decide_eq_true_iff]
  exact and_iff_right_of_imp fun hf => mem_of_count (h.declared _ hf).2

theorem mem_directChildren {c d : C} : d ∈ db.directChildren c ↔ db.Extends d c := by
  rw [h.directChildren_eq, List.mem_filter, decide_eq_true_iff]
  exact and_iff_right_of_imp fun hd => mem_of_count (h.declared _ hd).1

omit h in
/-- Declared once, found once. -/
theorem nodup_filter {p : C → Bool} (hp : ∀ c, p c = true → db.classFacts.count c = 1) :
    (db.classFacts.filter p).Nodup := by
  refine List.nodup_iff_count_le_one.mpr fun c => ?_
  cases hpc : p c with
  | true => rw [List.count_filter hpc, hp c hpc]
  | false =>
      rw [List.count_eq_zero_of_not_mem]
      · exact Nat.zero_le 1
      · intro hmem
        rw [(List.mem_filter.mp hmem).2] at hpc
        cases hpc

theorem nodup_directFathers (c : C) : (db.directFathers c).Nodup := by
  rw [h.directFathers_eq]
  exact nodup_filter fun f hf => (h.declared _ (of_decide_eq_true hf)).2

theorem nodup_directChildren (c : C) : (db.directChildren c).Nodup := by
  rw [h.directChildren_eq]
  exact nodup_filter fun d hd => (h.declared _ (of_decide_eq_true hd)).1

theorem nodup_fathers (c : C) : (db.fathers c).Nodup := by
  have hfacts : db.extendsFacts.Nodup := List.Nodup.of_map _ h.single
  refine List.Nodup.map_on ?_ (hfacts.filter _)
  intro x hx y hy hsnd
  have hfst : ∀ z ∈ db.extendsFacts.filter (fun fact => unifies (some c) fact.1 && true),
      c = z.1 := by
    intro z hz
    have hmatch := (List.mem_filter.mp hz).2
    rw [Bool.and_true] at hmatch
    exact of_decide_eq_true hmatch
  exact Prod.ext ((hfst x hx).symm.trans (hfst y hy)) hsnd

theorem nodup_children (c : C) : (db.children c).Nodup :=
  h.single.sublist (List.filter_sublist.map Prod.fst)

end WellFormed

omit [DecidableEq C] in
/-- Facts that go down in some rank have no cycle. -/
theorem acyclic_of_rank (rank : C → Nat)
    (h : ∀ fact ∈ db.extendsFacts, rank fact.2 < rank fact.1) (c : C) : ¬ db.Ancestor c c := by
  have hdown : ∀ {a b : C}, db.Ancestor a b → rank b < rank a := by
    intro a b hab
    induction hab with
    | single hfact => exact h _ hfact
    | tail _ hfact ih => exact Nat.lt_trans (h _ hfact) ih
  intro hc
  exact Nat.lt_irrefl _ (hdown hc)

end Database

/-! ## The database of the source -/

/-- A method: modifier, type, name and parameters. -/
structure Method where
  modifier : String
  returnType : String
  name : String
  parameters : List String
  deriving DecidableEq, Repr

/-- The facts of `java-analysis.pl`, without those of `Stack3`. -/
def stackClasses : Database String String Method where
  classFacts := ["Stack", "BoundedStack", "ResettableBoundedStack", "Stack2"]
  interfaceFacts := ["Lockable"]
  extendsFacts :=
    [("BoundedStack", "Stack"), ("ResettableBoundedStack", "BoundedStack"),
      ("Stack2", "ResettableBoundedStack")]
  implementsFacts := [("BoundedStack", "Lockable")]
  definesFacts :=
    [("Stack", ⟨"public", "String", "pop", ["void"]⟩),
      ("BoundedStack", ⟨"public", "void", "push", ["String"]⟩),
      ("ResettableBoundedStack", ⟨"public", "void", "reset", ["void"]⟩),
      ("Stack2", ⟨"public", "String", "gget", ["void"]⟩)]
  refinesFacts := [("Stack", ⟨"public", "void", "push", ["String"]⟩)]

theorem stackClasses_wellFormed : stackClasses.WellFormed where
  declared := by decide
  single := by decide
  acyclic := Database.acyclic_of_rank stackClasses.classFacts.idxOf (by decide)

end Smoll.Prolog
