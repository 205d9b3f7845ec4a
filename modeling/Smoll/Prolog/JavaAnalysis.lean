/-
# `Smoll.Prolog.JavaAnalysis` — the rules of `java-analysis.pl`

A database of facts about Java classes and the rules over it, each rule as the
sequence of its solutions: clauses in order, facts in order, `findall`
collecting.  An argument of a query is `some` value or a variable, `none`; a
predicate without facts has no solutions.

`class_inheritance` and `class_descendence` walk the `extends` facts in
opposite directions, and put their `class` checks at opposite ends of the path.
Asked for one class, each is a `descend` of the library
(`classInheritance_eq`, `classDescendence_eq`).
-/
import Smoll.Lib.Solutions

namespace Smoll.Prolog

open Solutions

/-- The facts.  `declares` is used by no rule. -/
structure Database (C I M : Type) where
  classFacts : List C
  interfaceFacts : List I
  extendsFacts : List (C × C)
  implementsFacts : List (C × I)
  definesFacts : List (C × M)
  refinesFacts : List (C × M)

/-- An argument matches a ground term. -/
def unifies {α : Type} [DecidableEq α] : Option α → α → Bool
  | none, _ => true
  | some b, a => decide (b = a)

/-- The first argument of `class_methods`: a class, or a list. -/
inductive Term (C : Type) where
  | atom (c : C)
  | nil
  | cons (head tail : Term C)
  deriving DecidableEq, Repr

def Term.ofList {C : Type} : List C → Term C
  | [] => .nil
  | c :: cs => .cons (.atom c) (.ofList cs)

/-- `list_to_set`: the first of equal elements stays. -/
def listToSet {α : Type} [DecidableEq α] (l : List α) : List α := l.eraseDups

variable {C I M : Type} [DecidableEq C] [DecidableEq I] [DecidableEq M]

namespace Database

variable (db : Database C I M)

/-! ## Facts -/

def isClass (class' : Option C) : Answers C := some (db.classFacts.filter (unifies class'))

def isInterface (interface : Option I) : Answers I :=
  some (db.interfaceFacts.filter (unifies interface))

def extends' (class' father : Option C) : Answers (C × C) :=
  some (db.extendsFacts.filter fun fact => unifies class' fact.1 && unifies father fact.2)

def implements (class' : Option C) (interface : Option I) : Answers (C × I) :=
  some (db.implementsFacts.filter fun fact => unifies class' fact.1 && unifies interface fact.2)

/-- `defines(Class, Method)`, for a class or a list. -/
def defines : Term C → Answers M
  | .atom c => some ((db.definesFacts.filter fun fact => unifies (some c) fact.1).map Prod.snd)
  | _ => some []

def refines : Term C → Answers M
  | .atom c => some ((db.refinesFacts.filter fun fact => unifies (some c) fact.1).map Prod.snd)
  | _ => some []

/-! ## Rules -/

def classInheritance : Nat → Option C → Option C → Answers (C × C)
  | 0, _, _ => none
  | depth + 1, class', ancestor =>
      Answers.or
        (Answers.and (db.isClass class') fun c =>
          Answers.and (db.isClass ancestor) fun father =>
          Answers.and (db.extends' (some c) (some father)) fun _ =>
          some [(c, father)])
        (Answers.and (db.extends' class' none) fun fact =>
          Answers.and (classInheritance depth (some fact.2) ancestor) fun found =>
          some [(fact.1, found.2)])

def inheritanceChain (depth : Nat) (class' : Option C) : Answers (List C) :=
  Answers.findall ((db.classInheritance depth class' none).map (List.map Prod.snd))

def classMethods : Term C → Answers M
  | .atom c => Answers.or (db.defines (.atom c)) (db.refines (.atom c))
  | .nil => Answers.or (db.defines .nil) (db.refines .nil)
  | .cons current inherited =>
      Answers.or
        (Answers.or (db.defines (.cons current inherited)) (db.refines (.cons current inherited)))
        (Answers.or (classMethods current) (classMethods inherited))

/-- `interface/2`, of a given class. -/
def interface (depth : Nat) (c : C) : Answers (List M) :=
  Answers.and (db.inheritanceChain depth (some c)) fun chain =>
  Answers.and (Answers.findall (db.classMethods (.ofList chain))) fun inheritedMethods =>
  Answers.and (Answers.findall (db.classMethods (.atom c))) fun classMethods =>
  some [listToSet (classMethods ++ inheritedMethods)]

def classDescendence : Nat → Option C → Option C → Answers (C × C)
  | 0, _, _ => none
  | depth + 1, descendant, class' =>
      Answers.or
        (Answers.and (db.isClass descendant) fun child =>
          Answers.and (db.isClass class') fun c =>
          Answers.and (db.extends' (some child) (some c)) fun _ =>
          some [(child, c)])
        (Answers.and (db.extends' none class') fun fact =>
          Answers.and (classDescendence depth descendant (some fact.1)) fun found =>
          some [(found.1, fact.2)])

def inheritanceChainDown (depth : Nat) (class' : Option C) : Answers (List C) :=
  Answers.findall ((db.classDescendence depth none class').map (List.map Prod.fst))

def providesInterface (depth : Nat) (class' : Option C) (interface : Option I) :
    Answers (C × I × List C) :=
  Answers.and (db.isInterface interface) fun i =>
  Answers.and (db.implements class' (some i)) fun fact =>
  Answers.and (db.inheritanceChainDown depth (some fact.1)) fun chain =>
  some [(fact.1, i, [fact.1] ++ chain)]

end Database

end Smoll.Prolog
