/-
# `Smoll.Opendht.JsonLines` — the body of a response, one JSON value a line

The client prints the values of a response as they come: the body callback
gets the next fragment, takes it line by line, and gives each line to the JSON
reader. It keeps nothing for the next fragment, so a line that the network
cuts is read as two.

The output is that of the whole body exactly when no fragment ends within a
line (`fragmentation_iff`): each cut costs a line, and a line that is read is
a value printed, one more than the body has.
-/
import Smoll.Lib.Lines

namespace Smoll.Opendht

open Smoll.Lines

abbrev Text := List Char

/-- What is printed to standard output, and the errors logged. -/
structure Output (Value : Type) where
  printed : List Value
  logged : List String
deriving DecidableEq

namespace Output

variable {Value : Type}

def append (o o' : Output Value) : Output Value :=
  ⟨o.printed ++ o'.printed, o.logged ++ o'.logged⟩

/-- The same values, and a failure in both or in none. -/
def Same (o o' : Output Value) : Prop :=
  o.printed = o'.printed ∧ (o.logged = [] ↔ o'.logged = [])

end Output

variable {Value : Type} (parse : Text → Option Value)

/-- The `while` over the lines of a fragment; it is left at a line that is not read. -/
def readLines : List Text → Output Value
  | [] => ⟨[], []⟩
  | dataLine :: rest =>
      match parse dataLine with
      | none => ⟨[], ["parsing failed"]⟩
      | some json => Output.append ⟨[json], []⟩ (readLines rest)

/-- The body callback. -/
def onBody (fragment : Text) : Output Value :=
  readLines parse (lines '\n' fragment)

/-- The callback over all fragments. -/
def onFragments : List Text → Output Value
  | [] => ⟨[], []⟩
  | fragment :: fragments => (onBody parse fragment).append (onFragments fragments)

/-! ## Readable lines -/

theorem readLines_iff (ls : List Text) :
    ∀ values, readLines parse ls = ⟨values, []⟩ ↔ ls.map parse = values.map some := by
  induction ls with
  | nil =>
      intro values
      constructor
      · intro h
        cases h
        rfl
      · intro h
        rw [List.map_eq_nil_iff.mp h.symm]
        rfl
  | cons line ls ih =>
      intro values
      rw [readLines, List.map_cons]
      cases hparse : parse line with
      | none =>
          constructor
          · intro h
            cases h
          · intro h
            cases values with
            | nil => cases h
            | cons v values => cases h
      | some json =>
          constructor
          · intro h
            have hprinted : json :: (readLines parse ls).printed = values :=
              congrArg Output.printed h
            have hlogged : (readLines parse ls).logged = [] := congrArg Output.logged h
            have hrest := (ih (readLines parse ls).printed).mp (by rw [← hlogged])
            rw [← hprinted, hrest]
            rfl
          · intro h
            cases values with
            | nil => cases h
            | cons v values =>
                rcases List.cons.inj h with ⟨hv, hrest⟩
                have hread := (ih values).mpr hrest
                show Output.append ⟨[json], []⟩ (readLines parse ls) = _
                rw [hread, Option.some.inj hv]
                rfl

/-- Nothing fails in a run of the callback exactly if every line of every fragment is
a value, and these are the values printed. -/
theorem onFragments_iff (fragments : List Text) :
    ∀ values, onFragments parse fragments = ⟨values, []⟩ ↔
      (fragments.flatMap (lines '\n')).map parse = values.map some := by
  induction fragments with
  | nil =>
      intro values
      exact readLines_iff parse [] values
  | cons fragment fragments ih =>
      intro values
      rw [List.flatMap_cons, List.map_append]
      constructor
      · intro h
        have hprinted : (onBody parse fragment).printed ++ (onFragments parse fragments).printed =
            values := congrArg Output.printed h
        have hlogged : (onBody parse fragment).logged ++ (onFragments parse fragments).logged = [] :=
          congrArg Output.logged h
        rcases List.append_eq_nil_iff.mp hlogged with ⟨hfirst, hrest⟩
        have hfirst' := (readLines_iff parse (lines '\n' fragment)
          (onBody parse fragment).printed).mp (by rw [← hfirst]; rfl)
        have hrest' := (ih (onFragments parse fragments).printed).mp (by rw [← hrest])
        rw [hfirst', hrest', ← hprinted, List.map_append]
      · intro h
        rcases List.append_eq_map_iff.mp h with ⟨vs, ws, rfl, hvs, hws⟩
        have hfirst : onBody parse fragment = ⟨vs, []⟩ :=
          (readLines_iff parse (lines '\n' fragment) vs).mpr hvs.symm
        have hrest : onFragments parse fragments = ⟨ws, []⟩ := (ih ws).mpr hws.symm
        rw [onFragments, hfirst, hrest]
        rfl

/-! ## One value per body line -/

/-- Values, each followed by a newline. -/
def bodyOf (valueLines : List Text) : Text :=
  valueLines.flatMap fun line => line ++ ['\n']

theorem count_bodyOf {valueLines : List Text} :
    (∀ line ∈ valueLines, '\n' ∉ line) → (bodyOf valueLines).count '\n' = valueLines.length := by
  induction valueLines with
  | nil =>
      intro _
      rfl
  | cons line valueLines ih =>
      intro hfree
      have hrest := ih fun l hl => hfree l (List.mem_cons_of_mem line hl)
      have hline : line.count '\n' = 0 := List.count_eq_zero.mpr (hfree line List.mem_cons_self)
      rw [bodyOf, List.flatMap_cons, List.count_append, List.count_append, hline,
        List.count_singleton_self, List.length_cons, ← hrest]
      exact Nat.add_comm _ _

/-- How the body is cut changes nothing exactly if every fragment ends with a
newline, the empty ones apart. -/
theorem fragmentation_iff (valueLines fragments : List Text)
    (hlines : ∀ line ∈ valueLines, '\n' ∉ line ∧ (parse line).isSome)
    (hfragments : fragments.flatten = bodyOf valueLines) :
    (onFragments parse fragments).Same (onFragments parse [bodyOf valueLines]) ↔
      ∀ fragment ∈ fragments, Whole '\n' fragment := by
  have hfree : ∀ line ∈ valueLines, '\n' ∉ line := fun line hl => (hlines line hl).1
  obtain ⟨values, hvalues⟩ : ∃ values : List Value, valueLines.map parse = values.map some := by
    refine ⟨valueLines.filterMap parse, ?_⟩
    rw [List.map_filterMap_some_eq_filter_map_isSome, List.filter_eq_self.mpr]
    intro o ho
    rcases List.mem_map.mp ho with ⟨line, hl, rfl⟩
    exact (hlines line hl).2
  have hpiece : onFragments parse [bodyOf valueLines] = ⟨values, []⟩ := by
    rw [onFragments_iff, List.flatMap_singleton, bodyOf, lines_flatMap hfree]
    exact hvalues
  have hlength : valueLines.length = values.length := by
    have hmap := congrArg List.length hvalues
    rw [List.length_map, List.length_map] at hmap
    exact hmap
  rw [hpiece]
  constructor
  · rintro ⟨hprinted, hlogged⟩
    have hvaluesOut : (onFragments parse fragments).printed = values := hprinted
    have hread : onFragments parse fragments = ⟨values, []⟩ := by
      rw [← hvaluesOut, ← hlogged.mpr rfl]
    -- as many lines were read as there are values, so no line was cut
    have hmap := congrArg List.length ((onFragments_iff parse fragments values).mp hread)
    rw [List.length_map, List.length_map, length_flatMap_lines, hfragments, count_bodyOf hfree,
      hlength] at hmap
    have hzero : (fragments.countP fun f => ¬ Whole '\n' f) = 0 := by omega
    intro fragment hmem
    by_contra hnot
    exact List.countP_eq_zero.mp hzero fragment hmem (decide_eq_true hnot)
  · intro hwhole
    have hread : onFragments parse fragments = ⟨values, []⟩ := by
      rw [onFragments_iff, flatMap_lines hwhole, hfragments, bodyOf, lines_flatMap hfree]
      exact hvalues
    rw [hread]
    exact ⟨rfl, Iff.rfl⟩

/-- A reader of digits. -/
def digits (s : Text) : Option Text :=
  if s ≠ [] ∧ s.all Char.isDigit then some s else none

theorem fragmentation_iff_twoLines :
    (onFragments digits ["12\n".toList, "3\n".toList]).Same
      (onFragments digits [bodyOf ["12".toList, "3".toList]]) := by
  refine (fragmentation_iff digits ["12".toList, "3".toList] ["12\n".toList, "3\n".toList] ?_
    (by decide)).mpr ?_
  · decide
  · decide

/-- A cut in the middle of `12` prints two values, and reports nothing. -/
theorem not_fragmentation :
    ¬ ∀ (parse : Text → Option Text) (valueLines fragments : List Text),
        (∀ line ∈ valueLines, '\n' ∉ line ∧ (parse line).isSome) →
        fragments.flatten = bodyOf valueLines →
        (onFragments parse fragments).Same (onFragments parse [bodyOf valueLines]) := by
  intro h
  have hcut := h digits ["12".toList] ["1".toList, "2\n".toList] (by decide) (by decide)
  exact absurd hcut.1 (by decide)

end Smoll.Opendht
