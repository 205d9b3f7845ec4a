/-
# `Smoll.Flatten.Recursively` — `flatten` of `flatten_recursively.py`

A nested value becomes one dictionary, each leaf under a name that is made on
the way down: the keys of the dictionaries, without their blanks, joined by
`_`.  An index of a list goes into the name only in front of the next key:

    {a: {b: 1}}             a_b: 1
    {a: [{b: 1}, {b: 2}]}   a_b0: 1, a_b1: 2
    {a: [1, 2]}             a: 2

So leaves of one list share their name, and the last of them is what is left;
and so do leaves whose keys are only spelled alike.  At the outermost level
there is no name to hand on to the elements of a list: `newkey` is unbound.
And each level takes a call, a scalar's too, of which the interpreter's stack
has room for `frames`.  `flatten_iff` says that these are all the ways in which
something is lost.
-/
import Mathlib.Data.List.Basic
import Smoll.Lib.OrderedDict

namespace Smoll.Flatten

open OrderedDict

abbrev Text := List Char

/-- A dictionary has its items in their order; a scalar is anything but these three. -/
inductive Value (κ ν : Type) where
  | scalar (v : ν)
  | list (elements : List (Value κ ν))
  | tuple (elements : List (Value κ ν))
  | dict (items : List (κ × Value κ ν))

inductive Error where
  | unboundLocalError
  | recursionError
  deriving DecidableEq, Repr

/-- The dictionary that is filled; a scalar by itself has the key `None`. -/
abbrev Result (ν : Type) := List (Option Text × ν)

variable {κ ν : Type} (str : κ → Text)

/-! ## The source -/

/-- `s.replace(" ", "")` -/
def blankless (s : Text) : Text := s.filter (· ≠ ' ')

/-- `str(index)` -/
def decimal (index : Nat) : Text := Nat.toDigits 10 index

def newkey (Key : Option Text) (index : Option Nat) (key : κ) : Text :=
  match Key, index with
  | some Key, some index => Key ++ '_' :: (blankless (str key) ++ decimal index)
  | some Key, none => Key ++ '_' :: blankless (str key)
  | none, _ => blankless (str key)

mutual

/-- A call, with room for `frames` of them, itself included. -/
def flatten :
    Nat → Value κ ν → Result ν → Option Nat → Option Text → Except Error (Result ν)
  | 0, _, _, _, _ => .error .recursionError
  | frames + 1, .list elements, result, _, Key => flattenElements frames elements 0 Key result
  | frames + 1, .tuple elements, result, _, Key => flattenElements frames elements 0 Key result
  | frames + 1, .dict items, result, index, Key => flattenItems frames items index Key result
  | _ + 1, .scalar d, result, _, Key => .ok (set result Key d)

/-- The loop over a list. `newkey` is assigned only if there is a `Key`. -/
def flattenElements :
    Nat → List (Value κ ν) → Nat → Option Text → Result ν → Except Error (Result ν)
  | _, [], _, _, result => .ok result
  | _, _ :: _, _, none, _ => .error .unboundLocalError
  | frames, element :: elements, indexB, some Key, result =>
      match flatten frames element result (some indexB) (some Key) with
      | .error e => .error e
      | .ok result => flattenElements frames elements (indexB + 1) (some Key) result

/-- The loop over a dictionary. -/
def flattenItems :
    Nat → List (κ × Value κ ν) → Option Nat → Option Text → Result ν → Except Error (Result ν)
  | _, [], _, _, result => .ok result
  | frames, (key, value) :: items, index, Key, result =>
      match flatten frames value result none (some (newkey str Key index key)) with
      | .error e => .error e
      | .ok result => flattenItems frames items index Key result

end

/-! ## Leaves -/

/-- One step down. -/
inductive Step (κ : Type) where
  | index (i : Nat)
  | key (k : κ)

mutual

/-- The leaves of a value, each behind its position. -/
def leaves : Value κ ν → List (List (Step κ) × ν)
  | .list elements => leavesElements elements 0
  | .tuple elements => leavesElements elements 0
  | .dict items => leavesItems items
  | .scalar d => [([], d)]

def leavesElements : List (Value κ ν) → Nat → List (List (Step κ) × ν)
  | [], _ => []
  | element :: elements, i =>
      (leaves element).map (fun leaf => (.index i :: leaf.1, leaf.2)) ++
        leavesElements elements (i + 1)

def leavesItems : List (κ × Value κ ν) → List (List (Step κ) × ν)
  | [] => []
  | (key, value) :: items =>
      (leaves value).map (fun leaf => (.key key :: leaf.1, leaf.2)) ++ leavesItems items

end

/-- One entry for each leaf, with its value, under a key of its own. -/
def LosesNothing (frames : Nat) (d : Value κ ν) : Prop :=
  ∃ result, flatten str frames d [] none none = .ok result ∧
    ∃ keys : List (Option Text), keys.Nodup ∧ keys.length = (leaves d).length ∧
      result.Perm (keys.zip ((leaves d).map Prod.snd))

/-! ## How deep a value is -/

mutual

/-- How many calls stand one in another. -/
def Value.height : Value κ ν → Nat
  | .list elements => heightElements elements + 1
  | .tuple elements => heightElements elements + 1
  | .dict items => heightItems items + 1
  | .scalar _ => 1

def heightElements : List (Value κ ν) → Nat
  | [] => 0
  | element :: elements => max element.height (heightElements elements)

def heightItems : List (κ × Value κ ν) → Nat
  | [] => 0
  | (_, value) :: items => max value.height (heightItems items)

end

/-! ## How a position is spelled -/

/-- A segment for each key, with the index of the dictionary it is in, if that is an element of a
list. -/
def segments : Option Nat → List (Step κ) → List Text
  | _, [] => []
  | _, .index i :: p => segments (some i) p
  | some i, .key k :: p => (blankless (str k) ++ decimal i) :: segments none p
  | none, .key k :: p => blankless (str k) :: segments none p

/-- The segments with `_` between them. -/
def spelling (p : List (Step κ)) : Option Text :=
  match segments str none p with
  | [] => none
  | segment :: rest => some (['_'].intercalate (segment :: rest))

/-- The elements of a list or a tuple. -/
def Value.elements : Value κ ν → List (Value κ ν)
  | .list elements | .tuple elements => elements
  | .dict _ | .scalar _ => []

/-! ## The names that are made -/

/-- What the arguments `Key` and `index` have become at the end of a position. -/
def nameFrom : Option Text → Option Nat → List (Step κ) → Option Text
  | Key, _, [] => Key
  | Key, _, .index i :: p => nameFrom Key (some i) p
  | Key, index, .key k :: p => nameFrom (some (newkey str Key index k)) none p

/-- Leaves are entered one after another. -/
def enter (Key : Option Text) (index : Option Nat) (result : Result ν)
    (ls : List (List (Step κ) × ν)) : Result ν :=
  ls.foldl (fun result leaf => set result (nameFrom str Key index leaf.1) leaf.2) result

theorem enter_append (Key : Option Text) (index : Option Nat) (result : Result ν)
    (ls ls' : List (List (Step κ) × ν)) :
    enter str Key index result (ls ++ ls') =
      enter str Key index (enter str Key index result ls) ls' := List.foldl_append

theorem enter_index (Key : Option Text) (index : Option Nat) (i : Nat) (result : Result ν)
    (ls : List (List (Step κ) × ν)) :
    enter str Key index result (ls.map fun leaf => (.index i :: leaf.1, leaf.2)) =
      enter str Key (some i) result ls := List.foldl_map ..

theorem enter_key (Key : Option Text) (index : Option Nat) (k : κ) (result : Result ν)
    (ls : List (List (Step κ) × ν)) :
    enter str Key index result (ls.map fun leaf => (.key k :: leaf.1, leaf.2)) =
      enter str (some (newkey str Key index k)) none result ls := List.foldl_map ..

/-- What a call gives, if there is room for those in it. -/
def within (height frames : Nat) (result : Result ν) : Except Error (Result ν) :=
  if height ≤ frames then .ok result else .error .recursionError

theorem within_zero (frames : Nat) (result : Result ν) : within 0 frames result = .ok result :=
  if_pos (Nat.zero_le frames)

theorem within_succ_zero (height : Nat) (result : Result ν) :
    within (height + 1) 0 result = .error .recursionError := if_neg (Nat.not_succ_le_zero height)

theorem within_succ (height frames : Nat) (result : Result ν) :
    within (height + 1) (frames + 1) result = within height frames result := by
  rw [within, within]
  simp only [Nat.add_le_add_iff_right]

/-- One call behind another. -/
theorem within_max {height height' frames : Nat} {first second : Result ν}
    {next : Result ν → Except Error (Result ν)} (hnext : next first = within height' frames second) :
    (match within height frames first with
      | .error e => .error e
      | .ok result => next result) = within (max height height') frames second := by
  by_cases h : height ≤ frames
  · rw [within, if_pos h]
    simp only [hnext, within, Nat.max_le, h, true_and]
  · rw [within, if_neg h, within,
      if_neg fun hmax => h (Nat.le_trans (Nat.le_max_left height height') hmax)]

mutual

/-- Below a key, the leaves are entered. -/
theorem flatten_below (Key : Text) :
    ∀ (d : Value κ ν) (frames : Nat) (result : Result ν) (index : Option Nat),
      flatten str frames d result index (some Key) =
        within d.height frames (enter str (some Key) index result (leaves d))
  | .list elements, 0, result, index => by
      rw [flatten, Value.height, within_succ_zero]
  | .list elements, frames + 1, result, index => by
      rw [flatten, leaves, Value.height, within_succ]
      exact flattenElements_below Key elements frames result index 0
  | .tuple elements, 0, result, index => by
      rw [flatten, Value.height, within_succ_zero]
  | .tuple elements, frames + 1, result, index => by
      rw [flatten, leaves, Value.height, within_succ]
      exact flattenElements_below Key elements frames result index 0
  | .dict items, 0, result, index => by
      rw [flatten, Value.height, within_succ_zero]
  | .dict items, frames + 1, result, index => by
      rw [flatten, leaves, Value.height, within_succ]
      exact flattenItems_eq (some Key) items frames result index
  | .scalar d, 0, result, index => by
      rw [flatten, Value.height, within_succ_zero]
  | .scalar d, frames + 1, result, index => by
      rw [flatten, leaves, Value.height, within_succ, within_zero]
      rfl

theorem flattenElements_below (Key : Text) :
    ∀ (elements : List (Value κ ν)) (frames : Nat) (result : Result ν) (index : Option Nat)
      (i : Nat), flattenElements str frames elements i (some Key) result =
        within (heightElements elements) frames
          (enter str (some Key) index result (leavesElements elements i))
  | [], frames, result, index, i => by
      rw [flattenElements, leavesElements, heightElements, within_zero]
      rfl
  | element :: elements, frames, result, index, i => by
      rw [flattenElements, leavesElements, heightElements, flatten_below Key element, enter_append,
        enter_index]
      exact within_max (flattenElements_below Key elements frames _ index (i + 1))

theorem flattenItems_eq (Key : Option Text) :
    ∀ (items : List (κ × Value κ ν)) (frames : Nat) (result : Result ν) (index : Option Nat),
      flattenItems str frames items index Key result =
        within (heightItems items) frames (enter str Key index result (leavesItems items))
  | [], frames, result, index => by
      rw [flattenItems, leavesItems, heightItems, within_zero]
      rfl
  | (key, value) :: items, frames, result, index => by
      rw [flattenItems, leavesItems, heightItems, flatten_below _ value, enter_append, enter_key]
      exact within_max (flattenItems_eq Key items frames _ index)

end

theorem intercalate_cons_join (Key segment : Text) (rest : List Text) :
    ['_'].intercalate ((Key ++ '_' :: segment) :: rest) =
      ['_'].intercalate (Key :: segment :: rest) := by
  cases rest with
  | nil => simp [List.intercalate_cons_cons]
  | cons next rest => simp [List.intercalate_cons_cons]

/-- A key's segment, in the name and in the segments. -/
theorem newkey_some (Key : Text) (index : Option Nat) (k : κ) (p : List (Step κ)) :
    ∃ segment, newkey str (some Key) index k = Key ++ '_' :: segment ∧
      segments str index (.key k :: p) = segment :: segments str none p := by
  cases index with
  | none => exact ⟨_, rfl, rfl⟩
  | some i => exact ⟨_, rfl, rfl⟩

/-- Below a key, the names are made of the segments. -/
theorem nameFrom_some (p : List (Step κ)) : ∀ (Key : Text) (index : Option Nat),
    nameFrom str (some Key) index p = some (['_'].intercalate (Key :: segments str index p)) := by
  induction p with
  | nil =>
      intro Key index
      rw [nameFrom, segments, List.intercalate_singleton]
  | cons s p ih =>
      intro Key index
      cases s with
      | index i =>
          rw [nameFrom, segments]
          exact ih Key (some i)
      | key k =>
          rcases newkey_some str Key index k p with ⟨segment, hkey, hsegments⟩
          rw [nameFrom, hkey, ih, hsegments, intercalate_cons_join]

/-- A position that does not start in a list. -/
theorem nameFrom_none {p : List (Step κ)} (h : ∀ i, p.head? ≠ some (.index i)) :
    nameFrom str none none p = spelling str p := by
  cases p with
  | nil => rfl
  | cons s p =>
      cases s with
      | index i => exact absurd rfl (h i)
      | key k =>
          rw [nameFrom, nameFrom_some]
          rfl

/-- A position in items starts with one of the keys. -/
theorem exists_of_mem_leavesItems {items : List (κ × Value κ ν)} {leaf : List (Step κ) × ν}
    (h : leaf ∈ leavesItems items) : ∃ item ∈ items, ∃ p, leaf.1 = .key item.1 :: p := by
  induction items with
  | nil =>
      rw [leavesItems] at h
      cases h
  | cons item items ih =>
      rw [leavesItems, List.mem_append] at h
      rcases h with h | h
      · rcases List.mem_map.mp h with ⟨below, _, rfl⟩
        exact ⟨item, List.mem_cons_self .., _, rfl⟩
      · rcases ih h with ⟨item', hitem', p, hp⟩
        exact ⟨item', List.mem_cons_of_mem item hitem', p, hp⟩

theorem head_leavesItems (items : List (κ × Value κ ν)) :
    ∀ leaf ∈ leavesItems items, ∀ i, leaf.1.head? ≠ some (.index i) := by
  intro leaf hleaf i hindex
  rcases exists_of_mem_leavesItems hleaf with ⟨_, _, _, hkey⟩
  rw [hkey] at hindex
  cases hindex

/-! ## What is lost -/

/-- The leaves with their spellings. -/
def spelled (d : Value κ ν) : List (Option Text × ν) :=
  (leaves d).map fun leaf => (spelling str leaf.1, leaf.2)

/-- Elements at the outermost level are an error, whatever there is room for. -/
theorem flatten_of_elements {d : Value κ ν} (h : d.elements ≠ []) (frames : Nat)
    (result result' : Result ν) : flatten str frames d result none none ≠ .ok result' := by
  cases frames with
  | zero =>
      rw [flatten]
      intro h
      cases h
  | succ frames =>
      cases d with
      | scalar d => exact absurd rfl h
      | dict items => exact absurd rfl h
      | list elements | tuple elements =>
          cases elements with
          | nil => exact absurd rfl h
          | cons element elements =>
              rw [flatten, flattenElements]
              intro h
              cases h

/-- Otherwise each leaf is entered under its spelling, if there is room. -/
theorem flatten_of_no_elements {d : Value κ ν} (h : d.elements = []) (frames : Nat) :
    flatten str frames d [] none none = within d.height frames (ofItems (spelled str d)) := by
  cases frames with
  | zero =>
      have hheight : ∃ height, d.height = height + 1 := by
        cases d <;> exact ⟨_, by rw [Value.height]⟩
      obtain ⟨height, hheight⟩ := hheight
      rw [flatten, hheight, within_succ_zero]
  | succ frames =>
      cases d with
      | scalar d =>
          rw [flatten, Value.height, within_succ, within_zero, spelled, leaves]
          rfl
      | list elements | tuple elements =>
          cases h
          rw [flatten, Value.height, within_succ, flattenElements, heightElements, within_zero,
            spelled, leaves, leavesElements]
          rfl
      | dict items =>
          rw [flatten, Value.height, within_succ, flattenItems_eq, spelled, leaves, ofItems,
            List.foldl_map]
          refine congrArg (within _ frames) (List.foldl_ext _ _ _ fun result leaf hleaf => ?_)
          rw [nameFrom_none str (head_leavesItems items leaf hleaf)]

theorem map_spelled (d : Value κ ν) :
    (spelled str d).map Prod.fst = (leaves d).map fun leaf => spelling str leaf.1 := List.map_map

/-- The leaves are spelled differently. -/
def SpeltApart (d : Value κ ν) : Prop :=
  (leaves d).Pairwise fun leaf leaf' => spelling str leaf.1 ≠ spelling str leaf'.1

theorem speltApart_iff_nodup {d : Value κ ν} :
    SpeltApart str d ↔ ((spelled str d).map Prod.fst).Nodup := by
  rw [map_spelled]
  exact List.pairwise_map.symm

theorem LosesNothing.elements_eq_nil {frames : Nat} {d : Value κ ν}
    (h : LosesNothing str frames d) : d.elements = [] := by
  rcases h with ⟨result, hresult, _⟩
  by_contra helements
  exact flatten_of_elements str helements frames [] result hresult

theorem LosesNothing.height_le {frames : Nat} {d : Value κ ν} (h : LosesNothing str frames d) :
    d.height ≤ frames := by
  have helements := h.elements_eq_nil
  rcases h with ⟨result, hresult, _⟩
  by_contra hheight
  rw [flatten_of_no_elements str helements, within, if_neg hheight] at hresult
  cases hresult

theorem LosesNothing.speltApart {frames : Nat} {d : Value κ ν} (h : LosesNothing str frames d) :
    SpeltApart str d := by
  have helements := h.elements_eq_nil
  have hheight := h.height_le
  rcases h with ⟨result, hresult, keys, _, hlength, hperm⟩
  rw [flatten_of_no_elements str helements, within, if_pos hheight] at hresult
  cases hresult
  refine (speltApart_iff_nodup str).mpr (length_ofItems_eq_iff.mp ?_)
  rw [hperm.length_eq, List.length_zip, hlength, List.length_map, Nat.min_self, spelled,
    List.length_map]

theorem losesNothing_of_speltApart {frames : Nat} {d : Value κ ν} (h : d.elements = [])
    (hheight : d.height ≤ frames) (hspelt : SpeltApart str d) : LosesNothing str frames d := by
  have hnodup := (speltApart_iff_nodup str).mp hspelt
  refine ⟨_, (flatten_of_no_elements str h frames).trans (if_pos hheight),
    (spelled str d).map Prod.fst, hnodup, ?_, ?_⟩
  · rw [map_spelled, List.length_map]
  · rw [ofItems_of_nodup hnodup, map_spelled, List.zip_map']
    exact List.Perm.refl _

/-- **Nothing is lost** exactly if the value has no elements at the outermost level, there is room
for the calls, and all its leaves are spelled differently. -/
theorem flatten_iff (frames : Nat) (d : Value κ ν) :
    LosesNothing str frames d ↔ d.elements = [] ∧ d.height ≤ frames ∧
      (leaves d).Pairwise fun leaf leaf' => spelling str leaf.1 ≠ spelling str leaf'.1 := by
  constructor
  · intro h
    exact ⟨h.elements_eq_nil, h.height_le, h.speltApart⟩
  · rintro ⟨helements, hheight, hspelt⟩
    exact losesNothing_of_speltApart str helements hheight hspelt

/-- `{'a': [1, 2]}` becomes `{'a': 2}`. -/
theorem not_flatten : ¬ ∀ d : Value Text Nat, LosesNothing id 1000 d := by
  intro h
  rcases h (.dict [(['a'], .list [.scalar 1, .scalar 2])]) with
    ⟨result, hresult, keys, _, hlength, hperm⟩
  have hone : result = [(some ['a'], 2)] := (Except.ok.inj hresult).symm
  have htwo : result.length = 2 := by
    rw [hperm.length_eq, List.length_zip, hlength]
    rfl
  rw [hone] at htwo
  cases htwo

/-! ## What is lost in a list -/

theorem segments_index (p : List (Step κ)) (i : Nat) :
    ∀ index : Option Nat, segments str index (p ++ [.index i]) = segments str index p := by
  induction p with
  | nil =>
      intro index
      rw [List.nil_append, segments, segments, segments]
  | cons s p ih =>
      intro index
      cases s with
      | index j =>
          rw [List.cons_append, segments, segments, ih]
      | key k =>
          cases index with
          | none => rw [List.cons_append, segments, segments, ih]
          | some j => rw [List.cons_append, segments, segments, ih]

/-- The index of a leaf is not in its spelling, so of two leaves of one list one is lost. -/
theorem lost_in_list {frames : Nat} {d : Value κ ν} {p : List (Step κ)} {i j : Nat} {v w : ν}
    (h : [(p ++ [.index i], v), (p ++ [.index j], w)].Sublist (leaves d)) :
    ¬ LosesNothing str frames d := by
  intro hd
  have hpair := (LosesNothing.speltApart str hd).sublist h
  refine List.rel_of_pairwise_cons hpair (List.mem_singleton_self _) ?_
  simp only [spelling, segments_index]

/-! ## Nothing is lost in dictionaries with plain keys -/

/-- Neither blanks nor the separator. -/
def PlainKey (key : Text) : Prop := ' ' ∉ key ∧ '_' ∉ key

mutual

/-- Dictionaries in dictionaries, with plain keys that are spelled differently. -/
def Value.Plain : Value κ ν → Prop
  | .scalar _ => True
  | .list elements => elements = []
  | .tuple elements => elements = []
  | .dict items => PlainItems items

def PlainItems : List (κ × Value κ ν) → Prop
  | [] => True
  | (key, value) :: items =>
      PlainKey (str key) ∧ (∀ item ∈ items, str item.1 ≠ str key) ∧ value.Plain ∧ PlainItems items

end

theorem PlainKey.blankless_eq {key : Text} (h : PlainKey key) : blankless key = key := by
  rw [blankless, List.filter_eq_self]
  intro c hc
  exact decide_eq_true fun heq => h.1 (heq ▸ hc)

/-- Segments without a separator in them are told apart by what they spell. -/
theorem spelling_ne {p q : List (Step κ)} (hp : ∀ s ∈ segments str none p, '_' ∉ s)
    (hq : ∀ s ∈ segments str none q, '_' ∉ s) (h : segments str none p ≠ segments str none q) :
    spelling str p ≠ spelling str q := by
  intro heq
  unfold spelling at heq
  generalize segments str none p = ps at *
  generalize segments str none q = qs at *
  cases ps with
  | nil =>
      cases qs with
      | nil => exact h rfl
      | cons t qs => cases heq
  | cons s ps =>
      cases qs with
      | nil => cases heq
      | cons t qs =>
          have hjoin := congrArg (List.splitOn '_') (Option.some.inj heq)
          rw [List.splitOn_intercalate '_' hp (List.cons_ne_nil s ps),
            List.splitOn_intercalate '_' hq (List.cons_ne_nil t qs)] at hjoin
          exact h hjoin

/-- Leaves that are told apart by their segments. -/
structure Apart (ls : List (List (Step κ) × ν)) : Prop where
  plain : ∀ leaf ∈ ls, ∀ s ∈ segments str none leaf.1, '_' ∉ s
  apart : ls.Pairwise fun leaf leaf' => segments str none leaf.1 ≠ segments str none leaf'.1

theorem Apart.nil : Apart str ([] : List (List (Step κ) × ν)) where
  plain := fun leaf hleaf => by cases hleaf
  apart := List.Pairwise.nil

theorem Apart.scalar (d : ν) : Apart str [(([] : List (Step κ)), d)] where
  plain := by
    intro leaf hleaf s hs
    cases List.mem_singleton.mp hleaf
    cases hs
  apart := List.pairwise_singleton _ _

theorem PlainItems.plainKey {items : List (κ × Value κ ν)} (h : PlainItems str items)
    {item : κ × Value κ ν} (hitem : item ∈ items) : PlainKey (str item.1) := by
  induction items with
  | nil => cases hitem
  | cons first items ih =>
      rw [PlainItems] at h
      rcases List.mem_cons.mp hitem with rfl | hitem
      · exact h.1
      · exact ih h.2.2.2 hitem

/-- Behind a plain key, and in front of others. -/
theorem Apart.cons {key : κ} {ls : List (List (Step κ) × ν)} {items : List (κ × Value κ ν)}
    (hkey : PlainKey (str key)) (hne : ∀ item ∈ items, str item.1 ≠ str key)
    (hitems : PlainItems str items) (hls : Apart str ls) (hrest : Apart str (leavesItems items)) :
    Apart str (ls.map (fun leaf => (.key key :: leaf.1, leaf.2)) ++ leavesItems items) := by
  have hsegments : ∀ p, segments str none (.key key :: p) = str key :: segments str none p := by
    intro p
    rw [segments, hkey.blankless_eq]
  constructor
  · intro leaf hleaf s hs
    rcases List.mem_append.mp hleaf with hleaf | hleaf
    · rcases List.mem_map.mp hleaf with ⟨below, hbelow, rfl⟩
      rw [hsegments] at hs
      rcases List.mem_cons.mp hs with rfl | hs
      · exact hkey.2
      · exact hls.plain below hbelow s hs
    · exact hrest.plain leaf hleaf s hs
  · rw [List.pairwise_append]
    refine ⟨?_, hrest.apart, ?_⟩
    · rw [List.pairwise_map]
      refine hls.apart.imp fun h heq => h ?_
      rw [hsegments, hsegments] at heq
      exact (List.cons.inj heq).2
    · intro leaf hleaf leaf' hleaf' heq
      rcases List.mem_map.mp hleaf with ⟨below, _, rfl⟩
      rcases exists_of_mem_leavesItems hleaf' with ⟨item, hitem, p, hp⟩
      rw [hsegments, hp, segments, (hitems.plainKey str hitem).blankless_eq] at heq
      exact hne item hitem (List.cons.inj heq).1.symm

mutual

theorem Value.Plain.apart : ∀ {d : Value κ ν}, d.Plain str → Apart str (leaves d)
  | .scalar d, _ => by
      rw [leaves]
      exact .scalar str d
  | .list elements, h => by
      rw [Value.Plain] at h
      subst h
      rw [leaves, leavesElements]
      exact .nil str
  | .tuple elements, h => by
      rw [Value.Plain] at h
      subst h
      rw [leaves, leavesElements]
      exact .nil str
  | .dict items, h => by
      rw [Value.Plain] at h
      rw [leaves]
      exact h.apart

theorem PlainItems.apart :
    ∀ {items : List (κ × Value κ ν)}, PlainItems str items → Apart str (leavesItems items)
  | [], _ => by
      rw [leavesItems]
      exact .nil str
  | (key, value) :: items, h => by
      rw [PlainItems] at h
      rcases h with ⟨hkey, hne, hvalue, hitems⟩
      rw [leavesItems]
      exact .cons str hkey hne hitems hvalue.apart hitems.apart

end

/-- Nothing is lost of dictionaries in dictionaries with plain keys. -/
theorem loses_nothing_of_plain {frames : Nat} {d : Value κ ν} (h : d.Plain str)
    (hheight : d.height ≤ frames) : LosesNothing str frames d := by
  have helements : d.elements = [] := by
    cases d with
    | scalar d => rfl
    | dict items => rfl
    | list elements => rw [Value.Plain] at h; exact h
    | tuple elements => rw [Value.Plain] at h; exact h
  have happart := h.apart str
  refine losesNothing_of_speltApart str helements hheight
    (happart.apart.imp_of_mem fun hleaf hleaf' hne => ?_)
  exact spelling_ne str (happart.plain _ hleaf) (happart.plain _ hleaf') hne

end Smoll.Flatten
