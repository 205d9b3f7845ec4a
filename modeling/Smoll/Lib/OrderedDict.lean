/-
# `Smoll.Lib.OrderedDict` — a dictionary that keeps its items in order of insertion

`set` gives a key a value: in the key's place if it has one, behind the rest if
it is new.  `ofItems` sets one item after another; it has an entry for each of
them exactly if no key comes twice (`length_ofItems_eq_iff`).  `pop` takes a key
out.  What a key is looked up to after each is in `lookup_set` and `lookup_pop`.
-/
import Smoll.Lib.Distinct

namespace Smoll.OrderedDict

open Distinct

variable {κ ν : Type*} [DecidableEq κ]

def set : List (κ × ν) → κ → ν → List (κ × ν)
  | [], key, v => [(key, v)]
  | (k, w) :: dict, key, v => if k = key then (k, v) :: dict else (k, w) :: set dict key v

def ofItems (items : List (κ × ν)) : List (κ × ν) :=
  items.foldl (fun dict item => set dict item.1 item.2) []

def pop (dict : List (κ × ν)) (key : κ) : List (κ × ν) :=
  dict.filter fun item => item.1 ≠ key

/-! ## Looking up -/

theorem lookup_cons (item : κ × ν) (dict : List (κ × ν)) (k : κ) :
    (item :: dict).lookup k = if k = item.1 then some item.2 else dict.lookup k := by
  rcases item with ⟨key, v⟩
  rw [List.lookup_cons]
  by_cases h : k = key
  · rw [if_pos h, beq_iff_eq.mpr h]
  · rw [if_neg h, beq_eq_false_iff_ne.mpr h]

theorem lookup_set (dict : List (κ × ν)) (key : κ) (v : ν) (k : κ) :
    (set dict key v).lookup k = if k = key then some v else dict.lookup k := by
  induction dict with
  | nil =>
      rw [set, lookup_cons]
  | cons item dict ih =>
      rcases item with ⟨key', w⟩
      rw [set]
      by_cases hkey : key' = key
      · subst hkey
        rw [if_pos rfl, lookup_cons, lookup_cons]
        split
        · rfl
        · rfl
      · rw [if_neg hkey, lookup_cons, lookup_cons, ih]
        by_cases hk : k = key'
        · rw [if_pos hk, if_pos hk, if_neg (hk ▸ hkey)]
        · rw [if_neg hk, if_neg hk]

theorem lookup_set_self (dict : List (κ × ν)) (key : κ) (v : ν) :
    (set dict key v).lookup key = some v := by
  rw [lookup_set, if_pos rfl]

theorem lookup_set_of_ne (dict : List (κ × ν)) {key k : κ} (h : k ≠ key) (v : ν) :
    (set dict key v).lookup k = dict.lookup k := by
  rw [lookup_set, if_neg h]

theorem mem_of_lookup {dict : List (κ × ν)} {key : κ} {v : ν} (h : dict.lookup key = some v) :
    (key, v) ∈ dict := by
  induction dict with
  | nil => cases h
  | cons item dict ih =>
      rw [lookup_cons] at h
      split at h
      · next hkey =>
          cases h
          rw [hkey]
          exact List.mem_cons_self
      · exact List.mem_cons_of_mem _ (ih h)

/-- The second value is what stays. -/
theorem set_set (dict : List (κ × ν)) (key : κ) (v w : ν) :
    set (set dict key v) key w = set dict key w := by
  induction dict with
  | nil => exact if_pos rfl
  | cons item dict ih =>
      rw [set, set]
      by_cases h : item.1 = key
      · rw [if_pos h, if_pos h, set, if_pos h]
      · rw [if_neg h, if_neg h, set, if_neg h, ih]

/-- An item is the new one, or was there before. -/
theorem mem_of_mem_set {dict : List (κ × ν)} {key : κ} {v : ν} {item : κ × ν}
    (h : item ∈ set dict key v) : item = (key, v) ∨ item ∈ dict := by
  induction dict with
  | nil => exact .inl (List.mem_singleton.mp h)
  | cons first dict ih =>
      rw [set] at h
      split at h
      · next hkey =>
          rcases List.mem_cons.mp h with h | h
          · exact .inl (hkey ▸ h)
          · exact .inr (List.mem_cons_of_mem _ h)
      · rcases List.mem_cons.mp h with rfl | h
        · exact .inr List.mem_cons_self
        · exact (ih h).imp_right (List.mem_cons_of_mem _)

theorem lookup_pop (dict : List (κ × ν)) (key k : κ) :
    (pop dict key).lookup k = if k = key then none else dict.lookup k := by
  induction dict with
  | nil =>
      rw [pop, List.filter_nil]
      split
      · rfl
      · rfl
  | cons item dict ih =>
      rw [pop] at ih
      rw [pop, List.filter_cons]
      by_cases hitem : item.1 = key
      · rw [if_neg (by simpa using hitem), ih, lookup_cons]
        by_cases hk : k = key
        · rw [if_pos hk, if_pos hk]
        · rw [if_neg hk, if_neg hk, if_neg fun heq => hk (heq.trans hitem)]
      · rw [if_pos (by simpa using hitem), lookup_cons, lookup_cons, ih]
        by_cases hk : k = key
        · rw [if_pos hk, if_pos hk, if_neg fun heq => hitem (heq.symm.trans hk)]
        · rw [if_neg hk, if_neg hk]

theorem lookup_pop_self (dict : List (κ × ν)) (key : κ) : (pop dict key).lookup key = none := by
  rw [lookup_pop, if_pos rfl]

theorem lookup_pop_of_ne (dict : List (κ × ν)) {key k : κ} (h : k ≠ key) :
    (pop dict key).lookup k = dict.lookup k := by
  rw [lookup_pop, if_neg h]

/-! ## Keys -/

theorem keys_set (dict : List (κ × ν)) (key : κ) (v : ν) :
    (set dict key v).map Prod.fst = push (dict.map Prod.fst) key := by
  induction dict with
  | nil => rfl
  | cons item dict ih =>
      rcases item with ⟨k, w⟩
      rw [set]
      by_cases h : k = key
      · subst h
        rw [if_pos rfl]
        exact (push_cons_self _ k).symm
      · rw [if_neg h, List.map_cons, ih]
        exact (push_cons_of_ne h _).symm

theorem set_of_not_mem {dict : List (κ × ν)} {key : κ} (h : key ∉ dict.map Prod.fst) (v : ν) :
    set dict key v = dict ++ [(key, v)] := by
  induction dict with
  | nil => rfl
  | cons item dict ih =>
      rcases item with ⟨k, w⟩
      have hne : k ≠ key := fun heq => h (heq ▸ List.mem_cons_self ..)
      rw [set, if_neg hne, ih fun hmem => h (List.mem_cons_of_mem k hmem)]
      rfl

theorem keys_ofItems (items : List (κ × ν)) :
    (ofItems items).map Prod.fst = (items.map Prod.fst).eraseDups := by
  have hloop := foldl_eraseDups (fun dict : List (κ × ν) => dict.map Prod.fst)
    (fun dict item => set dict item.1 item.2) (fun item => some item.1) (fun _ => True)
    (fun _ _ _ => trivial) (fun dict item _ => keys_set dict item.1 item.2) (s := []) trivial
    List.nodup_nil items
  have hlabels : items.filterMap (some ∘ Prod.fst) = items.map Prod.fst := by
    rw [List.filterMap_eq_map]
  exact hloop.trans (congrArg List.eraseDups hlabels)

theorem ofItems_concat (items : List (κ × ν)) (item : κ × ν) :
    ofItems (items ++ [item]) = set (ofItems items) item.1 item.2 := List.foldl_concat ..

/-- Without a key that comes twice, everything is there. -/
theorem ofItems_of_nodup {items : List (κ × ν)} (h : (items.map Prod.fst).Nodup) :
    ofItems items = items := by
  induction items using List.reverseRecOn with
  | nil => rfl
  | append_singleton items item ih =>
      rw [List.map_append, List.nodup_append] at h
      have hitems := ih h.1
      have hnew : item.1 ∉ items.map Prod.fst := fun hmem =>
        h.2.2 item.1 hmem item.1 (List.mem_singleton_self _) rfl
      rw [ofItems_concat, hitems, set_of_not_mem hnew]

theorem length_ofItems_eq_iff {items : List (κ × ν)} :
    (ofItems items).length = items.length ↔ (items.map Prod.fst).Nodup := by
  have hkeys := congrArg List.length (keys_ofItems items)
  rw [List.length_map] at hkeys
  rw [hkeys, ← length_eraseDups_eq_iff, List.length_map]

end Smoll.OrderedDict
