/-
# `Smoll.Lib.Trie` — dictionaries of dictionaries

A `KeyTree` is a dictionary whose values are dictionaries again, its items in
order of insertion: `nil` is the empty one, and `node key sub rest` has the
item `key: sub` in front of `rest`.

`add` walks down a sequence of keys and makes what is missing on the way.  So
the nodes of `ofPaths`, its `paths`, are the non-empty prefixes of what was added
(`mem_paths_ofPaths`), and the keys at a node are in order of first appearance
(`keys_descend_ofPaths`).  `Wf` says that no dictionary has a key twice.
-/
import Smoll.Lib.Distinct
import Mathlib.Data.List.Infix

namespace Smoll.Trie

open Distinct

inductive KeyTree (α : Type*) where
  | nil
  | node (key : α) (sub rest : KeyTree α)
  deriving DecidableEq, Repr

namespace KeyTree

variable {α : Type*}

def keys : KeyTree α → List α
  | nil => []
  | node key _ rest => key :: rest.keys

/-- The sequences of keys from the root to a node, in the order of a walk through the tree. -/
def paths : KeyTree α → List (List α)
  | nil => []
  | node key sub rest => [key] :: (sub.paths.map (key :: ·) ++ rest.paths)

/-- No key twice in any of the dictionaries. -/
def Wf : KeyTree α → Prop
  | nil => True
  | node key sub rest => key ∉ rest.keys ∧ sub.Wf ∧ rest.Wf

variable [DecidableEq α]

/-- The value of a key, an empty dictionary if it has none. -/
def child : KeyTree α → α → KeyTree α
  | nil, _ => nil
  | node key sub rest, k => if key = k then sub else rest.child k

/-- The dictionary at the end of a sequence of keys. -/
def descend (t : KeyTree α) (p : List α) : KeyTree α := p.foldl child t

/-- A new key gets an empty dictionary; then its value is changed. -/
def update (part : α) (f : KeyTree α → KeyTree α) : KeyTree α → KeyTree α
  | nil => node part (f nil) nil
  | node key sub rest =>
      if key = part then node key (f sub) rest else node key sub (rest.update part f)

def add : List α → KeyTree α → KeyTree α
  | [], t => t
  | part :: parts, t => t.update part (add parts)

/-- The tree grown from sequences of keys, one after another. -/
def ofPaths (ls : List (List α)) : KeyTree α := ls.foldl (fun t parts => t.add parts) nil

/-- The key that follows a sequence of keys. -/
def next (p parts : List α) : Option α :=
  if p <+: parts then (parts.drop p.length).head? else none

/-- The keys that follow it in some sequences, each where it first comes up. -/
def following (p : List α) (ls : List (List α)) : List α := (ls.filterMap (next p)).eraseDups

/-! ## One dictionary -/

theorem keys_update (part : α) (f : KeyTree α → KeyTree α) (t : KeyTree α) :
    (t.update part f).keys = push t.keys part := by
  induction t with
  | nil => rfl
  | node key sub rest _ ih =>
      rw [update]
      by_cases h : key = part
      · subst h
        rw [if_pos rfl]
        exact (push_cons_self _ key).symm
      · rw [if_neg h, keys, ih]
        exact (push_cons_of_ne h _).symm

theorem child_update_self (part : α) (f : KeyTree α → KeyTree α) (t : KeyTree α) :
    (t.update part f).child part = f (t.child part) := by
  induction t with
  | nil => exact if_pos rfl
  | node key sub rest _ ih =>
      rw [update, child]
      by_cases h : key = part
      · rw [if_pos h, if_pos h, child, if_pos h]
      · rw [if_neg h, if_neg h, child, if_neg h, ih]

theorem child_update_of_ne {part k : α} (hk : part ≠ k) (f : KeyTree α → KeyTree α) (t : KeyTree α) :
    (t.update part f).child k = t.child k := by
  induction t with
  | nil => exact if_neg hk
  | node key sub rest _ ih =>
      rw [update]
      by_cases h : key = part
      · rw [if_pos h, child, child, if_neg (h ▸ hk), if_neg (h ▸ hk)]
      · rw [if_neg h, child, child, ih]

/-! ## The nodes -/

omit [DecidableEq α] in
theorem mem_paths_node {key : α} {sub rest : KeyTree α} {p : List α} :
    p ∈ (node key sub rest).paths ↔
      p = [key] ∨ (∃ q ∈ sub.paths, key :: q = p) ∨ p ∈ rest.paths := by
  rw [paths, List.mem_cons, List.mem_append, List.mem_map]

omit [DecidableEq α] in
/-- A node is below one of the keys. -/
theorem exists_of_mem_paths {t : KeyTree α} {p : List α} (h : p ∈ t.paths) :
    ∃ key ∈ t.keys, ∃ q, p = key :: q := by
  induction t with
  | nil => cases h
  | node key sub rest _ ih =>
      rcases mem_paths_node.mp h with rfl | ⟨q, _, rfl⟩ | hrest
      · exact ⟨key, List.mem_cons_self .., [], rfl⟩
      · exact ⟨key, List.mem_cons_self .., q, rfl⟩
      · rcases ih hrest with ⟨k, hk, q, rfl⟩
        exact ⟨k, List.mem_cons_of_mem key hk, q, rfl⟩

omit [DecidableEq α] in
/-- Down one level in a prefix. -/
theorem prefix_cons_iff {p : List α} {part : α} {parts : List α} :
    p ≠ [] ∧ p <+: part :: parts ↔
      p = [part] ∨ ∃ q, (q ≠ [] ∧ q <+: parts) ∧ part :: q = p := by
  cases p with
  | nil =>
      constructor
      · intro h
        exact absurd rfl h.1
      · rintro (h | ⟨q, _, h⟩)
        · cases h
        · cases h
  | cons a q =>
      rw [List.cons_prefix_cons]
      constructor
      · rintro ⟨_, rfl, hq⟩
        by_cases hnil : q = []
        · exact .inl (by rw [hnil])
        · exact .inr ⟨q, ⟨hnil, hq⟩, rfl⟩
      · intro h
        refine ⟨List.cons_ne_nil a q, ?_⟩
        rcases h with h | ⟨q', hq', h⟩
        · cases h
          exact ⟨rfl, List.nil_prefix⟩
        · cases h
          exact ⟨rfl, hq'.2⟩

/-- A change that adds nodes below a key adds the key and these. -/
theorem mem_paths_update {part : α} {f : KeyTree α → KeyTree α} {Q : List α → Prop}
    (hf : ∀ t q, q ∈ (f t).paths ↔ q ∈ t.paths ∨ Q q) {p : List α} (t : KeyTree α) :
    p ∈ (t.update part f).paths ↔ p ∈ t.paths ∨ p = [part] ∨ ∃ q, Q q ∧ part :: q = p := by
  induction t with
  | nil =>
      rw [update, mem_paths_node]
      constructor
      · rintro (h | ⟨q, hq, rfl⟩ | h)
        · exact .inr (.inl h)
        · rcases (hf nil q).mp hq with hnil | hQ
          · cases hnil
          · exact .inr (.inr ⟨q, hQ, rfl⟩)
        · cases h
      · rintro (h | h | ⟨q, hQ, rfl⟩)
        · cases h
        · exact .inl h
        · exact .inr (.inl ⟨q, (hf nil q).mpr (.inr hQ), rfl⟩)
  | node key sub rest _ ih =>
      rw [update]
      by_cases h : key = part
      · rw [if_pos h, mem_paths_node, mem_paths_node]
        subst h
        constructor
        · rintro (hp | ⟨q, hq, rfl⟩ | hp)
          · exact .inl (.inl hp)
          · rcases (hf sub q).mp hq with hsub | hQ
            · exact .inl (.inr (.inl ⟨q, hsub, rfl⟩))
            · exact .inr (.inr ⟨q, hQ, rfl⟩)
          · exact .inl (.inr (.inr hp))
        · rintro ((hp | ⟨q, hq, rfl⟩ | hp) | hp | ⟨q, hQ, rfl⟩)
          · exact .inl hp
          · exact .inr (.inl ⟨q, (hf sub q).mpr (.inl hq), rfl⟩)
          · exact .inr (.inr hp)
          · exact .inl hp
          · exact .inr (.inl ⟨q, (hf sub q).mpr (.inr hQ), rfl⟩)
      · rw [if_neg h, mem_paths_node, mem_paths_node, ih, or_assoc, or_assoc]

/-- The non-empty prefixes are added, and nothing else. -/
theorem mem_paths_add (parts : List α) :
    ∀ {p : List α} (t : KeyTree α),
      p ∈ (t.add parts).paths ↔ p ∈ t.paths ∨ (p ≠ [] ∧ p <+: parts) := by
  induction parts with
  | nil =>
      intro p t
      constructor
      · intro h
        exact .inl h
      · rintro (h | ⟨hp, hnil⟩)
        · exact h
        · exact absurd (List.prefix_nil.mp hnil) hp
  | cons part parts ih =>
      intro p t
      rw [add, mem_paths_update (fun t q => ih t), prefix_cons_iff]

theorem ofPaths_concat (ls : List (List α)) (parts : List α) :
    ofPaths (ls ++ [parts]) = (ofPaths ls).add parts := List.foldl_concat ..

/-- The nodes of a tree. -/
theorem mem_paths_ofPaths (ls : List (List α)) {p : List α} :
    p ∈ (ofPaths ls).paths ↔ p ≠ [] ∧ ∃ parts ∈ ls, p <+: parts := by
  induction ls using List.reverseRecOn with
  | nil =>
      constructor
      · intro h
        cases h
      · rintro ⟨_, parts, hparts, _⟩
        cases hparts
  | append_singleton ls parts ih =>
      rw [ofPaths_concat, mem_paths_add, ih, ← and_or_left]
      refine and_congr_right fun _ => ?_
      constructor
      · rintro (⟨ps, hps, hpre⟩ | hpre)
        · exact ⟨ps, List.mem_append_left _ hps, hpre⟩
        · exact ⟨parts, List.mem_append_right _ (List.mem_singleton_self parts), hpre⟩
      · rintro ⟨ps, hps, hpre⟩
        rcases List.mem_append.mp hps with hps | hps
        · exact .inl ⟨ps, hps, hpre⟩
        · exact .inr (List.mem_singleton.mp hps ▸ hpre)

/-! ## No key twice -/

theorem Wf.update {t : KeyTree α} (h : t.Wf) (part : α) {f : KeyTree α → KeyTree α}
    (hf : ∀ t : KeyTree α, t.Wf → (f t).Wf) : (t.update part f).Wf := by
  induction t with
  | nil => exact ⟨List.not_mem_nil, hf nil trivial, trivial⟩
  | node key sub rest _ ih =>
      rcases h with ⟨hkey, hsub, hrest⟩
      rw [KeyTree.update]
      by_cases hpart : key = part
      · rw [if_pos hpart]
        exact ⟨hkey, hf sub hsub, hrest⟩
      · rw [if_neg hpart]
        refine ⟨?_, hsub, ih hrest⟩
        rw [keys_update]
        intro hmem
        by_cases hold : part ∈ rest.keys
        · rw [push_of_mem hold] at hmem
          exact hkey hmem
        · rw [push_of_not_mem hold, List.mem_append, List.mem_singleton] at hmem
          rcases hmem with hmem | hmem
          · exact hkey hmem
          · exact hpart hmem

theorem Wf.add (parts : List α) : ∀ {t : KeyTree α}, t.Wf → (t.add parts).Wf := by
  induction parts with
  | nil =>
      intro t h
      exact h
  | cons part parts ih =>
      intro t h
      exact h.update part fun t ht => ih ht

theorem wf_ofPaths (ls : List (List α)) : (ofPaths ls).Wf := by
  induction ls using List.reverseRecOn with
  | nil => exact trivial
  | append_singleton ls parts ih =>
      rw [ofPaths_concat]
      exact ih.add parts

omit [DecidableEq α] in
/-- No node twice. -/
theorem Wf.nodup_paths {t : KeyTree α} (h : t.Wf) : t.paths.Nodup := by
  induction t with
  | nil => exact List.nodup_nil
  | node key sub rest ihsub ihrest =>
      rcases h with ⟨hkey, hsub, hrest⟩
      have hfresh : ∀ q, key :: q ∉ rest.paths := by
        intro q hq
        rcases exists_of_mem_paths hq with ⟨k, hk, q', heq⟩
        cases heq
        exact hkey hk
      have hbelow : (sub.paths.map (key :: ·)).Nodup :=
        (ihsub hsub).map fun p q hpq => (List.cons.inj hpq).2
      rw [paths, List.nodup_cons, List.mem_append]
      refine ⟨?_, List.nodup_append.mpr ⟨hbelow, ihrest hrest, ?_⟩⟩
      · rintro (hmem | hmem)
        · rcases List.mem_map.mp hmem with ⟨q, hq, heq⟩
          rcases exists_of_mem_paths hq with ⟨k, _, q', rfl⟩
          cases heq
        · exact hfresh [] hmem
      · intro p hp q hq hpq
        rcases List.mem_map.mp hp with ⟨p', _, rfl⟩
        exact hfresh p' (hpq ▸ hq)

/-- Adding what is there changes nothing. -/
theorem Wf.add_eq_self (parts : List α) :
    ∀ {t : KeyTree α}, t.Wf → parts = [] ∨ parts ∈ t.paths → t.add parts = t := by
  induction parts with
  | nil =>
      intro t _ _
      rfl
  | cons part parts ih =>
      intro t h hmem
      replace hmem := hmem.resolve_left (List.cons_ne_nil part parts)
      rw [KeyTree.add]
      induction t with
      | nil => cases hmem
      | node key sub rest _ ihrest =>
          rcases h with ⟨hkey, hsub, hrest⟩
          rw [KeyTree.update]
          by_cases hpart : key = part
          · subst hpart
            have hbelow : parts = [] ∨ parts ∈ sub.paths := by
              rcases mem_paths_node.mp hmem with heq | ⟨q, hq, heq⟩ | hq
              · cases heq
                exact .inl rfl
              · cases heq
                exact .inr hq
              · rcases exists_of_mem_paths hq with ⟨k, hk, q, heq⟩
                cases heq
                exact absurd hk hkey
            rw [if_pos rfl, ih hsub hbelow]
          · have hrest' : part :: parts ∈ rest.paths := by
              rcases mem_paths_node.mp hmem with heq | ⟨q, _, heq⟩ | hq
              · cases heq
                exact absurd rfl hpart
              · cases heq
                exact absurd rfl hpart
              · exact hq
            rw [if_neg hpart, ihrest hrest hrest']

/-- What comes again changes nothing. -/
theorem ofPaths_repeat {before : List (List α)} {parts : List α} (h : parts ∈ before)
    (behind : List (List α)) : ofPaths (before ++ parts :: behind) = ofPaths (before ++ behind) := by
  have hmem : parts = [] ∨ parts ∈ (ofPaths before).paths := by
    by_cases hnil : parts = []
    · exact .inl hnil
    · exact .inr ((mem_paths_ofPaths before).mpr ⟨hnil, parts, h, List.prefix_refl parts⟩)
  have hself : (ofPaths before).add parts = ofPaths before :=
    (wf_ofPaths before).add_eq_self parts hmem
  rw [ofPaths, ofPaths, List.foldl_append, List.foldl_append, List.foldl_cons]
  exact congrArg (fun t => behind.foldl _ t) hself

/-! ## The keys at a node -/

theorem next_cons (k a : α) (p parts : List α) :
    next (k :: p) (a :: parts) = if a = k then next p parts else none := by
  by_cases h : a = k
  · subst h
    simp only [next, List.cons_prefix_cons, true_and, List.length_cons, List.drop_succ_cons,
      if_true]
  · rw [if_neg h, next, if_neg]
    rw [List.cons_prefix_cons]
    exact fun hp => h hp.1.symm

theorem keys_descend_add (p : List α) : ∀ (t : KeyTree α) (parts : List α),
    ((t.add parts).descend p).keys = (next p parts).elim (t.descend p).keys
      (push (t.descend p).keys) := by
  induction p with
  | nil =>
      intro t parts
      cases parts with
      | nil => rfl
      | cons part parts => exact keys_update part _ t
  | cons k p ih =>
      intro t parts
      cases parts with
      | nil =>
          rw [next, if_neg fun h => List.cons_ne_nil k p (List.prefix_nil.mp h)]
          rfl
      | cons part parts =>
          rw [next_cons, descend, List.foldl_cons, add]
          by_cases h : part = k
          · subst h
            rw [child_update_self, if_pos rfl]
            exact ih (t.child part) parts
          · rw [child_update_of_ne h, if_neg h]
            rfl

/-- The keys at a node stand in the order in which they first came up. -/
theorem keys_descend_ofPaths (ls : List (List α)) (p : List α) :
    ((ofPaths ls).descend p).keys = following p ls := by
  have hnil : ((nil : KeyTree α).descend p).keys = [] := by
    induction p with
    | nil => rfl
    | cons k p ih => exact ih
  have hloop := foldl_eraseDups (fun t : KeyTree α => (t.descend p).keys)
    (fun t parts => t.add parts) (next p) (fun _ => True) (fun _ _ _ => trivial)
    (fun t parts _ => keys_descend_add p t parts) (s := nil) trivial
    (by rw [hnil]; exact List.nodup_nil) ls
  rw [hnil, List.nil_append] at hloop
  exact hloop

end KeyTree
end Smoll.Trie
