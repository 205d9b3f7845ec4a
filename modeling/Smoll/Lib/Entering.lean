/-
# `Smoll.Lib.Entering` — getting into a critical section

`Smoll.Lib.Critical` says that at most one thread is inside, and that it can get
out.  Here is what comes about: whoever is inside gets out when the run is
weakly fair (`Rule.opens`), since it can go on all the time.  A thread that
waits for the semaphore cannot: others may take it whenever it is free.  It gets
in when the run is strongly fair (`Rule.enters`).

`K` is what the waiting thread counts on, and `Goal` what may come about in
between and make the waiting pointless.
-/
import Smoll.Lib.Critical
import Smoll.Lib.Fair

namespace Smoll.Critical

open Sched

variable {T L G : Type} [DecidableEq T] {move : T → L → G → Move L G} {inside : L → Prop}
  {J : G → Prop} {A : T → L → G → Prop}

/-! ## What a move does -/

theorem step_acquire {t : T} {s : System T L G} {l : L}
    (hmove : move t (s.pc t) s.shared = .acquire l) (hfree : 0 < s.semaphore) :
    step move t s =
      some { s with semaphore := s.semaphore - 1, pc := Function.update s.pc t l } := by
  rw [step, hmove]
  exact if_pos hfree

theorem step_wait {t : T} {s : System T L G} {l : L}
    (hmove : move t (s.pc t) s.shared = .acquire l) (htaken : s.semaphore = 0) :
    step move t s = none := by
  rw [step, hmove]
  exact if_neg (by omega)

theorem step_cases {t : T} {s s' : System T L G} (h : step move t s = some s') :
    (∃ l, move t (s.pc t) s.shared = .skip l ∧
      s' = { s with pc := Function.update s.pc t l }) ∨
    (∃ l, move t (s.pc t) s.shared = .acquire l ∧ 0 < s.semaphore ∧
      s' = { s with semaphore := s.semaphore - 1, pc := Function.update s.pc t l }) ∨
    (∃ l g, move t (s.pc t) s.shared = .work l g ∧
      s' = { s with pc := Function.update s.pc t l, shared := g }) ∨
    (∃ l, move t (s.pc t) s.shared = .release l ∧
      s' = { s with semaphore := s.semaphore + 1, pc := Function.update s.pc t l }) := by
  cases hmove : move t (s.pc t) s.shared with
  | skip l =>
      rw [step, hmove] at h
      exact .inl ⟨l, rfl, (Option.some.inj h).symm⟩
  | acquire l =>
      rw [step, hmove] at h
      rcases Option.ite_none_right_eq_some.mp h with ⟨htake, hstate⟩
      exact .inr (.inl ⟨l, rfl, htake, (Option.some.inj hstate).symm⟩)
  | work l g =>
      rw [step_work hmove] at h
      exact .inr (.inr (.inl ⟨l, g, rfl, (Option.some.inj h).symm⟩))
  | release l =>
      rw [step_release hmove] at h
      exact .inr (.inr (.inr ⟨l, rfl, (Option.some.inj h).symm⟩))

/-- A move of one thread leaves the others where they are. -/
theorem step_pc {t u : T} {s s' : System T L G} (h : step move t s = some s') (hne : u ≠ t) :
    s'.pc u = s.pc u := by
  rcases step_cases h with ⟨l, -, rfl⟩ | ⟨l, -, -, rfl⟩ | ⟨l, g, -, rfl⟩ | ⟨l, -, rfl⟩ <;>
    exact Function.update_of_ne hne _ _

/-- A thread inside can go on: further in the section, or out of it. -/
theorem Rule.goes_on (rule : Rule move inside J A) {t : T} {s : System T L G}
    (hin : inside (s.pc t)) :
    ∃ s', Critical.step move t s = some s' ∧
      ((∃ g, move t (s.pc t) s.shared = .work (s'.pc t) g ∧ inside (s'.pc t)) ∨
        ¬ inside (s'.pc t)) := by
  have hrule := rule t (s.pc t) s.shared
  cases hmove : move t (s.pc t) s.shared with
  | skip l =>
      rw [hmove] at hrule
      exact absurd hin hrule.1
  | acquire l =>
      rw [hmove] at hrule
      exact absurd hin hrule.1
  | work l g =>
      rw [hmove] at hrule
      refine ⟨_, step_work hmove, .inl ⟨g, ?_, ?_⟩⟩
      · show Move.work l g = .work (Function.update s.pc t l t) g
        rw [Function.update_self]
      · show inside (Function.update s.pc t l t)
        rw [Function.update_self]
        exact hrule.2.1
  | release l =>
      rw [hmove] at hrule
      refine ⟨_, step_release hmove, .inr ?_⟩
      show ¬ inside (Function.update s.pc t l t)
      rw [Function.update_self]
      exact hrule.2.1

/-! ## Getting out -/

/-- Nobody is inside. -/
def System.Open (inside : L → Prop) (s : System T L G) : Prop := ∀ t, ¬ inside (s.pc t)

omit [DecidableEq T] in
theorem Exclusive.free_of_open {s : System T L G} (h : Exclusive inside J A s)
    (hopen : s.Open inside) : s.semaphore = 1 ∧ J s.shared := by
  cases h with
  | free hone _ hJ => exact ⟨hone, hJ⟩
  | held t _ hin _ _ => exact absurd hin (hopen t)

/-- Some thread that is inside, if any is. -/
noncomputable def System.holder [Nonempty T] (inside : L → Prop) (s : System T L G) : T :=
  Classical.epsilon fun t => inside (s.pc t)

omit [DecidableEq T] in
theorem Exclusive.holder_eq [Nonempty T] {s : System T L G} (h : Exclusive inside J A s) {t : T}
    (hin : inside (s.pc t)) : s.holder inside = t :=
  (h.of_inside hin).2.1 _ (Classical.epsilon_spec (p := fun t => inside (s.pc t)) ⟨t, hin⟩)

/-- Whoever is inside gets out. -/
theorem Rule.opens [Nonempty T] (rule : Rule move inside J A) (rank : L → Nat)
    (hrank : ∀ {t l g l' g'}, move t l g = .work l' g' → rank l' < rank l) :
    LeadsTo (Critical.step move) (Exclusive inside J A)
      (fun s => Exclusive inside J A s ∧ s.Open inside) := by
  have hsome : ∀ {s : System T L G}, Exclusive inside J A s →
      ¬ (Exclusive inside J A s ∧ s.Open inside) → ∃ t, inside (s.pc t) := by
    intro s hex hnot
    by_contra hnone
    exact hnot ⟨hex, fun t hin => hnone ⟨t, hin⟩⟩
  -- the move of the thread inside: further on, or out
  have hgo : ∀ {s : System T L G} {t : T}, Exclusive inside J A s → inside (s.pc t) →
      ∃ s', Critical.step move t s = some s' ∧ Exclusive inside J A s' ∧
        (s'.Open inside ∨ s'.holder inside = t ∧ rank (s'.pc t) < rank (s.pc t)) := by
    intro s t hex hin
    obtain ⟨s', hstep, hkind⟩ := rule.goes_on hin
    have hex' := rule.step hex hstep
    refine ⟨s', hstep, hex', ?_⟩
    rcases hkind with ⟨g, hmove, hin'⟩ | hout
    · exact .inr ⟨hex'.holder_eq hin', hrank hmove⟩
    · refine .inl fun u hu => ?_
      rcases Classical.em (u = t) with rfl | hne
      · exact hout hu
      · rw [step_pc hstep hne] at hu
        exact hne ((hex.of_inside hin).2.1 u hu)
  refine .of_rank (System.holder inside) (fun s => rank (s.pc (s.holder inside))) ?_ ?_
  · intro s hex hnot
    obtain ⟨t, hin⟩ := hsome hex hnot
    obtain ⟨s', hstep, hex', hopen | ⟨hholder', hlt⟩⟩ := hgo hex hin
    · exact ⟨s', hex.holder_eq hin ▸ hstep, .inl ⟨hex', hopen⟩⟩
    · refine ⟨s', hex.holder_eq hin ▸ hstep, .inr ?_⟩
      rw [hholder', hex.holder_eq hin]
      exact hlt
  · intro u s s' hex hnot hstep
    obtain ⟨t, hin⟩ := hsome hex hnot
    have hex' := rule.step hex hstep
    rcases Classical.em (u = t) with rfl | hne
    · obtain ⟨s₁, hstep₁, -, hopen | ⟨hholder', hlt⟩⟩ := hgo hex hin
      · obtain rfl : s₁ = s' := Option.some.inj (hstep₁.symm.trans hstep)
        exact .inl ⟨hex', hopen⟩
      · obtain rfl : s₁ = s' := Option.some.inj (hstep₁.symm.trans hstep)
        refine .inr ⟨hex', .inl ?_⟩
        rw [hholder', hex.holder_eq hin]
        exact hlt
    · have hpc : s'.pc t = s.pc t := step_pc hstep (Ne.symm hne)
      have hholder' : s'.holder inside = t := hex'.holder_eq (hpc ▸ hin)
      refine .inr ⟨hex', .inr ⟨?_, hholder'.trans (hex.holder_eq hin).symm⟩⟩
      rw [hholder', hex.holder_eq hin, hpc]

/-! ## Getting in -/

variable {K Goal : System T L G → Prop}

/-- A thread on its way to the section comes nearer. -/
theorem leadsTo_skip {t : T} {l l' : L} (hskip : ∀ g, move t l g = .skip l')
    (hkeep : ∀ {u s s'}, K s → step move u s = some s' → Goal s' ∨ K s') :
    LeadsTo (step move) (fun s => K s ∧ s.pc t = l) (fun s => Goal s ∨ K s ∧ s.pc t = l') := by
  have hnext : ∀ {s : System T L G}, s.pc t = l →
      step move t s = some { s with pc := Function.update s.pc t l' } := by
    intro s hl
    rw [step, hl, hskip]
  refine .of_agent t (fun _ => 0) ?_ ?_ fun _ _ _ => rfl
  · rintro s ⟨hK, hl⟩ _
    refine ⟨_, hnext hl, .inl ((hkeep hK (hnext hl)).imp id fun hK' => ⟨hK', ?_⟩)⟩
    exact Function.update_self t l' s.pc
  · rintro u s s' ⟨hK, hl⟩ hnot hstep
    rcases hkeep hK hstep with hgoal | hK'
    · exact .inl (.inl hgoal)
    rcases Classical.em (u = t) with rfl | hne
    · obtain rfl := Option.some.inj ((hnext hl).symm.trans hstep)
      exact .inl (.inr ⟨hK', Function.update_self u l' s.pc⟩)
    · exact .inr ⟨hK', (step_pc hstep (Ne.symm hne)).trans hl⟩

/-- A thread that waits for the semaphore gets it when the run is strongly fair. -/
theorem Rule.enters [Nonempty T] (rule : Rule move inside J A) (rank : L → Nat)
    (hrank : ∀ {t l g l' g'}, move t l g = .work l' g' → rank l' < rank l) {t : T} {l l' : L}
    (hacquire : ∀ g, move t l g = .acquire l')
    (hkeep : ∀ {u s s'}, Exclusive inside J A s ∧ K s → Critical.step move u s = some s' →
      Goal s' ∨ Exclusive inside J A s' ∧ K s') :
    StronglyLeadsTo (Critical.step move)
      (fun s => (Exclusive inside J A s ∧ K s) ∧ s.pc t = l)
      (fun s => Goal s ∨ (Exclusive inside J A s ∧ K s) ∧ s.pc t = l') := by
  have henters : ∀ {s s' : System T L G}, (Exclusive inside J A s ∧ K s) ∧ s.pc t = l →
      Critical.step move t s = some s' →
      Goal s' ∨ (Exclusive inside J A s' ∧ K s') ∧ s'.pc t = l' := by
    rintro s s' ⟨hK, hl⟩ hstep
    refine (hkeep hK hstep).imp id fun hK' => ⟨hK', ?_⟩
    rw [Critical.step, hl, hacquire] at hstep
    obtain ⟨-, hstate⟩ := Option.ite_none_right_eq_some.mp hstep
    cases hstate
    exact Function.update_self t l' s.pc
  have hothers : ∀ {u : T} {s s' : System T L G}, (Exclusive inside J A s ∧ K s) ∧ s.pc t = l →
      Critical.step move u s = some s' →
      (Goal s' ∨ (Exclusive inside J A s' ∧ K s') ∧ s'.pc t = l') ∨
        (Exclusive inside J A s' ∧ K s') ∧ s'.pc t = l := by
    intro u s s' hK hstep
    rcases Classical.em (u = t) with rfl | hne
    · exact .inl (henters hK hstep)
    · rcases hkeep hK.1 hstep with hgoal | hK'
      · exact .inl (.inl hgoal)
      · exact .inr ⟨hK', (step_pc hstep (Ne.symm hne)).trans hK.2⟩
  have hcan : LeadsTo (Critical.step move)
      (fun s => (Exclusive inside J A s ∧ K s) ∧ s.pc t = l)
      (fun s => (Goal s ∨ (Exclusive inside J A s ∧ K s) ∧ s.pc t = l') ∨
        Critical.step move t s ≠ none) := by
    intro sched s hfair hs
    obtain ⟨n, hn⟩ := (rule.opens rank hrank).carry hothers sched s hfair ⟨hs.1.1, hs⟩
    refine ⟨n, hn.imp id ?_⟩
    rintro ⟨⟨hex, hopen⟩, -, hl⟩
    have hfree : 0 < (trace (Critical.step move) sched s n).semaphore := by
      rw [(hex.free_of_open hopen).1]
      exact Nat.one_pos
    rw [step_acquire (hl ▸ hacquire _) hfree]
    exact Option.some_ne_none _
  exact .of_waiting t hcan henters hothers

/-- A thread that is inside until the goal comes about, goes on until then. -/
theorem Rule.finishes (rule : Rule move inside J A) (rank : L → Nat)
    (hrank : ∀ {t l g l' g'}, move t l g = .work l' g' → rank l' < rank l) {t : T}
    (hinside : ∀ {s}, K s → inside (s.pc t))
    (hkeep : ∀ {u s s'}, K s → Critical.step move u s = some s' → Goal s' ∨ K s') :
    LeadsTo (Critical.step move) K Goal := by
  refine .of_agent t (fun s => rank (s.pc t)) ?_ (fun hK _ hstep => hkeep hK hstep) ?_
  · intro s hK _
    obtain ⟨s', hstep, ⟨g, hmove, -⟩ | hout⟩ := rule.goes_on (hinside hK)
    · exact ⟨s', hstep, .inr (hrank hmove)⟩
    · exact ⟨s', hstep, .inl ((hkeep hK hstep).resolve_right fun hK' => hout (hinside hK'))⟩
  · intro u s s' _ hne hstep
    rw [step_pc hstep (Ne.symm hne)]

end Smoll.Critical
