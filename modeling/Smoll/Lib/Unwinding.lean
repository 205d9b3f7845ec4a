/-
# `Smoll.Lib.Unwinding` — what one party sees of two runs

A system takes events one after another.  A party sees some of them: `sees e`
is what it knows of the event `e`, and `none` when the event is not its own.
At each event it sees, it makes an observation.

Two runs that show the party the same events need not be in step, and their
states need not agree.  If a relation of states

    is kept when either run takes an event the party does not see,
    is kept when both take events that look the same to it, and
    makes the observations at these equal,

then the two runs give the party the same observations (`Unwinds.observe_eq`).
-/
import Mathlib.Init

namespace Smoll

variable {σ ε κ ω : Type}

/-- The observations of a party, one for each event it sees. -/
def observe (step : σ → ε → σ) (sees : ε → Option κ) (out : σ → ε → ω) : σ → List ε → List ω
  | _, [] => []
  | s, e :: es =>
      match sees e with
      | none => observe step sees out (step s e) es
      | some _ => out s e :: observe step sees out (step s e) es

/-- States that a party cannot tell apart, now or later. -/
structure Unwinds (step : σ → ε → σ) (sees : ε → Option κ) (out : σ → ε → ω)
    (R : σ → σ → Prop) : Prop where
  symm : ∀ {s t}, R s t → R t s
  unseen : ∀ {s t e}, R s t → sees e = none → R (step s e) t
  seen : ∀ {s t e e' k}, R s t → sees e = some k → sees e' = some k →
    out s e = out t e' ∧ R (step s e) (step t e')

namespace Unwinds

variable {step : σ → ε → σ} {sees : ε → Option κ} {out : σ → ε → ω} {R : σ → σ → Prop}

/-- Events that are not seen give no observations. -/
theorem observe_unseen (es : List ε) :
    ∀ s, es.filterMap sees = [] → observe step sees out s es = [] := by
  induction es with
  | nil =>
      intro s _
      rfl
  | cons e es ih =>
      intro s hes
      cases he : sees e with
      | none =>
          rw [List.filterMap_cons_none he] at hes
          simp only [observe, he]
          exact ih (step s e) hes
      | some k =>
          rw [List.filterMap_cons_some he] at hes
          cases hes

/-- The run goes to the first event the party sees. -/
theorem observe_seen (h : Unwinds step sees out R) {k : κ} {ks : List κ} (es : List ε) :
    ∀ {s t}, R t s → es.filterMap sees = k :: ks →
      ∃ s' e rest, R t s' ∧ sees e = some k ∧ rest.filterMap sees = ks ∧
        observe step sees out s es = out s' e :: observe step sees out (step s' e) rest := by
  induction es with
  | nil =>
      intro s t _ hes
      cases hes
  | cons e es ih =>
      intro s t hR hes
      cases he : sees e with
      | none =>
          rw [List.filterMap_cons_none he] at hes
          simp only [observe, he]
          exact ih (h.symm (h.unseen (h.symm hR) he)) hes
      | some k' =>
          rw [List.filterMap_cons_some he, List.cons.injEq] at hes
          rcases hes with ⟨rfl, hks⟩
          refine ⟨s, e, es, hR, he, hks, ?_⟩
          simp only [observe, he]

/-- **Unwinding.**  Runs from related states that show the party the same events give it the
same observations. -/
theorem observe_eq (h : Unwinds step sees out R) (es es' : List ε) :
    ∀ {s t}, R s t → es.filterMap sees = es'.filterMap sees →
      observe step sees out s es = observe step sees out t es' := by
  induction es generalizing es' with
  | nil =>
      intro s t _ hsame
      exact (observe_unseen es' t hsame.symm).symm
  | cons e es ih =>
      intro s t hR hsame
      cases he : sees e with
      | none =>
          rw [List.filterMap_cons_none he] at hsame
          simp only [observe, he]
          exact ih es' (h.unseen hR he) hsame
      | some k =>
          rw [List.filterMap_cons_some he] at hsame
          rcases h.observe_seen es' hR hsame.symm with ⟨t', e', rest, hR', he', hrest, hobserve⟩
          rcases h.seen hR' he he' with ⟨hout, hnext⟩
          rw [hobserve]
          simp only [observe, he]
          rw [hout, ih rest hnext hrest.symm]

end Unwinds

end Smoll
