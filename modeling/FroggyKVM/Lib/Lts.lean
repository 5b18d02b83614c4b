/-
# FroggyKVM.Lib.Lts — labelled transition systems, their runs, and two rules about runs.

A system is a relation `step : S → L → S → Prop`; a label carries whatever an outside observer
supplies and sees (an operation with its arguments and its result).  `Guarded step ok` keeps the
steps whose source state and label satisfy `ok`, which is how a statement about all runs whose
steps meet a condition is written.
-/
import Mathlib

namespace FroggyKVM.Lts

variable {S T L : Type*}

/-- The run of `step` from one state to another that shows the labels in order. -/
inductive Run (step : S → L → S → Prop) : S → List L → S → Prop
  | nil (s : S) : Run step s [] s
  | cons {s s' s'' : S} {l : L} {ls : List L} :
      step s l s' → Run step s' ls s'' → Run step s (l :: ls) s''

/-- The steps whose source and label satisfy `ok`. -/
def Guarded (step : S → L → S → Prop) (ok : S → L → Prop) (s : S) (l : L) (s' : S) : Prop :=
  ok s l ∧ step s l s'

variable {step : S → L → S → Prop} {step' : T → L → T → Prop}

/-- **The invariant rule.** What every step preserves, every run preserves. -/
theorem Run.invariant {I : S → Prop} (hstep : ∀ s l s', I s → step s l s' → I s')
    {s s' : S} {ls : List L} (hrun : Run step s ls s') (h : I s) : I s' := by
  induction hrun with
  | nil => exact h
  | cons hs _ ih => exact ih (hstep _ _ _ h hs)

/-- **Forward simulation.** A relation that every step of the first system can maintain by a step
of the second with the same label turns runs of the first into runs of the second. -/
theorem Run.simulation {R : S → T → Prop}
    (hsim : ∀ s t l s', R s t → step s l s' → ∃ t', step' t l t' ∧ R s' t')
    {s s' : S} {ls : List L} (hrun : Run step s ls s') :
    ∀ {t : T}, R s t → ∃ t', Run step' t ls t' ∧ R s' t' := by
  induction hrun with
  | nil s => exact fun {t} h => ⟨t, .nil t, h⟩
  | cons hs _ ih =>
    intro t h
    obtain ⟨t₁, ht₁, h₁⟩ := hsim _ _ _ _ h hs
    obtain ⟨t₂, ht₂, h₂⟩ := ih h₁
    exact ⟨t₂, .cons ht₁ ht₂, h₂⟩

/-- More steps, more runs. -/
theorem Run.mono {t : S → L → S → Prop} (h : ∀ s l s', step s l s' → t s l s')
    {s s' : S} {ls : List L} (hrun : Run step s ls s') : Run t s ls s' := by
  induction hrun with
  | nil => exact .nil _
  | cons hs _ ih => exact .cons (h _ _ _ hs) ih

/-- A step and a run from where it leads. -/
theorem Run.exists_cons {s s' : S} {l : L} {ls : List L} (hs : step s l s')
    (h : ∃ s'', Run step s' ls s'') : ∃ s'', Run step s (l :: ls) s'' := by
  obtain ⟨s'', hrun⟩ := h
  exact ⟨s'', .cons hs hrun⟩

/-- A run of two lists of labels passes through a state between them. -/
theorem Run.append_inv {ls ls' : List L} {s s'' : S} (hrun : Run step s (ls ++ ls') s'') :
    ∃ s', Run step s ls s' ∧ Run step s' ls' s'' := by
  induction ls generalizing s with
  | nil => exact ⟨s, .nil s, hrun⟩
  | cons l ls ih =>
    cases hrun with
    | cons hs hrest =>
      obtain ⟨s', h₁, h₂⟩ := ih hrest
      exact ⟨s', .cons hs h₁, h₂⟩

/-- Where a label leads to one state only, so do the labels of a run. -/
theorem Run.unique (hdet : ∀ s l s' s'', step s l s' → step s l s'' → s' = s'') {ls : List L}
    {s s' s'' : S} (hrun : Run step s ls s') (hrun' : Run step s ls s'') : s' = s'' := by
  induction hrun with
  | nil =>
    cases hrun'
    rfl
  | cons hs _ ih =>
    cases hrun' with
    | cons hs' hrest =>
      obtain rfl := hdet _ _ _ _ hs hs'
      exact ih hrest

/-! ## Running a partial step function -/

/-- Run `f` over the labels, as long as it succeeds and every source state and label pass `ok`. -/
def exec {ε : Type*} (f : S → L → Except ε S) (ok : S → L → Bool) : S → List L → Option S
  | s, [] => some s
  | s, l :: ls =>
    if ok s l then
      match f s l with
      | .ok s' => exec f ok s' ls
      | .error _ => none
    else none

theorem Run.of_exec {ε : Type*} {f : S → L → Except ε S} {ok : S → L → Bool} {s' : S} :
    ∀ {ls : List L} {s : S}, exec f ok s ls = some s' →
      Run (Guarded (fun s l s' => f s l = .ok s') (fun s l => ok s l = true)) s ls s'
  | [], s, h => by
    obtain rfl : s = s' := by simpa [exec] using h
    exact .nil s
  | l :: ls, s, h => by
    unfold exec at h
    split at h
    · split at h
      · exact .cons ⟨‹_›, ‹_›⟩ (Run.of_exec h)
      · cases h
    · cases h

/-- A run whose end passes a test, found by running. -/
theorem Run.exists_of_exec {ε : Type*} (f : S → L → Except ε S) (ok : S → L → Bool)
    (P : S → Prop) [DecidablePred P] (s : S) (ls : List L)
    (h : (exec f ok s ls).any (fun s' => decide (P s')) = true) :
    ∃ s', Run (Guarded (fun s l s' => f s l = .ok s') (fun s l => ok s l = true)) s ls s' ∧
      P s' := by
  obtain ⟨s', hexec, hP⟩ := (Option.any_eq_true _ _).1 h
  exact ⟨s', .of_exec hexec, of_decide_eq_true hP⟩

end FroggyKVM.Lts
