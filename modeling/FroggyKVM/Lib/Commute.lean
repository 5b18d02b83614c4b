/-
# FroggyKVM.Lib.Commute — runs whose steps may be taken in any order.

Steps that commute two by two give the same result in every order.  The steps may fail, and they need
to commute only on the states that the run can be in and only for the pairs that the list contains.
-/
import FroggyKVM.Lib.Returns

namespace FroggyKVM

variable {ε S α : Type} {step : S → α → Except ε S} {P : S → Prop} {R : α → α → Prop}

/-- Two runs that agree after the first step. -/
theorem foldlM_cons_congr (hkeep : ∀ s a s', P s → step s a = .ok s' → P s') {l₁ l₂ : List α}
    (h : ∀ s, P s → l₁.foldlM step s = l₂.foldlM step s) (a : α) {s : S} (hs : P s) :
    (a :: l₁).foldlM step s = (a :: l₂).foldlM step s := by
  rw [List.foldlM_cons, List.foldlM_cons]
  cases hstep : step s a with
  | error e => rfl
  | ok s₁ => exact h s₁ (hkeep s a s₁ hs hstep)

/-- **The order of the steps does not matter.** -/
theorem foldlM_perm (hsymm : ∀ a b, R a b → R b a)
    (hkeep : ∀ s a s', P s → step s a = .ok s' → P s')
    (hcomm : ∀ s a b, P s → R a b →
      (step s a >>= fun s => step s b) = (step s b >>= fun s => step s a))
    {l₁ l₂ : List α} (h : l₁.Perm l₂) (hpairs : l₁.Pairwise R) :
    ∀ s, P s → l₁.foldlM step s = l₂.foldlM step s := by
  induction h with
  | nil => exact fun _ _ => rfl
  | cons a _ ih => exact fun s hs => foldlM_cons_congr hkeep (ih hpairs.of_cons) a hs
  | swap a b l =>
    intro s hs
    have hba : R b a := List.rel_of_pairwise_cons hpairs List.mem_cons_self
    -- both orders of the first two steps, and then the same rest
    calc (b :: a :: l).foldlM step s
        = ((step s b >>= fun s => step s a) >>= fun s => l.foldlM step s) := by
          simp only [List.foldlM_cons, bind_assoc]
      _ = ((step s a >>= fun s => step s b) >>= fun s => l.foldlM step s) := by
          rw [hcomm s b a hs hba]
      _ = (a :: b :: l).foldlM step s := by
          simp only [List.foldlM_cons, bind_assoc]
  | trans h₁ _ ih₁ ih₂ =>
    intro s hs
    have hpairs₂ := (h₁.pairwise_iff fun hab => hsymm _ _ hab).1 hpairs
    exact (ih₁ hpairs s hs).trans (ih₂ hpairs₂ s hs)

end FroggyKVM
