/-
# FroggyKVM.Lib.Outcome — postconditions of computations that keep their state when they throw.

A computation of `ExceptT ε (StateM S)` ends in a value or an exception, and in a state either way.
`Holds Q E` asks `Q` of the one outcome and `E` of the other.  `Refines` compares two computations
up to one exception, the one that stands for running out of steps.
-/
import Mathlib

namespace FroggyKVM.Outcome

universe u

variable {ε S α β : Type u}

theorem bind_ok {x : ExceptT ε (StateM S) α} {s s' : S} {a : α} (h : x s = (.ok a, s'))
    (f : α → ExceptT ε (StateM S) β) : (x >>= f) s = f a s' := by
  show (ExceptT.bindCont f (x s).1) (x s).2 = f a s'
  rw [h]
  rfl

theorem bind_error {x : ExceptT ε (StateM S) α} {s s' : S} {e : ε} (h : x s = (.error e, s'))
    (f : α → ExceptT ε (StateM S) β) : (x >>= f) s = (.error e, s') := by
  show (ExceptT.bindCont f (x s).1) (x s).2 = _
  rw [h]
  rfl

/-- The exception and the state satisfy `E`, or the value and the state satisfy `Q`. -/
def Holds (Q : α → S → Prop) (E : ε → S → Prop) : Except ε α × S → Prop
  | (.ok a, s) => Q a s
  | (.error e, s) => E e s

theorem Holds.mono {Q Q' : α → S → Prop} {E E' : ε → S → Prop} {r : Except ε α × S}
    (h : Holds Q E r) (hQ : ∀ a s, Q a s → Q' a s) (hE : ∀ e s, E e s → E' e s) :
    Holds Q' E' r := by
  rcases r with ⟨_ | _, s⟩
  · exact hE _ s h
  · exact hQ _ s h

theorem Holds.and {Q Q' : α → S → Prop} {E E' : ε → S → Prop} {r : Except ε α × S}
    (h : Holds Q E r) (h' : Holds Q' E' r) :
    Holds (fun a s => Q a s ∧ Q' a s) (fun e s => E e s ∧ E' e s) r := by
  rcases r with ⟨_ | _, s⟩
  · exact ⟨h, h'⟩
  · exact ⟨h, h'⟩

/-- Sequencing: what the first part leaves is what the second starts from. -/
theorem Holds.bind {x : ExceptT ε (StateM S) α} {f : α → ExceptT ε (StateM S) β} {s : S}
    {P : α → S → Prop} {Q : β → S → Prop} {E : ε → S → Prop} (hx : Holds P E (x s))
    (hf : ∀ a s', P a s' → Holds Q E (f a s')) : Holds Q E ((x >>= f) s) := by
  rcases hr : x s with ⟨_ | a, s'⟩
  · rw [bind_error hr]
    rw [hr] at hx
    exact hx
  · rw [bind_ok hr]
    rw [hr] at hx
    exact hf a s' hx

/-- A computation that never throws. -/
theorem Holds.returns {Q : α → S → Prop} {r : Except ε α × S} (h : Holds Q (fun _ _ => False) r) :
    ∃ a s, r = (.ok a, s) ∧ Q a s := by
  rcases r with ⟨_ | a, s⟩
  · exact h.elim
  · exact ⟨a, s, rfl, h⟩

/-! ## More steps -/

/-- Where `x` does not end in `stop`, `y` does the same. -/
def Refines (stop : ε) (x y : ExceptT ε (StateM S) α) : Prop :=
  ∀ s, (x s).1 ≠ .error stop → y s = x s

variable {stop : ε}

theorem Refines.refl (x : ExceptT ε (StateM S) α) : Refines stop x x := fun _ _ => rfl

theorem Refines.bind {x y : ExceptT ε (StateM S) α} {f g : α → ExceptT ε (StateM S) β}
    (hxy : Refines stop x y) (hfg : ∀ a, Refines stop (f a) (g a)) :
    Refines stop (x >>= f) (y >>= g) := by
  intro s hs
  rcases hr : x s with ⟨e | a, s'⟩
  · rw [bind_error hr] at hs ⊢
    have hx : (x s).1 ≠ .error stop := by
      rw [hr]
      rintro ⟨⟩
      exact hs rfl
    exact bind_error ((hxy s hx).trans hr) g
  · rw [bind_ok hr] at hs ⊢
    rw [bind_ok ((hxy s (hr ▸ nofun)).trans hr) g]
    exact hfg a s' hs

theorem Refines.of_throw {x y : ExceptT ε (StateM S) α} (h : ∀ s, (x s).1 = .error stop) :
    Refines stop x y := fun s hs => absurd (h s) hs

theorem Refines.ite {c : Prop} [Decidable c] {x y x' y' : ExceptT ε (StateM S) α}
    (hx : Refines stop x x') (hy : Refines stop y y') :
    Refines stop (if c then x else y) (if c then x' else y') := by
  by_cases hc : c
  · rw [if_pos hc, if_pos hc]
    exact hx
  · rw [if_neg hc, if_neg hc]
    exact hy

end FroggyKVM.Outcome
