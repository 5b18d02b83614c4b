/-
# FroggyKVM.Lib.ForRange — counting loops that may fail.

`forRange f n i` is `f` at `i`, at `i + 1`, and so on, `n` times, on a state that each turn may
change or give up on.  Turns that change nothing can be left out at both ends (`forRange_trim`).
-/
import Mathlib

namespace FroggyKVM

variable {ε σ : Type*}

/-- The loop from `i` on, with `n` turns. -/
def forRange (f : Int → σ → Except ε σ) : Nat → Int → σ → Except ε σ
  | 0, _, s => .ok s
  | n + 1, i, s => f i s >>= forRange f n (i + 1)

variable {f g : Int → σ → Except ε σ} {s : σ} {i : Int}

theorem forRange_add {m n : Nat} :
    forRange f (m + n) i s = forRange f m i s >>= forRange f n (i + m) := by
  induction m generalizing i s with
  | zero => simp [forRange, Bind.bind, Except.bind]
  | succ m ih =>
    rw [Nat.succ_add, forRange, forRange, bind_assoc]
    congr 1
    funext s'
    rw [ih, Nat.cast_succ, add_assoc, add_comm (1 : Int)]

/-- Turns that do the same. -/
theorem forRange_congr {n : Nat} (h : ∀ j, i ≤ j → j < i + n → f j = g j) :
    forRange f n i s = forRange g n i s := by
  induction n generalizing i s with
  | zero => rfl
  | succ n ih =>
    rw [forRange, forRange, h i (le_refl i) (by omega)]
    congr 1
    funext s'
    exact ih fun j h₁ h₂ => h j (by omega) (by omega)

/-- Turns that change nothing. -/
theorem forRange_idle {n : Nat} (h : ∀ j, i ≤ j → j < i + n → ∀ s, f j s = .ok s) :
    forRange f n i s = .ok s := by
  induction n generalizing i with
  | zero => rfl
  | succ n ih =>
    rw [forRange, h i (le_refl i) (by omega)]
    exact ih fun j h₁ h₂ => h j (by omega) (by omega)

/-- Turns that do not fail. -/
theorem forRange_ok {n : Nat} (h : ∀ j, i ≤ j → j < i + n → ∀ s, ∃ s', f j s = .ok s') :
    ∃ s', forRange f n i s = .ok s' := by
  induction n generalizing i s with
  | zero => exact ⟨s, rfl⟩
  | succ n ih =>
    obtain ⟨s', hs'⟩ := h i (le_refl i) (by omega) s
    rw [forRange, hs']
    exact ih fun j h₁ h₂ => h j (by omega) (by omega)

/-- Turns that are a function of the state. -/
theorem forRange_pure {n : Nat} {step : Int → σ → σ}
    (h : ∀ j, i ≤ j → j < i + n → ∀ s, f j s = .ok (step j s)) :
    forRange f n i s = .ok ((List.range n).foldl (fun s (k : Nat) => step (i + k) s) s) := by
  induction n with
  | zero => rfl
  | succ n ih =>
    rw [forRange_add, ih fun j h₁ h₂ => h j h₁ (by omega), List.range_succ, List.foldl_append]
    change forRange f 1 (i + n) _ = _
    rw [forRange, h (i + n) (by omega) (by omega)]
    rfl

/-- **Turns that keep an invariant**, which may speak of the turn. -/
theorem forRange_invariant {Inv : Nat → σ → Prop} {a n : Nat}
    (hstep : ∀ j s, a ≤ j → j < a + n → Inv j s → ∃ s', f j s = .ok s' ∧ Inv (j + 1) s')
    (h : Inv a s) : ∃ s', forRange f n a s = .ok s' ∧ Inv (a + n) s' := by
  induction n generalizing a s with
  | zero => exact ⟨s, rfl, h⟩
  | succ n ih =>
    obtain ⟨s₁, hturn, h₁⟩ := hstep a s (Nat.le_refl a) (by omega) h
    obtain ⟨s', hrest, h'⟩ := ih (a := a + 1) (fun j s hj hlt => hstep j s (by omega) (by omega)) h₁
    refine ⟨s', ?_, by rwa [Nat.add_assoc, Nat.add_comm 1 n] at h'⟩
    rw [forRange, hturn]
    exact hrest

/-- **Idle turns can be left out** before `lo` and from `hi` on. -/
theorem forRange_trim {n : Nat} {lo hi : Int} (hlo : i ≤ lo) (hhi : hi ≤ i + n)
    (h : ∀ j, i ≤ j → j < i + n → j < lo ∨ hi ≤ j → ∀ s, f j s = .ok s) :
    forRange f (hi - lo).toNat lo s = forRange f n i s := by
  by_cases hempty : hi ≤ lo
  · have hzero : (hi - lo).toNat = 0 := by omega
    rw [hzero, forRange_idle fun j h₁ h₂ => h j h₁ h₂ (by omega)]
    rfl
  · obtain ⟨a, ha⟩ : ∃ a : Nat, lo = i + a := ⟨(lo - i).toNat, by omega⟩
    obtain ⟨b, hb⟩ : ∃ b : Nat, hi = lo + b := ⟨(hi - lo).toNat, by omega⟩
    obtain ⟨c, hc⟩ : ∃ c : Nat, n = a + (b + c) := ⟨(i + n - hi).toNat, by omega⟩
    have hcount : (hi - lo).toNat = b := by omega
    rw [hcount, hc, forRange_add, forRange_idle fun j h₁ h₂ => h j h₁ (by omega) (by omega)]
    change _ = forRange f (b + c) (i + a) s
    rw [← ha, forRange_add]
    cases hmid : forRange f b lo s with
    | error e => rfl
    | ok s' =>
      exact (forRange_idle fun j h₁ h₂ => h j (by omega) (by omega) (by omega)).symm

end FroggyKVM
