/-
# FroggyKVM.Lib.Returns — postconditions of computations that may fail.

`Returns x P` says that `P` holds of the result of `x`, if there is one.  The rules follow the shape
of a `do` block: one for `pure`, one for `bind` with an intermediate assertion, one for `bind` when
nothing about the first part is needed.  `Succeeds x P` says in addition that there is a result.
-/
import Mathlib

namespace FroggyKVM

universe u v

variable {ε : Type u} {α β : Type v}

/-- Partial correctness: if `x` returns, its result satisfies `P`. -/
def Returns (x : Except ε α) (P : α → Prop) : Prop := ∀ a, x = .ok a → P a

theorem Returns.ok {a : α} {P : α → Prop} (h : P a) : Returns (.ok a : Except ε α) P := by
  rintro _ ⟨⟩
  exact h

theorem Returns.pure {a : α} {P : α → Prop} (h : P a) : Returns (Pure.pure a : Except ε α) P :=
  Returns.ok h

theorem Returns.error {e : ε} {P : α → Prop} : Returns (.error e : Except ε α) P := by
  rintro _ ⟨⟩

theorem Returns.bind {x : Except ε α} {f : α → Except ε β} {Q : α → Prop} {P : β → Prop}
    (hx : Returns x Q) (hf : ∀ a, Q a → Returns (f a) P) : Returns (x >>= f) P := by
  intro b hb
  cases x with
  | error e => cases hb
  | ok a => exact hf a (hx a rfl) b hb

theorem Returns.bind_any {x : Except ε α} {f : α → Except ε β} {P : β → Prop}
    (hf : ∀ a, Returns (f a) P) : Returns (x >>= f) P :=
  Returns.bind (Q := fun _ => True) (fun _ _ => trivial) fun a _ => hf a

theorem Returns.mono {x : Except ε α} {P Q : α → Prop} (hx : Returns x P) (h : ∀ a, P a → Q a) :
    Returns x Q := fun a ha => h a (hx a ha)

theorem Returns.map {x : Except ε α} {f : α → β} {P : β → Prop}
    (hx : Returns x fun a => P (f a)) : Returns (x.map f) P := by
  intro b hb
  cases x with
  | error e => cases hb
  | ok a =>
    cases hb
    exact hx a rfl

/-! ## Total correctness -/

/-- `x` returns, and its result satisfies `P`. -/
def Succeeds (x : Except ε α) (P : α → Prop) : Prop := ∃ a, x = .ok a ∧ P a

theorem Succeeds.ok {a : α} {P : α → Prop} (h : P a) : Succeeds (.ok a : Except ε α) P := ⟨a, rfl, h⟩

theorem Succeeds.pure {a : α} {P : α → Prop} (h : P a) : Succeeds (Pure.pure a : Except ε α) P :=
  ⟨a, rfl, h⟩

theorem Succeeds.bind {x : Except ε α} {f : α → Except ε β} {Q : α → Prop} {P : β → Prop}
    (hx : Succeeds x Q) (hf : ∀ a, Q a → Succeeds (f a) P) : Succeeds (x >>= f) P := by
  obtain ⟨a, rfl, ha⟩ := hx
  exact hf a ha

theorem Succeeds.bind_ok {x : Except ε α} {a : α} {f : α → Except ε β} {P : β → Prop}
    (hx : x = .ok a) (hf : Succeeds (f a) P) : Succeeds (x >>= f) P := by
  rw [hx]
  exact hf

theorem Succeeds.mono {x : Except ε α} {P Q : α → Prop} (hx : Succeeds x P) (h : ∀ a, P a → Q a) :
    Succeeds x Q := by
  obtain ⟨a, rfl, ha⟩ := hx
  exact ⟨a, rfl, h a ha⟩

/-- A loop whose step keeps an invariant. -/
theorem Succeeds.foldlM {f : α → β → Except ε α} {I : α → Prop}
    (hstep : ∀ a b, I a → Succeeds (f a b) I) (l : List β) {a : α} (h : I a) :
    Succeeds (l.foldlM f a) I := by
  induction l generalizing a with
  | nil => exact .ok h
  | cons b l ih =>
    rw [List.foldlM_cons]
    exact (hstep a b h).bind fun _ => ih

/-! ## Results and errors -/

/-- The result of `x` satisfies `P`, or its error satisfies `F`. -/
def Ends (x : Except ε α) (F : ε → Prop) (P : α → Prop) : Prop :=
  match x with
  | .ok a => P a
  | .error e => F e

theorem Ends.bind {x : Except ε α} {f : α → Except ε β} {F : ε → Prop} {Q : α → Prop}
    {P : β → Prop} (hx : Ends x F Q) (hf : ∀ a, Q a → Ends (f a) F P) : Ends (x >>= f) F P := by
  cases x with
  | error e => exact hx
  | ok a => exact hf a hx

theorem Ends.bind_ok {x : Except ε α} {a : α} {f : α → Except ε β} {F : ε → Prop} {P : β → Prop}
    (hx : x = .ok a) (hf : Ends (f a) F P) : Ends (x >>= f) F P := by
  rw [hx]
  exact hf

theorem Ends.mono {x : Except ε α} {F G : ε → Prop} {P Q : α → Prop} (hx : Ends x F P)
    (hF : ∀ e, F e → G e) (hP : ∀ a, P a → Q a) : Ends x G Q := by
  cases x with
  | error e => exact hF e hx
  | ok a => exact hP a hx

theorem Ends.returns {x : Except ε α} {F : ε → Prop} {P : α → Prop} (hx : Ends x F P) :
    Returns x P := by
  rintro a rfl
  exact hx

/-- Where no error is possible, there is a result. -/
theorem Ends.succeeds {x : Except ε α} {F : ε → Prop} {P : α → Prop} (hx : Ends x F P)
    (hF : ∀ e, ¬ F e) : Succeeds x P := by
  cases x with
  | error e => exact absurd hx (hF e)
  | ok a => exact ⟨a, rfl, hx⟩

/-- A sequence that returns: its first part has returned. -/
theorem ok_of_bind {x : Except ε α} {f : α → Except ε β} {b : β} (h : x >>= f = .ok b) :
    ∃ a, x = .ok a ∧ f a = .ok b := by
  cases x with
  | error e => cases h
  | ok a => exact ⟨a, rfl, h⟩

/-- A mapped computation that returns. -/
theorem ok_of_map {f : α → β} {x : Except ε α} {b : β} (h : f <$> x = .ok b) :
    ∃ a, x = .ok a ∧ f a = b := by
  cases x with
  | error e => cases h
  | ok a => exact ⟨a, rfl, Except.ok.inj h⟩

/-- A result that exists is the one described. -/
theorem Succeeds.returns {x : Except ε α} {P : α → Prop} (hx : Succeeds x P) : Returns x P := by
  obtain ⟨a, rfl, ha⟩ := hx
  exact Returns.ok ha

end FroggyKVM
