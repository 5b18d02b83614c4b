/-
# FroggyKVM.Lib.Painting — drawing operations, described by the set of places they cover.

A `View` says which states are well formed and what a state shows at each place.  `Paints V v S op`
is total correctness of a drawing operation: on every well-formed state `op` succeeds, shows `v` at
the places of `S`, and leaves every other place as it was.  Operations in sequence cover the union,
and an operation covers one set only.
-/
import Mathlib

namespace FroggyKVM

/-- A way of looking at states. -/
structure View (σ ι α : Type) where
  Ok : σ → Prop
  look : σ → ι → α

namespace View

variable {σ ι α ε : Type} {V : View σ ι α} {v : α} {S T : Set ι} {f g : σ → Except ε σ}

/-- `s'` shows `v` on `S` and what `s` shows elsewhere. -/
structure Covers (V : View σ ι α) (v : α) (S : Set ι) (s s' : σ) : Prop where
  inside : ∀ i ∈ S, V.look s' i = v
  outside : ∀ i ∉ S, V.look s' i = V.look s i

/-- **The operation succeeds and covers exactly `S`.** -/
def Paints (V : View σ ι α) (v : α) (S : Set ι) (op : σ → Except ε σ) : Prop :=
  ∀ s, V.Ok s → ∃ s', op s = .ok s' ∧ V.Ok s' ∧ V.Covers v S s s'

theorem Covers.refl (V : View σ ι α) (v : α) (s : σ) : V.Covers v ∅ s s :=
  ⟨fun _ h => h.elim, fun _ _ => rfl⟩

theorem Covers.trans {s s' s'' : σ} (h : V.Covers v S s s') (h' : V.Covers v T s' s'') :
    V.Covers v (S ∪ T) s s'' where
  inside i hi := by
    by_cases hT : i ∈ T
    · exact h'.inside i hT
    · rw [h'.outside i hT]
      exact h.inside i (hi.resolve_right hT)
  outside i hi := by
    rw [h'.outside i fun hT => hi (.inr hT), h.outside i fun hS => hi (.inl hS)]

namespace Paints

theorem nothing (V : View σ ι α) (v : α) : V.Paints v ∅ (.ok : σ → Except ε σ) :=
  fun s hs => ⟨s, rfl, hs, .refl V v s⟩

theorem seq (hf : V.Paints v S f) (hg : V.Paints v T g) :
    V.Paints v (S ∪ T) fun s => f s >>= g := by
  intro s hs
  obtain ⟨s', hs', hok', hcovers⟩ := hf s hs
  obtain ⟨s'', hs'', hok'', hcovers'⟩ := hg s' hok'
  have hrun : (f s >>= g) = .ok s'' := by
    rw [hs']
    exact hs''
  exact ⟨s'', hrun, hok'', hcovers.trans hcovers'⟩

/-- Two operations that agree on the well-formed states. -/
theorem of_eq (hg : V.Paints v S g) (h : ∀ s, V.Ok s → f s = g s) : V.Paints v S f := by
  intro s hs
  rw [h s hs]
  exact hg s hs

theorem of_set (hf : V.Paints v S f) (h : ∀ i, i ∈ T ↔ i ∈ S) : V.Paints v T f := by
  rw [Set.ext h]
  exact hf

/-- An operation that fails somewhere paints nothing. -/
theorem not_of_error {s : σ} {e : ε} (hs : V.Ok s) (he : f s = .error e) : ¬ V.Paints v S f := by
  intro h
  obtain ⟨s', hs', -, -⟩ := h s hs
  cases he.symm.trans hs'

/-- **An operation paints one set only**, if some state shows `v` nowhere. -/
theorem unique {blank : σ} (hok : V.Ok blank) (hblank : ∀ i, V.look blank i ≠ v)
    (hS : V.Paints v S f) (hT : V.Paints v T f) (i : ι) : i ∈ S ↔ i ∈ T := by
  obtain ⟨s, hs, -, hcS⟩ := hS blank hok
  obtain ⟨s', hs', -, hcT⟩ := hT blank hok
  obtain rfl : s = s' := Except.ok.inj (hs.symm.trans hs')
  constructor
  · intro hi
    by_contra hT
    exact hblank i ((hcT.outside i hT).symm.trans (hcS.inside i hi))
  · intro hi
    by_contra hS
    exact hblank i ((hcS.outside i hS).symm.trans (hcT.inside i hi))

end Paints

end View

end FroggyKVM
