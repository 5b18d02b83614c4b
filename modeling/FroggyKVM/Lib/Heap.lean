/-
# FroggyKVM.Lib.Heap — the order of a binary heap with its root at index 1.

A heap is a map from the indices `1..size` to keys in which no key is below its parent's.  Sifting
moves one key that may be out of order: `Rising` and `Sinking` are the orders with one exception, an
exchange with the parent or with the smaller kid moves the exception, and where it needs no exchange
the heap is in order.
-/
import Mathlib

namespace FroggyKVM.Heap

variable {α : Type*} [LinearOrder α] {f : Nat → α} {size j k : Nat}

/-- **The heap order.** -/
def Ordered (size : Nat) (f : Nat → α) : Prop := ∀ c, 2 ≤ c → c ≤ size → f (c / 2) ≤ f c

/-- The keys at `j` and `k` change places. -/
def swapAt (f : Nat → α) (j k : Nat) : Nat → α :=
  fun i => if i = k then f j else if i = j then f k else f i

/-- The root is a least key. -/
theorem Ordered.root_le (h : Ordered size f) : ∀ k, 1 ≤ k → k ≤ size → f 1 ≤ f k := by
  intro k
  induction k using Nat.strongRecOn with
  | _ k ih =>
    intro h1 hk
    by_cases hroot : k = 1
    · rw [hroot]
    · have hparent := ih (k / 2) (by omega) (by omega) (by omega)
      exact le_trans hparent (h k (by omega) hk)

/-- In order, but for the key at `k` and its parent. -/
structure Rising (size k : Nat) (f : Nat → α) : Prop where
  others : ∀ c, 2 ≤ c → c ≤ size → c ≠ k → f (c / 2) ≤ f c
  above : 2 ≤ k → ∀ c, 2 ≤ c → c ≤ size → c / 2 = k → f (k / 2) ≤ f c

theorem Rising.ordered (h : Rising size k f) (hk : 2 ≤ k → f (k / 2) ≤ f k) : Ordered size f := by
  intro c h2 hc
  by_cases heq : c = k
  · subst heq
    exact hk h2
  · exact h.others c h2 hc heq

theorem Rising.swap (h : Rising size k f) (h2 : 2 ≤ k) (hk : k ≤ size) (hlt : f k < f (k / 2)) :
    Rising size (k / 2) (swapAt f (k / 2) k) := by
  unfold swapAt
  constructor
  · intro c hc2 hc hne
    by_cases hck : c = k
    · subst hck
      rw [if_neg (by omega), if_pos rfl, if_pos rfl]
      exact hlt.le
    rw [if_neg hck, if_neg hne]
    by_cases hpar : c / 2 = k
    · rw [if_pos hpar]
      exact h.above h2 c hc2 hc hpar
    rw [if_neg hpar]
    by_cases hsib : c / 2 = k / 2
    · rw [if_pos hsib]
      exact hlt.le.trans (hsib ▸ h.others c hc2 hc hck)
    rw [if_neg hsib]
    exact h.others c hc2 hc hck
  · intro hp2 c hc2 hc hpar
    have hgrand := h.others (k / 2) hp2 (by omega) (by omega)
    rw [if_neg (by omega), if_neg (by omega)]
    by_cases hck : c = k
    · rw [if_pos hck]
      exact hgrand
    · rw [if_neg hck, if_neg (by omega)]
      exact hgrand.trans (hpar ▸ h.others c hc2 hc hck)

/-- In order, but for the key at `k` and its kids. -/
structure Sinking (size k : Nat) (f : Nat → α) : Prop where
  others : ∀ c, 2 ≤ c → c ≤ size → c / 2 ≠ k → f (c / 2) ≤ f c
  under : 2 ≤ k → ∀ c, 2 ≤ c → c ≤ size → c / 2 = k → f (k / 2) ≤ f c

theorem Sinking.ordered (h : Sinking size k f)
    (hk : ∀ c, 2 ≤ c → c ≤ size → c / 2 = k → f k ≤ f c) : Ordered size f := by
  intro c h2 hc
  by_cases heq : c / 2 = k
  · rw [heq]
    exact hk c h2 hc heq
  · exact h.others c h2 hc heq

theorem Sinking.swap (h : Sinking size k f) (h1 : 1 ≤ k) (hjk : j / 2 = k) (hj : j ≤ size)
    (hmin : ∀ c, 2 ≤ c → c ≤ size → c / 2 = k → f j ≤ f c) (hlt : f j < f k) :
    Sinking size j (swapAt f k j) := by
  unfold swapAt
  constructor
  · intro c hc2 hc hne
    rw [if_neg hne]
    by_cases hpar : c / 2 = k
    · rw [if_pos hpar]
      by_cases hcj : c = j
      · rw [if_pos hcj]
        exact hlt.le
      · rw [if_neg hcj, if_neg (by omega)]
        exact hmin c hc2 hc hpar
    rw [if_neg hpar]
    by_cases hck : c = k
    · rw [if_neg (by omega), if_pos hck]
      subst hck
      exact h.under hc2 j (by omega) hj hjk
    rw [if_neg (by omega), if_neg hck]
    exact h.others c hc2 hc hpar
  · intro hj2 c hc2 hc hpar
    rw [hjk, if_neg (by omega), if_pos rfl, if_neg (by omega), if_neg (by omega)]
    exact hpar ▸ h.others c hc2 hc (by omega)

/-- Removing the last key, and putting any key at the root. -/
theorem Ordered.sinking {g : Nat → α} {size' : Nat} (h : Ordered size f) (hle : size' ≤ size)
    (hg : ∀ i, 2 ≤ i → i ≤ size' → g i = f i) : Sinking size' 1 g := by
  constructor
  · intro c hc2 hc hne
    rw [hg c hc2 hc, hg (c / 2) (by omega) (by omega)]
    exact h c hc2 (by omega)
  · intro h2
    omega

/-- Putting any key behind the last. -/
theorem Ordered.rising {g : Nat → α} (h : Ordered size f)
    (hg : ∀ i, 1 ≤ i → i ≤ size → g i = f i) : Rising (size + 1) (size + 1) g := by
  constructor
  · intro c hc2 hc hne
    rw [hg c (by omega) (by omega), hg (c / 2) (by omega) (by omega)]
    exact h c hc2 (by omega)
  · intro _ c hc2 hc hpar
    omega

end FroggyKVM.Heap
