/-
# FroggyKVM.Lib.Codewords — concatenations of codewords that can be told apart.

A code gives every symbol a codeword.  When no codeword is a prefix of another one's and none is
empty, the concatenation of the codewords determines the symbols.
-/
import Mathlib

namespace FroggyKVM.Codewords

variable {α β : Type*}

/-- No codeword is empty or a prefix of another one's. -/
structure PrefixFree (code : α → List β) : Prop where
  ne_nil : ∀ a, code a ≠ []
  unique : ∀ a b, code a <+: code b → a = b

/-- A code whose first codeword can be read off any text. -/
theorem PrefixFree.of_read {code : α → List β} {read : List β → α}
    (hread : ∀ a rest, read (code a ++ rest) = a) (hne : ∀ a, code a ≠ []) : PrefixFree code := by
  refine ⟨hne, ?_⟩
  rintro a b ⟨rest, hrest⟩
  have hb := hread b []
  rw [List.append_nil, ← hrest, hread] at hb
  exact hb

/-- Of two texts that start alike, one first codeword is a prefix of the other. -/
theorem PrefixFree.eq_of_append {code : α → List β} (h : PrefixFree code) {a b : α}
    {rest rest' : List β} (heq : code a ++ rest = code b ++ rest') : a = b := by
  have hpre : code a <+: code b ++ rest' := ⟨rest, heq⟩
  rcases Nat.le_total (code a).length (code b).length with hle | hle
  · exact h.unique a b (List.prefix_of_prefix_length_le hpre (List.prefix_append _ _) hle)
  · exact (h.unique b a (List.prefix_of_prefix_length_le (List.prefix_append _ _) hpre hle)).symm

/-- **The symbols of a concatenation of codewords.** -/
theorem PrefixFree.flatMap_injective {code : α → List β} (h : PrefixFree code) :
    Function.Injective fun s : List α => s.flatMap code := by
  intro s t heq
  induction s generalizing t with
  | nil =>
    cases t with
    | nil => rfl
    | cons b t =>
      have hnil : code b = [] := (List.append_eq_nil_iff.1 heq.symm).1
      exact absurd hnil (h.ne_nil b)
  | cons a s ih =>
    cases t with
    | nil =>
      have hnil : code a = [] := (List.append_eq_nil_iff.1 heq).1
      exact absurd hnil (h.ne_nil a)
    | cons b t =>
      have heq' : code a ++ s.flatMap code = code b ++ t.flatMap code := heq
      obtain rfl := h.eq_of_append heq'
      rw [ih (List.append_cancel_left heq')]

end FroggyKVM.Codewords
