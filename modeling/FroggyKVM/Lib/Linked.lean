/-
# FroggyKVM.Lib.Linked — null-terminated lists linked through a field.

A field is a function from nodes to pointers.  `Chain next p l` says that the pointer `p` leads
through exactly the nodes of `l` to null.  A chain looks at `next` on its own nodes only, so a
write to another node keeps it.
-/
import Mathlib

namespace FroggyKVM.Linked

variable {α : Type*}

/-- `p` leads through the nodes of the list, in order, to null. -/
def Chain (next : α → Option α) : Option α → List α → Prop
  | p, [] => p = none
  | p, a :: l => p = some a ∧ Chain next (next a) l

/-- The nodes met on the way to null, at most so many. -/
def follow (next : α → Option α) : Nat → Option α → List α
  | 0, _ => []
  | _ + 1, none => []
  | n + 1, some a => a :: follow next n (next a)

/-- `while (tail.next != NULL) tail = tail.next;`, for so many iterations at most. -/
def tailOf (next : α → Option α) : Nat → α → Option α
  | 0, _ => none
  | n + 1, tail =>
    match next tail with
    | none => some tail
    | some a => tailOf next n a

variable {next next' : α → Option α} {p : Option α} {l : List α} {a : α}

theorem chain_none : Chain next none l ↔ l = [] := by
  cases l with
  | nil => simp [Chain]
  | cons a l => simp [Chain]

theorem chain_some : Chain next (some a) l ↔ ∃ rest, l = a :: rest ∧ Chain next (next a) rest := by
  cases l with
  | nil => simp [Chain]
  | cons b l =>
    constructor
    · rintro ⟨h, hrest⟩
      cases h
      exact ⟨l, rfl, hrest⟩
    · rintro ⟨rest, h, hrest⟩
      cases h
      exact ⟨rfl, hrest⟩

theorem Chain.eq_nil_iff (h : Chain next p l) : l = [] ↔ p = none := by
  cases l with
  | nil => exact ⟨fun _ => h, fun _ => rfl⟩
  | cons a l => simp [h.1]

theorem Chain.congr (h : Chain next p l) (heq : ∀ a ∈ l, next' a = next a) : Chain next' p l := by
  induction l generalizing p with
  | nil => exact h
  | cons a l ih =>
    refine ⟨h.1, ?_⟩
    rw [heq a List.mem_cons_self]
    exact ih h.2 fun b hb => heq b (List.mem_cons_of_mem a hb)

theorem Chain.follow (h : Chain next p l) {n : Nat} (hn : l.length ≤ n) : follow next n p = l := by
  induction l generalizing p n with
  | nil =>
    obtain rfl : p = none := h
    cases n <;> rfl
  | cons a l ih =>
    obtain ⟨rfl, hrest⟩ := h
    cases n with
    | zero => exact absurd hn (Nat.not_succ_le_zero _)
    | succ n =>
      rw [Linked.follow, ih hrest (Nat.le_of_succ_le_succ hn)]

/-- The loop ends at the last node. -/
theorem Chain.tailOf (h : Chain next (some a) l) {n : Nat} (hn : l.length ≤ n) :
    ∃ tail, tailOf next n a = some tail ∧ l.getLast? = some tail := by
  induction l generalizing a n with
  | nil => cases h
  | cons b l ih =>
    obtain ⟨hb, hrest⟩ := h
    cases hb
    cases n with
    | zero => exact absurd hn (Nat.not_succ_le_zero _)
    | succ n =>
      rw [Linked.tailOf]
      cases hnext : next b with
      | none =>
        rw [hnext, chain_none] at hrest
        subst hrest
        exact ⟨b, rfl, rfl⟩
      | some c =>
        rw [hnext] at hrest
        obtain ⟨tail, htail, hlast⟩ := ih hrest (Nat.le_of_succ_le_succ hn)
        refine ⟨tail, htail, ?_⟩
        obtain ⟨rest, rfl, -⟩ := chain_some.1 hrest
        rw [List.getLast?_cons_cons]
        exact hlast

/-- Linking a new node behind the last one. -/
theorem Chain.concat [DecidableEq α] (h : Chain next p l) (hnodup : l.Nodup) {tail : α}
    (htail : l.getLast? = some tail) (ha : a ∉ l) :
    Chain (Function.update (Function.update next tail (some a)) a none) p (l ++ [a]) := by
  induction l generalizing p with
  | nil => cases htail
  | cons b l ih =>
    obtain ⟨rfl, hrest⟩ := h
    rw [List.nodup_cons] at hnodup
    rw [List.mem_cons, not_or] at ha
    refine ⟨rfl, ?_⟩
    rw [Function.update_of_ne (fun heq => ha.1 heq.symm)]
    cases l with
    | nil =>
      obtain rfl : b = tail := by simpa using htail
      rw [Function.update_self]
      exact ⟨rfl, Function.update_self ..⟩
    | cons c l =>
      rw [List.getLast?_cons_cons] at htail
      have hne : b ≠ tail := by
        rintro rfl
        exact hnodup.1 (List.mem_of_getLast? htail)
      rw [Function.update_of_ne hne]
      exact ih hrest hnodup.2 htail ha.2

end FroggyKVM.Linked
