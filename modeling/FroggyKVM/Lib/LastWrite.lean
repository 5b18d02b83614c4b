/-
# FroggyKVM.Lib.LastWrite — lists of writes, and what the last one at an address leaves there.

A write is an address and the place that its value comes from.  Two lists leave the same memory for
all values exactly if the last writes at each address take their values from the same place
(`writeAll_eq_iff`).  `along` is the list of a loop that moves an address and a place by fixed
distances; the last write of a loop is that of its last turn that writes to the address
(`lastWrite_along`).
-/
import Mathlib

namespace FroggyKVM

variable {ι κ α : Type*} [DecidableEq ι]

/-- Where the last write at `p` takes its value from. -/
def lastWrite (p : ι) : List (ι × κ) → Option κ
  | [] => none
  | e :: l => (lastWrite p l).or (if e.1 = p then some e.2 else none)

/-- The memory after the writes. -/
def writeAll (f : κ → α) : List (ι × κ) → (ι → α) → ι → α
  | [], m => m
  | e :: l, m => writeAll f l (Function.update m e.1 (f e.2))

@[simp] theorem lastWrite_nil (p : ι) : lastWrite p ([] : List (ι × κ)) = none := rfl

theorem lastWrite_append (p : ι) (l l' : List (ι × κ)) :
    lastWrite p (l ++ l') = (lastWrite p l').or (lastWrite p l) := by
  induction l with
  | nil => simp
  | cons e l ih => rw [List.cons_append, lastWrite, ih, lastWrite, Option.or_assoc]

theorem lastWrite_singleton {p a : ι} {k r : κ} :
    lastWrite p [(a, k)] = some r ↔ a = p ∧ k = r := by
  by_cases h : a = p <;> simp [lastWrite, h]

/-- A last write is one of the writes. -/
theorem mem_of_lastWrite {p : ι} {k : κ} {l : List (ι × κ)} (h : lastWrite p l = some k) :
    (p, k) ∈ l := by
  induction l with
  | nil => cases h
  | cons e l ih =>
    rw [lastWrite, Option.or_eq_some_iff] at h
    rcases h with h | ⟨-, h⟩
    · exact List.mem_cons_of_mem _ (ih h)
    · split_ifs at h with he
      obtain rfl := Option.some.inj h
      rw [← he]
      exact List.mem_cons_self

theorem lastWrite_isSome {p : ι} {k : κ} {l : List (ι × κ)} (h : (p, k) ∈ l) :
    ∃ k', lastWrite p l = some k' := by
  induction l with
  | nil => cases h
  | cons e l ih =>
    rw [lastWrite]
    rcases List.mem_cons.1 h with rfl | h
    · cases hl : lastWrite p l with
      | none => exact ⟨k, by simp⟩
      | some k' => exact ⟨k', by simp⟩
    · obtain ⟨k', hk'⟩ := ih h
      exact ⟨k', by rw [hk', Option.some_or]⟩

/-- **The memory shows the last write**, and what was there before where there is none. -/
theorem writeAll_apply (f : κ → α) (l : List (ι × κ)) (m : ι → α) (p : ι) :
    writeAll f l m p = ((lastWrite p l).map f).getD (m p) := by
  induction l generalizing m with
  | nil => rfl
  | cons e l ih =>
    rw [writeAll, ih, lastWrite]
    cases lastWrite p l with
    | some k => rfl
    | none =>
      by_cases he : e.1 = p
      · simp [he]
      · simp [he, Ne.symm he]

/-- **Two lists leave the same memory for all values exactly if their last writes are the same**, if
the values can tell any two places apart. -/
theorem writeAll_eq_iff [Nontrivial α] {ok : (κ → α) → Prop} (hok : ∃ f, ok f)
    (hsep : ∀ k k', k ≠ k' → ∃ f, ok f ∧ f k ≠ f k') {l l' : List (ι × κ)} :
    (∀ f, ok f → ∀ m, writeAll f l m = writeAll f l' m) ↔
      ∀ p, lastWrite p l = lastWrite p l' := by
  constructor
  · intro h p
    have happ : ∀ f, ok f → ∀ m : ι → α, ((lastWrite p l).map f).getD (m p) =
        ((lastWrite p l').map f).getD (m p) := by
      intro f hf m
      rw [← writeAll_apply, ← writeAll_apply, h f hf m]
    obtain ⟨f, hf⟩ := hok
    cases hl : lastWrite p l with
    | none =>
      cases hl' : lastWrite p l' with
      | none => rfl
      | some k =>
        obtain ⟨a, ha⟩ := exists_ne (f k)
        have heq := happ f hf fun _ => a
        rw [hl, hl'] at heq
        exact absurd heq ha
    | some k =>
      cases hl' : lastWrite p l' with
      | none =>
        obtain ⟨a, ha⟩ := exists_ne (f k)
        have heq := happ f hf fun _ => a
        rw [hl, hl'] at heq
        exact absurd heq.symm ha
      | some k' =>
        by_contra hne
        obtain ⟨g, hg, hk⟩ := hsep k k' fun hkk => hne (congrArg some hkk)
        have heq := happ g hg fun _ => g k
        rw [hl, hl'] at heq
        exact hk heq
  · intro h f _ m
    funext p
    rw [writeAll_apply, writeAll_apply, h p]

/-! ## Loops -/

section Along
variable {row : Int → Int → List (ι × κ)} {dp dq : Int}

/-- The writes of `n` turns; each turn moves the two arguments of `row`. -/
def along (row : Int → Int → List (ι × κ)) (dp dq : Int) : Nat → Int → Int → List (ι × κ)
  | 0, _, _ => []
  | n + 1, p, q => row p q ++ along row dp dq n (p + dp) (q + dq)

omit [DecidableEq ι] in
theorem along_add (m n : Nat) (p q : Int) : along row dp dq (m + n) p q =
    along row dp dq m p q ++ along row dp dq n (p + m * dp) (q + m * dq) := by
  induction m generalizing p q with
  | zero => simp [along]
  | succ m ih =>
    rw [Nat.add_right_comm, along, ih, along, List.append_assoc]
    congr 3 <;> push_cast <;> ring

omit [DecidableEq ι] in
theorem mem_along {e : ι × κ} {n : Nat} {p q : Int} :
    e ∈ along row dp dq n p q ↔ ∃ k : Nat, k < n ∧ e ∈ row (p + k * dp) (q + k * dq) := by
  induction n generalizing p q with
  | zero => simp [along]
  | succ n ih =>
    rw [along, List.mem_append, ih]
    constructor
    · rintro (h | ⟨k, hk, h⟩)
      · exact ⟨0, Nat.succ_pos n, by simpa using h⟩
      · refine ⟨k + 1, by omega, ?_⟩
        push_cast
        rwa [add_mul, one_mul, add_comm _ dp, ← add_assoc, add_mul, one_mul, add_comm _ dq, ← add_assoc]
    · rintro ⟨k, hk, h⟩
      cases k with
      | zero => exact .inl (by simpa using h)
      | succ k =>
        refine .inr ⟨k, by omega, ?_⟩
        push_cast at h
        rwa [add_mul, one_mul, add_comm _ dp, ← add_assoc, add_mul, one_mul, add_comm _ dq,
          ← add_assoc] at h

/-- **The last write of a loop is that of its last turn that writes to the address.** -/
theorem lastWrite_along {x : ι} {r : κ} {n : Nat} {p q : Int} :
    lastWrite x (along row dp dq n p q) = some r ↔
      ∃ k : Nat, k < n ∧ lastWrite x (row (p + k * dp) (q + k * dq)) = some r ∧
        ∀ k' : Nat, k < k' → k' < n → lastWrite x (row (p + k' * dp) (q + k' * dq)) = none := by
  induction n generalizing p q with
  | zero => simp [along]
  | succ n ih =>
    have hshift : ∀ k : Nat, row (p + dp + k * dp) (q + dq + k * dq) =
        row (p + (k + 1 : Nat) * dp) (q + (k + 1 : Nat) * dq) := by
      intro k
      congr 1 <;> push_cast <;> ring
    rw [along, lastWrite_append, Option.or_eq_some_iff, ih]
    simp only [hshift]
    constructor
    · rintro (⟨k, hk, hr, hlast⟩ | ⟨hnone, hr⟩)
      · refine ⟨k + 1, by omega, hr, fun k' hk' hn => ?_⟩
        obtain ⟨j, rfl⟩ : ∃ j, k' = j + 1 := ⟨k' - 1, by omega⟩
        exact hlast j (by omega) (by omega)
      · refine ⟨0, Nat.succ_pos n, by simpa using hr, fun k' hk' hn => ?_⟩
        obtain ⟨j, rfl⟩ : ∃ j, k' = j + 1 := ⟨k' - 1, by omega⟩
        -- a write of a later turn would be the last one of the rest
        rw [← hshift j]
        by_contra hsome
        obtain ⟨k, hk⟩ := Option.ne_none_iff_exists'.1 hsome
        obtain ⟨k', hk'⟩ := lastWrite_isSome (mem_along.2 ⟨j, (by omega : j < n), mem_of_lastWrite hk⟩)
        rw [hnone] at hk'
        cases hk'
    · rintro ⟨k, hk, hr, hlast⟩
      cases k with
      | zero =>
        refine .inr ⟨?_, by simpa using hr⟩
        rw [Option.eq_none_iff_forall_ne_some]
        intro r' hr'
        obtain ⟨j, hj, hmem⟩ := mem_along.1 (mem_of_lastWrite hr')
        obtain ⟨r'', hr''⟩ := lastWrite_isSome hmem
        rw [hshift j, hlast (j + 1) (by omega) (by omega)] at hr''
        cases hr''
      | succ k =>
        exact .inl ⟨k, by omega, hr, fun k' hk' hn => hlast (k' + 1) (by omega) (by omega)⟩

end Along

end FroggyKVM
