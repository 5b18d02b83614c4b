/-
# FroggyKVM.Lib.Spans — adjacent spans, joined into runs.

A span is a start and an end.  Joining the spans of an ascending list gives its runs: they lie apart
from one another and cover the same numbers, and these two things determine them.
-/
import Mathlib

namespace FroggyKVM

/-- The number lies in the span. -/
def InSpan (r : Nat × Nat) (x : Nat) : Prop := r.1 ≤ x ∧ x < r.2

/-- From `p` on, the spans follow one another; none of them is empty. -/
def Ascending : Nat → List (Nat × Nat) → Prop
  | _, [] => True
  | p, r :: rs => p ≤ r.1 ∧ r.1 < r.2 ∧ Ascending r.2 rs

/-- **The runs of a set of numbers**: spans in their order that lie apart from one another and cover
the set. -/
structure Runs (covered : Nat → Prop) (rs : List (Nat × Nat)) : Prop where
  nonempty : ∀ r ∈ rs, r.1 < r.2
  apart : rs.Pairwise fun r r' => r.2 < r'.1
  covers : ∀ x, (∃ r ∈ rs, InSpan r x) ↔ covered x

/-- The number of numbers in the spans. -/
def spanned (rs : List (Nat × Nat)) : Nat := (rs.map fun r => r.2 - r.1).sum

/-- Joins the spans to the run that is still open. -/
def joinFrom : Option (Nat × Nat) → List (Nat × Nat) → List (Nat × Nat)
  | none, [] => []
  | none, r :: rs => joinFrom (some r) rs
  | some run, [] => [run]
  | some run, r :: rs =>
    if run.2 = r.1 then joinFrom (some (run.1, r.2)) rs else run :: joinFrom (some r) rs

/-- A run goes on where the next span starts. -/
theorem joinFrom_adjacent (a b c : Nat) (rs : List (Nat × Nat)) :
    joinFrom (some (a, b)) ((b, c) :: rs) = joinFrom (some (a, c)) rs := if_pos rfl

/-- A run ends where the next span does not start. -/
theorem joinFrom_close {run : Nat × Nat} {rs : List (Nat × Nat)} (h : ∀ r ∈ rs.head?, run.2 ≠ r.1) :
    joinFrom (some run) rs = run :: joinFrom none rs := by
  cases rs with
  | nil => rfl
  | cons r rs => exact if_neg (h r rfl)

/-- Joining goes on from where a run starts, and no run is empty. -/
theorem joinFrom_bounds {rs : List (Nat × Nat)} : ∀ {run : Nat × Nat}, run.1 < run.2 →
    Ascending run.2 rs → ∀ r ∈ joinFrom (some run) rs, run.1 ≤ r.1 ∧ r.1 < r.2 := by
  induction rs with
  | nil =>
    intro run hrun _ r hr
    obtain rfl := List.mem_singleton.1 hr
    exact ⟨Nat.le_refl _, hrun⟩
  | cons s rs ih =>
    intro run hrun hasc r hr
    obtain ⟨hle, hs, hrest⟩ := hasc
    rw [joinFrom] at hr
    split at hr
    · exact @ih (run.1, s.2) (Nat.lt_trans hrun (by omega)) hrest r hr
    · rcases List.mem_cons.1 hr with rfl | hr
      · exact ⟨Nat.le_refl _, hrun⟩
      · have hbounds := ih hs hrest r hr
        omega

theorem joinFrom_apart {rs : List (Nat × Nat)} : ∀ {run : Nat × Nat}, run.1 < run.2 →
    Ascending run.2 rs → (joinFrom (some run) rs).Pairwise fun r r' => r.2 < r'.1 := by
  induction rs with
  | nil => exact fun _ _ => List.pairwise_singleton _ _
  | cons s rs ih =>
    intro run hrun hasc
    obtain ⟨hle, hs, hrest⟩ := hasc
    rw [joinFrom]
    split
    · exact @ih (run.1, s.2) (Nat.lt_trans hrun (by omega)) hrest
    · refine List.pairwise_cons.2 ⟨fun r hr => ?_, ih hs hrest⟩
      have hbounds := joinFrom_bounds hs hrest r hr
      omega

theorem joinFrom_covers {rs : List (Nat × Nat)} (x : Nat) : ∀ {run : Nat × Nat}, run.1 < run.2 →
    Ascending run.2 rs →
    ((∃ r ∈ joinFrom (some run) rs, InSpan r x) ↔ InSpan run x ∨ ∃ r ∈ rs, InSpan r x) := by
  induction rs with
  | nil => simp [joinFrom]
  | cons s rs ih =>
    intro run hrun hasc
    obtain ⟨hle, hs, hrest⟩ := hasc
    rw [joinFrom, List.exists_mem_cons_iff]
    split
    · next hadj =>
      have hjoin : InSpan (run.1, s.2) x ↔ InSpan run x ∨ InSpan s x := by
        unfold InSpan
        dsimp only
        omega
      rw [@ih (run.1, s.2) (Nat.lt_trans hrun (by omega)) hrest, hjoin, or_assoc]
    · rw [List.exists_mem_cons_iff, ih hs hrest]

theorem joinFrom_spanned {rs : List (Nat × Nat)} : ∀ {run : Nat × Nat}, run.1 < run.2 →
    Ascending run.2 rs → spanned (joinFrom (some run) rs) = run.2 - run.1 + spanned rs := by
  induction rs with
  | nil => simp [joinFrom, spanned]
  | cons s rs ih =>
    intro run hrun hasc
    obtain ⟨hle, hs, hrest⟩ := hasc
    have hcons : ∀ (r : Nat × Nat) rs, spanned (r :: rs) = r.2 - r.1 + spanned rs := fun _ _ => rfl
    rw [joinFrom, hcons]
    split
    · rw [@ih (run.1, s.2) (Nat.lt_trans hrun (by omega)) hrest]
      dsimp only
      omega
    · rw [hcons, ih hs hrest]

/-- The first run starts where the first span does. -/
theorem joinFrom_head {rs : List (Nat × Nat)} : ∀ {run : Nat × Nat},
    ∃ b rest, joinFrom (some run) rs = (run.1, b) :: rest := by
  induction rs with
  | nil => exact ⟨_, _, rfl⟩
  | cons s rs ih =>
    intro run
    rw [joinFrom]
    split
    · exact ih
    · exact ⟨_, _, rfl⟩

/-- **Joining gives the runs.** -/
theorem joinFrom_runs {p : Nat} {rs : List (Nat × Nat)} (h : Ascending p rs) :
    Runs (fun x => ∃ r ∈ rs, InSpan r x) (joinFrom none rs) := by
  cases rs with
  | nil => exact ⟨by simp [joinFrom], List.Pairwise.nil, fun _ => Iff.rfl⟩
  | cons r rs =>
    obtain ⟨-, hr, hrest⟩ := h
    refine ⟨fun s hs => (joinFrom_bounds hr hrest s hs).2, joinFrom_apart hr hrest, fun x => ?_⟩
    rw [joinFrom, joinFrom_covers x hr hrest, List.exists_mem_cons_iff]

namespace Runs

variable {covered : Nat → Prop} {r r' : Nat × Nat} {rs rs' : List (Nat × Nat)}

theorem head_le (h : Runs covered (r :: rs)) {x : Nat} (hx : covered x) : r.1 ≤ x := by
  have hr := h.nonempty r List.mem_cons_self
  obtain ⟨s, hs, hin⟩ := (h.covers x).2 hx
  rcases List.mem_cons.1 hs with rfl | hs
  · exact hin.1
  · have hapart := (List.pairwise_cons.1 h.apart).1 s hs
    have hle := hin.1
    omega

theorem head_mem (h : Runs covered (r :: rs)) {x : Nat} (hx : InSpan r x) : covered x :=
  (h.covers x).1 ⟨r, List.mem_cons_self, hx⟩

/-- A run ends at a number that is not covered. -/
theorem end_not_mem (h : Runs covered (r :: rs)) : ¬ covered r.2 := by
  intro hx
  obtain ⟨s, hs, hin⟩ := (h.covers r.2).2 hx
  rcases List.mem_cons.1 hs with rfl | hs
  · exact absurd hin.2 (Nat.lt_irrefl _)
  · have hapart := (List.pairwise_cons.1 h.apart).1 s hs
    have hle := hin.1
    omega

theorem tail (h : Runs covered (r :: rs)) : Runs (fun x => covered x ∧ r.2 ≤ x) rs := by
  refine ⟨fun s hs => h.nonempty s (List.mem_cons_of_mem _ hs), (List.pairwise_cons.1 h.apart).2,
    fun x => ⟨?_, ?_⟩⟩
  · rintro ⟨s, hs, hin⟩
    have hapart := (List.pairwise_cons.1 h.apart).1 s hs
    have hle := hin.1
    exact ⟨(h.covers x).1 ⟨s, List.mem_cons_of_mem _ hs, hin⟩, by omega⟩
  · rintro ⟨hx, hle⟩
    obtain ⟨s, hs, hin⟩ := (h.covers x).2 hx
    rcases List.mem_cons.1 hs with rfl | hs
    · exact absurd hin.2 (Nat.not_lt_of_le hle)
    · exact ⟨s, hs, hin⟩

theorem head_eq (h : Runs covered (r :: rs)) (h' : Runs covered (r' :: rs')) : r = r' := by
  have hr := h.nonempty r List.mem_cons_self
  have hr' := h'.nonempty r' List.mem_cons_self
  have hle := h.head_le (h'.head_mem ⟨Nat.le_refl _, hr'⟩)
  have hge := h'.head_le (h.head_mem ⟨Nat.le_refl _, hr⟩)
  -- of two ends, the first would be covered by the other run
  have hend : ¬ r.2 < r'.2 := fun hlt => h.end_not_mem (h'.head_mem ⟨by omega, hlt⟩)
  have hend' : ¬ r'.2 < r.2 := fun hlt => h'.end_not_mem (h.head_mem ⟨by omega, hlt⟩)
  exact Prod.ext (by omega) (by omega)

/-- **The runs are determined by the set.** -/
theorem unique : ∀ {rs rs' : List (Nat × Nat)} {covered : Nat → Prop}, Runs covered rs →
    Runs covered rs' → rs = rs' := by
  intro rs
  induction rs with
  | nil =>
    intro rs' covered h h'
    cases rs' with
    | nil => rfl
    | cons r' rs' =>
      have hr' := h'.nonempty r' List.mem_cons_self
      obtain ⟨s, hs, -⟩ := (h.covers r'.1).2 (h'.head_mem ⟨Nat.le_refl _, hr'⟩)
      cases hs
  | cons r rs ih =>
    intro rs' covered h h'
    cases rs' with
    | nil =>
      have hr := h.nonempty r List.mem_cons_self
      obtain ⟨s, hs, -⟩ := (h'.covers r.1).2 (h.head_mem ⟨Nat.le_refl _, hr⟩)
      cases hs
    | cons r' rs' =>
      obtain rfl := h.head_eq h'
      rw [ih h.tail h'.tail]

end Runs

end FroggyKVM
