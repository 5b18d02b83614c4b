/-
# FroggyKVM.Lib.Answer — fallible tests, and searches that stop at the first hit.

A fallible test answers a question when it returns, with `true` exactly when the question holds.
`List.anyM` runs a test along a list and stops at the first `true` or at the first failure.  The two
rules below read off what such a search answers: when every test answers its own question the search
answers the disjunction, and when some tests are faulty it does so exactly if a hit comes before the
first of them.
-/
import Mathlib

namespace FroggyKVM

variable {ε : Type} {α : Type*}

/-- The computation returns, and returns `true` exactly when `P` holds. -/
def Answers (c : Except ε Bool) (P : Prop) : Prop := ∃ r, c = .ok r ∧ (r = true ↔ P)

namespace Answers

variable {c : Except ε Bool} {P Q : Prop}

theorem congr (h : Answers c P) (hPQ : P ↔ Q) : Answers c Q := by
  obtain ⟨r, hr, hP⟩ := h
  exact ⟨r, hr, hP.trans hPQ⟩

/-- A test answers one question only. -/
theorem iff (h : Answers c P) : Answers c Q ↔ (P ↔ Q) := by
  constructor
  · rintro ⟨r', hr', hQ⟩
    obtain ⟨r, hr, hP⟩ := h
    obtain rfl : r = r' := by simpa [hr] using hr'
    exact hP.symm.trans hQ
  · exact h.congr

theorem ok_false : Answers (.ok false : Except ε Bool) P ↔ ¬ P := by
  constructor
  · rintro ⟨r, hr, h⟩ hp
    obtain rfl : false = r := by simpa using hr
    exact absurd (h.2 hp) (by simp)
  · intro hp
    exact ⟨false, rfl, by simp [hp]⟩

theorem ok_true : Answers (.ok true : Except ε Bool) P ↔ P := by
  constructor
  · rintro ⟨r, hr, h⟩
    obtain rfl : true = r := by simpa using hr
    exact h.1 rfl
  · intro hp
    exact ⟨true, rfl, by simp [hp]⟩

theorem not_error (e : ε) : ¬ Answers (.error e : Except ε Bool) P := by
  rintro ⟨r, hr, -⟩
  simp at hr

/-- What an answering test returns when its question holds. -/
theorem eq_true (h : Answers c P) (hP : P) : c = .ok true := by
  obtain ⟨r, rfl, hr⟩ := h
  rw [hr.2 hP]

/-- What an answering test returns when its question fails. -/
theorem eq_false (h : Answers c P) (hP : ¬ P) : c = .ok false := by
  obtain ⟨r, rfl, hr⟩ := h
  cases r with
  | false => rfl
  | true => exact absurd (hr.1 rfl) hP

/-- Two tests that answer one question return the same. -/
theorem eq {c' : Except ε Bool} (h : Answers c P) (h' : Answers c' P) : c = c' := by
  by_cases hP : P
  · rw [h.eq_true hP, h'.eq_true hP]
  · rw [h.eq_false hP, h'.eq_false hP]

end Answers

/-! ## Searches -/

variable {test : α → Except ε Bool} {P Faulty : α → Prop}

theorem anyM_cons_true {a : α} {l : List α} (h : test a = .ok true) :
    (a :: l).anyM test = .ok true := by
  rw [List.anyM, h]
  rfl

theorem anyM_cons_false {a : α} {l : List α} (h : test a = .ok false) :
    (a :: l).anyM test = l.anyM test := by
  rw [List.anyM, h]
  rfl

theorem anyM_cons_error {a : α} {l : List α} {e : ε} (h : test a = .error e) :
    (a :: l).anyM test = .error e := by
  rw [List.anyM, h]
  rfl

theorem anyM_append {l l' : List α} :
    (l ++ l').anyM test = (l.anyM test >>= fun r => if r then .ok true else l'.anyM test) := by
  induction l with
  | nil => rfl
  | cons a l ih =>
    rw [List.cons_append]
    cases h : test a with
    | error e => rw [anyM_cons_error h, anyM_cons_error h]; rfl
    | ok r =>
      cases r with
      | true => rw [anyM_cons_true h, anyM_cons_true h]; rfl
      | false => rw [anyM_cons_false h, anyM_cons_false h, ih]

/-- A nested search is a search of all the pairs in order. -/
theorem anyM_flatMap {β : Type*} {l : List β} {f : β → List α} :
    (l.flatMap f).anyM test = l.anyM fun b => (f b).anyM test := by
  induction l with
  | nil => rfl
  | cons b l ih =>
    rw [List.flatMap_cons, anyM_append, ih, List.anyM]
    cases (f b).anyM test with
    | error e => rfl
    | ok r => cases r <;> rfl

theorem anyM_map {β : Type*} {l : List β} {f : β → α} :
    (l.map f).anyM test = l.anyM fun b => test (f b) := by
  induction l with
  | nil => rfl
  | cons b l ih => rw [List.map_cons, List.anyM, List.anyM, ih]

/-- Every faulty element of the list comes after a hit. -/
def HitFirst (P Faulty : α → Prop) : List α → Prop
  | [] => True
  | a :: l => ¬ Faulty a ∧ (P a ∨ HitFirst P Faulty l)

/-- **A search with faulty tests** answers the disjunction exactly if a hit comes before the first
faulty element.  A faulty test fails, or says yes where the whole question has the answer no. -/
theorem anyM_answers_iff {l : List α} {Q : Prop} (hQ : Q ↔ ∃ a ∈ l, P a)
    (hsound : ∀ a ∈ l, ¬ Faulty a → Answers (test a) (P a))
    (hfaulty : ∀ a ∈ l, Faulty a → (∃ e, test a = .error e) ∨ (test a = .ok true ∧ ¬ Q)) :
    Answers (l.anyM test) Q ↔ HitFirst P Faulty l := by
  induction l generalizing Q with
  | nil => exact ⟨fun _ => trivial, fun _ => Answers.ok_false.2 (by simp [hQ])⟩
  | cons a l ih =>
    by_cases hf : Faulty a
    · refine ⟨fun h => ?_, fun h => absurd hf h.1⟩
      rcases hfaulty a List.mem_cons_self hf with ⟨e, he⟩ | ⟨ht, hno⟩
      · rw [anyM_cons_error he] at h
        exact absurd h (Answers.not_error e)
      · rw [anyM_cons_true ht] at h
        exact absurd (Answers.ok_true.1 h) hno
    · have ha := hsound a List.mem_cons_self hf
      by_cases hP : P a
      · rw [anyM_cons_true (ha.eq_true hP)]
        have hq : Q := hQ.2 ⟨a, List.mem_cons_self, hP⟩
        exact ⟨fun _ => ⟨hf, .inl hP⟩, fun _ => Answers.ok_true.2 hq⟩
      · rw [anyM_cons_false (ha.eq_false hP)]
        refine (ih (hQ.trans (by simp [hP])) (fun b hb => hsound b (List.mem_cons_of_mem _ hb))
          (fun b hb => hfaulty b (List.mem_cons_of_mem _ hb))).trans ?_
        simp [HitFirst, hf, hP]

end FroggyKVM
