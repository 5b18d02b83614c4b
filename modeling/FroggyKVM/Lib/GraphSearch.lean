/-
# FroggyKVM.Lib.GraphSearch — marking a graph with a stack that may be too small.

A search marks nodes and keeps the marked nodes it has still to look at on a stack.  Where the stack
is full the node is only marked, and the search remembers that it has dropped one.  `Explores s s'`
says what such a search owes for the nodes it has marked or taken off the stack between two states;
it composes, so a loop over a stack or over a whole graph is reasoned about one node at a time.
-/
import Mathlib

namespace FroggyKVM.GraphSearch

variable {V : Type*}

/-- The marked nodes, the stack, and whether a marked node has been dropped. -/
structure State (V : Type*) where
  marked : Set V
  stack : List V
  overflow : Bool

/-! ## Reachability -/

/-- The nodes reached from some node of `roots`. -/
def Reachable (succ : V → List V) (roots : Set V) : Set V :=
  {v | ∃ r ∈ roots, Relation.ReflTransGen (fun a b => b ∈ succ a) r v}

variable {succ : V → List V} {roots : Set V}

theorem Reachable.root {v : V} (h : v ∈ roots) : v ∈ Reachable succ roots :=
  ⟨v, h, .refl⟩

theorem Reachable.step {v w : V} (h : v ∈ Reachable succ roots) (hw : w ∈ succ v) :
    w ∈ Reachable succ roots := by
  obtain ⟨r, hr, hv⟩ := h
  exact ⟨r, hr, hv.tail hw⟩

/-- A set that holds the roots and with a node its successors holds every reachable node. -/
theorem Reachable.subset {s : Set V} (hroots : roots ⊆ s)
    (hclosed : ∀ v ∈ s, ∀ w ∈ succ v, w ∈ s) : Reachable succ roots ⊆ s := by
  rintro v ⟨r, hr, hv⟩
  induction hv with
  | refl => exact hroots hr
  | tail _ hw ih => exact hclosed _ ih _ hw

/-! ## What a search owes -/

/-- All successors of a node are marked. -/
def Closed (succ : V → List V) (s : State V) (v : V) : Prop := ∀ w ∈ succ v, w ∈ s.marked

/-- From `s` to `s'` marks are only added, and a node that was marked or taken off the stack
meanwhile has all its successors marked, unless one was dropped. -/
structure Explores (succ : V → List V) (s s' : State V) : Prop where
  marked : s.marked ⊆ s'.marked
  overflow : s.overflow = true → s'.overflow = true
  pending : ∀ v ∈ s'.marked, v ∉ s.marked ∨ v ∈ s.stack →
    v ∈ s'.stack ∨ s'.overflow = true ∨ Closed succ s' v
  fresh : s'.overflow = true → s.overflow = true ∨ ∃ v ∈ s'.marked, v ∉ s.marked

namespace Explores

variable {s s' s'' : State V}

theorem refl (s : State V) : Explores succ s s :=
  ⟨subset_rfl, id, fun _ hv h => .inl (h.resolve_left fun hn => hn hv), .inl⟩

theorem closed (h : Explores succ s s') {v : V} (hv : Closed succ s v) : Closed succ s' v :=
  fun w hw => h.marked (hv w hw)

theorem trans (h : Explores succ s s') (h' : Explores succ s' s'') : Explores succ s s'' := by
  refine ⟨h.marked.trans h'.marked, fun ho => h'.overflow (h.overflow ho), ?_, ?_⟩
  · intro v hv hopen
    by_cases hv' : v ∈ s'.marked
    · rcases h.pending v hv' hopen with hs | ho | hc
      · exact h'.pending v hv (.inr hs)
      · exact .inr (.inl (h'.overflow ho))
      · exact .inr (.inr (h'.closed hc))
    · exact h'.pending v hv (.inl hv')
  · intro ho
    rcases h'.fresh ho with ho' | ⟨v, hv, hv'⟩
    · refine (h.fresh ho').imp_right ?_
      rintro ⟨v, hv, hv'⟩
      exact ⟨v, h'.marked hv, hv'⟩
    · exact .inr ⟨v, hv, fun hs => hv' (h.marked hs)⟩

/-- Marking a node and putting it on the stack. -/
theorem push (s : State V) (v : V) :
    Explores succ s { s with marked := insert v s.marked, stack := v :: s.stack } := by
  refine ⟨Set.subset_insert v s.marked, id, ?_, .inl⟩
  rintro w (rfl | hw) hopen
  · exact .inl (List.mem_cons_self ..)
  · exact .inl (List.mem_cons_of_mem v (hopen.resolve_left fun hn => hn hw))

/-- Marking a node that finds no room on the stack. -/
theorem drop (s : State V) {v : V} (hv : v ∉ s.marked) :
    Explores succ s { s with marked := insert v s.marked, overflow := true } :=
  ⟨Set.subset_insert v s.marked, fun _ => rfl, fun _ _ _ => .inr (.inl rfl),
    fun _ => .inr ⟨v, Set.mem_insert v s.marked, hv⟩⟩

/-- Taking a node off the stack and then seeing to its successors. -/
theorem pop {v : V} {rest : List V} (hstack : s.stack = v :: rest)
    (h : Explores succ { s with stack := rest } s') (hv : Closed succ s' v) :
    Explores succ s s' := by
  refine ⟨h.marked, h.overflow, ?_, h.fresh⟩
  intro w hw hopen
  rw [hstack, List.mem_cons] at hopen
  rcases hopen with hnew | rfl | hrest
  · exact h.pending w hw (.inl hnew)
  · exact .inr (.inr hv)
  · exact h.pending w hw (.inr hrest)

/-- With an empty stack and nothing dropped, what was marked meanwhile is closed. -/
theorem done (h : Explores succ s s') (hstack : s'.stack = []) (ho : s'.overflow = false) {v : V}
    (hv : v ∈ s'.marked) (hnew : v ∉ s.marked) : Closed succ s' v := by
  rcases h.pending v hv (.inl hnew) with hs | ho' | hc
  · rw [hstack] at hs
    cases hs
  · rw [ho] at ho'
    cases ho'
  · exact hc

end Explores

/-! ## Only reachable nodes -/

/-- Only nodes of `r` have been marked beyond `base`, and only nodes of `r` are on the stack. -/
structure Within (base r : Set V) (s : State V) : Prop where
  keeps : base ⊆ s.marked
  marked : s.marked ⊆ base ∪ r
  stack : ∀ v ∈ s.stack, v ∈ r

namespace Within

variable {base r : Set V} {s : State V}

theorem push (h : Within base r s) {v : V} (hv : v ∈ r) :
    Within base r { s with marked := insert v s.marked, stack := v :: s.stack } := by
  refine ⟨h.keeps.trans (Set.subset_insert v s.marked), Set.insert_subset (.inr hv) h.marked, ?_⟩
  intro w hw
  rcases List.mem_cons.1 hw with rfl | hw
  · exact hv
  · exact h.stack w hw

theorem drop (h : Within base r s) {v : V} (hv : v ∈ r) :
    Within base r { s with marked := insert v s.marked, overflow := true } :=
  ⟨h.keeps.trans (Set.subset_insert v s.marked), Set.insert_subset (.inr hv) h.marked, h.stack⟩

theorem pop (h : Within base r s) {v : V} {rest : List V} (hstack : s.stack = v :: rest) :
    v ∈ r ∧ Within base r { s with stack := rest } := by
  have hv : ∀ w ∈ v :: rest, w ∈ r := by
    rw [← hstack]
    exact h.stack
  exact ⟨hv v (List.mem_cons_self ..), h.keeps, h.marked, fun w hw =>
    hv w (List.mem_cons_of_mem v hw)⟩

end Within

/-! ## How long it takes -/

open Classical in
/-- The nodes of `u` that are not marked. -/
noncomputable def unmarked (u : Finset V) (s : State V) : Nat := (u.filter (· ∉ s.marked)).card

/-- What is left to do: two for a node that is not marked, one for a node on the stack. -/
noncomputable def work (u : Finset V) (s : State V) : Nat := 2 * unmarked u s + s.stack.length

theorem unmarked_le_card (u : Finset V) (s : State V) : unmarked u s ≤ u.card := by
  classical
  exact Finset.card_filter_le u _

theorem unmarked_le {u : Finset V} {s s' : State V} (h : s.marked ⊆ s'.marked) :
    unmarked u s' ≤ unmarked u s := by
  classical
  refine Finset.card_le_card fun v hv => ?_
  rw [Finset.mem_filter] at hv ⊢
  exact ⟨hv.1, fun hs => hv.2 (h hs)⟩

/-- Every fresh mark counts. -/
theorem unmarked_lt {u : Finset V} {s s' : State V} (h : s.marked ⊆ s'.marked) {v : V} (hu : v ∈ u)
    (hv : v ∈ s'.marked) (hnew : v ∉ s.marked) : unmarked u s' < unmarked u s := by
  classical
  refine Finset.card_lt_card ⟨fun w hw => ?_, fun hsub => ?_⟩
  · rw [Finset.mem_filter] at hw ⊢
    exact ⟨hw.1, fun hs => hw.2 (h hs)⟩
  · have := hsub (Finset.mem_filter.2 ⟨hu, hnew⟩)
    exact (Finset.mem_filter.1 this).2 hv

end FroggyKVM.GraphSearch
