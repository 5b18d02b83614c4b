/-
# FroggyKVM.Gc.LiveRanges — the records in the dead ranges, and the compaction that follows them.

A record in the first words of a dead range tells where the next live range starts and ends; where
only one word is dead, one word tells both.  `compact_objects` goes from record to record and moves
each live range down.
-/
import FroggyKVM.Gc.Locations
import FroggyKVM.Lib.Spans

namespace FroggyKVM.Gc

namespace LiveRange

/-! ## One record -/

variable {memory : Memory} {position p q : Nat}

/-- The record at `position` tells that the next live range starts at `p`. -/
def HasNextLive (memory : Memory) (position p : Nat) : Prop :=
  memory position = if position + 1 = p then 0x1 else pointer p

/-- The record at `position` tells that the next live range goes from `p` to `q`. -/
def HasRange (memory : Memory) (position p q : Nat) : Prop :=
  if position + 1 = p then memory position = pointer q ||| 0x1
  else memory position = pointer p ∧ memory (position + 1) = pointer q

theorem pointer_even (p : Nat) : pointer p &&& 0x1 = 0 := by
  unfold pointer
  rw [and_one_eq_zero, UInt32.toNat_ofNat']
  omega

theorem pointer_ne_one (p : Nat) : pointer p ≠ 0x1 := by
  intro h
  have heven := pointer_even p
  rw [h] at heven
  exact absurd heven (by decide)

/-- The flag of a packed word can be told from the pointer. -/
theorem packed (w : UInt32) (h : w &&& 0x1 = 0) :
    (w ||| 0x1) &&& 0x1 ≠ 0 ∧ (w ||| 0x1) &&& ~~~0x1 = w := by
  have hone : ∀ i, (0x1 : UInt32).toBitVec.getLsbD i = decide (i = 0) := by
    intro i
    exact (BitVec.getLsbD_one).trans (by simp)
  have hbit : w.toBitVec.getLsbD 0 = false := by
    have hzero := congrArg (fun v => v.toBitVec.getLsbD 0) h
    simpa using hzero
  have hflag : (w ||| 0x1) &&& 0x1 = 0x1 := by
    apply UInt32.toBitVec_inj.1
    apply BitVec.eq_of_getLsbD_eq
    intro i _
    rw [UInt32.toBitVec_and, UInt32.toBitVec_or, BitVec.getLsbD_and, BitVec.getLsbD_or, hone]
    cases decide (i = 0) <;> simp
  refine ⟨by rw [hflag]; decide, ?_⟩
  apply UInt32.toBitVec_inj.1
  apply BitVec.eq_of_getLsbD_eq
  intro i hi
  rw [UInt32.toBitVec_and, UInt32.toBitVec_or, UInt32.toBitVec_not, BitVec.getLsbD_and,
    BitVec.getLsbD_or, BitVec.getLsbD_not, hone, decide_eq_true hi]
  by_cases hi₀ : i = 0
  · subst hi₀
    rw [hbit]
    rfl
  · simp [hi₀]

theorem setNextLive_hasNextLive : HasNextLive (setNextLive memory position p) position p :=
  Function.update_self _ _ _

theorem setNextLive_of_ne {x : Nat} (hx : x ≠ position) :
    setNextLive memory position p x = memory x := Function.update_of_ne hx _ _

/-- **The second step of a record** finds in the first word how many words there are. -/
theorem setNextDead_hasRange (h : HasNextLive memory position p) :
    HasRange (setNextDead memory position q) position p q := by
  unfold HasNextLive at h
  unfold HasRange setNextDead
  split
  · next hone =>
    rw [if_pos hone] at h
    rw [if_pos h]
    exact Function.update_self _ _ _
  · next hmore =>
    rw [if_neg hmore] at h
    rw [if_neg (by rw [h]; exact pointer_ne_one p)]
    exact ⟨(Function.update_of_ne (by omega) _ _).trans h, Function.update_self _ _ _⟩

/-- A record stays inside its dead range. -/
theorem setNextDead_outside (h : HasNextLive memory position p) (hlt : position < p) {x : Nat}
    (hx : x < position ∨ p ≤ x) : setNextDead memory position q x = memory x := by
  unfold HasNextLive at h
  unfold setNextDead
  split
  · exact Function.update_of_ne (by omega) _ _
  · next hmore =>
    have hne : position + 1 ≠ p := by
      intro hone
      rw [if_pos hone] at h
      exact hmore h
    exact Function.update_of_ne (by omega) _ _

/-- A record does not reach before its position. -/
theorem setNextDead_of_lt {x : Nat} (hx : x < position) :
    setNextDead memory position q x = memory x := by
  unfold setNextDead
  split
  · exact Function.update_of_ne (by omega) _ _
  · exact Function.update_of_ne (by omega) _ _

theorem HasRange.congr {memory' : Memory} (h : HasRange memory position p q) (hlt : position < p)
    (heq : ∀ x, position ≤ x → x < p → memory' x = memory x) : HasRange memory' position p q := by
  unfold HasRange at h ⊢
  split
  · next hone =>
    rw [if_pos hone] at h
    rw [heq position (Nat.le_refl _) hlt]
    exact h
  · next hmore =>
    rw [if_neg hmore] at h
    rw [heq position (Nat.le_refl _) hlt, heq (position + 1) (by omega) (by omega)]
    exact h

/-- **What a record tells is what was put into it.** -/
theorem HasRange.getRange (h : HasRange memory position p q) (hp : 4 * p < 2 ^ 32)
    (hq : 4 * q < 2 ^ 32) : getRange memory position = (p, q) := by
  unfold HasRange at h
  unfold LiveRange.getRange
  dsimp only
  split at h
  · next hone =>
    obtain ⟨hflag, hclear⟩ := packed (pointer q) (pointer_even q)
    rw [h, if_pos hflag, hclear, address_pointer hq, hone]
  · rw [h.1, h.2, if_neg (not_not.2 (pointer_even p)), address_pointer hp, address_pointer hq]

end LiveRange

/-! ## The records of a heap -/

/-- From the dead range at `d` on, records lead over the live ranges `rs` to the dead range at `e`.
They stand in free words. -/
inductive Records (free : Nat → Prop) (memory : Memory) : Nat → List (Nat × Nat) → Nat → Prop
  | nil (d : Nat) : Records free memory d [] d
  | cons {d a b e : Nat} {rs : List (Nat × Nat)} (hrange : LiveRange.HasRange memory d a b)
      (hda : d < a) (hab : a < b) (hfree : ∀ x, d ≤ x → x < a → free x)
      (h : Records free memory b rs e) : Records free memory d ((a, b) :: rs) e

namespace Records

variable {free : Nat → Prop} {memory memory' : Memory} {d e : Nat} {rs : List (Nat × Nat)}

theorem le (h : Records free memory d rs e) : d ≤ e := by
  induction h with
  | nil d => exact Nat.le_refl d
  | cons hrange hda hab hfree h ih => omega

/-- The live ranges lie behind the first dead range. -/
theorem bounds (h : Records free memory d rs e) : ∀ r ∈ rs, d < r.1 ∧ r.1 < r.2 ∧ r.2 ≤ e := by
  induction h with
  | nil d => exact fun r hr => absurd hr List.not_mem_nil
  | cons hrange hda hab hfree h ih =>
    intro r hr
    have hle := h.le
    rcases List.mem_cons.1 hr with rfl | hr
    · exact ⟨hda, hab, hle⟩
    · have hbounds := ih r hr
      omega

/-- Records change only with the free words between the two dead ranges. -/
theorem congr (h : Records free memory d rs e)
    (heq : ∀ x, d ≤ x → x < e → free x → memory' x = memory x) : Records free memory' d rs e := by
  induction h with
  | nil d => exact .nil d
  | cons hrange hda hab hfree h ih =>
    have hle := h.le
    refine .cons (hrange.congr hda fun x hd ha => ?_) hda hab hfree (ih fun x hb he => ?_)
    · exact heq x hd (by omega) (hfree x hd ha)
    · exact heq x (by omega) he

/-- One more record at the end. -/
theorem snoc {a b : Nat} (h : Records free memory d rs e) (hrange : LiveRange.HasRange memory e a b)
    (hea : e < a) (hab : a < b) (hfree : ∀ x, e ≤ x → x < a → free x) :
    Records free memory d (rs ++ [(a, b)]) b := by
  induction h with
  | nil d => exact .cons hrange hea hab hfree (.nil b)
  | cons hrange' hda hab' hfree' h ih => exact .cons hrange' hda hab' hfree' (ih hrange hea hfree)

end Records

/-- **The dead-range list**: the records lead from the dead range at `d` over all live ranges, to the
end of the heap or to a dead range there, whose record tells that nothing follows. -/
def DeadList (free : Nat → Prop) (memory : Memory) (top d : Nat) (rs : List (Nat × Nat)) : Prop :=
  ∃ e, Records free memory d rs e ∧
    (e = top ∨ e < top ∧ LiveRange.HasRange memory e top top ∧ ∀ x, e ≤ x → x < top → free x)

theorem DeadList.congr {free : Nat → Prop} {memory memory' : Memory} {top d : Nat}
    {rs : List (Nat × Nat)} (h : DeadList free memory top d rs)
    (heq : ∀ x, d ≤ x → x < top → free x → memory' x = memory x) : DeadList free memory' top d rs := by
  obtain ⟨e, hrecords, hend⟩ := h
  have hle := hrecords.le
  refine ⟨e, hrecords.congr fun x hd he => heq x hd (by omega), ?_⟩
  rcases hend with rfl | ⟨hlt, hrange, hfree⟩
  · exact Or.inl rfl
  · exact Or.inr ⟨hlt, hrange.congr hlt fun x he ht => heq x (by omega) ht (hfree x he ht), hfree⟩

theorem DeadList.tail {free : Nat → Prop} {memory : Memory} {top d a b : Nat}
    {rs : List (Nat × Nat)} (h : DeadList free memory top d ((a, b) :: rs)) :
    LiveRange.HasRange memory d a b ∧ d < a ∧ a < b ∧ b ≤ top ∧ (∀ x, d ≤ x → x < a → free x) ∧
      DeadList free memory top b rs := by
  obtain ⟨e, hrecords, hend⟩ := h
  cases hrecords with
  | cons hrange hda hab hfree hrest =>
    have hbe := hrest.le
    refine ⟨hrange, hda, hab, ?_, hfree, e, hrest, hend⟩
    rcases hend with rfl | ⟨hlt, -⟩
    · exact hbe
    · omega

/-- A new record in front of a list. -/
theorem DeadList.cons {free : Nat → Prop} {memory : Memory} {top d a b : Nat}
    {rs : List (Nat × Nat)} (h : DeadList free memory top b rs) (hda : d < a) (hab : a < b)
    (hfree : ∀ x, d ≤ x → x < a → free x) :
    DeadList free (LiveRange.setNextDead (LiveRange.setNextLive memory d a) d b) top d
      ((a, b) :: rs) := by
  have hnext : LiveRange.HasNextLive (LiveRange.setNextLive memory d a) d a :=
    LiveRange.setNextLive_hasNextLive
  have hbehind : ∀ x, b ≤ x →
      LiveRange.setNextDead (LiveRange.setNextLive memory d a) d b x = memory x := by
    intro x hx
    rw [LiveRange.setNextDead_outside hnext hda (Or.inr (by omega)),
      LiveRange.setNextLive_of_ne (by omega)]
  obtain ⟨e, hrecords, hend⟩ := h.congr fun x hx _ _ => hbehind x hx
  exact ⟨e, .cons (LiveRange.setNextDead_hasRange hnext) hda hab hfree hrecords, hend⟩

/-! ## Compaction -/

/-- The assertions of `compact_objects`, and the end of a loop's fuel. -/
inductive CompactionFault where
  | fixedObjects
  | notMoving
  | emptyRange
  | notContained
  | compactionTop
  | outOfFuel
deriving DecidableEq, Repr

/-- `jvm_memmove` of `n` words. -/
def memmove (memory : Memory) (dest src n : Nat) : Memory := fun x =>
  if dest ≤ x ∧ x < dest + n then memory (src + (x - dest)) else memory x

/-- The local variables of `compact_objects`, and the live ranges that it has moved. -/
structure Compaction where
  memory : Memory
  currentDead : Nat
  destination : Nat
  ranges : List (Nat × Nat)

namespace MarkedHeap

variable (heap : MarkedHeap)

/-- `contains`, of an address. -/
def ContainsAddress (p : Nat) : Prop := heap.heapStart ≤ p ∧ p < heap.markAreaEnd

instance (p : Nat) : Decidable (heap.ContainsAddress p) := by
  unfold ContainsAddress
  infer_instance

/-- A live range is moved down to the destination. -/
def moveRange (c : Compaction) (next_live next_dead : Nat) : Compaction :=
  let live_size := next_dead - next_live
  { memory :=
      if c.destination ≠ next_live then memmove c.memory c.destination next_live live_size
      else c.memory
    currentDead := next_dead
    destination := c.destination + live_size
    ranges := c.ranges ++ [(next_live, next_dead)] }

/-- `while (true)` of `compact_objects` -/
def compactLoop (compaction_start : Nat) : Nat → Compaction → Except CompactionFault Compaction
  | 0, _ => .error .outOfFuel
  | fuel + 1, c =>
    let range := LiveRange.getRange c.memory c.currentDead
    if range.1 = heap.inlineAllocationTop then .ok c
    else if ¬ (range.1 ≥ compaction_start ∧ range.1 < heap.collectionAreaEnd) then .error .notMoving
    else if ¬ (c.currentDead < range.1 ∧ range.1 < range.2) then .error .emptyRange
    else if ¬ (heap.ContainsAddress c.destination ∧ heap.ContainsAddress range.1) then
      .error .notContained
    else
      let c := moveRange c range.1 range.2
      if c.currentDead = heap.inlineAllocationTop then .ok c
      else if ¬ heap.ContainsAddress c.destination then .error .notContained
      else compactLoop compaction_start fuel c

/-- `compact_objects`: the compaction top and the memory are those of the update phase.  The result's
destination is the new allocation top. -/
def compactObjects (r : Locations) (compaction_top : Nat) (memory : Memory)
    (reuse_young_generation : Bool) : Except CompactionFault Compaction :=
  let split := heap.youngGenerationStart ≠ heap.oldGenerationEnd
  let destination :=
    if split ∧ reuse_young_generation then heap.youngGenerationStart else r.endFixedObjects
  let c := { memory := memory, currentDead := r.endFixedObjects, destination := destination, ranges := [] }
  if r.compactionStart ≠ heap.collectionAreaEnd then
    if ¬ r.endFixedObjects < r.compactionStart then .error .fixedObjects
    else
      match heap.compactLoop r.compactionStart (heap.inlineAllocationTop - r.endFixedObjects + 1) c with
      | .error e => .error e
      | .ok c => if c.destination = compaction_top then .ok c else .error .compactionTop
  else .ok c

/-- `_compaction_top` after `internal_collect` has chosen whether to reuse the young generation. -/
def chosenTop (r : Locations) (reuse_young_generation : Bool) : Nat :=
  if heap.youngGenerationStart ≠ heap.oldGenerationEnd ∧ reuse_young_generation then
    r.compactionTop + (heap.youngGenerationStart - heap.oldGenerationEnd)
  else r.compactionTop

variable {heap}

/-- Moving a live range changes only its destination. -/
theorem moveRange_outside {c : Compaction} {a b x : Nat}
    (hx : x < c.destination ∨ c.destination + (b - a) ≤ x) :
    (moveRange c a b).memory x = c.memory x := by
  unfold moveRange
  dsimp only
  split
  · exact if_neg (by omega)
  · rfl

/-- Every word of a live range arrives. -/
theorem moveRange_inside {c : Compaction} {a b i : Nat} (hi : i < b - a) :
    (moveRange c a b).memory (c.destination + i) = c.memory (a + i) := by
  unfold moveRange
  dsimp only
  split
  · unfold memmove
    rw [if_pos (by omega), Nat.add_sub_cancel_left]
  · next hsame =>
    rw [not_not.1 hsame]

/-- The words of live ranges, one after the other. -/
def wordsOf (memory : Memory) (rs : List (Nat × Nat)) : List UInt32 :=
  rs.flatMap fun r => (List.range' r.1 (r.2 - r.1)).map memory

/-- From `c` to `c'` the live ranges `rs` have been moved together; `memory` holds their words. -/
structure Moved (memory : Memory) (rs : List (Nat × Nat)) (c c' : Compaction) : Prop where
  ranges : c'.ranges = c.ranges ++ rs
  destination : c'.destination = c.destination + spanned rs
  below : ∀ x < c.destination, c'.memory x = c.memory x
  words : (List.range' c.destination (spanned rs)).map c'.memory = wordsOf memory rs

theorem Moved.nil (memory : Memory) (c : Compaction) : Moved memory [] c c :=
  ⟨(List.append_nil _).symm, rfl, fun _ _ => rfl, rfl⟩

/-- One more range in front. -/
theorem Moved.cons {memory : Memory} {rs : List (Nat × Nat)} {c c' : Compaction} {a b : Nat}
    (h : Moved memory rs (moveRange c a b) c')
    (hsame : ∀ i < b - a, c.memory (a + i) = memory (a + i)) : Moved memory ((a, b) :: rs) c c' := by
  have hdest : (moveRange c a b).destination = c.destination + (b - a) := rfl
  have hdest' := h.destination
  have hspanned : spanned ((a, b) :: rs) = b - a + spanned rs := rfl
  refine ⟨?_, by omega, fun x hx => ?_, ?_⟩
  · rw [h.ranges, moveRange, List.append_assoc]
    rfl
  · rw [h.below x (by omega)]
    exact moveRange_outside (Or.inl hx)
  · have hfirst : (List.range' c.destination (b - a)).map c'.memory =
        (List.range' a (b - a)).map memory := by
      rw [List.range'_eq_map_range, List.range'_eq_map_range, List.map_map, List.map_map]
      apply List.map_congr_left
      intro i hi
      rw [List.mem_range] at hi
      calc c'.memory (c.destination + i) = (moveRange c a b).memory (c.destination + i) :=
            h.below _ (by omega)
        _ = c.memory (a + i) := moveRange_inside hi
        _ = memory (a + i) := hsame i hi
    rw [hspanned, ← List.range'_append_1, List.map_append, hfirst, ← hdest, h.words]
    rfl

/-- **Compaction visits exactly the ranges of the dead-range list**, and moves their words together. -/
theorem compactLoop_spec {free : Nat → Prop} {memory : Memory} {start : Nat}
    (htop : 4 * heap.inlineAllocationTop < 2 ^ 32)
    (harea : heap.collectionAreaEnd = heap.inlineAllocationTop) :
    ∀ {rs : List (Nat × Nat)} {fuel : Nat} {c : Compaction},
      DeadList free c.memory heap.inlineAllocationTop c.currentDead rs →
      c.currentDead < heap.inlineAllocationTop →
      (∀ r ∈ rs, start ≤ r.1 ∧ c.destination ≤ r.1) → heap.heapStart ≤ c.destination →
      (∀ x, c.currentDead ≤ x → c.memory x = memory x) →
      heap.inlineAllocationTop - c.currentDead < fuel →
      ∃ c', heap.compactLoop start fuel c = .ok c' ∧ Moved memory rs c c' := by
  intro rs
  induction rs with
  | nil =>
    intro fuel c hlist hlt hbounds hstart hsame hfuel
    obtain ⟨e, hrecords, hend⟩ := hlist
    cases hrecords
    obtain ⟨-, hrange, -⟩ := hend.resolve_left (Nat.ne_of_lt hlt)
    cases fuel with
    | zero => omega
    | succ fuel =>
      refine ⟨c, ?_, .nil memory c⟩
      unfold compactLoop
      rw [hrange.getRange htop htop]
      exact if_pos rfl
  | cons r rs ih =>
    intro fuel c hlist hlt hbounds hstart hsame hfuel
    obtain ⟨a, b⟩ := r
    obtain ⟨e, hrecords, hend⟩ := hlist
    cases hrecords with
    | cons hrange hda hab hfree hrest =>
      have hbe := hrest.le
      have het : e ≤ heap.inlineAllocationTop := by
        rcases hend with rfl | ⟨hlt, -⟩
        · exact Nat.le_refl _
        · exact Nat.le_of_lt hlt
      obtain ⟨hstarta, hdesta⟩ := hbounds (a, b) List.mem_cons_self
      dsimp only at hstarta hdesta
      have hmark := heap.allocationTop_le
      have hdest : (moveRange c a b).destination = c.destination + (b - a) := rfl
      cases fuel with
      | zero => omega
      | succ fuel =>
        have hgo : heap.compactLoop start (fuel + 1) c =
            if b = heap.inlineAllocationTop then .ok (moveRange c a b)
            else heap.compactLoop start fuel (moveRange c a b) := by
          rw [compactLoop, hrange.getRange (by omega) (by omega)]
          dsimp only
          rw [if_neg (by omega), if_neg (by omega), if_neg (by omega),
            if_neg (not_not.2 ⟨⟨by omega, by omega⟩, by omega, by omega⟩)]
          by_cases hlast : b = heap.inlineAllocationTop
          · rw [if_pos hlast]
            exact if_pos hlast
          · have hcontains : heap.ContainsAddress (moveRange c a b).destination := by
              unfold ContainsAddress
              omega
            rw [if_neg hlast, if_neg (not_not.2 hcontains)]
            exact if_neg hlast
        have hword : ∀ i < b - a, c.memory (a + i) = memory (a + i) :=
          fun i _ => hsame _ (by omega)
        have hbehind : ∀ x, b ≤ x → (moveRange c a b).memory x = c.memory x :=
          fun x hx => moveRange_outside (Or.inr (by omega))
        rw [hgo]
        by_cases hlast : b = heap.inlineAllocationTop
        · have hnil : rs = [] := by
            apply List.eq_nil_iff_forall_not_mem.2
            intro r hr
            have hbounds := hrest.bounds r hr
            omega
          subst hnil
          rw [if_pos hlast]
          exact ⟨_, rfl, (Moved.nil memory _).cons hword⟩
        · have hlist : DeadList free (moveRange c a b).memory heap.inlineAllocationTop b rs :=
            DeadList.congr ⟨e, hrest, hend⟩ fun x hx _ _ => hbehind x hx
          have hbounds' : ∀ r ∈ rs, start ≤ r.1 ∧ (moveRange c a b).destination ≤ r.1 := by
            intro r hr
            have hbehind := hrest.bounds r hr
            have hstartr := (hbounds r (List.mem_cons_of_mem _ hr)).1
            omega
          obtain ⟨c', hloop, hmoved⟩ := @ih fuel (moveRange c a b) hlist
            (show b < _ by omega) hbounds' (by omega)
            (fun x (hx : b ≤ x) => (hbehind x hx).trans (hsame x (by omega)))
            (show heap.inlineAllocationTop - b < fuel by omega)
          rw [if_neg hlast]
          exact ⟨c', hloop, hmoved.cons hword⟩

end MarkedHeap

end FroggyKVM.Gc
