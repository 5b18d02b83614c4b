/-
# FroggyKVM.TreeIndex.Storage — which slots of the index file hold what.

`Holds` says that the slots of the file are partitioned: some hold the stored nodes of a multiset,
some are linked into the free list, one is the root of the unused tree of free blocks, and some are
in limbo (handed out and not yet saved, or taken out of the tree and not yet freed).  `load`, `save`,
`allocateNode` and `freeNode` each move at most one slot from one part to another.
-/
import FroggyKVM.Lib.Linked
import FroggyKVM.TreeIndex.Memory

namespace FroggyKVM.TreeIndex

/-! ## The slots -/

/-- The offsets of the first `n` slots. -/
def slotOffsets (n : Nat) : Multiset Int :=
  (Multiset.range n).map fun i : Nat => IDX_HEADER_SIZE + NODE_SIZE * (i : Int)

theorem slotOffsets_nodup (n : Nat) : (slotOffsets n).Nodup := by
  apply (Multiset.nodup_range n).map
  intro i j hij
  simp only [IDX_HEADER_SIZE, NODE_SIZE] at hij
  omega

theorem slotOffsets_succ (n : Nat) :
    slotOffsets (n + 1) = (IDX_HEADER_SIZE + NODE_SIZE * n) ::ₘ slotOffsets n := by
  rw [slotOffsets, Multiset.range_succ, Multiset.map_cons, slotOffsets]

theorem mem_slotOffsets {n : Nat} {q : Int} (h : q ∈ slotOffsets n) :
    16 ≤ q ∧ q + NODE_SIZE ≤ IDX_HEADER_SIZE + NODE_SIZE * n := by
  obtain ⟨i, hi, rfl⟩ := Multiset.mem_map.1 h
  rw [Multiset.mem_range] at hi
  simp only [IDX_HEADER_SIZE, NODE_SIZE]
  omega

/-- An offset as a link: 0 is the end of the list. -/
def pointer (q : Int) : Option Int := if q = 0 then none else some q

/-- The link from a free slot to the next. -/
def IndexFile.nextFree (file : IndexFile) (q : Int) : Option Int :=
  (file.slots q).bind fun s => pointer s.child0

/-- The file, which has `root` for the root of the id tree and at most `cap` bytes, holds the nodes
of `M`; `free` is its free list. -/
structure Holds (root cap : Int) (file : IndexFile) (M : Multiset Stored) (free : List Int)
    (limbo : Multiset Int) : Prop where
  idRoot : file.idRoot = root
  freeRoot : file.freeRoot = IDX_HEADER_SIZE + NODE_SIZE
  size_le : file.size ≤ cap
  range : file.size ≤ 2147483647
  loadable : ∀ b ∈ M, Loadable b
  stored : ∀ b ∈ M, ∃ s ∈ file.slots b.label, HeldBy b s
  present : ∀ q ∈ free, (file.slots q).isSome
  chain : Linked.Chain file.nextFree (pointer file.freeNodeHead) free
  slots : ∃ n : Nat, file.size = IDX_HEADER_SIZE + NODE_SIZE * n ∧
    M.map (·.label) + (↑free + limbo) + {file.freeRoot} = slotOffsets n

section
variable {root cap : Int} {file : IndexFile} {M : Multiset Stored} {free : List Int}
  {limbo : Multiset Int} {n : Node} {b : Stored} {q : Int}

/-- No slot is two things at once. -/
theorem Holds.nodup (h : Holds root cap file M free limbo) :
    (M.map (·.label) + (↑free + limbo) + {file.freeRoot}).Nodup := by
  obtain ⟨n, -, heq⟩ := h.slots
  rw [heq]
  exact slotOffsets_nodup n

/-- Every slot is in the range of file positions. -/
theorem Holds.inRange (h : Holds root cap file M free limbo)
    (hq : q ∈ M.map (·.label) + (↑free + limbo)) : 16 ≤ q ∧ q + NODE_SIZE ≤ 2147483647 := by
  obtain ⟨n, hsize, heq⟩ := h.slots
  have hmem := mem_slotOffsets (heq ▸ Multiset.mem_add.2 (Or.inl hq))
  have hrange := h.range
  omega

theorem Holds.limbo_inRange (h : Holds root cap file M free (q ::ₘ limbo)) :
    16 ≤ q ∧ q + NODE_SIZE ≤ 2147483647 :=
  h.inRange (Multiset.mem_add.2 (Or.inr (Multiset.mem_add.2 (Or.inr (Multiset.mem_cons_self ..)))))

theorem Holds.label_nodup (h : Holds root cap file M free limbo) :
    (M.map (·.label)).Nodup :=
  Multiset.nodup_of_le (le_trans (Multiset.le_add_right ..) (Multiset.le_add_right ..)) h.nodup

/-- There are at most as many nodes as fit into the file. -/
theorem Holds.card_le (h : Holds root cap file M free limbo) :
    100 * (Multiset.card M : Int) + 100 ≤ file.size := by
  obtain ⟨n, hsize, heq⟩ := h.slots
  have hcard := congrArg Multiset.card heq
  simp only [Multiset.card_add, Multiset.card_map, Multiset.card_singleton, slotOffsets,
    Multiset.card_range] at hcard
  simp only [IDX_HEADER_SIZE, NODE_SIZE] at hsize
  omega

theorem Holds.mono {cap' : Int} (h : Holds root cap file M free limbo) (hcap : cap ≤ cap') :
    Holds root cap' file M free limbo := { h with size_le := h.size_le.trans hcap }

theorem Holds.tight (h : Holds root cap file M free limbo) :
    Holds root file.size file M free limbo := { h with size_le := le_refl _ }

/-- The root of the id tree is another node. -/
theorem Holds.setRoot (h : Holds root cap file M free limbo) (r : Int) :
    Holds r cap { file with idRoot := r } M free limbo := { h with idRoot := rfl }

/-! ## Moving slots -/

/-- A node is taken out. -/
theorem Holds.drop (h : Holds root cap file (b ::ₘ M) free limbo) :
    Holds root cap file M free (b.label ::ₘ limbo) := by
  obtain ⟨n, hsize, heq⟩ := h.slots
  refine { h with
    loadable := fun b hb => h.loadable b (Multiset.mem_cons_of_mem hb)
    stored := fun b hb => h.stored b (Multiset.mem_cons_of_mem hb)
    slots := ⟨n, hsize, ?_⟩ }
  rw [← heq, Multiset.map_cons]
  simp only [← Multiset.singleton_add]
  abel

theorem Holds.load (h : Holds root cap file M free limbo) (hb : b ∈ M) (n : Node) :
    ∃ n', n.load file b.label = .ok n' ∧ Shows n' b ∧ n'.parentStack = n.parentStack := by
  obtain ⟨s, hslot, hs⟩ := h.stored b hb
  exact Shows.load (h.loadable b hb) hslot hs n

/-- A write to a slot in limbo. -/
theorem Holds.write (h : Holds root cap file M free (q ::ₘ limbo)) (s : Slot) :
    Holds root cap (file.write q s) M free (q ::ₘ limbo) := by
  have hother : ∀ {x}, x ∈ M.map (·.label) + ↑free → x ≠ q := by
    rintro x hx rfl
    have hnodup := Multiset.nodup_of_le (Multiset.le_add_right ..) h.nodup
    rw [← Multiset.singleton_add, ← add_assoc, add_left_comm] at hnodup
    exact (Multiset.nodup_cons.1 hnodup).1 (Multiset.mem_add.2 (Or.inl hx))
  have hslot : ∀ {x}, x ∈ M.map (·.label) + ↑free →
      (file.write q s).slots x = file.slots x :=
    fun hx => Function.update_of_ne (hother hx) ..
  have hM : ∀ b ∈ M, b.label ∈ M.map (·.label) + (↑free : Multiset Int) :=
    fun b hb => Multiset.mem_add.2 (Or.inl (Multiset.mem_map_of_mem _ hb))
  have hfree : ∀ x ∈ free, x ∈ M.map (·.label) + (↑free : Multiset Int) :=
    fun x hx => Multiset.mem_add.2 (Or.inr hx)
  refine { h with stored := fun b hb => ?_, present := fun x hx => ?_, chain := ?_ }
  · rw [hslot (hM b hb)]
    exact h.stored b hb
  · rw [hslot (hfree x hx)]
    exact h.present x hx
  · apply h.chain.congr
    intro x hx
    rw [IndexFile.nextFree, hslot (hfree x hx), IndexFile.nextFree]

/-- A slot in limbo that holds a node is a node. -/
theorem Holds.adopt (h : Holds root cap file M free (b.label ::ₘ limbo)) (hb : Loadable b)
    (hheld : ∃ s ∈ file.slots b.label, HeldBy b s) :
    Holds root cap file (b ::ₘ M) free limbo := by
  obtain ⟨n, hsize, heq⟩ := h.slots
  refine { h with loadable := ?_, stored := ?_, slots := ⟨n, hsize, ?_⟩ }
  · exact Multiset.forall_mem_cons.2 ⟨hb, h.loadable⟩
  · exact Multiset.forall_mem_cons.2 ⟨hheld, h.stored⟩
  · rw [← heq, Multiset.map_cons]
    simp only [← Multiset.singleton_add]
    abel

/-- **Saving a node** whose slot is in limbo. -/
theorem Holds.save (h : Holds root cap file M free (b.label ::ₘ limbo)) (hn : Shows n b)
    (hb : Loadable b) :
    ∃ file', n.save file = .ok file' ∧ Holds root cap file' (b ::ₘ M) free limbo := by
  have hrange := h.limbo_inRange
  refine ⟨_, hn.save ⟨by omega, hrange.2⟩, (h.write _).adopt hb ⟨_, ?_, hn.heldBy hb.length⟩⟩
  exact Function.update_self ..

/-- **Saving a node** over an earlier version of it. -/
theorem Holds.resave {b' : Stored} (h : Holds root cap file (b ::ₘ M) free limbo)
    (hn : Shows n b') (hlabel : b'.label = b.label) (hb : Loadable b') :
    ∃ file', n.save file = .ok file' ∧ Holds root cap file' (b' ::ₘ M) free limbo := by
  have hdrop := h.drop
  rw [← hlabel] at hdrop
  exact hdrop.save hn hb

/-- A value without a key, in an empty node, is saved and changes nothing. -/
theorem Holds.save_keyless (h : Holds root cap file (b ::ₘ M) free limbo) (hn : Shows n b)
    (hempty : b.rest = []) (v c : Int) : ∃ file', (n.set 0 ⟨0, v, c⟩).save file = .ok file' ∧
      Holds root cap file' (b ::ₘ M) free limbo := by
  have hrange := h.drop.limbo_inRange
  have hoffset : (n.set 0 ⟨0, v, c⟩).offset = b.label := hn.offset
  refine ⟨file.write b.label ⟨n.child0, (List.range NODE_ELEMENTS).map
    (n.set 0 ⟨0, v, c⟩).triplet⟩, ?_, (h.drop.write _).adopt
    (h.loadable b (Multiset.mem_cons_self ..))
    ⟨_, Function.update_self .., hn.child0, _, by rw [hempty]; rfl, ?_⟩⟩
  · rw [Node.save, hoffset, if_pos ⟨by omega, hrange.2⟩]
    rfl
  · rintro x ⟨⟩
    exact le_refl _

theorem pointer_of_ne (h : q ≠ 0) : pointer q = some q := if_neg h

/-- **Freeing a node.** -/
theorem Holds.freeNode (h : Holds root cap file M free (q ::ₘ limbo)) :
    Holds root cap (file.freeNode q) M (q :: free) limbo := by
  have hrange := h.limbo_inRange
  have hwrite := h.write ⟨file.freeNodeHead, ((file.slots q).map Slot.triplets).getD []⟩
  obtain ⟨n, hsize, heq⟩ := hwrite.slots
  have hne : q ≠ 0 := by omega
  have hself : (file.freeNode q).slots q =
      some ⟨file.freeNodeHead, ((file.slots q).map Slot.triplets).getD []⟩ :=
    Function.update_self ..
  refine { hwrite with present := ?_, chain := ⟨pointer_of_ne hne, ?_⟩, slots := ?_ }
  · intro x hx
    rcases List.mem_cons.1 hx with rfl | hx
    · rw [hself]
      rfl
    · exact hwrite.present x hx
  · rw [IndexFile.nextFree, hself]
    exact hwrite.chain
  · refine ⟨n, hsize, ?_⟩
    rw [← heq, ← Multiset.cons_coe]
    simp only [← Multiset.singleton_add]
    show _ = _ + ({file.freeRoot} : Multiset Int)
    abel

/-- **Allocating a node**, unless the file would grow over 2 GB. -/
theorem Holds.allocateNode (h : Holds root cap file M free limbo) :
    ∃ file' q, file.allocateNode = .ok (file', q) ∧
      ((∃ free', Holds root (cap + NODE_SIZE) file' M free' (q ::ₘ limbo)) ∨
        2147483647 < q + NODE_SIZE ∧ q ≤ cap) := by
  obtain ⟨n, hsize, heq⟩ := h.slots
  cases free with
  | nil =>
    have hhead : file.freeNodeHead = 0 := by
      by_contra hne
      have hnone := h.chain
      rw [pointer_of_ne hne] at hnone
      cases hnone
    refine ⟨_, _, by rw [IndexFile.allocateNode, if_pos hhead], ?_⟩
    have hle := h.size_le
    by_cases hfull : 2147483647 < file.size + NODE_SIZE
    · exact Or.inr ⟨hfull, hle⟩
    · have hgrow : i32 (file.size + NODE_SIZE) = file.size + NODE_SIZE := by
        simp only [IDX_HEADER_SIZE, NODE_SIZE] at hsize hfull ⊢
        exact i32_of_range (by omega)
      rw [hgrow]
      refine Or.inl ⟨[], { h with
        size_le := Int.add_le_add_right hle _
        range := Int.not_lt.1 hfull
        slots := ⟨n + 1, ?_, ?_⟩ }⟩
      · simp only [IDX_HEADER_SIZE, NODE_SIZE] at hsize ⊢
        omega
      · rw [slotOffsets_succ, ← heq, ← hsize]
        simp only [← Multiset.singleton_add]
        abel
  | cons q free =>
    obtain ⟨hhead, hrest⟩ := h.chain
    have hne : file.freeNodeHead ≠ 0 := by
      intro hzero
      rw [hzero] at hhead
      cases hhead
    obtain rfl : file.freeNodeHead = q := Option.some.inj ((pointer_of_ne hne).symm.trans hhead)
    obtain ⟨s, hs⟩ := Option.isSome_iff_exists.1 (h.present _ (List.mem_cons_self ..))
    refine ⟨{ file with freeNodeHead := s.child0 }, file.freeNodeHead, ?_, Or.inl ⟨free, ?_⟩⟩
    · rw [IndexFile.allocateNode, if_neg hne, hs]
    · refine { h with
        size_le := h.size_le.trans (by simp only [NODE_SIZE]; omega)
        present := fun x hx => h.present x (List.mem_cons_of_mem _ hx)
        chain := ?_
        slots := ⟨n, hsize, ?_⟩ }
      · rw [IndexFile.nextFree, hs] at hrest
        exact hrest
      · rw [← heq, ← Multiset.cons_coe]
        simp only [← Multiset.singleton_add]
        abel

/-- There is no room for another node in a file of so many bytes. -/
def OutOfSpace (cap : Int) (e : Fault) : Prop := e = .io ∧ 2147483647 < cap

theorem OutOfSpace.mono {cap cap' : Int} {e : Fault} (h : OutOfSpace cap e) (hle : cap ≤ cap') :
    OutOfSpace cap' e := ⟨h.1, h.2.trans_le hle⟩

/-- Outside the range of file positions nothing is saved. -/
theorem save_outside (h : 2147483647 < n.offset + NODE_SIZE) : n.save file = .error .io := by
  rw [Node.save, if_neg (fun hrange => absurd h (Int.not_lt.2 hrange.2))]

theorem save_ends (n : Node) (file : IndexFile) :
    Ends (n.save file) (fun e => e = .io) fun _ => True := by
  rw [Node.save]
  split
  · trivial
  · rfl

end

end FroggyKVM.TreeIndex
