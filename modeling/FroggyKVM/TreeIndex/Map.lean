/-
# FroggyKVM.TreeIndex.Map — the index as a map, over all sequences of calls.

`Abstract` is what the index is for: a map from ids to offsets.  `Represents` ties a list of entries
to it, and each call keeps the file well formed and its entries those of the map.
-/
import FroggyKVM.Lib.Lts
import FroggyKVM.TreeIndex.Delete

namespace FroggyKVM.TreeIndex

open BTree (Subtree Ctx Spot)

/-! ## Calls -/

/-- A call that changes the index. -/
inductive Call
  | updateRecordId (recordId blockOffset : Int)
  | deleteRecordIndex (recordId : Int)
  deriving DecidableEq, Repr

/-- The index file after a call. -/
def Call.run (file : IndexFile) : Call → Except Fault IndexFile
  | updateRecordId recordId blockOffset => TreeIndex.updateRecordId file recordId blockOffset
  | deleteRecordIndex recordId => TreeIndex.deleteRecordIndex file recordId

/-- Ids and offsets as the record store has them. -/
def Call.Proper : Call → Prop
  | updateRecordId recordId blockOffset => 0 < recordId ∧ blockOffset ≠ 0
  | deleteRecordIndex _ => True

instance : DecidablePred Call.Proper := fun c => by
  cases c <;> unfold Call.Proper <;> infer_instance

/-- Calls that return, one after the other. -/
abbrev Calls := Lts.Run fun file (c : Call) file' => c.run file = .ok file'

/-! ## The map -/

/-- The offsets stored for ids. -/
abbrev Abstract := Int → Option Int

def Abstract.empty : Abstract := fun _ => none

/-- What a call does to the map. -/
def Abstract.apply (m : Abstract) : Call → Abstract
  | .updateRecordId recordId blockOffset => Function.update m recordId (some blockOffset)
  | .deleteRecordIndex recordId => Function.update m recordId none

/-- The map after a sequence of calls. -/
def Abstract.after (calls : List Call) : Abstract := calls.foldl Abstract.apply .empty

/-- The entries are those of the map. -/
def Represents (es : List (Int × Int)) (m : Abstract) : Prop := ∀ k v, (k, v) ∈ es ↔ m k = some v

section
variable {es es' : List (Int × Int)} {m : Abstract} {k v : Int}

theorem represents_empty : Represents [] Abstract.empty := fun _ _ =>
  ⟨fun h => absurd h List.not_mem_nil, fun h => by cases h⟩

theorem Represents.update (h : Represents es m) (hes : Updated k v es es') :
    Represents es' (m.apply (.updateRecordId k v)) := by
  intro k' v'
  rw [hes.2, h, Abstract.apply, Function.update_apply, Prod.mk.injEq]
  by_cases hk : k' = k
  · rw [if_pos hk, Option.some.injEq]
    exact ⟨fun hor => hor.elim (fun h => h.2.symm) fun h => absurd hk h.2,
      fun hv => Or.inl ⟨hk, hv.symm⟩⟩
  · rw [if_neg hk]
    exact ⟨fun hor => hor.elim (fun h => absurd h.1 hk) fun h => h.1, fun hv => Or.inr ⟨hv, hk⟩⟩

theorem Represents.remove (h : Represents es m) (hes : Removed k es es') :
    Represents es' (m.apply (.deleteRecordIndex k)) := by
  intro k' v'
  rw [hes.2, h, Abstract.apply, Function.update_apply]
  by_cases hk : k' = k
  · rw [if_pos hk]
    exact ⟨fun hv => absurd hk hv.2, fun hv => by cases hv⟩
  · rw [if_neg hk]
    exact ⟨fun hv => hv.1, fun hv => ⟨hv, hk⟩⟩

end

/-! ## One call -/

section
variable {file file' : IndexFile} {h : Nat} {t : IdTree (h + 1)} {free : List Int}

/-- The tree of a new index: an empty leaf. -/
def newTree : IdTree 1 := Subtree.node ⟨IDX_HEADER_SIZE, PUnit.unit, []⟩

theorem entries_newTree : newTree.entries = [] := by
  rw [newTree, Subtree.entries_node]
  rfl

/-- **A new index is well formed.** -/
theorem wellFormed_new : WellFormed IndexFile.new newTree [] := by
  have hnodes : newTree.nodes 0 = {(⟨16, 0, []⟩ : Stored)} := rfl
  refine ⟨?_, ⟨Nat.zero_le _, fun hlt => absurd hlt (lt_irrefl 0), trivial,
    fun x hx => (List.not_mem_nil hx).elim⟩, List.Pairwise.nil⟩
  rw [hnodes]
  refine ⟨rfl, rfl, le_refl _, by decide, ?_, ?_, fun q hq => (List.not_mem_nil hq).elim, rfl, 2,
    rfl, by decide⟩
  · intro b hb
    obtain rfl := Multiset.mem_singleton.1 hb
    exact ⟨by decide, Nat.zero_le _, fun x hx => (List.not_mem_nil hx).elim⟩
  · intro b hb
    obtain rfl := Multiset.mem_singleton.1 hb
    exact ⟨⟨0, List.replicate NODE_ELEMENTS .zero⟩, rfl, rfl, _, rfl, by decide⟩

/-- A call that returns leaves a well-formed index. -/
theorem WellFormed.call (hw : WellFormed file t free) {c : Call} (hrun : c.run file = .ok file') :
    ∃ h', ∃ t' : IdTree (h' + 1), ∃ free', WellFormed file' t' free' ∧
      (c.Proper → ∀ m, Represents t.entries m → Represents t'.entries (m.apply c)) := by
  cases c with
  | updateRecordId k v =>
    obtain ⟨h', t', free', hw', hes⟩ := (hw.updateRecordId k v).returns file' hrun
    refine ⟨h', t', free', hw', fun hproper m hm => ?_⟩
    rw [if_pos hproper.1] at hes
    exact hm.update hes
  | deleteRecordIndex k =>
    obtain ⟨h', t', free', hw', -, hes⟩ := (hw.deleteRecordIndex k).returns file' hrun
    exact ⟨h', t', free', hw', fun _ m hm => hm.remove hes⟩

/-- **A call returns**, unless the file is almost 2 GB long. -/
theorem WellFormed.call_returns (hw : WellFormed file t free)
    (hroom : file.size + 2500 ≤ 2147483647) (c : Call) : ∃ file', c.run file = .ok file' := by
  have hheight : h + 1 ≤ 24 := by
    by_contra hgt
    have hpow : (2 : Int) ^ 25 ≤ 2 ^ (h + 1) := pow_le_pow_right₀ (by decide) (by omega)
    have hsize := hw.two_pow_le
    norm_num at hpow
    omega
  cases c with
  | updateRecordId k v =>
    obtain ⟨file', hrun, -⟩ := (hw.updateRecordId k v).succeeds fun e he => by
      have hfull := he.2
      simp only [NODE_SIZE] at hfull
      omega
    exact ⟨file', hrun⟩
  | deleteRecordIndex k =>
    obtain ⟨file', hrun, -⟩ := hw.deleteRecordIndex k
    exact ⟨file', hrun⟩

end

/-! ## All sequences of calls -/

/-- What every sequence of calls preserves. -/
theorem calls_preserve {file file' : IndexFile} {calls : List Call} (hrun : Calls file calls file') :
    ∀ {h : Nat} {t : IdTree (h + 1)} {free : List Int}, WellFormed file t free →
      ∃ h', ∃ t' : IdTree (h' + 1), ∃ free', WellFormed file' t' free' ∧
        ((∀ c ∈ calls, c.Proper) → ∀ m, Represents t.entries m →
          Represents t'.entries (calls.foldl Abstract.apply m)) := by
  induction hrun with
  | nil file => exact fun {h t free} hw => ⟨h, t, free, hw, fun _ _ hm => hm⟩
  | cons hc _ ih =>
    intro h t free hw
    obtain ⟨h₁, t₁, free₁, hw₁, hone⟩ := hw.call hc
    obtain ⟨h', t', free', hw', hrest⟩ := ih hw₁
    refine ⟨h', t', free', hw', fun hproper m hm => ?_⟩
    obtain ⟨hfirst, hproper⟩ := List.forall_mem_cons.1 hproper
    exact hrest hproper _ (hone hfirst m hm)

/-- **The index is a map.** After any calls on a new index, an id has the offset stored last, or 0
when there is none; the ids are enumerated in order; and the next call returns, unless the file is
almost 2 GB long. -/
theorem index_refines_map {calls : List Call} {file : IndexFile}
    (hproper : ∀ c ∈ calls, c.Proper) (hrun : Calls IndexFile.new calls file) :
    (∀ id, getRecordOffset file id = .ok ((Abstract.after calls id).getD 0)) ∧
    (∃ ids : List Int, ids.Pairwise (· < ·) ∧
      (∀ id, id ∈ ids ↔ (Abstract.after calls id).isSome) ∧
      getRecordIds file ids.length = .ok ids) ∧
    (file.size + 2500 ≤ 2147483647 → ∀ c : Call, ∃ file', c.run file = .ok file') := by
  obtain ⟨h, t, free, hw, hentries⟩ := calls_preserve hrun wellFormed_new
  have hmap : Represents t.entries (Abstract.after calls) :=
    hentries hproper _ (entries_newTree ▸ represents_empty)
  refine ⟨fun id => ?_, ⟨t.entries.map Prod.fst, ?_, fun id => ?_, ?_⟩, hw.call_returns⟩
  · obtain ⟨v, hget, hmem | ⟨rfl, hnone⟩⟩ := hw.getRecordOffset id
    · rw [hget, (hmap id v).1 hmem]
      rfl
    · have habsent : Abstract.after calls id = none := by
        apply Option.eq_none_iff_forall_ne_some.2
        intro v hv
        exact hnone (id, v) ((hmap id v).2 hv) rfl
      rw [hget, habsent]
      rfl
  · exact List.pairwise_map.2 hw.increasing
  · rw [Option.isSome_iff_exists, List.mem_map]
    constructor
    · rintro ⟨⟨k, v⟩, hmem, rfl⟩
      exact ⟨v, (hmap k v).1 hmem⟩
    · rintro ⟨v, hv⟩
      exact ⟨(id, v), (hmap id v).2 hv, rfl⟩
  · exact hw.getRecordIds (List.length_map ..)

/-- Twelve ids are added in falling order, which splits the root, and six are deleted, which merges
its children. -/
def someCalls : List Call :=
  ((List.range 12).map fun i : Nat => Call.updateRecordId (12 - i) (48 + 16 * i)) ++
    (List.range 6).map fun i : Nat => Call.deleteRecordIndex (2 * i + 1)

theorem index_refines_map_twelve : ∃ file, Calls IndexFile.new someCalls file ∧
    getRecordOffset file 4 = .ok 176 ∧ getRecordOffset file 5 = .ok 0 := by
  have hproper : ∀ c ∈ someCalls, c.Proper := by decide
  obtain ⟨file, hrun, -⟩ := Lts.Run.exists_of_exec Call.run (fun _ _ => true)
    (fun file => file.idRoot = 16) IndexFile.new someCalls (by decide +kernel)
  have hcalls : Calls IndexFile.new someCalls file := hrun.mono fun _ _ _ hstep => hstep.2
  obtain ⟨hget, -, -⟩ := index_refines_map hproper hcalls
  refine ⟨file, hcalls, ?_, ?_⟩
  · rw [hget]
    decide
  · rw [hget]
    decide

/-! ## The shape of the file -/

/-- The keys of a node increase, and those below a child are between the keys beside it. -/
def Separated {H : Nat} (s : IdSpot H) : Prop :=
  Increasing (s.node.rest.map Prod.fst) ∧
    ∀ e ∈ s.child.entries, (∀ x ∈ s.left, x.2.1 < e.1) ∧ ∀ x ∈ s.right, e.1 < x.1.1

theorem Increasing.separated {H : Nat} {s : IdSpot H} (h : Increasing s.tree.entries) :
    Separated s := by
  have hentries := s.entries_tree
  rw [Spot.before, Spot.after] at hentries
  have hnode : Increasing (s.node.flat Subtree.entries) := by
    rw [Spot.tree, Ctx.entries_plug, Subtree.entries_node] at h
    exact (List.pairwise_append.1 (List.pairwise_append.1 h).2.1).1
  refine ⟨hnode.sublist (BTree.Node.rest_sublist_flat ..), fun e he => ?_⟩
  rw [Spot.node, BTree.Node.flat_fill] at hnode
  obtain ⟨-, hright, hleft⟩ := List.pairwise_append.1 hnode
  constructor
  · intro x hx
    exact hleft _ (BTree.Node.mem_left _ hx) e (List.mem_append_left _ he)
  · intro x hx
    exact (List.pairwise_append.1 hright).2.2 e he _ (BTree.Node.mem_right _ hx)

/-- **The index file keeps its shape and its nodes.** After any calls on a new index the file holds a
tree, with all leaves at one depth by its type: its nodes have the right numbers of keys, which
separate what is below them; each node is in its slot; and every slot is either one of these nodes,
or linked into the free list once, or the root of the tree of free blocks. -/
theorem index_keeps_shape {calls : List Call} {file : IndexFile}
    (hrun : Calls IndexFile.new calls file) : ∃ h, ∃ t : IdTree (h + 1), ∃ free : List Int,
      t.Rooted (NODE_ELEMENTS / 2) ∧ (∀ s : IdSpot (h + 1), s.tree = t → Separated s) ∧
      file.idRoot = t.root 0 ∧ (∀ b ∈ t.nodes 0, ∃ slot ∈ file.slots b.label, HeldBy b slot) ∧
      Linked.Chain file.nextFree (pointer file.freeNodeHead) free ∧
      file.freeRoot = IDX_HEADER_SIZE + NODE_SIZE ∧
      ∃ n : Nat, file.size = IDX_HEADER_SIZE + NODE_SIZE * n ∧ (slotOffsets n).Nodup ∧
        (t.nodes 0).map (·.label) + ↑free + {file.freeRoot} = slotOffsets n := by
  obtain ⟨h, t, free, hw, -⟩ := calls_preserve hrun wellFormed_new
  obtain ⟨n, hsize, hslots⟩ := hw.holds.slots
  rw [add_zero] at hslots
  refine ⟨h, t, free, hw.rooted, ?_, hw.holds.idRoot, hw.holds.stored, hw.holds.chain,
    hw.holds.freeRoot, n, hsize, slotOffsets_nodup n, hslots⟩
  rintro s rfl
  exact hw.increasing.separated

theorem index_keeps_shape_twelve : ∃ file, Calls IndexFile.new someCalls file ∧
    ∃ h, ∃ t : IdTree (h + 1), t.Rooted (NODE_ELEMENTS / 2) ∧ file.idRoot = t.root 0 := by
  obtain ⟨file, hrun, -⟩ := Lts.Run.exists_of_exec Call.run (fun _ _ => true)
    (fun file => file.idRoot = 16) IndexFile.new someCalls (by decide +kernel)
  have hcalls : Calls IndexFile.new someCalls file := hrun.mono fun _ _ _ hstep => hstep.2
  obtain ⟨h, t, -, hrooted, -, hroot, -⟩ := index_keeps_shape hcalls
  exact ⟨file, hcalls, h, t, hrooted, hroot⟩

end FroggyKVM.TreeIndex
