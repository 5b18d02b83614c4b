/-
# FroggyKVM.Rms.Coherence — the offset cache against a scan of the blocks.

`Coherent` compares a lookup with the blocks of the file alone.  A failed search remembers every
offset it visits under the id it has not found, and no later update takes these entries out again.
They are harmless until the bytes at one of the offsets read as a header with that id
(`HitsStaleBytes`); **only then is the lookup wrong**.
-/
import FroggyKVM.Rms.Accounting

namespace FroggyKVM.Rms

namespace Store

/-! ## The blocks of the file -/

/-- The blocks met on the way through the chain: where they start, and their headers. -/
def blocksLoop (file : List UInt8) (size : Int) : Nat → Int → List (Int × BlockHeader)
  | 0, _ => []
  | fuel + 1, offset =>
    if offset < size then
      match readHeader file offset with
      | none => []
      | some header =>
        (offset, header) :: blocksLoop file size fuel (i32 (offset + calculateBlockSize header.size))
    else []

/-- The blocks between `DB_HEADER_SIZE` and `getSize()`. -/
def blocks (s : Store) : List (Int × BlockHeader) :=
  blocksLoop s.file s.getSize s.fuel DB_HEADER_SIZE

/-- The blocks with a record id; an id that is not positive is no record id. -/
def blocksOf (s : Store) (id : Int) : List (Int × BlockHeader) :=
  if 0 < id then s.blocks.filter fun x => decide (x.2.id = id) else []

/-- A lookup that uses no cached offset. -/
def scan (s : Store) (id : Int) : Except RmsError (Int × BlockHeader) :=
  if 0 < id then ((s.withCache none).searchFromStart id).1 else .error .invalidRecordID

/-- **Coherence**: a lookup returns the one block with the id, throws when there is none, and so does
a lookup without a cache. -/
structure Coherent (s : Store) (id : Int) : Prop where
  found : ∀ x, (s.getRecordHeader id).1 = .ok x ↔ s.blocksOf id = [x]
  invalid : (s.getRecordHeader id).1 = .error .invalidRecordID ↔ s.blocksOf id = []
  scan : (s.getRecordHeader id).1 = s.scan id

end Store

/-! ## The blocks of a chain -/

/-- The blocks of a chain that starts at `o`. -/
def chainBlocks : Int → List Block → List (Int × BlockHeader)
  | _, [] => []
  | o, b :: bs => (o, b.header) :: chainBlocks (o + b.length) bs

theorem chainBlocks_append (o : Int) (l r : List Block) :
    chainBlocks o (l ++ r) = chainBlocks o l ++ chainBlocks (o + total l) r := by
  induction l generalizing o with
  | nil => simp [chainBlocks]
  | cons b l ih =>
    rw [List.cons_append, chainBlocks, chainBlocks, ih, total_cons, List.cons_append]
    congr 3
    omega

theorem filter_chainBlocks_eq_nil {id : Int} {bs : List Block} (h : ∀ b ∈ bs, b.id ≠ id) (o : Int) :
    (chainBlocks o bs).filter (fun x => decide (x.2.id = id)) = [] := by
  induction bs generalizing o with
  | nil => rfl
  | cons b bs ih =>
    rw [List.forall_mem_cons] at h
    have hne : b.header.id ≠ id := h.1
    rw [chainBlocks, List.filter_cons, if_neg (by rw [decide_eq_true_eq]; exact hne), ih h.2]

theorem blocksLoop_eq {file : List UInt8} {bs : List Block} {o : Int} {fuel : Nat}
    (h : PieceAt file o bs) (hfuel : bs.length < fuel) :
    Store.blocksLoop file (o + total bs) fuel o = chainBlocks o bs := by
  induction bs generalizing o fuel with
  | nil =>
    cases fuel with
    | zero => cases hfuel
    | succ fuel => simp [Store.blocksLoop, chainBlocks]
  | cons b bs ih =>
    cases fuel with
    | zero => cases hfuel
    | succ fuel =>
      obtain ⟨hread, hnext, hcalc, htail⟩ := h.cons
      have hlen := length_pos b
      have hsize : o + (total (b :: bs) : Nat) = o + b.length + total bs := by
        rw [total_cons]
        omega
      rw [Store.blocksLoop, if_pos (by rw [hsize]; lia), hread]
      simp only [hcalc, hnext, chainBlocks]
      rw [← ih htail (by simpa using hfuel), hsize]

variable {s : Store} {bs : List Block}

theorem Tiled.blocks_eq (h : Tiled s bs) : s.blocks = chainBlocks DB_HEADER_SIZE bs := by
  rw [Store.blocks, h.getSize]
  exact blocksLoop_eq h.pieceAt h.fuel

/-- **The blocks with an id**: none, or one. -/
theorem Tiled.blocksOf_eq (h : Tiled s bs) {id : Int} (hid : 0 < id) :
    s.blocksOf id = (locate id DB_HEADER_SIZE bs).toList := by
  rw [Store.blocksOf, if_pos hid, h.blocks_eq]
  cases hloc : locate id DB_HEADER_SIZE bs with
  | none => exact filter_chainBlocks_eq_nil (locate_eq_none.1 hloc) _
  | some x =>
    obtain ⟨l, b, r, rfl, rfl, hl, ho, hheader⟩ := locate_eq_some (p := x.1) (h := x.2) hloc
    obtain ⟨-, hr⟩ := h.unique hid
    rw [chainBlocks_append, List.filter_append, filter_chainBlocks_eq_nil hl, chainBlocks,
      List.filter_cons_of_pos (by simp [Block.header]), filter_chainBlocks_eq_nil hr, List.nil_append,
      ← ho, ← hheader]
    rfl

theorem Tiled.scan_eq (h : Tiled s bs) {id : Int} (hid : 0 < id) :
    s.scan id = Store.lookup id bs := by
  have hnone : CachesRight (· ≠ id) bs none := fun _ hc => by cases hc
  obtain ⟨cache, heq, -⟩ := Store.searchFromStart_eq h hnone
  rw [Store.scan, if_pos hid, heq]

/-! ## Lookups -/

theorem Kept.staleHit_iff (h : Kept s bs) {id : Int} :
    s.HitsStaleBytes id ↔ s.StaleHit bs id := by
  rw [Store.HitsStaleBytes, Store.blockHeaders_eq h.tiled, Store.StaleHit]
  refine and_congr ?_ ?_
  · simp [Block.header]
  · simp only [Option.mem_def, Option.bind_eq_some_iff]
    constructor
    · rintro ⟨bh, ⟨c, hc, hbh⟩, hid⟩
      exact ⟨c, bh, hc, hbh, hid⟩
    · rintro ⟨c, bh, hc, hbh, hid⟩
      exact ⟨bh, ⟨c, hc, hbh⟩, hid⟩

/-- A lookup that hits stale bytes finds a record. -/
theorem getRecordHeader_of_stale {id : Int} (hid : 0 < id) (h : s.StaleHit bs id) :
    ∃ x, (s.getRecordHeader id).1 = .ok x := by
  obtain ⟨-, c, bh, hc, hbh, heq⟩ := h
  refine ⟨(c.elementAt id, bh), ?_⟩
  rw [Store.getRecordHeader, if_neg (by omega), hc]
  simp only [hbh, if_pos heq]

/-- **One lookup** is coherent if and only if it hits no stale bytes. -/
theorem Kept.coherent_iff (h : Kept s bs) (id : Int) :
    s.Coherent id ↔ ¬ (0 < id ∧ s.HitsStaleBytes id) := by
  rcases (by omega : id ≤ 0 ∨ 0 < id) with hid | hid
  · -- such an id is refused before anything is looked up
    refine iff_of_true ?_ (by omega)
    have hnot : ¬ 0 < id := by omega
    have hinvalid : (s.getRecordHeader id).1 = .error .invalidRecordID := by
      rw [Store.getRecordHeader_nonpos s hid]
    refine ⟨fun x => ?_, ?_, ?_⟩
    · rw [hinvalid, Store.blocksOf, if_neg hnot]
      exact iff_of_false (by rintro ⟨⟩) (by rintro ⟨⟩)
    · rw [hinvalid, Store.blocksOf, if_neg hnot]
      exact iff_of_true rfl rfl
    · rw [hinvalid, Store.scan, if_neg hnot]
  rw [h.staleHit_iff]
  constructor
  · rintro hcoherent ⟨-, hstale⟩
    obtain ⟨x, hx⟩ := getRecordHeader_of_stale hid hstale
    have hblocks := (hcoherent.found x).1 hx
    rw [h.tiled.blocksOf_eq hid, locate_eq_none.2 hstale.1] at hblocks
    cases hblocks
  · intro hstale
    obtain ⟨cache, heq, -⟩ := Store.getRecordHeader_eq h.tiled h.cache hid
      (fun hhit => hstale ⟨hid, hhit⟩)
    have hfst : (s.getRecordHeader id).1 = Store.lookup id bs := by rw [heq]
    refine ⟨fun x => ?_, ?_, ?_⟩
    · rw [hfst, h.tiled.blocksOf_eq hid, Store.lookup]
      cases locate id DB_HEADER_SIZE bs <;> simp
    · rw [hfst, h.tiled.blocksOf_eq hid, Store.lookup]
      cases locate id DB_HEADER_SIZE bs <;> simp
    · rw [hfst, h.tiled.scan_eq hid]

/-- **Coherence over runs.** In every state that a run reaches whose updates hit no stale bytes (and
overflow no `int`), a lookup is coherent if and only if it hits no stale bytes. -/
theorem lookup_coherent {cfg : Config} {time : Int × Int} {ls : List (Call × Reply)}
    (hrun : Lts.Run (Lts.Guarded (Store.Step cfg) fun s l => s.UpdateOk l.1)
      (Store.create time) ls s) (id : Int) :
    s.Coherent id ↔ ¬ (0 < id ∧ s.HitsStaleBytes id) := by
  obtain ⟨bs, h⟩ := kept_of_run hrun
  exact h.coherent_iff id

/-- Record 2 is moved by a compaction, after a lookup that has failed. -/
theorem lookup_coherent_moved : ∃ s : Store, s.blocksOf 2 = [(40, ⟨2, 2⟩)] ∧ s.Coherent 2 ∧
    s.Coherent 100 := by
  let cfg : Config := { storageSuiteLimit := 104, limit_int := by decide }
  obtain ⟨s, hrun, hblocks, hstale, hstale'⟩ := Lts.Run.exists_of_exec (Store.next cfg)
    (fun s l => decide (s.UpdateOk l.1))
    (fun s => s.blocksOf 2 = [(40, ⟨2, 2⟩)] ∧ ¬ s.HitsStaleBytes 2 ∧ ¬ s.HitsStaleBytes 100)
    (Store.create (0, 0))
    [(.addRecord ⟨1000, 1, 2⟩ [1, 2, 3, 4, 5, 6, 7, 8, 9, 10, 11, 12, 13, 14, 15, 16], .id 1),
      (.addRecord ⟨1000, 1, 2⟩ [7, 7], .id 2), (.getRecord 100, .throws .invalidRecordID),
      (.deleteRecord ⟨1000, 1, 3⟩ 1, .done),
      (.addRecord ⟨1000, 1, 4⟩ [0, 0, 0, 1, 0, 0, 0, 5, 65, 66, 67, 68, 69, 70, 71, 72, 73, 74],
        .id 3)]
    (by decide +kernel)
  have hcoherent : ∀ id, ¬ s.HitsStaleBytes id → s.Coherent id := fun id hnot =>
    (lookup_coherent (hrun.mono fun _ _ _ h => ⟨of_decide_eq_true h.1, Store.step_of_next h.2⟩)
      id).2 fun hhit => hnot hhit.2
  exact ⟨s, hblocks, hcoherent 2 hstale, hcoherent 100 hstale'⟩

/-- The same calls, with a record that spells a header for the id 100 where the failed lookup has
been: now this id is found. -/
theorem lookup_incoherent : ¬ ∀ (cfg : Config) (time : Int × Int) (ls : List (Call × Reply))
    (s : Store) (id : Int), Lts.Run (Lts.Guarded (Store.Step cfg) fun s l => s.UpdateOk l.1)
      (Store.create time) ls s → s.Coherent id := by
  intro h
  let cfg : Config := { storageSuiteLimit := 104, limit_int := by decide }
  obtain ⟨s, hrun, hnone, hfound⟩ := Lts.Run.exists_of_exec (Store.next cfg)
    (fun s l => decide (s.UpdateOk l.1))
    (fun s => s.blocksOf 100 = [] ∧ ¬ (s.call cfg (.getRecordSize 100)).1 = .throws .invalidRecordID)
    (Store.create (0, 0))
    [(.addRecord ⟨1000, 1, 2⟩ [1, 2, 3, 4, 5, 6, 7, 8, 9, 10, 11, 12, 13, 14, 15, 16], .id 1),
      (.addRecord ⟨1000, 1, 2⟩ [7, 7], .id 2), (.getRecord 100, .throws .invalidRecordID),
      (.deleteRecord ⟨1000, 1, 3⟩ 1, .done),
      (.addRecord ⟨1000, 1, 4⟩ [0, 0, 0, 100, 0, 0, 0, 5, 65, 66, 67, 68, 69, 70, 71, 72, 73, 74],
        .id 3)]
    (by decide +kernel)
  have hcoherent := h cfg (0, 0) _ s 100
    (hrun.mono fun _ _ _ h => ⟨of_decide_eq_true h.1, Store.step_of_next h.2⟩)
  have hinvalid := hcoherent.invalid.2 hnone
  refine hfound ?_
  rw [Store.call, Store.reply, Store.getRecordSize]
  rcases heq : s.getRecordHeader 100 with ⟨r, s'⟩
  rw [heq] at hinvalid
  obtain rfl : r = .error .invalidRecordID := hinvalid
  rfl

end FroggyKVM.Rms
