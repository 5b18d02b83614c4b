/-
# FroggyKVM.Rms.InPlace — compaction as a machine that moves bytes inside one file.

`Compaction` is `compactRecords` cut into single reads and writes: outside the inner loop it stands
in front of a block, inside it has moved the first bytes of one.  From the place where it reads next,
the file is what it was before the compaction, in every state the machine passes through.  The
result of the whole call follows from the walk in `Rms.Compact`, which does not need the cache.
-/
import FroggyKVM.Rms.Accounting

namespace FroggyKVM.Rms

open Relation (ReflTransGen)

/-! ## The cache decides nothing -/

namespace Store

/-- The walk reads only the file and the header. -/
theorem compactLoop_withCache (fuel : Nat) (o m : Int) (s : Store) (cache : Option OffsetCache) :
    ∃ cache', compactLoop fuel o m s = ((compactLoop fuel o m (s.withCache cache)).1,
      (compactLoop fuel o m (s.withCache cache)).2.withCache cache') := by
  induction fuel generalizing o m s cache with
  | zero => exact ⟨s.recordIdOffsets, rfl⟩
  | succ fuel ih =>
    have hsize : (s.withCache cache).getSize = s.getSize := rfl
    have hfile : (s.withCache cache).file = s.file := rfl
    have hfuel : (s.withCache cache).fuel = s.fuel := rfl
    rw [compactLoop, compactLoop, hsize, hfile, hfuel]
    split
    · cases readHeader s.file o with
      | none => exact ⟨s.recordIdOffsets, rfl⟩
      | some header =>
        dsimp only
        split
        · exact ih _ _ s.removeBlock _
        · split
          · cases moveLoop o (calculateBlockSize header.size) m s.fuel 0 s.file with
            | error e => exact ⟨s.recordIdOffsets, rfl⟩
            | ok file => exact ih _ _ (({ s with file := file } : Store).updateBlock (o - m) header) _
          · exact ih _ _ s _
    · exact ⟨s.recordIdOffsets, rfl⟩

theorem compactRecords_withCache (cfg : Config) (s : Store) (cache : Option OffsetCache) :
    ∃ cache', s.compactRecords cfg = (((s.withCache cache).compactRecords cfg).1,
      ((s.withCache cache).compactRecords cfg).2.withCache cache') := by
  have hfree : (s.withCache cache).dbHeader.freeSize = s.dbHeader.freeSize := rfl
  have hfuel : (s.withCache cache).fuel = s.fuel := rfl
  rw [compactRecords, compactRecords, hfree, hfuel]
  split
  · exact ⟨s.recordIdOffsets, rfl⟩
  · obtain ⟨cache', heq⟩ := compactLoop_withCache s.fuel DB_HEADER_SIZE 0 s cache
    rw [heq]
    cases hloop : compactLoop s.fuel DB_HEADER_SIZE 0 (s.withCache cache) with
    | mk r s₁ =>
      cases r with
      | error e => exact ⟨cache', rfl⟩
      | ok moved =>
        dsimp only
        split
        · cases cfg.shrinks <;> exact ⟨cache', rfl⟩
        · exact ⟨cache', rfl⟩

end Store

/-! ## What compaction leaves -/

variable {cfg : Config} {s : Store} {bs l r : List Block} {b : Block}

/-- Nothing is known about an id, so nothing wrong. -/
theorem CacheOk.none (bs : List Block) : CacheOk bs none := fun _ hc => by cases hc

/-- What `getRecord` replies about a chain. -/
def chainReply (id : Int) (bs : List Block) : Reply :=
  match (liveBlocks bs).find? fun b => decide (b.id = id) with
  | some b => .bytes (if b.data = [] then none else some b.data)
  | none => .throws .invalidRecordID

/-- **The entries of a store** are its live blocks. -/
theorem Tiled.contents_eq (h : Tiled s bs) (id : Int) : s.contents id = chainReply id bs := by
  have hcache := Store.tiled_withCache h none
  rcases (by omega : id ≤ 0 ∨ 0 < id) with hid | hid
  · have hnone : (liveBlocks bs).find? (fun b => decide (b.id = id)) = none := by
      rw [List.find?_eq_none]
      intro b hb
      have hpos := (mem_liveBlocks.1 hb).2
      simp only [decide_eq_true_eq]
      omega
    rw [Store.contents, Store.getRecord, Store.getRecordHeader_nonpos _ hid, chainReply, hnone]
    rfl
  · obtain ⟨cache, heq, -⟩ := Store.getRecordHeader_eq hcache (.none bs) hid (by
      rintro ⟨-, c, x, hc, -⟩
      cases hc)
    rw [Store.contents, Store.getRecord, heq, Store.lookup]
    cases hloc : locate id DB_HEADER_SIZE bs with
    | none =>
      have hnone : (liveBlocks bs).find? (fun b => decide (b.id = id)) = none := by
        rw [List.find?_eq_none]
        intro b hb
        have hne := locate_eq_none.1 hloc b (mem_liveBlocks.1 hb).1
        simpa using hne
      rw [chainReply, hnone]
      rfl
    | some x =>
      obtain ⟨l, b, r, rfl, rfl, hl, ho, hheader⟩ := locate_eq_some (p := x.1) (h := x.2) hloc
      have hfind : (liveBlocks (l ++ b :: r)).find? (fun x => decide (x.id = b.id)) = some b := by
        rw [liveBlocks_append, liveBlocks_cons_of_pos hid, List.find?_append,
          List.find?_eq_none.2, Option.none_or, List.find?_cons_of_pos (by simp)]
        intro x hx
        simpa using hl x (mem_liveBlocks.1 hx).1
      have hbody := b.body_length
      have hnil : b.header.size = 0 ↔ b.data = [] := by
        simp only [Block.header, Block.data, ← List.length_eq_zero_iff, List.length_take]
        lia
      have hread := h.read_data
      rw [chainReply, hfind]
      simp only [ho, hheader, DB_HEADER_SIZE, Store.withCache, hread, hnil]
      by_cases hd : b.data = [] <;> simp [hd, Store.reply]

/-- The walk over a tiled file, with the gap it leaves behind the live blocks. -/
theorem Tiled.compactLoop (h : Tiled s bs) : ∃ s' gap junk,
    Store.compactLoop s.fuel DB_HEADER_SIZE 0 (s.withCache none) = (.ok gap.length, s') ∧
      s'.dbHeader = s.dbHeader ∧ Compacting s' (liveBlocks bs) gap [] junk := by
  obtain ⟨junk, hfile⟩ := h.file
  have hstart : Compacting (s.withCache none) [] [] bs junk := by
    refine ⟨by simpa [Store.withCache] using hfile, by simpa [Store.withCache] using h.dataSize,
      by simpa using h.fits, h.ids, by simpa using h.nodup, fun c hc => ?_⟩
    cases hc
  obtain ⟨s', gap, hloop, hheader, hdone⟩ :=
    Store.compactLoop_eq bs [] [] (s.withCache none) s.fuel hstart h.fuel
  rw [List.nil_append] at hdone
  exact ⟨s', gap, junk, hloop, hheader, hdone⟩

/-- Whether compaction writes the header is decided by the length of the gap. -/
theorem Tiled.compactRecords_dbHeader (cfg : Config) (h : Tiled s bs)
    (hfree : s.dbHeader.freeSize ≠ 0) : (s.compactRecords cfg).2.dbHeader =
      if total (liveBlocks bs) = total bs then s.dbHeader else
        { s.dbHeader with dataSize := total (liveBlocks bs), freeSize := 0 } := by
  obtain ⟨cache, heq⟩ := Store.compactRecords_withCache cfg s none
  obtain ⟨s₁, gap, junk, hloop, hheader, hdone⟩ := h.compactLoop
  have hfits := h.fits
  have hgap : total bs = total (liveBlocks bs) + gap.length := by
    have hdata := hdone.dataSize
    rw [hheader, h.dataSize, total_nil, Nat.add_zero] at hdata
    exact_mod_cast hdata
  rw [heq, Store.compactRecords, if_neg (show (s.withCache none).dbHeader.freeSize ≠ 0 from hfree),
    show (s.withCache none).fuel = s.fuel from rfl, hloop]
  dsimp only
  by_cases hmoved : (gap.length : Int) > 0
  · have hsize : i32 (s₁.dbHeader.dataSize - gap.length) = total (liveBlocks bs) := by
      rw [hheader, h.dataSize, i32_of_range (by omega)]
      omega
    rw [if_pos hmoved, if_neg (show total (liveBlocks bs) ≠ total bs by omega), hsize, hheader]
    cases cfg.shrinks <;> rfl
  · rw [if_neg hmoved, if_pos (by omega)]
    exact hheader

/-- **Compaction**, with the header it leaves. -/
theorem Tiled.compactRecords (cfg : Config) (h : Tiled s bs) (hfree : s.dbHeader.freeSize ≠ 0) :
    ∃ s', s.compactRecords cfg = (.ok (), s') ∧ Tiled s' (liveBlocks bs) ∧
      s'.dbHeader = if total (liveBlocks bs) = total bs then s.dbHeader else
        { s.dbHeader with dataSize := total (liveBlocks bs), freeSize := 0 } := by
  obtain ⟨s₁, bs₁, hrun, hbs₁, htiled, -, -⟩ :=
    Store.compactRecords_tiled cfg (Store.tiled_withCache h none) (.none bs)
  obtain rfl : bs₁ = liveBlocks bs := hbs₁.resolve_left fun hzero => hfree hzero.1
  obtain ⟨cache, heq⟩ := Store.compactRecords_withCache cfg s none
  have hheader := h.compactRecords_dbHeader cfg hfree
  rw [hrun] at heq
  rw [heq] at hheader
  exact ⟨s₁.withCache cache, heq, Store.tiled_withCache htiled cache, hheader⟩

/-! ## The machine -/

/-- A compaction between two of its moves. -/
structure Compaction where
  file : List UInt8
  currentOffset : Int := DB_HEADER_SIZE
  moveUpNumBytes : Int := 0
  /-- in the inner loop: `currentSize` and `numMoved` -/
  moving : Option (Int × Int) := none

namespace Compaction

def numMoved (p : Compaction) : Int := (p.moving.map Prod.snd).getD 0

/-- The first byte that is still to be read. -/
def uncopied (p : Compaction) : Nat := (p.currentOffset + p.numMoved).toNat

/-- What the inner loop reads next. -/
def buffer (p : Compaction) (currentSize : Int) : List UInt8 :=
  let curRead := currentSize - p.numMoved
  let curRead := if curRead > COMPACT_BUFFER_SIZE then COMPACT_BUFFER_SIZE else curRead
  (p.file.drop p.uncopied).take curRead.toNat

/-- Where the inner loop writes it. -/
def target (p : Compaction) : Nat := (p.currentOffset + p.numMoved - p.moveUpNumBytes).toNat

/-- One iteration of a loop of `compactRecords`, or its way into or out of the inner loop. -/
def step (size : Int) (p : Compaction) : Option Compaction :=
  match p.moving with
  | none =>
    if p.currentOffset < size then
      (readHeader p.file p.currentOffset).map fun header =>
        let currentSize := calculateBlockSize header.size
        if header.id < 0 then
          { p with
            currentOffset := i32 (p.currentOffset + currentSize)
            moveUpNumBytes := i32 (p.moveUpNumBytes + currentSize) }
        else if p.moveUpNumBytes > 0 then { p with moving := some (currentSize, 0) }
        else { p with currentOffset := i32 (p.currentOffset + currentSize) }
    else none
  | some (currentSize, numMoved) =>
    if numMoved < currentSize then
      if p.buffer currentSize = [] then none
      else some { p with
        file := splice p.file p.target (p.buffer currentSize)
        moving := some (currentSize, numMoved + (p.buffer currentSize).length) }
    else some { p with currentOffset := i32 (p.currentOffset + currentSize), moving := none }

/-- The machine goes on from `p` until it stops at `q`. -/
def Runs (size : Int) (p q : Compaction) : Prop :=
  ReflTransGen (fun p q => p.step size = some q) p q ∧ q.step size = none

theorem Runs.head {size : Int} {p q r : Compaction} (h : p.step size = some q)
    (hrun : Runs size q r) : Runs size p r :=
  ⟨.head h hrun.1, hrun.2⟩

/-- The states a compaction of `s` passes through. -/
def Reaches (s : Store) (p : Compaction) : Prop :=
  ReflTransGen (fun p q => p.step s.getSize = some q) { file := s.file } p

/-- Nothing has been written at or behind the place to be read next, and what is written next ends
in front of what is to be read then. -/
structure InPlace (original : List UInt8) (p : Compaction) : Prop where
  rest : p.file.drop p.uncopied = original.drop p.uncopied
  write : ∀ currentSize numMoved, p.moving = some (currentSize, numMoved) →
    p.target < p.uncopied

end Compaction

/-! ## The machine runs the loops -/

/-- The inner loop, as steps of the machine. -/
theorem moveLoop_reaches {o currentSize m size : Int} {fuel : Nat} {n : Int}
    {file file' : List UInt8} (h : Store.moveLoop o currentSize m fuel n file = .ok file') :
    ∃ n', currentSize ≤ n' ∧ ReflTransGen (fun p q => Compaction.step size p = some q)
      ⟨file, o, m, some (currentSize, n)⟩ ⟨file', o, m, some (currentSize, n')⟩ := by
  induction fuel generalizing n file with
  | zero => cases h
  | succ fuel ih =>
    let p : Compaction := ⟨file, o, m, some (currentSize, n)⟩
    rcases Int.lt_or_le n currentSize with hlt | hge
    · have hloop : Store.moveLoop o currentSize m (fuel + 1) n file =
          if p.buffer currentSize = [] then .error .io
          else Store.moveLoop o currentSize m fuel (n + (p.buffer currentSize).length)
            (splice file p.target (p.buffer currentSize)) := by
        rw [Store.moveLoop, if_pos hlt]
        rfl
      rw [hloop] at h
      split at h
      case isTrue => cases h
      case isFalse hne =>
        obtain ⟨n', hn', hrun⟩ := ih h
        refine ⟨n', hn', .head (b := ⟨splice file p.target (p.buffer currentSize), o, m,
          some (currentSize, n + (p.buffer currentSize).length)⟩) ?_ hrun⟩
        show (if n < currentSize then if p.buffer currentSize = [] then none else some _
          else some _) = _
        rw [if_pos hlt, if_neg hne]
    · rw [Store.moveLoop, if_neg (by omega)] at h
      cases h
      exact ⟨n, hge, .refl⟩

/-- The outer loop, until the machine stops. -/
theorem compactLoop_reaches {fuel : Nat} {o m m' : Int} {s s' : Store}
    (h : Store.compactLoop fuel o m s = (.ok m', s')) :
    ∃ p, Compaction.Runs s.getSize ⟨s.file, o, m, none⟩ p ∧ p.moveUpNumBytes = m' ∧
      p.file = s'.file := by
  induction fuel generalizing o m s with
  | zero => cases h
  | succ fuel ih =>
    rw [Store.compactLoop] at h
    split at h
    case isTrue hlt =>
      split at h
      case h_1 => cases h
      case h_2 header hread =>
        dsimp only at h
        have hstep : Compaction.step s.getSize ⟨s.file, o, m, none⟩ =
            some (if header.id < 0 then ⟨s.file, i32 (o + calculateBlockSize header.size),
                i32 (m + calculateBlockSize header.size), none⟩
              else if m > 0 then ⟨s.file, o, m, some (calculateBlockSize header.size, 0)⟩
              else ⟨s.file, i32 (o + calculateBlockSize header.size), m, none⟩) := by
          rw [Compaction.step]
          dsimp only
          rw [if_pos hlt, hread, Option.map_some]
        split at h
        case isTrue hfree =>
          rw [if_pos hfree] at hstep
          obtain ⟨p, hrun, hp⟩ := ih (s := s.removeBlock) h
          exact ⟨p, hrun.head hstep, hp⟩
        case isFalse hfree =>
          rw [if_neg hfree] at hstep
          split at h
          case isTrue hgap =>
            rw [if_pos hgap] at hstep
            split at h
            case h_1 => cases h
            case h_2 file hmove =>
              obtain ⟨n', hn', hrun⟩ := @moveLoop_reaches _ _ _ s.getSize _ _ _ _ hmove
              obtain ⟨p, ⟨hrest, hstop⟩, hp⟩ := ih h
              refine ⟨p, .head hstep ⟨hrun.trans (.head ?_ hrest), hstop⟩, hp⟩
              rw [Compaction.step]
              dsimp only
              rw [if_neg (by omega)]
              rfl
          case isFalse hgap =>
            rw [if_neg hgap] at hstep
            obtain ⟨p, hrun, hp⟩ := ih h
            exact ⟨p, hrun.head hstep, hp⟩
    case isFalse hge =>
      cases h
      refine ⟨_, ⟨.refl, ?_⟩, rfl, rfl⟩
      rw [Compaction.step]
      dsimp only
      rw [if_neg hge]

/-! ## The rest of the file stays -/

/-- A scan of a chain is a scan of its second part when it has come to that. -/
theorem PieceAt.append {file : List UInt8} {o : Int} (h : PieceAt file o (l ++ r)) :
    PieceAt file (o + total l) r := by
  induction l generalizing o with
  | nil => simpa using h
  | cons b l ih =>
    have htail := ih (h.cons).2.2.2
    rwa [Int.add_assoc, ← Int.natCast_add, ← total_cons] at htail

theorem drop_eq_of_le {xs ys : List UInt8} {i j : Nat} (h : xs.drop i = ys.drop i) (hij : i ≤ j) :
    xs.drop j = ys.drop j := by
  obtain ⟨k, rfl⟩ := Nat.exists_eq_add_of_le hij
  rw [← List.drop_drop, ← List.drop_drop, h]

theorem getInt_drop (file : List UInt8) (i j : Nat) : getInt (file.drop i) j = getInt file (i + j) := by
  simp [getInt, List.getD_eq_getElem?_getD, Nat.add_assoc]

/-- A header is read from the rest of the file. -/
theorem readHeader_of_drop {file file' : List UInt8} {o : Int} (hlen : file.length = file'.length)
    (h : file.drop o.toNat = file'.drop o.toNat) : readHeader file o = readHeader file' o := by
  have hget : ∀ j, getInt file (o.toNat + j) = getInt file' (o.toNat + j) := by
    intro j
    rw [← getInt_drop, h, getInt_drop]
  rw [readHeader, readHeader, hlen, ← Nat.add_zero o.toNat, hget 0, Nat.add_assoc, hget]

namespace Compaction

/-- A machine that has come to the block behind `l`. -/
structure At (s : Store) (l r : List Block) (p : Compaction) : Prop where
  currentOffset : p.currentOffset = 40 + total l
  length : p.file.length = s.file.length
  rest : p.file.drop p.uncopied = s.file.drop p.uncopied
  moveUp : 0 ≤ p.moveUpNumBytes ∧ p.moveUpNumBytes ≤ total l
  moving : ∀ currentSize numMoved, p.moving = some (currentSize, numMoved) →
    0 < p.moveUpNumBytes ∧ 0 ≤ numMoved ∧ numMoved ≤ currentSize ∧
      ∃ b r', r = b :: r' ∧ currentSize = b.length

theorem numMoved_of_moving {p : Compaction} {currentSize numMoved : Int}
    (h : p.moving = some (currentSize, numMoved)) : p.numMoved = numMoved := by
  simp [Compaction.numMoved, h]

theorem uncopied_of_walking {p : Compaction} (h : p.moving = none) :
    p.uncopied = p.currentOffset.toNat := by
  simp [uncopied, Compaction.numMoved, h]

/-- A chunk that is not empty lies in the block and in the file. -/
theorem buffer_length {p : Compaction} {currentSize : Int} (h : p.buffer currentSize ≠ []) :
    ((p.buffer currentSize).length : Int) ≤ currentSize - p.numMoved ∧
      p.uncopied + (p.buffer currentSize).length ≤ p.file.length := by
  have hpos := List.length_pos_iff.2 h
  simp only [buffer, List.length_take, List.length_drop] at hpos ⊢
  split at hpos <;> lia

theorem At.inPlace {p : Compaction} (h : At s l r p) : InPlace s.file p where
  rest := h.rest
  write := by
    intro currentSize numMoved hmoving
    obtain ⟨hup, hmoved, -⟩ := h.moving _ _ hmoving
    have hoff := h.currentOffset
    have hnum : p.numMoved = numMoved := numMoved_of_moving hmoving
    rw [target, uncopied, hnum]
    omega

/-- **One step** goes on behind the block, or moves a piece of it. -/
theorem At.step {p q : Compaction} (ht : Tiled s (l ++ r)) (h : At s l r p)
    (hstep : p.step s.getSize = some q) :
    At s l r q ∨ ∃ b r', r = b :: r' ∧ At s (l ++ [b]) r' q := by
  have hoff := h.currentOffset
  have hup := h.moveUp
  have hfits := ht.fits
  have hpiece : PieceAt s.file (40 + total l) r := ht.pieceAt.append
  rw [total_append] at hfits
  rw [ht.getSize, total_append] at hstep
  unfold Compaction.step at hstep
  cases hmoving : p.moving with
  | none =>
    simp only [hmoving] at hstep
    split at hstep
    case isFalse => cases hstep
    case isTrue hlt =>
      cases r with
      | nil =>
        rw [hoff] at hlt
        simp at hlt
      | cons b r =>
        obtain ⟨hread, hnext, hcalc, -⟩ := hpiece.cons
        have hrest := h.rest
        have hlen := length_pos b
        rw [total_cons] at hfits
        rw [uncopied_of_walking hmoving, hoff] at hrest
        rw [hoff, readHeader_of_drop h.length hrest, hread, Option.map_some] at hstep
        simp only [hcalc, hnext] at hstep
        have hoff' : (40 : Int) + total l + b.length = 40 + total (l ++ [b]) := by
          simp [Int.add_assoc]
        have hup' : (total (l ++ [b]) : Int) = total l + b.length := by simp
        rw [hoff'] at hstep
        -- behind the block, less of the file has to agree
        have hbehind : p.file.drop (40 + (total (l ++ [b]) : Int)).toNat =
            s.file.drop (40 + (total (l ++ [b]) : Int)).toNat := drop_eq_of_le hrest (by omega)
        split at hstep
        · obtain rfl := Option.some.inj hstep
          refine .inr ⟨b, r, rfl, rfl, h.length, ?_, ?_, ?_⟩
          · rw [uncopied_of_walking rfl]
            exact hbehind
          · rw [i32_of_range (by omega)]
            dsimp only
            omega
          · rintro _ _ ⟨⟩
        · split at hstep
          case isTrue hgap =>
            obtain rfl := Option.some.inj hstep
            refine .inl ⟨rfl, h.length, ?_, hup, ?_⟩
            · rw [uncopied, numMoved_of_moving rfl, Int.add_zero]
              exact hrest
            · rintro _ _ ⟨⟩
              exact ⟨hgap, by omega, by omega, b, r, rfl, rfl⟩
          case isFalse =>
            obtain rfl := Option.some.inj hstep
            refine .inr ⟨b, r, rfl, rfl, h.length, ?_, ?_, ?_⟩
            · rw [uncopied_of_walking rfl]
              exact hbehind
            · dsimp only
              omega
            · rintro _ _ ⟨⟩
  | some x =>
    obtain ⟨currentSize, numMoved⟩ := x
    obtain ⟨hgap, hmoved₀, hmoved, b, r, rfl, rfl⟩ := h.moving _ _ hmoving
    have hnum := numMoved_of_moving hmoving
    have hrest := h.rest
    rw [total_cons] at hfits
    simp only [hmoving] at hstep
    split at hstep
    case isTrue hlt =>
      split at hstep
      case isTrue => cases hstep
      case isFalse hne =>
        obtain rfl := Option.some.inj hstep
        obtain ⟨hchunk, hfile⟩ := p.buffer_length hne
        rw [hnum] at hchunk
        -- what is written ends in front of what is read next
        have hnext : p.uncopied + (p.buffer b.length).length =
            (p.currentOffset + (numMoved + (p.buffer b.length).length)).toNat := by
          rw [uncopied, hnum]
          omega
        have htarget : p.target + (p.buffer b.length).length ≤
            p.uncopied + (p.buffer b.length).length := by
          rw [target, uncopied]
          omega
        refine .inl ⟨hoff, ?_, ?_, hup, ?_⟩
        · rw [length_splice (by omega)]
          exact h.length
        · rw [uncopied, numMoved_of_moving rfl, ← hnext, drop_splice (by omega) htarget]
          exact drop_eq_of_le hrest (by omega)
        · rintro _ _ ⟨⟩
          exact ⟨hgap, by omega, by omega, b, r, rfl, rfl⟩
    case isFalse hdone =>
      obtain rfl := Option.some.inj hstep
      obtain rfl : numMoved = b.length := by omega
      have hoff' : i32 (p.currentOffset + b.length) = 40 + total (l ++ [b]) := by
        rw [hoff, i32_of_range (by omega)]
        simp [Int.add_assoc]
      have hup' : (total (l ++ [b]) : Int) = total l + b.length := by simp
      refine .inr ⟨b, r, rfl, hoff', h.length, ?_, ?_, ?_⟩
      · rw [uncopied_of_walking rfl, hoff']
        rw [uncopied, hnum, hoff] at hrest
        rwa [show (40 : Int) + total (l ++ [b]) = 40 + total l + b.length by omega]
      · dsimp only
        omega
      · rintro _ _ ⟨⟩

/-- In every state of a compaction, what is still to be read is untouched. -/
theorem Reaches.at {p : Compaction} (ht : Tiled s bs) (h : Reaches s p) :
    ∃ l r, bs = l ++ r ∧ At s l r p := by
  induction h with
  | refl =>
    refine ⟨[], bs, rfl, rfl, rfl, rfl, ⟨Int.le_refl _, by simp⟩, ?_⟩
    rintro _ _ ⟨⟩
  | tail _ hstep ih =>
    obtain ⟨l, r, rfl, hat⟩ := ih
    rcases hat.step ht hstep with hat' | ⟨b, r, rfl, hat'⟩
    · exact ⟨l, r, rfl, hat'⟩
    · exact ⟨l ++ [b], r, by simp, hat'⟩

end Compaction

/-! ## The whole call -/

/-- **Compaction in place.** The call returns; the live blocks are left, in their order and with
their data; the store is shorter by the free blocks; and no state on the way has lost a byte that is
still to be read. -/
theorem compactRecords_in_place (cfg : Config) (h : Tiled s bs) (hfree : s.dbHeader.freeSize ≠ 0) :
    (∃ s', s.compactRecords cfg = (.ok (), s') ∧ Tiled s' (liveBlocks bs) ∧
      s'.contents = s.contents ∧
      s'.blockHeaders = s.blockHeaders.filter (fun header => decide (0 < header.id)) ∧
      s'.getSize = s.getSize - s.freeBytes) ∧
    (∀ p, Compaction.Reaches s p → p.InPlace s.file) ∧
    ∃ p, Compaction.Runs s.getSize { file := s.file } p ∧
      (Store.compactLoop s.fuel DB_HEADER_SIZE 0 s).1 = .ok p.moveUpNumBytes ∧
      (Store.compactLoop s.fuel DB_HEADER_SIZE 0 s).2.file = p.file := by
  refine ⟨?_, fun p hp => ?_, ?_⟩
  · obtain ⟨s', hrun, htiled, -⟩ := h.compactRecords cfg hfree
    refine ⟨s', hrun, htiled, ?_, ?_, ?_⟩
    · funext id
      rw [htiled.contents_eq, h.contents_eq, chainReply, chainReply, liveBlocks_liveBlocks]
    · rw [Store.blockHeaders_eq htiled, Store.blockHeaders_eq h, List.filter_map]
      rfl
    · have hdata := h.dataSize
      rw [htiled.getSize, h.getSize, h.freeBytes_eq]
      omega
  · obtain ⟨l, r, -, hat⟩ := hp.at h
    exact hat.inPlace
  · obtain ⟨cache, heq⟩ := Store.compactLoop_withCache s.fuel DB_HEADER_SIZE 0 s none
    obtain ⟨s', gap, junk, hloop, -⟩ := h.compactLoop
    rw [hloop] at heq
    obtain ⟨p, hruns, hmoved, hfile⟩ := compactLoop_reaches heq
    refine ⟨p, hruns, ?_, ?_⟩
    · rw [heq, hmoved]
    · rw [heq, hfile]

/-- Two free blocks between three records. -/
theorem compactRecords_in_place_mixed : ∃ s s' : Store, s.getNumRecords = 3 ∧ s.freeBytes = 56 ∧
    s.compactRecords { storageSuiteLimit := 300, limit_int := by decide } = (.ok (), s') ∧
      s'.contents = s.contents ∧ s'.getSize = s.getSize - 56 := by
  let cfg : Config := { storageSuiteLimit := 300, limit_int := by decide }
  obtain ⟨s, hrun, hnum, hbytes, hfree⟩ := Lts.Run.exists_of_exec (Store.next cfg)
    (fun s l => decide (s.UpdateOk l.1))
    (fun s => s.getNumRecords = 3 ∧ s.freeBytes = 56 ∧ s.dbHeader.freeSize ≠ 0)
    (Store.create (0, 0))
    [(.addRecord ⟨1000, 1, 2⟩ [1], .id 1),
      (.addRecord ⟨1000, 1, 2⟩ [1, 2, 3, 4, 5, 6, 7, 8, 9, 10, 11, 12, 13, 14, 15, 16], .id 2),
      (.addRecord ⟨1000, 1, 2⟩ [1, 2, 3, 4, 5, 6, 7, 8, 9], .id 3),
      (.addRecord ⟨1000, 1, 2⟩ [1, 2, 3, 4, 5, 6, 7, 8, 9, 10, 11, 12, 13, 14, 15, 16, 17], .id 4),
      (.addRecord ⟨1000, 1, 2⟩ [], .id 5), (.deleteRecord ⟨1000, 1, 3⟩ 2, .done),
      (.deleteRecord ⟨1000, 1, 4⟩ 4, .done)]
    (by decide +kernel)
  obtain ⟨bs, h⟩ := kept_of_run
    (hrun.mono fun _ _ _ h => ⟨of_decide_eq_true h.1, Store.step_of_next h.2⟩)
  obtain ⟨⟨s', hcompact, -, hcontents, -, hsize⟩, -⟩ := compactRecords_in_place cfg h.tiled hfree
  exact ⟨s, s', hnum, hbytes, hcompact, hcontents, by rw [hsize, hbytes]⟩

end FroggyKVM.Rms
