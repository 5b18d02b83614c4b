/-
# FroggyKVM.Inflate.TableLookup — what `GET_HUFFMAN_ENTRY` makes of a table.

A bit string is the register `inData`, first bit least significant; a codeword is read from it with
its first bit most significant.  The lookup in a finished table takes the codeword that the string
starts with, and refuses a string that starts with none.  The offsets of the second-level tables are
looked at while the table is filled: **each is written before its upper bits could get lost.**
-/
import FroggyKVM.Inflate.Inflater
import FroggyKVM.Inflate.TableFill

namespace FroggyKVM.Inflate

open Canonical

/-! ## Bit strings and codewords -/

/-- The bits of `x` start with the codeword of `s`. -/
def StartsWith (lens : List Nat) (s x : Nat) : Prop :=
  len lens s ≠ 0 ∧ msbBitsAt x.testBit 0 (len lens s) = code lens s

variable {lens : List Nat}

/-- Both bit orders say the same. -/
theorem startsWith_iff (h : Fits 15 lens) {s x : Nat} : StartsWith lens s x ↔ Spells lens s x := by
  have hrev := reverseBits_msbBitsAt x.testBit 0 (len lens s)
  rw [bitsAt_testBit] at hrev
  constructor
  · rintro ⟨hs, hcode⟩
    refine ⟨hs, ?_⟩
    rw [← hcode]
    exact hrev.symm
  · rintro ⟨hs, hlow⟩
    refine ⟨hs, ?_⟩
    have hlt := msbBitsAt_lt x.testBit 0 (len lens s)
    rw [← reverseBits_of_lt hlt, hrev, hlow, reverseBits_of_lt (code_lt h hs)]

/-! ## The lookup -/

namespace In

variable {table : Buffer Nat}

/-- A codeword at the start of the register: its symbol, and its bits are consumed. -/
theorem getEntry_of_startsWith (h : Fits 15 lens) (hd : Decodes lens table) {i : In} {s : Nat}
    (hs : StartsWith lens s i.inData) :
    i.getEntry table = .ok (some (s, i.dumpBits (len lens s))) := by
  have hdecode := (decode_eq_some h).2 ((startsWith_iff h).1 hs)
  obtain ⟨hne, hsym, hlen⟩ := entry_of_some h hdecode
  unfold getEntry
  rw [hd, ok_bind, if_neg hne, hsym, hlen]
  rfl

theorem getEntry_of_none (h : Fits 15 lens) (hd : Decodes lens table) {i : In}
    (hnone : ∀ s, ¬ StartsWith lens s i.inData) :
    getHuffmanEntry table i.inData = .ok 0 ∧ i.getEntry table = .ok none := by
  have hdecode : decode lens i.inData = none :=
    decodeBelow_eq_none.2 fun s _ hs => hnone s ((startsWith_iff h).2 hs)
  have hzero : getHuffmanEntry table i.inData = .ok 0 := by rw [hd, entry_of_none hdecode]
  refine ⟨hzero, ?_⟩
  unfold getEntry
  rw [hzero]
  rfl

end In

/-! ## Opening a second-level table -/

/-- The round for a code of `bits` bits opens a second-level table: the entry of the first level is
still empty. -/
def Fill.Opens (y : Layout) (f : Fill) (bits : Nat) : Prop :=
  y.maxQuickBits < bits ∧ ∃ code, reverse15bits (f.codes bits) = .ok code ∧
    f.table.get (headerUnits + (code &&& (1 <<< y.maxQuickBits) - 1)) = .ok 0

/-- The offset of the table that is opened, `delta`. -/
def Fill.delta (f : Fill) : Nat := 2 * f.nextLongTable

variable {y : Layout} {n : Nat} {f : Fill}

theorem Filled.delta_lt (h : Fits 15 lens) (hy : y.Suits lens) (hf : Filled lens y n f)
    (hopens : f.Opens y (len lens n)) : f.delta < 2 ^ 15 := by
  obtain ⟨hlong, code, hrev, hget⟩ := hopens
  have hn : len lens n ≠ 0 := by omega
  rw [hf.code_eq h hn (hy.len_le n), reverse15bits_lower h hn] at hrev
  obtain rfl : codeword lens n = code := Except.ok.inj hrev
  obtain ⟨used, hentries, hnext, -⟩ := hf.entries
  have hhead : codeword lens n &&& (1 <<< y.maxQuickBits) - 1 =
      codeword lens n % 2 ^ y.maxQuickBits := by
    rw [Nat.one_shiftLeft, Nat.and_two_pow_sub_one_eq_mod]
  have hidx : codeword lens n % 2 ^ y.maxQuickBits < 2 ^ y.maxQuickBits :=
    Nat.mod_lt _ (Nat.two_pow_pos _)
  have hlength := hf.length
  rw [hhead, Buffer.get_ok (by unfold headerUnits; omega)] at hget
  have hzero : f.table.data (2 + codeword lens n % 2 ^ y.maxQuickBits) = 0 := Except.ok.inj hget
  -- an index with a table of its own holds the mark of a pointer
  have hnew : codeword lens n % 2 ^ y.maxQuickBits ∉ used := by
    intro hmem
    obtain ⟨r, hr⟩ := List.mem_iff_getElem?.1 hmem
    rw [hentries.pointer r _ hr] at hzero
    unfold HUFFINFO_LONG_MASK at hzero
    omega
  have hroom := (hentries.room h hy (isLong_succ.2 (.inr ⟨hlong, rfl⟩)) hnew).2
  show 2 * f.nextLongTable < 2 ^ 15
  rw [hnext]
  omega

/-! ## The tables that the inflater asks for -/

/-- The quick bits and the number of symbols of a call of `make_code_table`; the heuristic does not
look at the quick bits. -/
def Asked (heuristic : Bool) (lens : List Nat) (maxQuickBits : Nat) : Prop :=
  heuristic = true ∨ maxQuickBits = MAX_QUICK_LXL ∨
    maxQuickBits = MAX_QUICK_CXD ∧ lens.length ≤ 32

theorem tableAfter_heuristic (lens : List Nat) (q q' n : Nat) :
    tableAfter true lens q n = tableAfter true lens q' n := rfl

/-- The rounds of the loop, for the tables that are asked for. -/
theorem Asked.tableAfter_ok {heuristic : Bool} {maxQuickBits : Nat}
    (hasked : Asked heuristic lens maxQuickBits) (h : Fits 15 lens) (hcount : lens.length ≤ 288)
    (hn : n ≤ lens.length) :
    ∃ y f, tableAfter heuristic lens maxQuickBits n = .ok (y, f) ∧ y.Suits lens ∧
      Filled lens y n f := by
  have hcount' : lens.length ≤ 2047 := by omega
  have hlxl : ∀ b, ∃ y f, tableAfter b lens MAX_QUICK_LXL n = .ok (y, f) ∧ y.Suits lens ∧
      Filled lens y n f := by
    intro b
    apply Inflate.tableAfter_ok h (by decide) _ hcount' b hn
    show lens.length * 2 ^ 5 + 2 ^ 9 ≤ 9728
    omega
  rcases hasked with rfl | rfl | ⟨rfl, hfew⟩
  · rw [tableAfter_heuristic lens maxQuickBits MAX_QUICK_LXL]
    exact hlxl true
  · exact hlxl heuristic
  · apply Inflate.tableAfter_ok h (by decide) _ hcount' heuristic hn
    show lens.length * 2 ^ 8 + 2 ^ 6 ≤ 9728
    omega

/-- **The tables of `make_code_table` decode the canonical code of their lengths.**  For all lengths
up to 15 whose Kraft sum is at most 1, the table is built without a store outside it, every offset
of a second-level table fits in 15 bits, and a lookup takes the codeword that the bits start with,
or finds the entry 0 when they start with none. -/
theorem makeCodeTable_lookup (lens : List Nat) (heuristic : Bool) (maxQuickBits : Nat)
    (hcount : lens.length ≤ 288) (hle : ∀ l ∈ lens, l ≤ MAX_BITS)
    (hkraft : kraft MAX_BITS lens ≤ 2 ^ MAX_BITS) (hasked : Asked heuristic lens maxQuickBits) :
    (∃ table, makeCodeTable heuristic lens maxQuickBits = .ok table ∧
      ∀ i : In,
        (∀ s, StartsWith lens s i.inData →
          i.getEntry table = .ok (some (s, i.dumpBits (len lens s)))) ∧
        ((∀ s, ¬ StartsWith lens s i.inData) →
          getHuffmanEntry table i.inData = .ok 0 ∧ i.getEntry table = .ok none)) ∧
    ∀ n, n < lens.length → ∃ y f, tableAfter heuristic lens maxQuickBits n = .ok (y, f) ∧
      (f.Opens y (len lens n) → f.delta < 2 ^ 15) := by
  have h : Fits 15 lens := fits_of_kraft (by decide) hle hkraft
  constructor
  · obtain ⟨y, f, hafter, hy, hf⟩ := hasked.tableAfter_ok h hcount (Nat.le_refl lens.length)
    have hd := hf.decodes h hy (by omega)
    refine ⟨f.table, makeCodeTable_of_tableAfter hafter, fun i => ⟨fun s hs => ?_, fun hnone => ?_⟩⟩
    · exact In.getEntry_of_startsWith h hd hs
    · exact In.getEntry_of_none h hd hnone
  · intro n hn
    obtain ⟨y, f, hafter, hy, hf⟩ := hasked.tableAfter_ok h hcount (Nat.le_of_lt hn)
    exact ⟨y, f, hafter, hf.delta_lt h hy⟩

/-- Four symbols, and the codeword `10` of the first. -/
theorem makeCodeTable_lookup_four :
    ∃ table, makeCodeTable false [2, 1, 3, 3] MAX_QUICK_CXD = .ok table ∧
      In.getEntry ⟨4, 2, 16, 0b0101⟩ table = .ok (some (0, ⟨4, 2, 14, 1⟩)) := by
  obtain ⟨⟨table, hmake, hlookup⟩, -⟩ := makeCodeTable_lookup [2, 1, 3, 3] false MAX_QUICK_CXD
    (by decide) (by decide) (by decide) (.inr (.inr ⟨rfl, by decide⟩))
  exact ⟨table, hmake, (hlookup ⟨4, 2, 16, 0b0101⟩).1 0 ⟨by decide, by decide⟩⟩

end FroggyKVM.Inflate
