/-
# FroggyKVM.Inflate.TableFill — a table decodes the canonical code of its lengths.

The table is filled symbol by symbol.  After the symbols below `n` an entry of the first level holds
the symbol below `n` that its index spells, or points to a second-level table of its own, and there
an entry holds the symbol that the two indices together spell.  **When the lengths fit, the finished
table gives every bit string the symbol that it spells, and no access leaves it.**
-/
import FroggyKVM.Inflate.TableSizes

namespace FroggyKVM.Inflate

open Canonical

/-! ## Entries -/

/-- The codeword of a symbol, first bit least significant. -/
def codeword (lens : List Nat) (s : Nat) : Nat := reverseBits (len lens s) (code lens s)

/-- The entry for the symbol below `n` that `x` spells. -/
def entry (lens : List Nat) (n x : Nat) : Nat :=
  match decodeBelow lens n x with
  | some s => s * 16 + len lens s
  | none => 0

variable {lens : List Nat}

theorem spells_iff {s x : Nat} :
    Spells lens s x ↔ len lens s ≠ 0 ∧ x % 2 ^ len lens s = codeword lens s := Iff.rfl

variable (lens) in
theorem codeword_lt (s : Nat) : codeword lens s < 2 ^ len lens s := reverseBits_lt _ _

theorem spells_codeword {s : Nat} (hs : len lens s ≠ 0) : Spells lens s (codeword lens s) :=
  ⟨hs, Nat.mod_eq_of_lt (codeword_lt lens s)⟩

theorem entry_succ_of_spells (h : Fits 15 lens) {n x : Nat} (hn : Spells lens n x) :
    entry lens (n + 1) x = n * 16 + len lens n := by
  rw [entry, decodeBelow_succ h, if_pos hn]

theorem entry_succ_of_not (h : Fits 15 lens) {n x : Nat} (hn : ¬ Spells lens n x) :
    entry lens (n + 1) x = entry lens n x := by
  rw [entry, decodeBelow_succ h, if_neg hn, entry]

theorem entry_eq_zero {n x : Nat} (h : ∀ s, s < n → ¬ Spells lens s x) : entry lens n x = 0 := by
  rw [entry, decodeBelow_eq_none.2 h]

theorem entry_lt (h : Fits 15 lens) {n : Nat} (hn : n ≤ 2047) (x : Nat) :
    entry lens n x < 32768 := by
  unfold entry
  split
  case h_1 s hs =>
    have hlt := (decodeBelow_spells hs).1
    have hle := h.len_le s
    omega
  case h_2 => decide

/-- What the codeword of `n` spells is not spelt by an earlier symbol. -/
theorem entry_codeword (h : Fits 15 lens) {n x : Nat} (hn : Spells lens n x) :
    entry lens n x = 0 := by
  apply entry_eq_zero
  intro s hs hsx
  have heq := hsx.unique h hn
  omega

/-- The codeword in two parts: the index in the first level and the one in the second. -/
theorem mod_eq_iff_split {q b m x w : Nat} (hq : q ≤ b) (hb : b ≤ m) :
    x % 2 ^ b = w % 2 ^ b ↔
      x % 2 ^ q = w % 2 ^ q ∧ x % 2 ^ m / 2 ^ q % 2 ^ (b - q) = w % 2 ^ b / 2 ^ q := by
  have hpow : 2 ^ q * 2 ^ (b - q) = 2 ^ b := by
    rw [← Nat.pow_add]
    congr 1
    omega
  have hsuffix : x % 2 ^ m / 2 ^ q % 2 ^ (b - q) = x % 2 ^ b / 2 ^ q := by
    rw [← Nat.mod_mul_right_div_self, hpow, Nat.mod_mod_of_dvd x (Nat.pow_dvd_pow 2 hb)]
  have hx : x % 2 ^ b % 2 ^ q = x % 2 ^ q := Nat.mod_mod_of_dvd x (Nat.pow_dvd_pow 2 hq)
  have hw : w % 2 ^ b % 2 ^ q = w % 2 ^ q := Nat.mod_mod_of_dvd w (Nat.pow_dvd_pow 2 hq)
  rw [hsuffix]
  constructor
  · intro heq
    rw [← hx, ← hw, heq]
    exact ⟨rfl, rfl⟩
  · rintro ⟨h₁, h₂⟩
    rw [← Nat.div_add_mod (x % 2 ^ b) (2 ^ q), ← Nat.div_add_mod (w % 2 ^ b) (2 ^ q), h₂, hx, hw, h₁]

/-! ## Second-level tables -/

/-- The index in the first level of a codeword that is longer. -/
theorem reverseBits_codeword (h : Fits 15 lens) {q s : Nat} (hs : q < len lens s) :
    reverseBits q (codeword lens s) = lower 15 lens s / 2 ^ (15 - q) := by
  obtain ⟨k, hk⟩ := Nat.exists_eq_add_of_le (Nat.le_of_lt hs)
  have hle := h.len_le s
  have hcode : reverseBits (len lens s) (codeword lens s) = code lens s :=
    reverseBits_of_lt (code_lt h (by omega))
  have hlt := reverseBits_lt k (codeword lens s / 2 ^ q)
  rw [hk, reverseBits_add] at hcode
  have hpow : 2 ^ (15 - q) = 2 ^ (15 - len lens s) * 2 ^ k := by
    rw [← Nat.pow_add]
    congr 1
    omega
  rw [lower, hpow, Nat.mul_comm, Nat.mul_div_mul_left _ _ (Nat.two_pow_pos _), ← hcode,
    Nat.mul_add_div (Nat.two_pow_pos k), Nat.div_eq_of_lt hlt, Nat.add_zero]

/-- Where the intervals of the longer codewords lie. -/
theorem lower_bounds (h : Fits 15 lens) {q s : Nat} (hs : q < len lens s) :
    first 15 lens (q + 1) ≤ lower 15 lens s ∧ lower 15 lens s < first 15 lens 16 := by
  have hle := h.len_le s
  constructor
  · calc first 15 lens (q + 1) ≤ first 15 lens (len lens s) := first_mono hs
      _ ≤ lower 15 lens s := by rw [lower_eq h]; omega
  · calc lower 15 lens s < lower 15 lens s + 2 ^ (15 - len lens s) :=
          Nat.lt_add_of_pos_right (Nat.two_pow_pos _)
      _ ≤ first 15 lens (len lens s + 1) := upper_le h (by omega)
      _ ≤ first 15 lens 16 := first_mono (by omega)

theorem length_le_of_nodup {l : List Nat} (hl : l.Nodup) {lo hi : Nat}
    (h : ∀ a ∈ l, lo ≤ a ∧ a < hi) : l.length ≤ hi - lo := by
  have hsub : l ⊆ List.range' lo (hi - lo) := by
    intro a ha
    have := h a ha
    rw [List.mem_range'_1]
    omega
  simpa using (hl.subperm hsub).length_le

/-- The first-level index of a longer codeword below `n`. -/
def IsLong (lens : List Nat) (q n p : Nat) : Prop :=
  ∃ s, s < n ∧ q < len lens s ∧ p = codeword lens s % 2 ^ q

/-- Different first-level indices of longer codewords take an entry's worth of codes each. -/
theorem isLong_count (h : Fits 15 lens) {q n : Nat} (hq : q ≤ 15) {l : List Nat} (hl : l.Nodup)
    (hlong : ∀ p ∈ l, IsLong lens q n p) :
    l.length ≤ (2 ^ 15 - first 15 lens (q + 1)) / 2 ^ (15 - q) ∧
      l.length * 2 ^ (15 - q) + first 15 lens (q + 1) < first 15 lens 16 + 2 ^ (15 - q) ∨
        l = [] := by
  by_cases hnil : l = []
  · exact .inr hnil
  left
  have hpos : 0 < 2 ^ (15 - q) := Nat.two_pow_pos _
  obtain ⟨d, hd⟩ := dvd_first lens hq
  have hmem : ∀ t ∈ l.map (reverseBits q), d ≤ t ∧ t < (first 15 lens 16 - 1) / 2 ^ (15 - q) + 1 := by
    intro t ht
    obtain ⟨p, hp, rfl⟩ := List.mem_map.1 ht
    obtain ⟨s, -, hs, rfl⟩ := hlong p hp
    obtain ⟨hlo, hhi⟩ := lower_bounds h hs
    rw [reverseBits_mod, reverseBits_codeword h hs]
    refine ⟨?_, Nat.lt_succ_of_le (Nat.div_le_div_right (by omega))⟩
    rw [Nat.le_div_iff_mul_le hpos, Nat.mul_comm, ← hd]
    exact hlo
  have hnodup : (l.map (reverseBits q)).Nodup := by
    refine List.Nodup.map_on (fun a ha b hb hab => ?_) hl
    obtain ⟨s, -, -, rfl⟩ := hlong a ha
    obtain ⟨t, -, -, rfl⟩ := hlong b hb
    rw [← reverseBits_of_lt (Nat.mod_lt (codeword lens s) (Nat.two_pow_pos q)), hab,
      reverseBits_of_lt (Nat.mod_lt (codeword lens t) (Nat.two_pow_pos q))]
  have hlength := length_le_of_nodup hnodup hmem
  rw [List.length_map] at hlength
  have hone : 1 ≤ l.length := List.length_pos_of_ne_nil hnil
  have hsum : l.length + d ≤ (first 15 lens 16 - 1) / 2 ^ (15 - q) + 1 := by omega
  have htop : first 15 lens 16 ≤ 2 ^ 15 := h.first_le (by decide) (by omega)
  have hmul := Nat.mul_le_mul_right (2 ^ (15 - q)) hsum
  have hdiv := Nat.div_mul_le_self (first 15 lens 16 - 1) (2 ^ (15 - q))
  have hfirst : 0 < first 15 lens 16 := by
    obtain ⟨p, hp⟩ := List.exists_mem_of_ne_nil l hnil
    obtain ⟨s, -, hs, -⟩ := hlong p hp
    have := lower_bounds h hs
    omega
  rw [Nat.add_mul, Nat.add_mul, Nat.one_mul, Nat.mul_comm d, ← hd] at hmul
  refine ⟨?_, by omega⟩
  have hpow : 2 ^ 15 = 2 ^ q * 2 ^ (15 - q) := by
    rw [← Nat.pow_add]
    congr 1
    omega
  have hquot : (first 15 lens 16 - 1) / 2 ^ (15 - q) < 2 ^ q := by
    rw [Nat.div_lt_iff_lt_mul hpos, ← hpow]
    omega
  have hsub : 2 ^ 15 - first 15 lens (q + 1) = (2 ^ q - d) * 2 ^ (15 - q) := by
    rw [Nat.sub_mul, ← hpow, hd, Nat.mul_comm d]
  rw [hsub, Nat.mul_div_cancel _ hpos]
  omega

/-! ## A table under way -/

/-- The unit where the second-level table number `r` starts. -/
def Layout.longTable (y : Layout) (r : Nat) : Nat :=
  2 + 2 ^ y.maxQuickBits + r * y.longTableLength

theorem Layout.le_longTable (y : Layout) (r : Nat) : 2 + 2 ^ y.maxQuickBits ≤ y.longTable r :=
  Nat.le_add_right _ _

theorem Layout.longTable_add_le (y : Layout) {r r' : Nat} (h : r < r') :
    y.longTable r + y.longTableLength ≤ y.longTable r' := by
  have hmul := Nat.mul_le_mul_right y.longTableLength (Nat.succ_le_of_lt h)
  rw [Nat.succ_mul] at hmul
  unfold Layout.longTable
  omega

/-- The units `d` of a table with the symbols below `n`; `used` lists the indices of the first level
that point to a second-level table, in the order of these tables.  They are the indices of the
longer codewords below `m`: a table is there before its first symbol. -/
structure Entries (lens : List Nat) (y : Layout) (m n : Nat) (d : Nat → Nat) (used : List Nat) :
    Prop where
  nodup : used.Nodup
  mem_iff : ∀ p, p ∈ used ↔ IsLong lens y.maxQuickBits m p
  direct : ∀ x, x % 2 ^ y.maxQuickBits ∉ used →
    d (2 + x % 2 ^ y.maxQuickBits) = entry lens n x
  pointer : ∀ r p, used[r]? = some p → d (2 + p) = HUFFINFO_LONG_MASK + 2 * y.longTable r
  long : ∀ r x, used[r]? = some (x % 2 ^ y.maxQuickBits) →
    d (y.longTable r + x % 2 ^ y.maxCodeLen / 2 ^ y.maxQuickBits) = entry lens n x
  fresh : ∀ k, y.longTable used.length ≤ k → d k = 0

variable {y : Layout} {m n : Nat} {d d' : Nat → Nat} {used : List Nat}

theorem isLong_succ {q p : Nat} :
    IsLong lens q (n + 1) p ↔
      IsLong lens q n p ∨ q < len lens n ∧ p = codeword lens n % 2 ^ q := by
  constructor
  · rintro ⟨s, hs, hlong, hp⟩
    by_cases hsn : s = n
    · exact .inr (hsn ▸ ⟨hlong, hp⟩)
    · exact .inl ⟨s, by omega, hlong, hp⟩
  · rintro (⟨s, hs, hlong, hp⟩ | ⟨hlong, hp⟩)
    · exact ⟨s, by omega, hlong, hp⟩
    · exact ⟨n, by omega, hlong, hp⟩

theorem Entries.lt (he : Entries lens y m n d used) {p : Nat} (hp : p ∈ used) :
    p < 2 ^ y.maxQuickBits := by
  obtain ⟨s, -, -, rfl⟩ := (he.mem_iff p).1 hp
  exact Nat.mod_lt _ (Nat.two_pow_pos _)

/-- A symbol without a codeword changes nothing. -/
theorem Entries.skip (h : Fits 15 lens) (he : Entries lens y n n d used) (hn : len lens n = 0) :
    Entries lens y (n + 1) (n + 1) d used := by
  have hnot : ∀ x, entry lens (n + 1) x = entry lens n x :=
    fun x => entry_succ_of_not h fun hs => hs.1 hn
  refine ⟨he.nodup, fun p => ?_, ?_, he.pointer, ?_, he.fresh⟩
  · rw [he.mem_iff, isLong_succ, hn]
    exact ⟨.inl, fun hp => hp.resolve_right fun hc => absurd hc.1 (Nat.not_lt_zero _)⟩
  · intro x hx
    rw [hnot, he.direct x hx]
  · intro r x hr
    rw [hnot, he.long r x hr]

/-- No longer codeword starts with a shorter one. -/
theorem not_spells_of_isLong (h : Fits 15 lens) {q x : Nat} (hn : len lens n ≠ 0)
    (hshort : len lens n ≤ q) (hlong : IsLong lens q m (x % 2 ^ q)) : ¬ Spells lens n x := by
  obtain ⟨s, -, hq, hp⟩ := hlong
  intro hx
  have hmod : codeword lens s % 2 ^ len lens n = x % 2 ^ len lens n := by
    have hdvd : 2 ^ len lens n ∣ 2 ^ q := Nat.pow_dvd_pow 2 hshort
    rw [← Nat.mod_mod_of_dvd _ hdvd, ← hp, Nat.mod_mod_of_dvd _ hdvd]
  have hns : Spells lens n (codeword lens s) := ⟨hn, hmod.trans hx.2⟩
  have hs : len lens s ≠ 0 := by omega
  have heq := hns.unique h (spells_codeword hs)
  subst heq
  omega

/-- A short codeword fills entries of the first level. -/
theorem Entries.addShort (h : Fits 15 lens) (he : Entries lens y n n d used) (hn : len lens n ≠ 0)
    (hshort : len lens n ≤ y.maxQuickBits)
    (hmain : ∀ p, p < 2 ^ y.maxQuickBits → d' (2 + p) =
      if p % 2 ^ len lens n = codeword lens n then n * 16 + len lens n else d (2 + p))
    (hrest : ∀ k, 2 + 2 ^ y.maxQuickBits ≤ k → d' k = d k) :
    Entries lens y (n + 1) (n + 1) d' used := by
  have hpos : 0 < 2 ^ y.maxQuickBits := Nat.two_pow_pos _
  have hmod : ∀ x, x % 2 ^ y.maxQuickBits % 2 ^ len lens n = x % 2 ^ len lens n :=
    fun x => Nat.mod_mod_of_dvd x (Nat.pow_dvd_pow 2 hshort)
  have hnot : ∀ {x}, x % 2 ^ y.maxQuickBits ∈ used → ¬ Spells lens n x :=
    fun hx => not_spells_of_isLong h hn hshort ((he.mem_iff _).1 hx)
  refine ⟨he.nodup, fun p => ?_, ?_, ?_, ?_, ?_⟩
  · rw [he.mem_iff, isLong_succ]
    exact ⟨.inl, fun hp => hp.resolve_right fun hc => absurd hc.1 (by omega)⟩
  · intro x hx
    rw [hmain _ (Nat.mod_lt _ hpos), hmod]
    by_cases hs : Spells lens n x
    · rw [if_pos (spells_iff.1 hs).2, entry_succ_of_spells h hs]
    · rw [if_neg (fun hc => hs (spells_iff.2 ⟨hn, hc⟩)), entry_succ_of_not h hs, he.direct x hx]
  · intro r p hr
    have hmem := List.mem_of_getElem? hr
    have hp := he.lt hmem
    have hpmod : p % 2 ^ y.maxQuickBits = p := Nat.mod_eq_of_lt hp
    rw [hmain p hp, if_neg, he.pointer r p hr]
    intro hc
    exact hnot (x := p) (by rwa [hpmod]) (spells_iff.2 ⟨hn, hc⟩)
  · intro r x hr
    have hmem := List.mem_of_getElem? hr
    rw [hrest _ (Nat.le_trans (y.le_longTable r) (Nat.le_add_right _ _)),
      entry_succ_of_not h (hnot hmem), he.long r x hr]
  · intro k hk
    rw [hrest k (Nat.le_trans (y.le_longTable _) hk), he.fresh k hk]

/-- Nothing is spelt yet behind a first-level index that no longer codeword had so far. -/
theorem entry_of_not_isLong (h : Fits 15 lens) {q x : Nat} (hlong : q < len lens n)
    (hx : x % 2 ^ q = codeword lens n % 2 ^ q) (hnew : ¬ IsLong lens q n (x % 2 ^ q)) :
    entry lens n x = 0 := by
  apply entry_eq_zero
  intro s hs hsx
  by_cases hlen : q < len lens s
  · refine hnew ⟨s, hs, hlen, ?_⟩
    rw [← (spells_iff.1 hsx).2, Nat.mod_mod_of_dvd x (Nat.pow_dvd_pow 2 (Nat.le_of_lt hlen))]
  · exact not_spells_of_isLong h hsx.1 (Nat.not_lt.1 hlen)
      (isLong_succ.2 (.inr ⟨hlong, hx⟩)) hsx

/-- A second-level table is opened for a longer codeword. -/
theorem Entries.open (h : Fits 15 lens) (he : Entries lens y n n d used)
    (hlong : y.maxQuickBits < len lens n)
    (hnew : codeword lens n % 2 ^ y.maxQuickBits ∉ used)
    (hd : ∀ k, d' k = if k = 2 + codeword lens n % 2 ^ y.maxQuickBits
      then HUFFINFO_LONG_MASK + 2 * y.longTable used.length else d k) :
    Entries lens y (n + 1) n d' (used ++ [codeword lens n % 2 ^ y.maxQuickBits]) := by
  have hpos : 0 < 2 ^ y.maxQuickBits := Nat.two_pow_pos _
  have hlt : codeword lens n % 2 ^ y.maxQuickBits < 2 ^ y.maxQuickBits := Nat.mod_lt _ hpos
  have hsame : ∀ k, 2 + 2 ^ y.maxQuickBits ≤ k → d' k = d k := by
    intro k hk
    rw [hd, if_neg (by omega)]
  refine ⟨?_, fun p => ?_, ?_, ?_, ?_, ?_⟩
  · exact List.nodup_append.2 ⟨he.nodup, List.nodup_singleton _, fun a ha b hb => by
      rintro rfl
      exact hnew (List.mem_singleton.1 hb ▸ ha)⟩
  · rw [List.mem_append, he.mem_iff, List.mem_singleton, isLong_succ]
    exact or_congr_right ⟨fun hp => ⟨hlong, hp⟩, fun hp => hp.2⟩
  · intro x hx
    rw [List.mem_append, not_or, List.mem_singleton] at hx
    rw [hd, if_neg (by omega), he.direct x hx.1]
  · intro r p hr
    rw [hd]
    rcases Nat.lt_or_ge r used.length with hlt' | hge
    · rw [List.getElem?_append_left hlt'] at hr
      have hne : p ≠ codeword lens n % 2 ^ y.maxQuickBits :=
        fun hc => hnew (hc ▸ List.mem_of_getElem? hr)
      rw [if_neg (by omega), he.pointer r p hr]
    · rw [List.getElem?_append_right hge, List.getElem?_singleton] at hr
      split at hr
      · obtain rfl : r = used.length := by omega
        obtain rfl := Option.some.inj hr
        rw [if_pos rfl]
      · cases hr
  · intro r x hr
    rw [hsame _ (Nat.le_trans (y.le_longTable r) (Nat.le_add_right _ _))]
    rcases Nat.lt_or_ge r used.length with hlt' | hge
    · rw [List.getElem?_append_left hlt'] at hr
      exact he.long r x hr
    · rw [List.getElem?_append_right hge, List.getElem?_singleton] at hr
      split at hr
      · obtain rfl : r = used.length := by omega
        have hx := (Option.some.inj hr).symm
        rw [he.fresh _ (Nat.le_add_right _ _), entry_of_not_isLong h hlong hx]
        rwa [hx, ← he.mem_iff]
      · cases hr
  · intro k hk
    rw [List.length_append, List.length_singleton] at hk
    have hle : y.longTable used.length + y.longTableLength ≤ y.longTable (used.length + 1) :=
      y.longTable_add_le (Nat.lt_succ_self used.length)
    have hge := y.le_longTable used.length
    rw [hsame k (by omega), he.fresh k (by omega)]

/-- A longer codeword fills entries of its second-level table. -/
theorem Entries.addLong (h : Fits 15 lens) (he : Entries lens y (n + 1) n d used)
    (hlong : y.maxQuickBits < len lens n) (hmax : len lens n ≤ y.maxCodeLen)
    (hlength : y.longTableLength = 2 ^ (y.maxCodeLen - y.maxQuickBits)) {r : Nat}
    (hr : used[r]? = some (codeword lens n % 2 ^ y.maxQuickBits))
    (hfill : ∀ i, i < y.longTableLength → d' (y.longTable r + i) =
      if i % 2 ^ (len lens n - y.maxQuickBits) = codeword lens n / 2 ^ y.maxQuickBits
      then n * 16 + len lens n else d (y.longTable r + i))
    (hrest : ∀ k, k < y.longTable r ∨ y.longTable r + y.longTableLength ≤ k → d' k = d k) :
    Entries lens y (n + 1) (n + 1) d' used := by
  have hpos : 0 < 2 ^ y.maxQuickBits := Nat.two_pow_pos _
  have hge := y.le_longTable r
  have hrlt := (List.getElem?_eq_some_iff.1 hr).1
  have hspells : ∀ x, Spells lens n x ↔ x % 2 ^ y.maxQuickBits =
      codeword lens n % 2 ^ y.maxQuickBits ∧ x % 2 ^ y.maxCodeLen / 2 ^ y.maxQuickBits %
        2 ^ (len lens n - y.maxQuickBits) = codeword lens n / 2 ^ y.maxQuickBits := by
    intro x
    have hsplit := mod_eq_iff_split (x := x) (w := codeword lens n) (Nat.le_of_lt hlong) hmax
    rw [Nat.mod_eq_of_lt (codeword_lt lens n)] at hsplit
    rw [spells_iff, ← hsplit]
    exact and_iff_right (by omega)
  have hindex : ∀ x, x % 2 ^ y.maxCodeLen / 2 ^ y.maxQuickBits < y.longTableLength := by
    intro x
    rw [Nat.div_lt_iff_lt_mul hpos, hlength, ← Nat.pow_add, Nat.sub_add_cancel (by omega)]
    exact Nat.mod_lt _ (Nat.two_pow_pos _)
  refine ⟨he.nodup, he.mem_iff, ?_, ?_, ?_, ?_⟩
  · intro x hx
    have hlt : x % 2 ^ y.maxQuickBits < 2 ^ y.maxQuickBits := Nat.mod_lt _ hpos
    have hnot : ¬ Spells lens n x :=
      fun hs => hx (((hspells x).1 hs).1 ▸ List.mem_of_getElem? hr)
    rw [hrest _ (.inl (by omega)), entry_succ_of_not h hnot, he.direct x hx]
  · intro r' p hr'
    have hlt := he.lt (List.mem_of_getElem? hr')
    rw [hrest _ (.inl (by omega)), he.pointer r' p hr']
  · intro r' x hr'
    by_cases heq : r' = r
    · subst heq
      have hx : x % 2 ^ y.maxQuickBits = codeword lens n % 2 ^ y.maxQuickBits :=
        Option.some.inj (hr'.symm.trans hr)
      rw [hfill _ (hindex x)]
      by_cases hs : Spells lens n x
      · rw [if_pos ((hspells x).1 hs).2, entry_succ_of_spells h hs]
      · rw [if_neg (fun hc => hs ((hspells x).2 ⟨hx, hc⟩)), entry_succ_of_not h hs,
          he.long r' x hr']
    · have hnot : ¬ Spells lens n x := by
        intro hs
        rw [((hspells x).1 hs).1] at hr'
        exact heq ((List.getElem?_inj (List.getElem?_eq_some_iff.1 hr').1 he.nodup).1
          (hr'.trans hr.symm))
      have hout : y.longTable r' + x % 2 ^ y.maxCodeLen / 2 ^ y.maxQuickBits < y.longTable r ∨
          y.longTable r + y.longTableLength ≤
            y.longTable r' + x % 2 ^ y.maxCodeLen / 2 ^ y.maxQuickBits := by
        have hi := hindex x
        generalize x % 2 ^ y.maxCodeLen / 2 ^ y.maxQuickBits = i at hi ⊢
        rcases Nat.lt_or_gt_of_ne heq with hlt | hgt
        · have := y.longTable_add_le hlt
          omega
        · have := y.longTable_add_le hgt
          omega
      rw [hrest _ hout, entry_succ_of_not h hnot, he.long r' x hr']
  · intro k hk
    have hle := y.longTable_add_le hrlt
    rw [hrest k (.inr (by omega)), he.fresh k hk]

/-! ## Filling -/

/-- The table after the symbols below `n`. -/
structure Filled (lens : List Nat) (y : Layout) (n : Nat) (f : Fill) : Prop where
  length : f.table.length = 2 + 2 ^ y.maxQuickBits + y.numLongTables * y.longTableLength
  quick : f.table.data 0 = y.maxQuickBits
  max : f.table.data 1 = y.maxCodeLen
  codes : ∀ l, 1 ≤ l → l ≤ y.maxCodeLen →
    f.codes l = first 15 lens l + (lens.take n).count l * 2 ^ (15 - l)
  entries : ∃ used, Entries lens y n n f.table.data used ∧
    f.nextLongTable = y.longTable used.length ∧
    ∀ r, r < used.length → r < y.numLongTables ∧ y.longTable r < 16384

theorem count_take_succ (hn : n < lens.length) (l : Nat) :
    (lens.take (n + 1)).count l = (lens.take n).count l + if len lens n = l then 1 else 0 := by
  have hget : len lens n = lens[n] := List.getD_eq_getElem _ _ hn
  rw [List.take_add_one, List.getElem?_eq_getElem hn, List.count_append, hget]
  congr 1
  simp [List.count_singleton]

variable {f : Fill}

/-- The code of the next symbol, and the codes after it. -/
theorem Filled.code_eq (h : Fits 15 lens) (hf : Filled lens y n f) (hn : len lens n ≠ 0)
    (hmax : len lens n ≤ y.maxCodeLen) : f.codes (len lens n) = lower 15 lens n := by
  rw [hf.codes _ (by omega) hmax, lower_eq h]

theorem Filled.codes_succ (h : Fits 15 lens) (hf : Filled lens y n f) (hn : len lens n ≠ 0)
    (hmax : len lens n ≤ y.maxCodeLen) {l : Nat} (hl : 1 ≤ l) (hle : l ≤ y.maxCodeLen) :
    Function.update f.codes (len lens n)
        (u32 (f.codes (len lens n) + 2 ^ (MAX_BITS - len lens n))) l =
      first 15 lens l + (lens.take (n + 1)).count l * 2 ^ (15 - l) := by
  rw [count_take_succ (len_mem hn).2]
  by_cases hlen : len lens n = l
  · subst hlen
    have hup : lower 15 lens n + 2 ^ (15 - len lens n) ≤ 2 ^ 15 := upper_le_two_pow h hn
    have hcode := hf.code_eq h hn hmax
    rw [Function.update_self, if_pos rfl, Nat.add_mul, Nat.one_mul,
      ← Nat.add_assoc, ← hf.codes _ hl hle, hcode]
    exact u32_eq (by unfold MAX_BITS; omega)
  · rw [Function.update_of_ne (Ne.symm hlen), if_neg hlen, Nat.add_zero]
    exact hf.codes l hl hle

/-- The reversed code of a symbol. -/
theorem reverse15bits_lower (h : Fits 15 lens) (hn : len lens n ≠ 0) :
    reverse15bits (lower 15 lens n) = .ok (codeword lens n) := by
  have hup : lower 15 lens n + 2 ^ (15 - len lens n) ≤ 2 ^ 15 := upper_le_two_pow h hn
  have hpos : 0 < 2 ^ (15 - len lens n) := Nat.two_pow_pos _
  have hrev := reverseBits_mul_two_pow (len lens n) (15 - len lens n) (code lens n)
  rw [Nat.sub_add_cancel (h.len_le n)] at hrev
  rw [reverse15bits_ok (by omega), lower, hrev, codeword]

/-- Room for a second-level table: the tables opened so far are fewer than planned, and the offset
of the next one fits in 15 bits. -/
theorem Entries.room (h : Fits 15 lens) (hy : y.Suits lens) (he : Entries lens y m n d used)
    {p : Nat} (hp : IsLong lens y.maxQuickBits (m + 1) p) (hnew : p ∉ used) :
    used.length < y.numLongTables ∧ y.longTable used.length < 16384 := by
  have ⟨s, _, hs, _⟩ := hp
  have hlt : y.maxQuickBits < y.maxCodeLen := Nat.lt_of_lt_of_le hs (hy.len_le s)
  have hmax := hy.max_le
  obtain ⟨hnum, hlength⟩ := hy.long hlt
  have hcount := isLong_count h (q := y.maxQuickBits) (n := m + 1) (by omega)
    (List.nodup_cons.2 ⟨hnew, he.nodup⟩) (by
      intro a ha
      rcases List.mem_cons.1 ha with rfl | ha
      · exact hp
      · exact isLong_succ.2 (.inl ((he.mem_iff a).1 ha)))
  obtain ⟨htotal, hspan⟩ := hcount.resolve_right (List.cons_ne_nil _ _)
  rw [List.length_cons] at htotal hspan
  refine ⟨by rw [hnum]; omega, ?_⟩
  have hpow : 2 ^ (y.maxCodeLen - y.maxQuickBits) * 2 ^ (15 - y.maxCodeLen) =
      2 ^ (15 - y.maxQuickBits) := by
    rw [← Nat.pow_add]
    congr 1
    omega
  have hsmall := hy.small
  have hpos : 0 < 2 ^ (15 - y.maxCodeLen) := Nat.two_pow_pos _
  have hmul : (2 ^ y.maxQuickBits + used.length * y.longTableLength) * 2 ^ (15 - y.maxCodeLen) <
      9728 * 2 ^ (15 - y.maxCodeLen) := by
    rw [Nat.add_mul, hlength, Nat.mul_assoc, hpow]
    rw [Nat.add_mul, Nat.one_mul] at hspan
    omega
  have hunits := Nat.lt_of_mul_lt_mul_right hmul
  unfold Layout.longTable
  omega

/-- The value that a symbol's entries hold. -/
theorem huff_eq (h : Fits 15 lens) (hn : n ≤ 2047) :
    u16 ((n <<< 4) + len lens n) = n * 16 + len lens n := by
  have hle := h.len_le n
  rw [Nat.shiftLeft_eq]
  unfold u16
  omega

theorem addSymbol_skip (h : Fits 15 lens) (hf : Filled lens y n f) (hn : len lens n = 0)
    (hlt : n < lens.length) : f.addSymbol y n (len lens n) = .ok f ∧ Filled lens y (n + 1) f := by
  obtain ⟨used, hentries, hnext, hroom⟩ := hf.entries
  refine ⟨by rw [Fill.addSymbol, hn]; rfl, hf.length, hf.quick, hf.max, fun l hl hle => ?_,
    used, hentries.skip h hn, hnext, hroom⟩
  rw [hf.codes l hl hle, count_take_succ hlt, if_neg (by omega), Nat.add_zero]

theorem addSymbol_short (h : Fits 15 lens) (hy : y.Suits lens) (hcount : lens.length ≤ 2047)
    (hf : Filled lens y n f) (hn : len lens n ≠ 0) (hshort : len lens n ≤ y.maxQuickBits) :
    ∃ f', f.addSymbol y n (len lens n) = .ok f' ∧ Filled lens y (n + 1) f' := by
  have hlt := (len_mem hn).2
  obtain ⟨used, hentries, hnext, hroom⟩ := hf.entries
  have hcw := codeword_lt lens n
  have hpos := Nat.two_pow_pos y.maxQuickBits
  obtain ⟨table, hfill, hlength, hdata⟩ := @fillEntries_ok headerUnits
    (2 ^ y.maxQuickBits) (n * 16 + len lens n) (2 ^ len lens n) (Nat.two_pow_pos _)
    (2 ^ y.maxQuickBits + 1) (codeword lens n) f.table (by omega)
    (by rw [hf.length]; unfold headerUnits; omega)
  have hlow : ∀ k, k < 2 → table.data k = f.table.data k := by
    intro k hk
    rw [hdata, if_neg (by unfold headerUnits; omega)]
  refine ⟨{ f with
      table := table
      codes := Function.update f.codes (len lens n)
        (u32 (f.codes (len lens n) + 2 ^ (MAX_BITS - len lens n))) },
    ?_, hlength.trans hf.length, (hlow 0 (by decide)).trans hf.quick,
    (hlow 1 (by decide)).trans hf.max,
    fun l hl hle => hf.codes_succ h hn (hy.len_le n) hl hle, used, ?_, hnext, hroom⟩
  · have hrev : reverse15bits (f.codes (len lens n)) = .ok (codeword lens n) := by
      rw [hf.code_eq h hn (hy.len_le n), reverse15bits_lower h hn]
    simp only [Fill.addSymbol, if_pos hn, hrev, ok_bind, huff_eq h (show n ≤ 2047 by omega),
      if_pos hshort, hy.main, Nat.one_shiftLeft, hfill, pure_eq_ok]
  · apply hentries.addShort h hn hshort
    case hmain =>
      intro p hp
      have hiff := stride_iff headerUnits hcw hp
      rw [show 2 + p = headerUnits + p from rfl, hdata]
      simp only [hiff]
    case hrest =>
      intro k hk
      rw [hdata, if_neg (by unfold headerUnits; omega)]

/-- The pointer to a second-level table, and the way back. -/
theorem pointer_eq {t : Nat} (ht : t < 16384) :
    u16 (HUFFINFO_LONG_MASK ||| 2 * t) = HUFFINFO_LONG_MASK + 2 * t := by
  have hor := Nat.two_pow_add_eq_or_of_lt (i := 15) (b := 2 * t) (by omega) 1
  have hmask : HUFFINFO_LONG_MASK = 2 ^ 15 * 1 := rfl
  rw [hmask, ← hor]
  unfold u16
  omega

theorem offset_pointer {t : Nat} (ht : t < 16384) :
    (HUFFINFO_LONG_MASK + 2 * t &&& 0x7FFF) / 2 = t := by
  have hmod := Nat.and_two_pow_sub_one_eq_mod (HUFFINFO_LONG_MASK + 2 * t) 15
  have hmask : HUFFINFO_LONG_MASK = 32768 := rfl
  rw [show (0x7FFF : Nat) = 2 ^ 15 - 1 from rfl, hmod, hmask]
  omega

/-- A longer codeword enters its second-level table, once that is there. -/
theorem Filled.fillLong (h : Fits 15 lens) (hy : y.Suits lens)
    (hlong : y.maxQuickBits < len lens n) {table : Buffer Nat} {codes : Nat → Nat} {r : Nat}
    (hlength : table.length = 2 + 2 ^ y.maxQuickBits + y.numLongTables * y.longTableLength)
    (hquick : table.data 0 = y.maxQuickBits) (hmax : table.data 1 = y.maxCodeLen)
    (hcodes : ∀ l, 1 ≤ l → l ≤ y.maxCodeLen →
      codes l = first 15 lens l + (lens.take (n + 1)).count l * 2 ^ (15 - l))
    (he : Entries lens y (n + 1) n table.data used)
    (hroom : ∀ r, r < used.length → r < y.numLongTables ∧ y.longTable r < 16384)
    (hr : used[r]? = some (codeword lens n % 2 ^ y.maxQuickBits)) :
    ∃ table', fillEntries (y.longTable r) y.longTableLength
        (2 ^ (len lens n - y.maxQuickBits)) (n * 16 + len lens n) (y.longTableLength + 1)
        (codeword lens n / 2 ^ y.maxQuickBits) table = .ok table' ∧
      Filled lens y (n + 1) ⟨table', codes, y.longTable used.length⟩ := by
  have hrlt := (List.getElem?_eq_some_iff.1 hr).1
  have hle := y.longTable_add_le (hroom r hrlt).1
  have htotal : y.longTable y.numLongTables = table.length := hlength.symm
  have hpow : 2 ^ y.maxQuickBits * 2 ^ (len lens n - y.maxQuickBits) = 2 ^ len lens n := by
    rw [← Nat.pow_add, Nat.add_sub_of_le (Nat.le_of_lt hlong)]
  have hsuffix : codeword lens n / 2 ^ y.maxQuickBits < 2 ^ (len lens n - y.maxQuickBits) := by
    rw [Nat.div_lt_iff_lt_mul (Nat.two_pow_pos _), Nat.mul_comm, hpow]
    exact codeword_lt lens n
  have hlt : y.maxQuickBits < y.maxCodeLen := Nat.lt_of_lt_of_le hlong (hy.len_le n)
  have hge := y.le_longTable r
  have hpos := Nat.two_pow_pos y.maxQuickBits
  obtain ⟨table', hfill, hlength', hdata⟩ := @fillEntries_ok (y.longTable r)
    y.longTableLength (n * 16 + len lens n) _ (Nat.two_pow_pos (len lens n - y.maxQuickBits))
    (y.longTableLength + 1) (codeword lens n / 2 ^ y.maxQuickBits) table
    (Nat.lt_succ_of_le (Nat.sub_le _ _)) (by omega)
  have hrest : ∀ k, k < y.longTable r ∨ y.longTable r + y.longTableLength ≤ k →
      table'.data k = table.data k := by
    intro k hk
    rw [hdata, if_neg]
    rintro ⟨h₁, h₂, -⟩
    have := Nat.le_add_right (y.longTable r) (codeword lens n / 2 ^ y.maxQuickBits)
    omega
  refine ⟨table', hfill, hlength'.trans hlength, (hrest 0 (.inl (by omega))).trans hquick,
    (hrest 1 (.inl (by omega))).trans hmax, hcodes, used, ?_, rfl, hroom⟩
  apply he.addLong h hlong (hy.len_le n) (hy.long hlt).2 hr
  case hfill =>
    intro i hi
    have hiff := stride_iff (y.longTable r) hsuffix hi
    rw [hdata]
    simp only [hiff]
  case hrest => exact hrest

theorem addSymbol_long (h : Fits 15 lens) (hy : y.Suits lens) (hcount : lens.length ≤ 2047)
    (hf : Filled lens y n f) (hlong : y.maxQuickBits < len lens n) :
    ∃ f', f.addSymbol y n (len lens n) = .ok f' ∧ Filled lens y (n + 1) f' := by
  have hn : len lens n ≠ 0 := by omega
  have hlt := (len_mem hn).2
  have hpos := Nat.two_pow_pos y.maxQuickBits
  have hidx : codeword lens n % 2 ^ y.maxQuickBits < 2 ^ y.maxQuickBits := Nat.mod_lt _ hpos
  obtain ⟨used, hentries, hnext, hroom⟩ := hf.entries
  have hlength := hf.length
  have hcodes := fun l hl hle => hf.codes_succ h hn (hy.len_le n) (l := l) hl hle
  have hrev : reverse15bits (f.codes (len lens n)) = .ok (codeword lens n) := by
    rw [hf.code_eq h hn (hy.len_le n), reverse15bits_lower h hn]
  have hget : f.table.get (headerUnits + codeword lens n % 2 ^ y.maxQuickBits) =
      .ok (f.table.data (2 + codeword lens n % 2 ^ y.maxQuickBits)) :=
    Buffer.get_ok (by unfold headerUnits; omega)
  simp only [Fill.addSymbol, if_pos hn, hrev, ok_bind, huff_eq h (show n ≤ 2047 by omega),
    if_neg (Nat.not_le.2 hlong), Nat.one_shiftLeft, Nat.and_two_pow_sub_one_eq_mod, hget,
    Nat.shiftRight_eq_div_pow]
  by_cases hmem : codeword lens n % 2 ^ y.maxQuickBits ∈ used
  case pos =>
    obtain ⟨r, hr⟩ := List.mem_iff_getElem?.1 hmem
    have hsmall := (hroom r (List.getElem?_eq_some_iff.1 hr).1).2
    have hpointer := hentries.pointer r _ hr
    have hm : ∀ p, p ∈ used ↔ IsLong lens y.maxQuickBits (n + 1) p := by
      intro p
      rw [isLong_succ, hentries.mem_iff]
      exact ⟨.inl, fun hp => hp.elim id fun hp => hp.2 ▸ (hentries.mem_iff _).1 hmem⟩
    obtain ⟨table', hfill, hfilled⟩ := Filled.fillLong h hy hlong hlength hf.quick hf.max hcodes
      { hentries with mem_iff := hm } hroom hr
    rw [if_neg (by rw [hpointer]; unfold HUFFINFO_LONG_MASK; omega), hpointer,
      offset_pointer hsmall, hfill]
    exact ⟨_, rfl, by rw [hnext]; exact hfilled⟩
  case neg =>
    -- the table is opened first, then it is filled like one that is there
    have hzero : f.table.data (2 + codeword lens n % 2 ^ y.maxQuickBits) = 0 := by
      rw [hentries.direct _ hmem, entry_codeword h (spells_codeword hn)]
    obtain ⟨hfew, hsmall⟩ :=
      hentries.room h hy (isLong_succ.2 (.inr ⟨hlong, rfl⟩)) hmem
    have hset := Buffer.set_ok (b := f.table)
      (i := headerUnits + codeword lens n % 2 ^ y.maxQuickBits)
      (by unfold headerUnits; omega) (HUFFINFO_LONG_MASK + 2 * y.longTable used.length)
    have hopen : Entries lens y (n + 1) n
        (fun k => if k = headerUnits + codeword lens n % 2 ^ y.maxQuickBits
          then HUFFINFO_LONG_MASK + 2 * y.longTable used.length else f.table.data k)
        (used ++ [codeword lens n % 2 ^ y.maxQuickBits]) :=
      hentries.open h hlong hmem fun k => rfl
    have hroom' : ∀ r, r < (used ++ [codeword lens n % 2 ^ y.maxQuickBits]).length →
        r < y.numLongTables ∧ y.longTable r < 16384 := by
      intro r hr
      rw [List.length_append, List.length_singleton] at hr
      by_cases heq : r = used.length
      · exact heq ▸ ⟨hfew, hsmall⟩
      · exact hroom r (by omega)
    obtain ⟨table', hfill, hfilled⟩ := @Filled.fillLong lens y n _ h hy hlong
      { f.table with data := fun k => if k = headerUnits + codeword lens n % 2 ^ y.maxQuickBits
        then HUFFINFO_LONG_MASK + 2 * y.longTable used.length else f.table.data k } _ _ hlength
      ((if_neg (by unfold headerUnits; omega)).trans hf.quick)
      ((if_neg (by unfold headerUnits; omega)).trans hf.max) hcodes hopen hroom'
      List.getElem?_concat_length
    rw [if_pos hzero, hnext, pointer_eq hsmall, hset, ok_bind, hfill]
    refine ⟨_, rfl, ?_⟩
    have hstart : y.longTable used.length + y.longTableLength =
        y.longTable (used ++ [codeword lens n % 2 ^ y.maxQuickBits]).length := by
      rw [List.length_append, List.length_singleton]
      unfold Layout.longTable
      rw [Nat.add_mul, Nat.one_mul, Nat.add_assoc]
    rw [hstart]
    exact hfilled

/-- The loop over the symbols below `m`. -/
theorem addSymbols_ok (h : Fits 15 lens) (hy : y.Suits lens) (hcount : lens.length ≤ 2047)
    {m : Nat} (hm : m ≤ lens.length) {rest : List Nat} (hrest : rest = (lens.take m).drop n)
    (hn : n ≤ m) (hf : Filled lens y n f) :
    ∃ f', Fill.addSymbols y n rest f = .ok f' ∧ Filled lens y m f' := by
  have hlength : (lens.take m).length = m := by rw [List.length_take, Nat.min_eq_left hm]
  induction rest generalizing n f with
  | nil =>
    have hle := List.drop_eq_nil_iff.1 hrest.symm
    obtain rfl : n = m := by omega
    exact ⟨f, rfl, hf⟩
  | cons bits rest ih =>
    have hlt : n < (lens.take m).length := by
      by_contra hge
      rw [List.drop_eq_nil_iff.2 (by omega)] at hrest
      cases hrest
    rw [List.drop_eq_getElem_cons hlt] at hrest
    obtain ⟨hbits, htail⟩ := List.cons.inj hrest
    have hlen : len lens n = bits := by
      rw [hbits, List.getElem_take]
      exact List.getD_eq_getElem _ _ _
    have hstep : ∃ f', f.addSymbol y n (len lens n) = .ok f' ∧ Filled lens y (n + 1) f' := by
      by_cases hzero : len lens n = 0
      · exact ⟨f, addSymbol_skip h hf hzero (by omega)⟩
      · rcases Nat.lt_or_ge y.maxQuickBits (len lens n) with hlong | hshort
        · exact addSymbol_long h hy hcount hf hlong
        · exact addSymbol_short h hy hcount hf hzero hshort
    obtain ⟨f', hadd, hf'⟩ := hstep
    obtain ⟨f'', hmore, hf''⟩ := ih htail (by omega) hf'
    refine ⟨f'', ?_, hf''⟩
    rw [Fill.addSymbols, ← hlen, hadd, ok_bind, hmore]

/-! ## The finished table -/

/-- Every lookup finds the entry of the symbol that the bits spell. -/
def Decodes (lens : List Nat) (table : Buffer Nat) : Prop :=
  ∀ x, getHuffmanEntry table x = .ok (entry lens lens.length x)

theorem entry_of_none {x : Nat} (hx : decode lens x = none) : entry lens lens.length x = 0 := by
  rw [entry, ← decode, hx]

/-- The symbol and the length of its codeword in an entry. -/
theorem entry_of_some (h : Fits 15 lens) {s x : Nat} (hx : decode lens x = some s) :
    entry lens lens.length x ≠ 0 ∧ entry lens lens.length x >>> 4 = s ∧
      entry lens lens.length x &&& 0xF = len lens s := by
  have hne := ((decode_eq_some h).1 hx).1
  have hle := h.len_le s
  have hentry : entry lens lens.length x = s * 16 + len lens s := by rw [entry, ← decode, hx]
  have hlow := Nat.and_two_pow_sub_one_eq_mod (s * 16 + len lens s) 4
  rw [hentry, Nat.shiftRight_eq_div_pow, show (0xF : Nat) = 2 ^ 4 - 1 from rfl, hlow]
  lia

theorem units_eq (hy : y.Suits lens) :
    y.units = 2 + 2 ^ y.maxQuickBits + y.numLongTables * y.longTableLength := by
  have hquick := hy.quick_le
  have hmax := hy.max_le
  have hpow : 2 ^ y.maxQuickBits ≤ 2 ^ 15 := Nat.pow_le_pow_right (by decide) (by omega)
  have hlong : y.numLongTables * y.longTableLength ≤ 2 ^ 15 := by
    rcases Nat.lt_or_eq_of_le hquick with hlt | heq
    · obtain ⟨hnum, hlength⟩ := hy.long hlt
      have hle : 2 ^ (y.maxCodeLen - y.maxQuickBits) ≤ 2 ^ (15 - y.maxQuickBits) :=
        Nat.pow_le_pow_right (by decide) (by omega)
      calc y.numLongTables * y.longTableLength
          ≤ (2 ^ 15 - first 15 lens (y.maxQuickBits + 1)) / 2 ^ (15 - y.maxQuickBits) *
            2 ^ (15 - y.maxQuickBits) := by
              rw [hnum, hlength]
              exact Nat.mul_le_mul_left _ hle
        _ ≤ 2 ^ 15 - first 15 lens (y.maxQuickBits + 1) := Nat.div_mul_le_self _ _
        _ ≤ 2 ^ 15 := Nat.sub_le _ _
    · rw [hy.short heq, Nat.zero_mul]
      exact Nat.zero_le _
  unfold Layout.units headerUnits
  rw [hy.main, u32_eq (by omega)]
  omega

/-- The table before the first symbol. -/
theorem filled_zero {table : Buffer Nat} {codes : Nat → Nat}
    (hlength : table.length = 2 + 2 ^ y.maxQuickBits + y.numLongTables * y.longTableLength)
    (hquick : table.data 0 = y.maxQuickBits) (hmax : table.data 1 = y.maxCodeLen)
    (hclear : ∀ k, 2 ≤ k → table.data k = 0)
    (hcodes : ∀ l, 1 ≤ l → l ≤ y.maxCodeLen → codes l = first 15 lens l) :
    Filled lens y 0 ⟨table, codes, 2 + 2 ^ y.maxQuickBits⟩ := by
  refine ⟨hlength, hquick, hmax, fun l hl hle => ?_, [], ?_, ?_, fun r hr => absurd hr (by simp)⟩
  · rw [List.take_zero, List.count_nil, Nat.zero_mul, Nat.add_zero]
    exact hcodes l hl hle
  · refine ⟨List.nodup_nil, fun p => ?_, fun x _ => ?_, ?_, ?_, fun k hk => ?_⟩
    · constructor
      · exact fun hp => absurd hp List.not_mem_nil
      · rintro ⟨s, hs, -⟩
        exact absurd hs (Nat.not_lt_zero s)
    · rw [hclear _ (Nat.le_add_right _ _)]
      exact (entry_eq_zero fun s hs => absurd hs (Nat.not_lt_zero s)).symm
    · exact fun r p hr => absurd hr (by simp)
    · exact fun r x hr => absurd hr (by simp)
    · have hge := y.le_longTable 0
      have hstart : y.longTable 0 ≤ k := hk
      exact hclear k (Nat.le_trans (Nat.le_add_right 2 _) (Nat.le_trans hge hstart))
  · unfold Layout.longTable
    simp

/-- What a lookup finds in a filled table. -/
theorem Filled.decodes (h : Fits 15 lens) (hy : y.Suits lens) (hcount : lens.length ≤ 2047)
    (hf : Filled lens y lens.length f) : Decodes lens f.table := by
  intro x
  have hpos := Nat.two_pow_pos y.maxQuickBits
  have hidx : x % 2 ^ y.maxQuickBits < 2 ^ y.maxQuickBits := Nat.mod_lt _ hpos
  obtain ⟨used, he, -, hroom⟩ := hf.entries
  have hlength := hf.length
  have hbit : ∀ {t : Nat}, t < 32768 → t &&& HUFFINFO_LONG_MASK = 0 ∧
      (HUFFINFO_LONG_MASK + t) &&& HUFFINFO_LONG_MASK ≠ 0 := by
    intro t ht
    have hmask : HUFFINFO_LONG_MASK = 2 ^ 15 := rfl
    have hone : ∀ k, (k &&& 2 ^ 15 ≠ 0) ↔ k / 2 ^ 15 % 2 = 1 := by
      intro k
      rw [Nat.and_two_pow, Nat.testBit_eq_decide_div_mod_eq]
      by_cases hk : k / 2 ^ 15 % 2 = 1 <;> simp
    rw [hmask]
    constructor
    · by_contra hc
      have := (hone t).1 hc
      omega
    · rw [hone]
      omega
  unfold getHuffmanEntry
  rw [Buffer.get_ok (by omega), ok_bind, hf.quick,
    Buffer.get_ok (show headerUnits + x % 2 ^ y.maxQuickBits < f.table.length by
      unfold headerUnits; omega), ok_bind]
  have hunit : headerUnits + x % 2 ^ y.maxQuickBits = 2 + x % 2 ^ y.maxQuickBits := rfl
  by_cases hmem : x % 2 ^ y.maxQuickBits ∈ used
  case pos =>
    obtain ⟨r, hr⟩ := List.mem_iff_getElem?.1 hmem
    obtain ⟨hfew, hsmall⟩ := hroom r (List.getElem?_eq_some_iff.1 hr).1
    obtain ⟨s, -, hs, -⟩ := (he.mem_iff _).1 hmem
    have hlt : y.maxQuickBits < y.maxCodeLen := Nat.lt_of_lt_of_le hs (hy.len_le s)
    have hinner : x % 2 ^ y.maxCodeLen / 2 ^ y.maxQuickBits < y.longTableLength := by
      rw [Nat.div_lt_iff_lt_mul hpos, (hy.long hlt).2, ← Nat.pow_add,
        Nat.sub_add_cancel (Nat.le_of_lt hlt)]
      exact Nat.mod_lt _ (Nat.two_pow_pos _)
    have hle := y.longTable_add_le hfew
    have htotal : y.longTable y.numLongTables = f.table.length := hlength.symm
    rw [hunit, he.pointer r _ hr, if_pos (hbit (by omega)).2]
    dsimp only
    rw [Buffer.get_ok (by omega), ok_bind, hf.max, offset_pointer hsmall,
      Nat.shiftRight_eq_div_pow, Buffer.get_ok (by omega), he.long r x hr]
  case neg =>
    have hsmall := entry_lt h hcount x
    rw [hunit, he.direct x hmem, if_neg (fun hc => hc (hbit hsmall).1)]
    rfl

/-! ## The whole function -/

/-- `make_code_table` up to the end of the round of its loop for the `n`th symbol. -/
def tableAfter (heuristic : Bool) (codelen : List Nat) (maxQuickBits n : Nat) :
    Except MemFault (Layout × Fill) := do
  let count ← bitLengthCount codelen fun _ => 0
  let s := survey heuristic count
  let y := s.layout (if heuristic then s.optQuickBits else maxQuickBits)
  let table : Buffer Nat := { length := y.units, data := fun _ => 0 }
  let table ← table.set 1 (u16 y.maxCodeLen)
  let table ← table.set 0 (u16 y.maxQuickBits)
  let f ← Fill.addSymbols y 0 (codelen.take n)
    { table := table, codes := s.codes, nextLongTable := headerUnits + y.mainTableLength }
  return (y, f)

theorem makeCodeTable_of_tableAfter {heuristic : Bool} {maxQuickBits : Nat}
    (hafter : tableAfter heuristic lens maxQuickBits lens.length = .ok (y, f)) :
    makeCodeTable heuristic lens maxQuickBits = .ok f.table := by
  have heq : makeCodeTable heuristic lens maxQuickBits =
      tableAfter heuristic lens maxQuickBits lens.length >>= fun p => pure p.2.table := by
    simp only [makeCodeTable, tableAfter, List.take_length, bind_assoc, pure_bind]
  rw [heq, hafter]
  rfl

/-- **The rounds of the loop keep the table filled**, when the lengths fit. -/
theorem tableAfter_ok (h : Fits 15 lens) {maxQuickBits : Nat}
    (hquick : 1 ≤ maxQuickBits ∧ maxQuickBits ≤ 14)
    (hsmall : lens.length * 2 ^ (14 - maxQuickBits) + 2 ^ maxQuickBits ≤ 9728)
    (hcount : lens.length ≤ 2047) (heuristic : Bool) {n : Nat} (hn : n ≤ lens.length) :
    ∃ y f, tableAfter heuristic lens maxQuickBits n = .ok (y, f) ∧ y.Suits lens ∧
      Filled lens y n f := by
  obtain ⟨s, hs, hy, hcodes⟩ := survey_suits h hquick hsmall heuristic
  have hcounts : bitLengthCount lens (fun _ => 0) = .ok fun l => lens.count l := by
    rw [bitLengthCount_ok h.le]
    simp only [Nat.zero_add]
  have hunits := units_eq hy
  have hle := hy.quick_le
  have hmax := hy.max_le
  unfold tableAfter
  simp only [hcounts, ok_bind, hs]
  generalize s.layout (if heuristic = true then s.optQuickBits else maxQuickBits) = y
    at hy hcodes hunits hle hmax
  have hpos := Nat.two_pow_pos y.maxQuickBits
  rw [Buffer.set_ok (by dsimp only; omega), ok_bind, Buffer.set_ok (by dsimp only; omega), ok_bind]
  have hheader : ∀ n, n ≤ 15 → u16 n = n := fun n hn => Nat.mod_eq_of_lt (by omega)
  have hzero : Filled lens y 0 {
      table := {
        length := y.units
        data := fun k =>
          if k = 0 then u16 y.maxQuickBits else if k = 1 then u16 y.maxCodeLen else 0 }
      codes := s.codes
      nextLongTable := 2 + 2 ^ y.maxQuickBits } := by
    apply filled_zero hunits (hheader _ (by omega)) (hheader _ hmax) ?_ hcodes
    intro k hk
    exact (if_neg (by omega)).trans (if_neg (by omega))
  obtain ⟨f, hf, hfilled⟩ :=
    addSymbols_ok h hy hcount hn (List.drop_zero).symm (Nat.zero_le _) hzero
  refine ⟨y, f, ?_, hy, hfilled⟩
  rw [hy.main]
  show Fill.addSymbols y 0 (lens.take n) _ >>= _ = _
  unfold headerUnits
  rw [hf]
  rfl

/-- **A table for lengths that fit decodes them.** -/
theorem makeCodeTable_decodes (h : Fits 15 lens) {maxQuickBits : Nat}
    (hquick : 1 ≤ maxQuickBits ∧ maxQuickBits ≤ 14)
    (hsmall : lens.length * 2 ^ (14 - maxQuickBits) + 2 ^ maxQuickBits ≤ 9728)
    (hcount : lens.length ≤ 2047) (heuristic : Bool) :
    ∃ table, makeCodeTable heuristic lens maxQuickBits = .ok table ∧ Decodes lens table := by
  obtain ⟨y, f, hafter, hy, hf⟩ :=
    tableAfter_ok h hquick hsmall hcount heuristic (Nat.le_refl lens.length)
  exact ⟨f.table, makeCodeTable_of_tableAfter hafter, hf.decodes h hy hcount⟩

end FroggyKVM.Inflate
