/-
# FroggyKVM.Puff.Decode — one symbol of a canonical code.

`decode` takes the bits of a codeword one by one, first those left of the last byte and then those of
new bytes.  Behind `l` bits its variables are the first codeword of the next length, the number of the
shorter ones and the bits so far; **it returns the symbol whose codeword is there, or finds none**.
-/
import FroggyKVM.Lib.CountingDecode
import FroggyKVM.Puff.Writes

namespace FroggyKVM.Puff

open Canonical Deflate Outcome

/-- The arrays hold the code with the given lengths. -/
structure Huffman.Stores (h : Huffman) (lens : List Nat) : Prop where
  fits : Fits 15 lens
  length_count : 16 ≤ h.count.length
  count : ∀ l, l < 16 → h.count.data l = some (lens.count l)
  length_symbol : lens.length ≤ h.symbol.length
  symbol : ∀ s, len lens s ≠ 0 → h.symbol.data (place lens s) = some s

theorem short_eq {a : Shorts} {i x : Nat} (hi : i < a.length) (hx : a.data i = some x) :
    short a i = .ok x := by
  rw [short, if_neg (by omega), Int.toNat_natCast, Buffer.get_ok hi, hx]

/-- The variables of `decode` behind `l` bits. -/
def searchAt (bit : Nat → Bool) (lens : List Nat) (p l buf : Nat) : Search where
  code := msbBitsAt bit p l <<< 1
  first := nextCode lens (l + 1)
  index := offset lens (l + 1)
  len := l + 1
  bitbuf := buf

/-- Every codeword at `p` has more than `l` bits. -/
structure Longer (bit : Nat → Bool) (lens : List Nat) (p l : Nat) : Prop where
  lt : ∀ s, Symbol bit lens p s → l < len lens s
  first_le : nextCode lens (l + 1) ≤ 2 * msbBitsAt bit p l

section

variable {bit : Nat → Bool} {lens : List Nat} {p l : Nat}

theorem Longer.zero : Longer bit lens p 0 where
  lt _ hs := Nat.pos_of_ne_zero hs.1
  first_le := Nat.zero_le _

/-- One bit more. -/
theorem Longer.succ (h : Longer bit lens p l)
    (hle : nextCode lens (l + 1) + lens.count (l + 1) ≤ msbBitsAt bit p (l + 1)) :
    Longer bit lens p (l + 1) where
  lt s hs := by
    have hlt := h.lt s hs
    have hne : len lens s ≠ l + 1 := fun heq => not_symbol_of_le hle heq hs
    omega
  first_le := by
    have hnext : nextCode lens (l + 1 + 1) =
        2 * (nextCode lens (l + 1) + if l + 1 = 0 then 0 else lens.count (l + 1)) := rfl
    rw [hnext, if_neg (Nat.succ_ne_zero l)]
    omega

/-- The code with the next bit. -/
theorem code_or_bit {n : Nat} (hn : 0 < n) :
    msbBitsAt bit p l <<< 1 ||| (bitsAt bit (p + l) n &&& 1) = msbBitsAt bit p (l + 1) := by
  have hmod : bitsAt bit (p + l) n % 2 ^ 1 = bitsAt bit (p + l) 1 := bitsAt_mod bit (p + l) hn
  have hbit : bitsAt bit (p + l) 1 = (bit (p + l)).toNat := by simp [bitsAt]
  have hlt : (bit (p + l)).toNat < 2 ^ 1 := Nat.lt_succ_of_le (Bool.toNat_le _)
  rw [Nat.and_one_is_mod, ← Nat.pow_one 2, hmod, hbit, ← Nat.shiftLeft_add_eq_or_of_lt hlt,
    Nat.shiftLeft_eq, msbBitsAt]
  omega

/-- A turn of the loop that finds the symbol. -/
theorem overBits_hit {h : Huffman} {v : Search} {left count code bitbuf s : Nat} {σ : State}
    (hcount : short h.count v.len = .ok count) (hcode : v.code ||| (v.bitbuf &&& 1) = code)
    (hbuf : v.bitbuf >>> 1 = bitbuf) (hlt : code < v.first + count)
    (hsymbol : short h.symbol (v.index + ((code : Int) - v.first)) = .ok s) :
    overBits h (left + 1) v σ = (.ok (.inl s), { σ with
      bitbuf := bitbuf, bitcnt := (((σ.bitcnt : Int) - v.len) % 8).toNat }) := by
  subst hcode hbuf
  rw [overBits, bind_lift hcount, run_ite, if_pos (by omega), bind_modify, bind_lift hsymbol]
  rfl

/-- A turn of the loop that goes on. -/
theorem overBits_miss {h : Huffman} {v : Search} {left count code bitbuf : Nat} {σ : State}
    (hcount : short h.count v.len = .ok count) (hcode : v.code ||| (v.bitbuf &&& 1) = code)
    (hbuf : v.bitbuf >>> 1 = bitbuf) (hle : v.first + count ≤ code) :
    overBits h (left + 1) v σ = overBits h left
      { code := code <<< 1, first := (v.first + count) <<< 1, index := v.index + count
        len := v.len + 1, bitbuf := bitbuf } σ := by
  subst hcode hbuf
  rw [overBits, bind_lift hcount, run_ite, if_neg (by omega)]

/-- **The loop over the bits** finds a codeword of at most `l + left` bits, or there is none. -/
theorem overBits_eq {h : Huffman} (hh : h.Stores lens) {left n : Nat} (hn : left ≤ n)
    (hl : l + left ≤ 15) (hlonger : Longer bit lens p l) (σ : State) :
    (∃ s, Symbol bit lens p s ∧ l < len lens s ∧ len lens s ≤ l + left ∧
      overBits h left (searchAt bit lens p l (bitsAt bit (p + l) n)) σ =
        (.ok (.inl s), { σ with
          bitbuf := bitsAt bit (p + len lens s) (n - (len lens s - l))
          bitcnt := (((σ.bitcnt : Int) - (len lens s : Nat)) % 8).toNat })) ∨
    (Longer bit lens p (l + left) ∧ ∃ buf,
      overBits h left (searchAt bit lens p l (bitsAt bit (p + l) n)) σ =
        (.ok (.inr (searchAt bit lens p (l + left) buf)), σ)) := by
  induction left generalizing l n with
  | zero => exact .inr ⟨hlonger, _, rfl⟩
  | succ left ih =>
    have hcount : short h.count (searchAt bit lens p l (bitsAt bit (p + l) n)).len =
        .ok (lens.count (l + 1)) :=
      short_eq (by have := hh.length_count; show l + 1 < _; omega) (hh.count (l + 1) (by omega))
    have hcode : msbBitsAt bit p l <<< 1 ||| (bitsAt bit (p + l) n &&& 1) =
        msbBitsAt bit p (l + 1) := code_or_bit (by omega)
    have hbuf : bitsAt bit (p + l) n >>> 1 = bitsAt bit (p + (l + 1)) (n - 1) := by
      rw [Nat.shiftRight_eq_div_pow, bitsAt_div bit (p + l) (by omega), Nat.add_assoc]
    have hfirst : nextCode lens (l + 1) ≤ msbBitsAt bit p (l + 1) :=
      hlonger.first_le.trans (Nat.le_add_right _ _)
    by_cases hlt : msbBitsAt bit p (l + 1) < nextCode lens (l + 1) + lens.count (l + 1)
    · obtain ⟨s, hs, hlen, hplace⟩ := symbol_of_lt (l := l + 1) (Nat.succ_ne_zero l) hfirst hlt
      have hsymbol : short h.symbol ((offset lens (l + 1) : Nat) +
          ((msbBitsAt bit p (l + 1) : Nat) - (nextCode lens (l + 1) : Nat))) = .ok s := by
        rw [show ((offset lens (l + 1) : Nat) : Int) + ((msbBitsAt bit p (l + 1) : Nat) -
          (nextCode lens (l + 1) : Nat)) = (place lens s : Nat) by omega]
        exact short_eq ((place_lt hs.1).trans_le hh.length_symbol) (hh.symbol s hs.1)
      refine .inl ⟨s, hs, by omega, by omega, ?_⟩
      rw [overBits_hit hcount hcode hbuf hlt hsymbol, hlen, Nat.add_sub_cancel_left]
      rfl
    · have hnext : searchAt bit lens p (l + 1) (bitsAt bit (p + (l + 1)) (n - 1)) =
          { code := msbBitsAt bit p (l + 1) <<< 1
            first := (nextCode lens (l + 1) + lens.count (l + 1)) <<< 1
            index := offset lens (l + 1) + lens.count (l + 1), len := l + 1 + 1
            bitbuf := bitsAt bit (p + (l + 1)) (n - 1) } := by
        rw [Nat.shiftLeft_eq _ 1, Nat.pow_one, Nat.mul_comm _ 2]
        rfl
      have hturn : overBits h (left + 1) (searchAt bit lens p l (bitsAt bit (p + l) n)) σ =
          overBits h left (searchAt bit lens p (l + 1) (bitsAt bit (p + (l + 1)) (n - 1))) σ := by
        rw [hnext]
        exact overBits_miss hcount hcode hbuf (Nat.not_lt.1 hlt)
      rcases ih (n := n - 1) (by omega) (by omega) (hlonger.succ (Nat.not_lt.1 hlt)) with
        ⟨s, hs, hlow, hhigh, hrun⟩ | ⟨hlonger', buf, hrun⟩
      · refine .inl ⟨s, hs, by omega, by omega, ?_⟩
        have hrest : n - 1 - (len lens s - (l + 1)) = n - (len lens s - l) := by omega
        rw [hturn, hrun, hrest]
      · rw [Nat.add_right_comm l 1 left] at hlonger' hrun
        exact .inr ⟨hlonger', buf, hturn.trans hrun⟩

end

/-! ## Bytes -/

/-- There is no symbol, or the input ends before it does. -/
def Misses (r : Except Stop Int × State) : Prop := r.1 = .error .longjmp ∨ r.1 = .ok (-10)

section

variable {c : Call} {h : Huffman} {lens : List Nat} {p k l n buf : Nat} {xs : List UInt8}

/-- The state when a symbol is found with `k` bytes read. -/
theorem found_state (c : Call) (buf : Nat) (xs : List UInt8) {q : Nat} (hq : q ≤ 8 * k) (hk : 8 * k < q + 8) (hp : p ≤ q) :
    ({ c.state k buf (Call.padding p) xs with
      bitbuf := bitsAt c.bit q (8 * k - q)
      bitcnt := (((Call.padding p : Nat) : Int) - (q - p : Nat)) % 8 |>.toNat } : State) =
      c.stateAt q xs := by
  have hbytes : (q + 7) / 8 = k := by omega
  have hcnt : ((((Call.padding p : Nat) : Int) - (q - p : Nat)) % 8).toNat = 8 * k - q := by
    rw [Call.padding]
    omega
  have hpad : Call.padding q = 8 * k - q := by rw [Call.padding, hbytes]
  rw [hcnt, Call.stateAt, hbytes, hpad]
  rfl

/-- **The loop over the bytes**, behind `l` bits, with `n` bits left of the bytes read. -/
theorem overBytes_eq (hc : c.Small) (hh : h.Stores lens) {fuel left : Nat}
    (hbits : p + l + n = 8 * k) (hn : n ≤ 8) (hk : k ≤ c.source.length) (hl : l < 15)
    (hleft : left = min n (15 - l)) (hfuel : 16 ≤ l + fuel ∨ 0 < n ∧ 15 ≤ l + fuel)
    (hlonger : Longer c.bit lens p l) :
    (∃ s, Symbol c.bit lens p s ∧ p + len lens s ≤ c.limit ∧
      overBytes h fuel left (searchAt c.bit lens p l (bitsAt c.bit (p + l) n))
        (c.state k buf (Call.padding p) xs) = (.ok (s : Nat), c.stateAt (p + len lens s) xs)) ∨
    ((∀ s, Symbol c.bit lens p s → c.limit < p + len lens s) ∧
      Misses (overBytes h fuel left (searchAt c.bit lens p l (bitsAt c.bit (p + l) n))
        (c.state k buf (Call.padding p) xs))) := by
  induction fuel generalizing k l n left buf with
  | zero => omega
  | succ fuel ih =>
    have hsource : c.limit = 8 * c.source.length := rfl
    rw [overBytes]
    rcases overBits_eq hh (show left ≤ n by omega) (by omega) hlonger
      (c.state k buf (Call.padding p) xs) with ⟨s, hs, hlow, hhigh, hrun⟩ | ⟨hlonger', buf', hrun⟩
    · refine .inl ⟨s, hs, by lia, ?_⟩
      rw [bind_ok hrun]
      have hrest : n - (len lens s - l) = 8 * k - (p + len lens s) := by omega
      have hlen : len lens s = p + len lens s - p := by omega
      have hafter := found_state c buf xs (show p + len lens s ≤ 8 * k by lia) (by lia)
        (Nat.le_add_right p _)
      rw [← hafter, hrest, ← hlen]
      rfl
    · rw [bind_ok hrun]
      dsimp only [searchAt]
      rw [run_ite]
      by_cases hall : l + left = 15
      · -- no codeword has more than 15 bits
        have hnone : ∀ s, ¬ Symbol c.bit lens p s := by
          intro s hs
          have hlt := hlonger'.lt s hs
          have hle := hh.fits.len_le s
          omega
        rw [if_pos (by omega)]
        exact .inr ⟨fun s hs => absurd hs (hnone s), .inr rfl⟩
      · obtain rfl : left = n := by lia
        rw [if_neg (by lia), bind_get, run_ite]
        by_cases hend : k = c.source.length
        · refine .inr ⟨fun s hs => ?_, ?_⟩
          · have hlt := hlonger'.lt s hs
            omega
          · exact .inl (congrArg Prod.fst (if_pos hend))
        · have hbyte : k < c.source.length := by lia
          have hplace : 8 * k = p + (l + left) := by omega
          have hcap : (if 8 < 16 - (l + left + 1) then 8 else 16 - (l + left + 1)) =
              min 8 (15 - (l + left)) := by
            split <;> lia
          rw [if_neg (show ¬ (c.state k buf (Call.padding p) xs).incnt =
            (c.state k buf (Call.padding p) xs).inlen from hend), bind_ok (nextByte_eq hc hbyte), hcap,
            hplace]
          exact ih (by omega) (Nat.le_refl 8) (by omega) (by omega) rfl (by omega) hlonger'

/-! ## Symbols -/

/-- **`decode` returns the symbol that is there**, if the input has its codeword. -/
theorem decode_cases (xs : List UInt8) (hc : c.Small) (hh : h.Stores lens) (hp : p ≤ c.limit) :
    (∃ s q, nextSymbol c.bit lens p = some (s, q) ∧ q ≤ c.limit ∧
      decode h (c.stateAt p xs) = (.ok (s : Nat), c.stateAt q xs)) ∨
    ((∀ s q, nextSymbol c.bit lens p = some (s, q) → c.limit < q) ∧
      Misses (decode h (c.stateAt p xs))) := by
  have hsource : c.limit = 8 * c.source.length := rfl
  have hpad : p + 0 + Call.padding p = 8 * ((p + 7) / 8) := by
    rw [Call.padding]
    omega
  have hleft : Call.padding p = min (Call.padding p) (15 - 0) := by omega
  rcases overBytes_eq (k := (p + 7) / 8) hc hh hpad (by omega) (by omega) (by omega) hleft
    (.inl (Nat.zero_add 16).ge) Longer.zero with ⟨s, hs, hq, hrun⟩ | ⟨hnone, hmiss⟩
  · exact .inl ⟨s, _, nextSymbol_eq c.bit hh.fits hs, hq, hrun⟩
  · refine .inr ⟨fun s q hs => ?_, hmiss⟩
    obtain ⟨hsymbol, rfl⟩ := nextSymbol_spec hs
    exact hnone s hsymbol

end

end FroggyKVM.Puff
