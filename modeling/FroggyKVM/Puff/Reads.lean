/-
# FroggyKVM.Puff.Reads — the state of the decoder behind a number of bits.

Between two steps the state is a function of the position in the input and of the bytes written: the
bits left of the last byte are in `bitbuf`.  A read takes bits at the position, or leaves when the
input does not have them.
-/
import FroggyKVM.Lib.DeflateBytes
import FroggyKVM.Puff.Decoder

namespace FroggyKVM.Puff

open Outcome

/-- The arguments of a call; the source is as long as the number that comes with it says. -/
structure Call where
  dest : Option (Buffer UInt8)
  destlen : Nat
  source : Buffer UInt8

/-- `b` with the bytes `xs` at its front. -/
def overlay (xs : List UInt8) (b : Buffer UInt8) : Buffer UInt8 :=
  { b with data := fun k => xs.getD k (b.data k) }

namespace Call
variable (c : Call)

def bit : Nat → Bool := byteBits c.source.data

/-- The number of bits of the source. -/
def limit : Nat := 8 * c.source.length

/-- Blocks of less than 2 GB, and a destination as long as the number that comes with it says. -/
structure Small : Prop where
  source : c.source.length < 2147483648
  dest : ∀ b, c.dest = some b → b.length = c.destlen ∧ c.destlen < 2147483648

/-- The destination has room for the bytes. -/
def Room (xs : List UInt8) : Prop := c.dest = none ∨ xs.length ≤ c.destlen

/-- The state with `k` bytes read and `xs` written. -/
def state (k buf cnt : Nat) (xs : List UInt8) : State where
  out := c.dest.map (overlay xs)
  outlen := c.destlen
  outcnt := ulong xs.length
  input := c.source
  inlen := c.source.length
  incnt := k
  bitbuf := buf
  bitcnt := cnt

/-- The bits behind the position `p` in the bytes up to it. -/
def padding (p : Nat) : Nat := 8 * ((p + 7) / 8) - p

/-- The state at the position `p`. -/
def stateAt (p : Nat) (xs : List UInt8) : State :=
  c.state ((p + 7) / 8) (bitsAt c.bit p (padding p)) (padding p) xs

theorem Small.ulong_le {c : Call} (h : c.Small) {k : Nat} (hk : k ≤ c.source.length) :
    ulong k = k := Nat.mod_eq_of_lt (by have := h.source; omega)

end Call

/-! ## Runs -/

variable {α β : Type}

/-- The run has left at the end of the input. -/
def Stops (r : Except Stop α × State) : Prop := r.1 = .error .longjmp

theorem Stops.bind {x : Run α} {f : α → Run β} {s : State} (h : Stops (x s)) :
    Stops ((x >>= f) s) := by
  have hr : x s = (.error .longjmp, (x s).2) := Prod.ext h rfl
  rw [Stops, bind_error hr]

theorem bind_get {f : State → Run β} {s : State} : (get >>= f) s = f s s := rfl

theorem bind_set {f : PUnit → Run β} {s s' : State} : (set s' >>= f) s = f ⟨⟩ s' := rfl

theorem bind_modify {f : PUnit → Run β} {g : State → State} {s : State} :
    (modify g >>= f) s = f ⟨⟩ (g s) := rfl

theorem bind_lift {f : α → Run β} {x : Except Stop α} {a : α} {s : State} (h : x = .ok a) :
    (lift x >>= f) s = f a s := bind_ok (by rw [lift, h]) f

theorem run_ite {p : Prop} [Decidable p] {x y : Run α} {s : State} :
    (if p then x else y) s = if p then x s else y s := by
  split <;> rfl

section

variable {c : Call} {p k buf cnt : Nat} {xs : List UInt8}

theorem nextByte_eq (hc : c.Small) (hk : k < c.source.length) :
    nextByte (c.state k buf cnt xs) =
      (.ok (bitsAt c.bit (8 * k) 8), c.state (k + 1) buf cnt xs) := by
  have hget : MemFault.check (c.source.get k) = .ok (c.source.data k) := by
    rw [Buffer.get_ok hk]
    rfl
  have hcount : ulong (k + 1) = k + 1 := hc.ulong_le hk
  rw [Call.bit, bitsAt_byteBits, nextByte, bind_get]
  refine (bind_lift hget).trans ?_
  rw [bind_set]
  dsimp only [Call.state]
  rw [hcount]
  rfl

/-! ## Bits -/

/-- One byte more in the value. -/
theorem or_byte (h : p ≤ 8 * k) : bitsAt c.bit p (8 * k - p) ||| bitsAt c.bit (8 * k) 8 <<< (8 * k - p) =
    bitsAt c.bit p (8 * (k + 1) - p) := by
  have hsplit : 8 * (k + 1) - p = 8 * k - p + 8 := by omega
  have hplace : p + (8 * k - p) = 8 * k := by omega
  rw [hsplit, bitsAt_add, hplace, Nat.or_comm,
    ← Nat.shiftLeft_add_eq_or_of_lt (bitsAt_lt c.bit p _), Nat.shiftLeft_eq, Nat.add_comm,
    Nat.mul_comm (bitsAt c.bit (8 * k) 8)]

/-- The next turn of the loop, with a byte more. -/
theorem fill_byte {need fuel : Nat} (h : p ≤ 8 * k) :
    fill need fuel (bitsAt c.bit p (8 * k - p) ||| bitsAt c.bit (8 * k) 8 <<< (8 * k - p))
      (c.state (k + 1) buf (8 * k - p + 8) xs) =
    fill need fuel (bitsAt c.bit p (8 * (k + 1) - p)) (c.state (k + 1) buf (8 * (k + 1) - p) xs) := by
  have hcount : 8 * k - p + 8 = 8 * (k + 1) - p := by omega
  rw [or_byte h, hcount]

/-- **The loop of `bits`**, with `k` of the `m` bytes read that hold the bits. -/
theorem fill_eq (hc : c.Small) {need fuel m : Nat} (hp : p ≤ 8 * k) (hk : k ≤ m)
    (hm : p + need ≤ 8 * m) (hlast : 8 * m < p + need + 8) (hsource : m ≤ c.source.length)
    (hfuel : m < k + fuel) :
    fill need fuel (bitsAt c.bit p (8 * k - p)) (c.state k buf (8 * k - p) xs) =
      (.ok (bitsAt c.bit p (8 * m - p)), c.state m buf (8 * m - p) xs) := by
  induction fuel generalizing k with
  | zero => omega
  | succ fuel ih =>
    rw [fill, bind_get, run_ite]
    by_cases hmore : 8 * k - p < need
    · have hbyte : k < c.source.length := by omega
      refine (if_pos hmore).trans (run_ite.trans ((if_neg hbyte.ne).trans ?_))
      refine (bind_ok (nextByte_eq hc hbyte) _).trans ?_
      rw [bind_modify]
      exact (fill_byte hp).trans (ih (by omega) (by omega) (by omega))
    · obtain rfl : k = m := by omega
      exact if_neg hmore

/-- A read that the input does not have the bits for. -/
theorem fill_stops (hc : c.Small) {need fuel : Nat} (hp : p ≤ 8 * k) (hk : k ≤ c.source.length)
    (hlimit : c.limit < p + need) (hfuel : c.source.length < k + fuel) :
    Stops (fill need fuel (bitsAt c.bit p (8 * k - p)) (c.state k buf (8 * k - p) xs)) := by
  rw [Call.limit] at hlimit
  induction fuel generalizing k with
  | zero => omega
  | succ fuel ih =>
    have hmore : 8 * k - p < need := by omega
    rw [fill, bind_get, run_ite, Stops]
    by_cases hend : k = c.source.length
    · exact congrArg Prod.fst ((if_pos hmore).trans (run_ite.trans (if_pos hend)))
    · have hbyte : k < c.source.length := by omega
      refine (congrArg Prod.fst ((if_pos hmore).trans (run_ite.trans ((if_neg hend).trans
        (bind_ok (nextByte_eq hc hbyte) _))))).trans ?_
      rw [bind_modify]
      exact (congrArg Prod.fst (fill_byte hp)).trans (ih (by omega) (by omega) (by omega))

theorem Call.le_padded (p : Nat) : p ≤ 8 * ((p + 7) / 8) ∧ 8 * ((p + 7) / 8) < p + 8 := by omega

theorem bits_eq (hc : c.Small) {need : Nat} (hlimit : p + need ≤ c.limit) :
    bits need (c.stateAt p xs) = (.ok (bitsAt c.bit p need), c.stateAt (p + need) xs) := by
  obtain ⟨hp, hp'⟩ := Call.le_padded p
  obtain ⟨hm, hm'⟩ := Call.le_padded (p + need)
  rw [Call.limit] at hlimit
  rw [bits, bind_get]
  refine (bind_ok (fill_eq hc hp (Nat.div_le_div_right (by omega)) hm hm' (by omega)
    (by omega)) _).trans ?_
  rw [bind_modify]
  show (Except.ok (bitsAt c.bit p (8 * ((p + need + 7) / 8) - p) % 2 ^ need), _) = _
  rw [bitsAt_mod c.bit p (by omega), Call.stateAt, Call.padding]
  dsimp only [Call.state]
  rw [Nat.shiftRight_eq_div_pow, bitsAt_div c.bit p (by omega), Nat.sub_sub]
  rfl

theorem bits_stops (hc : c.Small) {need : Nat} (hp : p ≤ c.limit) (hlimit : c.limit < p + need) :
    Stops (bits need (c.stateAt p xs)) := by
  obtain ⟨hle, hle'⟩ := Call.le_padded p
  have hbits : c.limit = 8 * c.source.length := rfl
  rw [bits, bind_get]
  exact (fill_stops hc hle (by omega) hlimit (by omega)).bind

end

end FroggyKVM.Puff
