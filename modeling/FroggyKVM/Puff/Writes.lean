/-
# FroggyKVM.Puff.Writes — the output of the decoder, and stored blocks.

The destination begins with the bytes written.  `Meets` compares how a part of the decoder ends with
what the format says of the stream: where the stream goes on inside the input, the decoder has written
its bytes, or returns 1 for want of room; anywhere else it returns an error.
-/
import FroggyKVM.Puff.Reads

namespace FroggyKVM.Puff

open Deflate Outcome

variable {c : Call} {p k buf cnt : Nat} {xs : List UInt8}

/-! ## Bytes -/

theorem ulong_add (n m : Nat) : ulong (ulong n + m) = ulong (n + m) := Nat.mod_add_mod ..

theorem overlay_append (xs : List UInt8) (x : UInt8) (b : Buffer UInt8) :
    overlay (xs ++ [x]) b =
      { overlay xs b with data := fun k => if k = xs.length then x else (overlay xs b).data k } := by
  unfold overlay
  congr 1
  funext k
  dsimp only
  split
  next heq => rw [heq, List.getD_append_right _ _ _ _ (Nat.le_refl _), Nat.sub_self]; rfl
  next hne =>
    rcases Nat.lt_or_gt_of_ne hne with hlt | hgt
    · rw [List.getD_append _ _ _ _ hlt]
    · rw [List.getD_eq_default _ _ (by rw [List.length_append]; exact hgt),
        List.getD_eq_default _ _ hgt.le]

theorem Call.state_out {b : Buffer UInt8} (hb : c.dest = some b) :
    (c.state k buf cnt xs).out = some (overlay xs b) := by
  show c.dest.map (overlay xs) = _
  rw [hb]
  rfl

theorem Call.state_none (hb : c.dest = none) : (c.state k buf cnt xs).out = none := by
  show c.dest.map (overlay xs) = none
  rw [hb]
  rfl

/-- Without a destination bytes are only counted. -/
theorem Call.state_count {ys : List UInt8} {n : Nat} (hb : c.dest = none)
    (hlength : ys.length = xs.length + n) : c.state k buf cnt ys =
      { c.state k buf cnt xs with out := none, outcnt := ulong (ulong xs.length + n) } := by
  rw [ulong_add, ← hlength, Call.state, hb]
  rfl

/-- What has been written is counted as it is. -/
theorem Call.Small.outcnt {b : Buffer UInt8} (hc : c.Small) (hb : c.dest = some b)
    (hroom : xs.length ≤ c.destlen) : ulong xs.length = xs.length :=
  Nat.mod_eq_of_lt (by have := (hc.dest b hb).2; omega)

theorem putByte_eq {b : Buffer UInt8} {x : UInt8} (hc : c.Small) (hb : c.dest = some b)
    (hroom : xs.length < c.destlen) :
    putByte x (c.state k buf cnt xs) = (.ok (), c.state k buf cnt (xs ++ [x])) := by
  have hcount := hc.outcnt hb hroom.le
  have hset : MemFault.check ((overlay xs b).set (c.state k buf cnt xs).outcnt x) =
      .ok (overlay (xs ++ [x]) b) := by
    show MemFault.check ((overlay xs b).set (ulong xs.length) x) = _
    rw [hcount, Buffer.set_ok (by rw [← (hc.dest b hb).1] at hroom; exact hroom), overlay_append]
    rfl
  have hafter : c.state k buf cnt (xs ++ [x]) = { c.state k buf cnt xs with
      out := some (overlay (xs ++ [x]) b), outcnt := ulong (ulong xs.length + 1) } := by
    rw [ulong_add, Call.state, hb, List.length_append, List.length_singleton]
    rfl
  rw [putByte, bind_get, Call.state_out hb, hafter]
  exact bind_lift hset

theorem bytesFrom_succ (bit : Nat → Bool) (p n : Nat) :
    bytesFrom bit p (n + 1) = UInt8.ofNat (bitsAt bit p 8) :: bytesFrom bit (p + 8) n := by
  rw [bytesFrom, List.range_succ_eq_map, List.map_cons, List.map_map]
  congr 1
  apply List.map_congr_left
  intro i _
  show UInt8.ofNat (bitsAt bit (p + 8 * (i + 1)) 8) = UInt8.ofNat (bitsAt bit (p + 8 + 8 * i) 8)
  congr 2
  omega

theorem copyIn_eq {b : Buffer UInt8} {n : Nat} (hc : c.Small) (hb : c.dest = some b)
    (hsource : k + n ≤ c.source.length) (hroom : xs.length + n ≤ c.destlen) :
    copyIn n (c.state k buf cnt xs) =
      (.ok (), c.state (k + n) buf cnt (xs ++ bytesFrom c.bit (8 * k) n)) := by
  induction n generalizing k xs with
  | zero =>
    rw [bytesFrom, List.range_zero, List.map_nil, List.append_nil]
    rfl
  | succ n ih =>
    rw [copyIn]
    refine (bind_ok (nextByte_eq hc (by omega)) _).trans ?_
    refine (bind_ok (putByte_eq hc hb (by omega)) _).trans ?_
    rw [ih (by omega) (by rw [List.length_append, List.length_singleton]; omega), List.append_assoc,
      List.singleton_append, bytesFrom_succ, Nat.add_right_comm k 1 n, Nat.mul_succ]
    rfl

/-- A byte of the output, or 0 in front of it. -/
theorem backByte_eq {b : Buffer UInt8} {dist : Nat} (hc : c.Small) (hb : c.dest = some b)
    (hdist : 0 < dist) (hroom : xs.length ≤ c.destlen) :
    backByte dist (c.state k buf cnt xs) = (.ok (back xs dist), c.state k buf cnt xs) := by
  have hcount := hc.outcnt hb hroom
  rw [backByte, bind_get, run_ite]
  show (if ulong xs.length < dist then _ else outByte (ulong xs.length - dist) _) = _
  rw [hcount, back]
  split
  next => rfl
  next hge =>
    have hin : xs.length - dist < xs.length := by omega
    have hget : MemFault.check ((overlay xs b).get (xs.length - dist)) =
        .ok (xs.getD (xs.length - dist) 0) := by
      have hlength := (hc.dest b hb).1
      rw [Buffer.get_ok (by show _ < b.length; omega), List.getD_eq_getElem _ _ hin]
      exact congrArg _ (List.getD_eq_getElem _ _ hin)
    rw [outByte, bind_get, Call.state_out hb]
    exact congrArg (·, c.state k buf cnt xs) hget

theorem copyOut_eq {b : Buffer UInt8} {dist n : Nat} (hc : c.Small) (hb : c.dest = some b)
    (hdist : 0 < dist) (hroom : xs.length + n ≤ c.destlen) :
    copyOut dist n (c.state k buf cnt xs) = (.ok (), c.state k buf cnt (copyBack dist n xs)) := by
  induction n generalizing xs with
  | zero => rfl
  | succ n ih =>
    rw [copyOut]
    refine (bind_ok (backByte_eq hc hb hdist (by omega)) _).trans ?_
    refine (bind_ok (putByte_eq hc hb (by omega)) _).trans ?_
    exact ih (by rw [List.length_append, List.length_singleton]; omega)

/-! ## Ends -/

/-- The part of the decoder has returned an error or has left at the end of the input. -/
def Fails (r : Except Stop Int × State) : Prop :=
  match r.1 with
  | .ok err => err ≠ 0
  | .error stop => stop = .longjmp

theorem fails_ok {err : Int} {s : State} (h : err ≠ 0) : Fails (.ok err, s) := h

theorem Stops.fails {r : Except Stop Int × State} (h : Stops r) : Fails r := by
  rw [Fails, h]

/-- The decoder does with the input what the format says of the stream. -/
structure Meets (c : Call) (x : Option (Nat × List UInt8)) (r : Except Stop Int × State) : Prop where
  exact : ∀ q ys, x = some (q, ys) → q ≤ c.limit → c.Room ys → r = (.ok 0, c.stateAt q ys)
  full : ∀ q ys, x = some (q, ys) → q ≤ c.limit → ¬ c.Room ys → r.1 = .ok 1
  fails : (∀ q ys, x = some (q, ys) → c.limit < q) → Fails r

theorem Meets.of_exact {q : Nat} {ys : List UInt8} (hq : q ≤ c.limit) (hroom : c.Room ys)
    {r : Except Stop Int × State} (hr : r = (.ok 0, c.stateAt q ys)) : Meets c (some (q, ys)) r where
  exact q' ys' h _ _ := by
    obtain ⟨rfl, rfl⟩ := Prod.mk.inj (Option.some.inj h)
    exact hr
  full q' ys' h _ hfull := by
    obtain ⟨rfl, rfl⟩ := Prod.mk.inj (Option.some.inj h)
    exact absurd hroom hfull
  fails h := absurd hq (Nat.not_le.2 (h q ys rfl))

theorem Meets.of_full {x : Option (Nat × List UInt8)} (hfull : ∀ q ys, x = some (q, ys) → ¬ c.Room ys)
    {r : Except Stop Int × State} (hr : r.1 = .ok 1) : Meets c x r where
  exact q ys h _ hroom := absurd hroom (hfull q ys h)
  full _ _ _ _ _ := hr
  fails _ := by
    rw [Fails, hr]
    exact one_ne_zero

theorem Meets.of_fails {x : Option (Nat × List UInt8)}
    (hend : ∀ q ys, x = some (q, ys) → c.limit < q) {r : Except Stop Int × State} (hr : Fails r) :
    Meets c x r where
  exact q ys h hq _ := absurd hq (Nat.not_le.2 (hend q ys h))
  full q ys h hq _ := absurd hq (Nat.not_le.2 (hend q ys h))
  fails _ := hr

theorem Meets.of_none {r : Except Stop Int × State} (hr : Fails r) : Meets c none r :=
  Meets.of_fails (fun _ _ h => (Option.some_ne_none _ h.symm).elim) hr

/-- A read of bits that belong to the block. -/
theorem Meets.bits (hc : c.Small) (hp : p ≤ c.limit) {x : Option (Nat × List UInt8)} {need : Nat}
    {f : Nat → Run Int} (hinside : ∀ q ys, x = some (q, ys) → p + need ≤ q)
    (h : p + need ≤ c.limit → Meets c x (f (bitsAt c.bit p need) (c.stateAt (p + need) xs))) :
    Meets c x ((bits need >>= f) (c.stateAt p xs)) := by
  by_cases hbits : p + need ≤ c.limit
  · rw [bind_ok (bits_eq hc hbits)]
    exact h hbits
  · have hbeyond := Nat.not_le.1 hbits
    exact Meets.of_fails (fun q ys hx => hbeyond.trans_le (hinside q ys hx))
      (Stops.fails (bits_stops hc hp hbeyond).bind)

/-- Room for less. -/
theorem Call.Room.of_prefix {ys : List UInt8} (h : c.Room ys) (hle : xs <+: ys) : c.Room xs := by
  rcases h with h | h
  · exact .inl h
  · exact .inr (hle.length_le.trans h)

/-- A part of the decoder that writes bytes, or counts them by `count`. -/
def writeTurn (full : State → Prop) [DecidablePred full] (count : State → State)
    (copy rest : Run Int) : Run Int := do
  let s ← get
  match s.out with
  | some _ => if full s then return 1 else copy
  | none => do
    set (count s)
    rest

/-- **Bytes are written where there is room for them.** -/
theorem Meets.write (hroom : c.Room xs) {x : Option (Nat × List UInt8)} {full : State → Prop}
    [DecidablePred full] {count : State → State} {copy rest : Run Int} {σ : State} {ys : List UInt8}
    (hfull : ∀ b, c.dest = some b → xs.length ≤ c.destlen →
      (full (c.state k buf cnt xs) ↔ c.destlen < ys.length))
    (hx : ∀ q zs, x = some (q, zs) → ys <+: zs)
    (hcount : c.dest = none → count (c.state k buf cnt xs) = σ)
    (hcopy : ∀ b, c.dest = some b → ys.length ≤ c.destlen →
      copy (c.state k buf cnt xs) = rest σ)
    (h : c.Room ys → Meets c x (rest σ)) :
    Meets c x (writeTurn full count copy rest (c.state k buf cnt xs)) := by
  rw [writeTurn, bind_get]
  cases hb : c.dest with
  | none =>
    rw [Call.state_none hb]
    dsimp only
    rw [bind_set, hcount hb]
    exact h (.inl hb)
  | some b =>
    have hfit := hroom.resolve_left (by rw [hb]; exact Option.some_ne_none b)
    rw [Call.state_out hb]
    dsimp only
    rw [run_ite]
    by_cases hlong : c.destlen < ys.length
    · rw [if_pos ((hfull b hb hfit).2 hlong)]
      refine Meets.of_full (fun q zs hz hroom' => ?_) rfl
      rcases hroom'.of_prefix (hx q zs hz) with hnone | hle
      · exact Option.some_ne_none b (hb.symm.trans hnone)
      · exact absurd hlong (Nat.not_lt.2 hle)
    · rw [if_neg fun hyes => hlong ((hfull b hb hfit).1 hyes), hcopy b hb (Nat.not_lt.1 hlong)]
      exact h (.inr (Nat.not_lt.1 hlong))

/-! ## Stored blocks -/

theorem nextShort_eq (hc : c.Small) (hk : k + 2 ≤ c.source.length) :
    nextShort (c.state k buf cnt xs) =
      (.ok (bitsAt c.bit (8 * k) 16), c.state (k + 2) buf cnt xs) := by
  rw [nextShort]
  refine (bind_ok (nextByte_eq hc (by omega)) _).trans ?_
  refine (bind_ok (nextByte_eq hc (by omega)) _).trans ?_
  show (Except.ok (bitsAt c.bit (8 * k) 8 ||| bitsAt c.bit (8 * (k + 1)) 8 <<< 8), _) = _
  rw [bitsAt_add c.bit (8 * k) 8 8, Nat.or_comm, ← Nat.shiftLeft_add_eq_or_of_lt (bitsAt_lt c.bit _ 8),
    Nat.shiftLeft_eq, Nat.add_comm, Nat.mul_comm (bitsAt c.bit (8 * (k + 1)) 8)]
  rfl

/-- The two numbers of a stored block are inverse. -/
theorem inverse_iff {len nlen : Nat} (hlen : len < 2 ^ 16) (hnlen : nlen < 2 ^ 16) :
    len ≠ (4294967295 - nlen) % 65536 ↔ ¬ len + nlen = 65535 := by omega

theorem length_bytesFrom (bit : Nat → Bool) (p n : Nat) : (bytesFrom bit p n).length = n := by
  rw [bytesFrom, List.length_map, List.length_range]

/-- No bits are left over at a byte. -/
theorem Call.stateAt_byte (k : Nat) : c.stateAt (8 * k) xs = c.state k 0 0 xs := by
  have hdiv : (8 * k + 7) / 8 = k := by omega
  have hpad : Call.padding (8 * k) = 0 := by
    rw [Call.padding, hdiv, Nat.sub_self]
  rw [Call.stateAt, hpad, hdiv]
  rfl

theorem stored_meets (hc : c.Small) (hp : p ≤ c.limit) (hroom : c.Room xs) :
    Meets c (storedBytes c.bit p xs) (stored (c.stateAt p xs)) := by
  have hbits : c.limit = 8 * c.source.length := rfl
  have hsmall := hc.source
  have hstate : ({ c.stateAt p xs with bitbuf := 0, bitcnt := 0 } : State) =
      c.state ((p + 7) / 8) 0 0 xs := rfl
  rw [stored, bind_modify, hstate, bind_get, run_ite, storedBytes]
  have hk : (p + 7) / 8 ≤ c.source.length := by omega
  generalize (p + 7) / 8 = k at *
  rw [← Nat.mul_add 8 k 2, ← Nat.mul_add 8 k 4]
  by_cases hhead : c.source.length < k + 4
  · have hshort : (c.state k 0 0 xs).inlen < ulong ((c.state k 0 0 xs).incnt + 4) := by
      show c.source.length < (k + 4) % 4294967296
      omega
    rw [if_pos hshort]
    refine Meets.of_fails (fun q ys h => ?_) (fails_ok two_ne_zero)
    obtain ⟨-, h⟩ := Option.ite_none_right_eq_some.1 h
    obtain ⟨rfl, -⟩ := Prod.mk.inj (Option.some.inj h)
    omega
  · have hlong : ¬ (c.state k 0 0 xs).inlen < ulong ((c.state k 0 0 xs).incnt + 4) := by
      show ¬ c.source.length < (k + 4) % 4294967296
      omega
    have hlen := bitsAt_lt c.bit (8 * k) 16
    have hinverse := inverse_iff hlen (bitsAt_lt c.bit (8 * (k + 2)) 16)
    rw [if_neg hlong, bind_ok (nextShort_eq hc (by omega)), bind_ok (nextShort_eq hc (by omega)),
      run_ite]
    generalize bitsAt c.bit (8 * k) 16 = len at *
    by_cases hsum : len + bitsAt c.bit (8 * (k + 2)) 16 = 65535
    · rw [if_neg fun h => hinverse.1 h hsum, bind_get, run_ite, if_pos hsum, ← Nat.mul_add 8 (k + 4) len]
      by_cases hdata : c.source.length < k + 4 + len
      · have hshort : (c.state (k + 2 + 2) 0 0 xs).inlen <
            ulong ((c.state (k + 2 + 2) 0 0 xs).incnt + len) := by
          show c.source.length < (k + 2 + 2 + len) % 4294967296
          lia
        rw [if_pos hshort]
        refine Meets.of_fails (fun q ys h => ?_) (fails_ok two_ne_zero)
        obtain ⟨rfl, -⟩ := Prod.mk.inj (Option.some.inj h)
        omega
      · have hlong : ¬ (c.state (k + 2 + 2) 0 0 xs).inlen <
            ulong ((c.state (k + 2 + 2) 0 0 xs).incnt + len) := by
          show ¬ c.source.length < (k + 2 + 2 + len) % 4294967296
          lia
        rw [if_neg hlong]
        have hlength : (xs ++ bytesFrom c.bit (8 * (k + 4)) len).length = xs.length + len := by
          rw [List.length_append, length_bytesFrom]
        have hdone : c.Room (xs ++ bytesFrom c.bit (8 * (k + 4)) len) → Meets c _
            ((return 0 : Run Int) (c.stateAt (8 * (k + 4 + len)) _)) :=
          fun hfit => Meets.of_exact (by lia) hfit rfl
        show Meets c _ (writeTurn (fun s => s.outlen < ulong (s.outcnt + len))
          (fun s => { s with outcnt := ulong (s.outcnt + len), incnt := ulong (s.incnt + len) })
          (do
            copyIn len
            return 0) (return 0) (c.state (k + 2 + 2) 0 0 xs))
        refine Meets.write hroom (fun b hb hfit => ?_) (fun q zs h => ?_) (fun hb => ?_)
          (fun b hb hfit => ?_) hdone
        · have hdest := (hc.dest b hb).2
          show c.destlen < (ulong xs.length + len) % 4294967296 ↔ _
          rw [hc.outcnt hb hfit, hlength]
          omega
        · obtain ⟨-, rfl⟩ := Prod.mk.inj (Option.some.inj h)
          exact List.prefix_refl _
        · have hread : ulong (k + 2 + 2 + len) = k + 4 + len := hc.ulong_le (by lia)
          rw [Call.state_none hb, Call.stateAt_byte, ← hread, Call.state_count hb hlength]
          rfl
        · rw [hlength] at hfit
          rw [bind_ok (copyIn_eq hc hb (by omega) hfit), Call.stateAt_byte]
    · rw [if_pos (hinverse.2 hsum), if_neg hsum]
      exact Meets.of_none (fails_ok (by decide))

end FroggyKVM.Puff
