/-
# FroggyKVM.Puff.Blocks — whole streams.

A block stops at the same place as the block of the format, or fails with it.  **`puff` never leaves
its buffers, always returns, and returns 0 exactly for the streams that it asks no more of than that
their codes fit**; then the destination begins with the bytes of the stream.
-/
import FroggyKVM.Puff.Lengths

namespace FroggyKVM.Puff

open Canonical Deflate Outcome

variable {c : Call} {p : Nat} {xs : List UInt8}

/-! ## Dynamic blocks -/

theorem dynamicTail_meets (hc : c.Small) {fuel nlen ndist ncode q : Nat} (hncode : ncode ≤ 19)
    (hq : q ≤ c.limit) (hfuel : c.limit < q + fuel) (hroom : c.Room xs) :
    Meets c (if nlen ≤ 286 ∧ ndist ≤ 30 ∧ rules.lengthCode (codeLengthLens c.bit q ncode) = true then
        (codeLengths c.bit (codeLengthLens c.bit q ncode) (nlen + ndist) (nlen + ndist + 1)
          (q + 3 * ncode) []).bind fun r =>
          if rules.code (r.2.take nlen) = true ∧ rules.code (r.2.drop nlen) = true then
            compressedBytes rules c.bit (r.2.take nlen) (r.2.drop nlen) fuel r.1 xs
          else none
      else none)
      (dynamicTail fuel nlen ndist ncode (c.stateAt q xs)) := by
  rw [dynamicTail, run_ite]
  by_cases hsizes : 286 < nlen ∨ 30 < ndist
  · rw [if_pos hsizes, if_neg (by lia)]
    exact Meets.of_none (fails_ok (by decide))
  rw [if_neg hsizes]
  have hstart : Ordered c.bit q ncode 0 (shorts 316) := ⟨rfl, fun i s hi => absurd hi (Nat.not_lt_zero i)⟩
  rcases readOrder_cases xs hc hstart (Nat.zero_add _) hncode hq with
    ⟨hlens, a, hread, hordered⟩ | ⟨hbeyond, hstops⟩
  case inr =>
    refine Meets.of_fails (fun q' ys h => ?_) (Stops.fails hstops.bind)
    obtain ⟨-, h⟩ := Option.ite_none_right_eq_some.1 h
    obtain ⟨r, hr, h⟩ := Option.bind_eq_some_iff.1 h
    have hle := (codeLengths_spec hr).1
    have hlt := (compressedBytes_le (Option.ite_none_right_eq_some.1 h).2).1
    lia
  case inl =>
    obtain ⟨a', hclear, hlength, hholds⟩ := clearOrder_eq hordered hncode
    have h19 : (codeLengthLens c.bit q ncode).length = 19 := by simp [codeLengthLens]
    obtain ⟨left, lencode, hconstruct, -, hzero, hstores, hcount, hsymbol⟩ := construct_eq
      (h := ⟨shorts 16, shorts 286⟩) (Nat.le_refl 16) (h19.trans_le (by decide)) hholds
      codeLengthLens_le
    rw [h19] at hconstruct
    rw [Nat.mul_zero, Nat.add_zero] at hread
    rw [bind_ok hread, bind_lift hclear, bind_lift hconstruct]
    dsimp only
    rw [run_ite]
    by_cases hcomplete : left = 0
    case neg =>
      have hrule : ¬ rules.lengthCode (codeLengthLens c.bit q ncode) = true := fun h =>
        hcomplete (hzero.2 (of_decide_eq_true h))
      rw [if_pos hcomplete, if_neg fun h => hrule h.2.2]
      exact Meets.of_none (fails_ok (by decide))
    case pos =>
      have hrule : rules.lengthCode (codeLengthLens c.bit q ncode) = true :=
        decide_eq_true (hzero.1 hcomplete)
      rw [if_neg (show ¬ left ≠ 0 from fun h => h hcomplete), if_pos ⟨by lia, by lia, hrule⟩]
      rcases readLengths_eq xs hc (hstores hcomplete.ge) (holds_nil a') hlength
        (show nlen + ndist ≤ 316 by omega) (Nat.zero_le _)
        (show nlen + ndist < [].length + (nlen + ndist + 1) by rw [List.length_nil]; omega)
        hlens with ⟨p', ws, b, hws, hp', hrun, hb, -⟩ | ⟨hend, hrun⟩
      · obtain ⟨hle, hwslen, hws15⟩ := codeLengths_spec hws
        have hws15 := hws15 fun z hz => absurd hz List.not_mem_nil
        have hnlen : (ws.take nlen).length = nlen := by rw [List.length_take]; omega
        have hndist : (ws.drop nlen).length = ndist := by rw [List.length_drop]; lia
        obtain ⟨left₁, lencode₁, hconstruct₁, hneg₁, -, hstores₁, -⟩ := construct_eq (h := lencode)
          (hcount.ge.trans' (Nat.le_refl 16)) (by rw [hnlen, hsymbol]; show nlen ≤ 286; omega)
          (hb.take (n := nlen)) fun l hl => hws15 l (List.mem_of_mem_take hl)
        obtain ⟨left₂, distcode, hconstruct₂, hneg₂, -, hstores₂, -⟩ := construct_eq
          (h := ⟨shorts 16, shorts 30⟩) (Nat.le_refl 16) (by rw [hndist]; show ndist ≤ 30; lia)
          (hb.drop (n := nlen)) fun l hl => hws15 l (List.mem_of_mem_drop hl)
        rw [hnlen] at hconstruct₁
        rw [hndist] at hconstruct₂
        rw [List.length_nil] at hrun
        rw [hws, Option.bind_some, bind_ok hrun]
        dsimp only
        rw [bind_lift hconstruct₁]
        dsimp only
        rw [run_ite]
        by_cases hover₁ : left₁ < 0
        · have hcode : ¬ rules.code (ws.take nlen) = true := fun h =>
            of_decide_eq_true h (hneg₁.1 hover₁)
          rw [if_pos hover₁, if_neg fun h => hcode h.1]
          exact Meets.of_none (fails_ok (by decide))
        rw [if_neg hover₁, bind_lift hconstruct₂]
        dsimp only
        rw [run_ite]
        by_cases hover₂ : left₂ < 0
        · have hcode : ¬ rules.code (ws.drop nlen) = true := fun h =>
            of_decide_eq_true h (hneg₂.1 hover₂)
          rw [if_pos hover₂, if_neg fun h => hcode h.2]
          exact Meets.of_none (fails_ok (by decide))
        rw [if_neg hover₂, if_pos ⟨decide_eq_true fun h => hover₁ (hneg₁.2 h),
          decide_eq_true fun h => hover₂ (hneg₂.2 h)⟩]
        exact codes_meets hc (hstores₁ (Int.not_lt.1 hover₁)) (hstores₂ (Int.not_lt.1 hover₂))
          (by lia) hp' (by lia) hroom
      · refine Meets.of_fails (fun q' ys h => ?_) ?_
        · obtain ⟨r, hr, h⟩ := Option.bind_eq_some_iff.1 h
          exact (hend r.1 r.2 hr).trans (compressedBytes_le (Option.ite_none_right_eq_some.1 h).2).1
        · rw [List.length_nil] at hrun
          rcases hrun with hstop | ⟨err, herr, hval⟩
          · exact Stops.fails (Stops.bind hstop)
          · rw [bind_ok (Prod.ext hval rfl)]
            exact fails_ok herr

theorem dynamic_meets (hc : c.Small) {fuel : Nat} (hp : p ≤ c.limit) (hfuel : c.limit < p + fuel)
    (hroom : c.Room xs) :
    Meets c (dynamicBytes rules c.bit fuel p xs) (dynamic fuel (c.stateAt p xs)) := by
  have hinside : ∀ q ys, dynamicBytes rules c.bit fuel p xs = some (q, ys) → p + 14 < q :=
    fun q ys h => by
      have := (dynamicBytes_le h).1
      omega
  rw [dynamic]
  refine Meets.bits hc hp (fun q ys h => by have := hinside q ys h; omega) fun h₁ => ?_
  refine Meets.bits hc h₁ (fun q ys h => by have := hinside q ys h; omega) fun h₂ => ?_
  refine Meets.bits hc h₂ (fun q ys h => by have := hinside q ys h; omega) fun h₃ => ?_
  have hncode := bitsAt_lt c.bit (p + 10) 4
  rw [Nat.add_comm (bitsAt c.bit p 5) 257, Nat.add_comm (bitsAt c.bit (p + 5) 5) 1,
    Nat.add_comm (bitsAt c.bit (p + 5 + 5) 4) 4]
  exact dynamicTail_meets (q := p + 14) hc (by omega) h₃ (by omega) hroom

/-! ## Blocks -/

theorem block_meets (hc : c.Small) {fuel : Nat} (hp : p + 3 ≤ c.limit) (hfuel : c.limit < p + fuel)
    (hroom : c.Room xs) :
    Meets c (blockBytes rules c.bit fuel p xs)
      (block fuel (bitsAt c.bit (p + 1) 2) (c.stateAt (p + 3) xs)) := by
  have hlt := bitsAt_lt c.bit (p + 1) 2
  rw [blockBytes, block]
  generalize bitsAt c.bit (p + 1) 2 = type at *
  obtain rfl | rfl | rfl | rfl : type = 0 ∨ type = 1 ∨ type = 2 ∨ type = 3 := by omega
  · exact stored_meets hc hp hroom
  · exact fixed_meets hc hp (by omega) hroom
  · exact dynamic_meets hc hp (by omega) hroom
  · exact Meets.of_none (fails_ok (by decide))

/-- An error ends the loop. -/
theorem Fails.bind {x f : Run Int} {s : State} (h : Fails (x s)) :
    Fails ((do
      let err ← x
      if err ≠ 0 then return err else f : Run Int) s) := by
  rcases hr : x s with ⟨stop | err, s'⟩
  · rw [hr] at h
    obtain rfl : stop = .longjmp := h
    rw [bind_error hr]
    exact rfl
  · rw [hr] at h
    rw [bind_ok hr, run_ite, if_pos (show err ≠ 0 from h)]
    exact h

/-- **The loop over the blocks**, by induction on the blocks that the input has bits for. -/
theorem blocks_meets (hc : c.Small) {fuel k : Nat} (hp : p ≤ c.limit) (hfuel : c.limit < p + k)
    (hlarge : c.limit < fuel) (hroom : c.Room xs) :
    Meets c (blocksBytes rules c.bit fuel k p xs) (blocks fuel k (c.stateAt p xs)) := by
  induction k generalizing p xs with
  | zero => omega
  | succ k ih =>
    have hinside : ∀ q ys, blocksBytes rules c.bit fuel (k + 1) p xs = some (q, ys) → p + 3 < q :=
      fun q ys h => (blocksBytes_le h).1
    rw [blocks]
    refine Meets.bits hc hp (fun q ys h => by have := hinside q ys h; omega) fun h₁ => ?_
    refine Meets.bits hc h₁ (fun q ys h => by have := hinside q ys h; omega) fun h₂ => ?_
    have hmeets : Meets c (blockBytes rules c.bit fuel p xs) _ := block_meets hc h₂ (by omega) hroom
    rw [blocksBytes]
    cases hblock : blockBytes rules c.bit fuel p xs with
    | none =>
      rw [hblock] at hmeets
      exact Meets.of_none (Fails.bind (hmeets.fails fun q ys h => (Option.some_ne_none _ h.symm).elim))
    | some r =>
      obtain ⟨q, ys⟩ := r
      have hpq := (blockBytes_le hblock).1
      rw [hblock] at hmeets
      -- the bytes and the place of the next block are those of the stream
      have hrest : ∀ q' ys', (if c.bit p then some (q, ys) else blocksBytes rules c.bit fuel k q ys) =
          some (q', ys') → q ≤ q' ∧ ys <+: ys' := by
        intro q' ys' h
        split at h
        · obtain ⟨rfl, rfl⟩ := Prod.mk.inj (Option.some.inj h)
          exact ⟨Nat.le_refl _, List.prefix_refl _⟩
        · have hle := blocksBytes_le h
          exact ⟨by omega, hle.2⟩
      rw [Option.bind_eq_bind, Option.bind_some]
      by_cases hq : q ≤ c.limit
      case neg =>
        refine Meets.of_fails (fun q' ys' h => (Nat.not_le.1 hq).trans_le (hrest q' ys' h).1)
          (Fails.bind (hmeets.fails fun q' ys' h => ?_))
        obtain ⟨rfl, -⟩ := Prod.mk.inj (Option.some.inj h)
        exact Nat.not_le.1 hq
      by_cases hfit : c.Room ys
      · rw [bind_ok (hmeets.exact q ys rfl hq hfit), run_ite, if_neg (fun h => h rfl), run_ite]
        have hlast : bitsAt c.bit p 1 = (c.bit p).toNat := by simp [bitsAt]
        rw [hlast]
        cases c.bit p with
        | true => exact Meets.of_exact hq hfit rfl
        | false => exact ih hq (by omega) hfit
      · refine Meets.of_full (fun q' ys' h hroom' => hfit (hroom'.of_prefix (hrest q' ys' h).2)) ?_
        have hone := hmeets.full q ys rfl hq hfit
        rw [bind_ok (Prod.ext hone rfl)]
        rfl

/-! ## The whole function -/

/-- A list of bytes as a block. -/
def ofList (xs : List UInt8) : Buffer UInt8 := ⟨xs.length, fun i => xs.getD i 0⟩

/-- The bytes fit into the destination, or are only counted. -/
def HasRoom (dest : Option (Buffer UInt8)) (destlen : Nat) (u : List UInt8) : Prop :=
  dest = none ∨ u.length ≤ destlen

/-- How a call ends, with a stream at the front of the source or without one. -/
structure Ends (dest : Option (Buffer UInt8)) (destlen : Nat) (source : List UInt8) (r : Result) :
    Prop where
  /-- the bytes of the stream, in a destination with room for them -/
  exact : ∀ p u, Stream rules source p u → HasRoom dest destlen u →
    r = ⟨0, dest.map (overlay u), ulong u.length, (p + 7) / 8⟩
  full : ∀ p u, Stream rules source p u → ¬ HasRoom dest destlen u → r.err = 1
  refused : (∀ p u, ¬ Stream rules source p u) → r.err ≠ 0

/-- **Every call returns**, whatever the source is. -/
theorem puff_ends {dest : Option (Buffer UInt8)} {destlen : Nat} {source : List UInt8}
    (hsource : source.length < 2147483648)
    (hdest : ∀ b, dest = some b → b.length = destlen ∧ destlen < 2147483648) :
    ∃ r, puff dest destlen (ofList source) source.length = .ok r ∧ Ends dest destlen source r := by
  let c : Call := ⟨dest, destlen, ofList source⟩
  have hc : c.Small := ⟨hsource, hdest⟩
  have hout : dest.map (overlay []) = dest := by cases dest <;> rfl
  have hstart : c.stateAt 0 [] = start dest destlen (ofList source) source.length := by
    show ({ start dest destlen (ofList source) source.length with
      out := dest.map (overlay []) } : State) = _
    rw [hout]
    rfl
  have hlimit : c.limit < 8 * source.length + 1 := Nat.lt_succ_self _
  have hmeets := blocks_meets (p := 0) hc (Nat.zero_le _) (by rw [Nat.zero_add]; exact hlimit) hlimit
    (show c.Room [] from .inr (Nat.zero_le _))
  rw [hstart] at hmeets
  rw [puff]
  rcases hr : blocks (8 * source.length + 1) (8 * source.length + 1)
    (start dest destlen (ofList source) source.length) with ⟨stop | err, s⟩
  · rw [hr] at hmeets
    by_cases hsome : ∃ p u, Stream rules source p u
    · obtain ⟨p, u, h⟩ := hsome
      by_cases hroom : HasRoom dest destlen u
      · exact absurd (hmeets.exact p u h.1 h.2 hroom) (by simp)
      · exact absurd (hmeets.full p u h.1 h.2 hroom) (by simp)
    · obtain rfl : stop = .longjmp := hmeets.fails fun p u h =>
        Nat.not_le.1 fun hp => hsome ⟨p, u, h, hp⟩
      refine ⟨_, rfl, fun p u h => absurd ⟨p, u, h⟩ hsome, fun p u h => absurd ⟨p, u, h⟩ hsome,
        fun _ => two_ne_zero⟩
  · rw [hr] at hmeets
    refine ⟨_, rfl, fun p u h hroom => ?_, fun p u h hroom => ?_, fun h => ?_⟩
    · obtain ⟨herr, rfl⟩ := Prod.mk.inj (hmeets.exact p u h.1 h.2 hroom)
      rw [Except.ok.inj herr]
      rfl
    · exact Except.ok.inj (hmeets.full p u h.1 h.2 hroom)
    · exact hmeets.fails fun p u hsome => Nat.not_le.1 fun hp => h p u ⟨hsome, hp⟩

end FroggyKVM.Puff
