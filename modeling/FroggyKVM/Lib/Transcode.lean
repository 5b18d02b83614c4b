/-
# FroggyKVM.Lib.Transcode — loops that convert one sequence into another one.

Such a loop takes some items of the input in a round and gives some items of output.  The output is
counted, and it is stored as long as it fits into the buffer; items that mean nothing are replaced,
and the loop goes on.  A place in the input is what is left of it.  **Whatever the rounds are, the
loop stays in the buffer, and at its end it has counted everything and stored everything if it
fits.**
-/
import FroggyKVM.Lib.Fill

namespace FroggyKVM.Transcode

variable {α β : Type}

/-- What a round leaves of the input and what it gives. -/
structure Round (α β : Type) where
  rest : List α
  output : List β
  bad : Bool

/-- What a loop keeps from round to round. -/
structure Progress (β : Type) where
  buffer : Option (Buffer β)
  off : Nat := 0
  overflow : Bool := false
  bad : Bool := false

/-- The end of a round: its output is stored if it fits, and counted. -/
def Progress.store (c : Progress β) (r : Round α β) : Except MemFault (Progress β) := do
  let c := { c with bad := c.bad || r.bad }
  match c.overflow, c.buffer with
  | false, some buffer =>
    if buffer.length < c.off + r.output.length then
      return { c with overflow := true, off := c.off + r.output.length }
    else do
      let (off, buffer) ← Buffer.putAll r.output c.off buffer
      return { c with buffer := some buffer, off := off }
  | _, _ => return { c with off := c.off + r.output.length }

/-- `while (str < str_end) ..`. -/
def loop (round : List α → Except MemFault (Round α β)) :
    Nat → List α → Progress β → Except MemFault (Progress β)
  | 0, _, _ => .error .outOfFuel
  | _ + 1, [], c => .ok c
  | fuel + 1, a :: str, c => do
    let r ← round (a :: str)
    let c ← c.store r
    loop round fuel r.rest c

/-! ## The state of a loop -/

/-- The loop has given `out`, and has met items that mean nothing if `bad`. -/
structure Reached (buffer : Option (Buffer β)) (out : List β) (bad : Bool) (c : Progress β) :
    Prop where
  off : c.off = out.length
  bad : c.bad = bad
  none : buffer = none → c.buffer = none ∧ c.overflow = false
  fits : ∀ b, buffer = some b → out.length ≤ b.length →
    c.buffer = some (b.fill 0 out) ∧ c.overflow = false
  full : ∀ b, buffer = some b → b.length < out.length →
    c.overflow = true ∧ ∃ b', c.buffer = some b' ∧ b'.length = b.length

theorem reached_nil (buffer : Option (Buffer β)) :
    Reached buffer [] false { buffer := buffer } := by
  refine ⟨rfl, rfl, fun h => ⟨h, rfl⟩, fun b h _ => ⟨?_, rfl⟩, fun b _ h => ?_⟩
  · rw [Buffer.fill_nil]
    exact h
  · exact absurd h (Nat.not_lt_zero _)

variable {buffer : Option (Buffer β)} {out : List β} {bad : Bool} {c : Progress β}

/-- **A round.** -/
theorem Reached.store (h : Reached buffer out bad c) (r : Round α β) :
    ∃ c', c.store r = .ok c' ∧ Reached buffer (out ++ r.output) (bad || r.bad) c' := by
  have hoff : c.off + r.output.length = (out ++ r.output).length := by
    rw [List.length_append, h.off]
  have hbad : (c.bad || r.bad) = (bad || r.bad) := by rw [h.bad]
  unfold Progress.store
  cases hb : buffer with
  | none =>
    obtain ⟨hbuf, hover⟩ := h.none hb
    rw [hbuf, hover]
    refine ⟨_, rfl, hoff, hbad, fun _ => ⟨rfl, rfl⟩, fun b hb' => ?_, fun b hb' => ?_⟩
    · cases hb'
    · cases hb'
  | some b =>
    rcases Nat.lt_or_ge b.length out.length with hlt | hle
    · -- the buffer has been full before
      obtain ⟨hover, b', hbuf, hlen⟩ := h.full b hb hlt
      rw [hbuf, hover]
      refine ⟨_, rfl, hoff, hbad, fun h => ?_, ?_, ?_⟩
      · cases h
      · rintro _ ⟨⟩ hfit
        rw [List.length_append] at hfit
        lia
      · rintro _ ⟨⟩ _
        exact ⟨rfl, b', rfl, hlen⟩
    · obtain ⟨hbuf, hover⟩ := h.fits b hb hle
      rw [hbuf, hover]
      dsimp only
      rw [Buffer.fill_length, hoff]
      by_cases hfull : b.length < (out ++ r.output).length
      · rw [if_pos hfull]
        refine ⟨_, rfl, rfl, hbad, fun h => ?_, ?_, ?_⟩
        · cases h
        · rintro _ ⟨⟩ hfit
          omega
        · rintro _ ⟨⟩ _
          exact ⟨rfl, _, rfl, Buffer.fill_length b 0 out⟩
      · rw [if_neg hfull]
        rw [List.length_append] at hfull
        have hput : Buffer.putAll r.output c.off (b.fill 0 out) =
            .ok ((out ++ r.output).length, b.fill 0 (out ++ r.output)) := by
          have hfill := b.fill_fill 0 out r.output
          rw [Nat.zero_add] at hfill
          rw [h.off, Buffer.putAll_ok (by rw [Buffer.fill_length]; omega), hfill,
            List.length_append]
        rw [hput]
        refine ⟨_, rfl, rfl, hbad, fun h => ?_, ?_, ?_⟩
        · cases h
        · rintro _ ⟨⟩ _
          exact ⟨rfl, rfl⟩
        · rintro _ ⟨⟩ hfull'
          rw [List.length_append] at hfull'
          omega

/-! ## A whole loop -/

/-- The rounds of a loop, to the end of the input. -/
def Rounds (round : List α → Except MemFault (Round α β)) : List α → List (Round α β) → Prop
  | str, [] => str = []
  | str, r :: rs => str ≠ [] ∧ round str = .ok r ∧ r.rest.length < str.length ∧
      Rounds round r.rest rs

variable {round : List α → Except MemFault (Round α β)} {str : List α} {rs : List (Round α β)}

/-- **The loop ends**, with what its rounds give. -/
theorem Rounds.loop (h : Rounds round str rs) {fuel : Nat} (hfuel : str.length < fuel)
    (hc : Reached buffer out bad c) :
    ∃ c', loop round fuel str c = .ok c' ∧
      Reached buffer (out ++ rs.flatMap Round.output) (bad || rs.any Round.bad) c' := by
  induction rs generalizing str fuel out bad c with
  | nil =>
    obtain rfl : str = [] := h
    obtain ⟨fuel, rfl⟩ := Nat.exists_eq_succ_of_ne_zero (Nat.ne_of_gt hfuel)
    refine ⟨c, rfl, ?_⟩
    rw [List.flatMap_nil, List.append_nil, List.any_nil, Bool.or_false]
    exact hc
  | cons r rs ih =>
    obtain ⟨hne, hr, hlt, hrest⟩ := h
    obtain ⟨a, tail, rfl⟩ := List.exists_cons_of_ne_nil hne
    obtain ⟨fuel, rfl⟩ := Nat.exists_eq_succ_of_ne_zero (Nat.ne_of_gt (Nat.zero_lt_of_lt hfuel))
    obtain ⟨c₁, hstore, hc₁⟩ := hc.store r
    obtain ⟨c', hloop, hc'⟩ := @ih _ _ _ _ hrest fuel (by omega) hc₁
    refine ⟨c', ?_, ?_⟩
    · rw [Transcode.loop, hr, ok_bind, hstore, ok_bind, hloop]
    · rw [List.flatMap_cons, ← List.append_assoc, List.any_cons, ← Bool.or_assoc]
      exact hc'

/-- An input has one sequence of rounds. -/
theorem Rounds.unique {rs' : List (Round α β)} (h : Rounds round str rs)
    (h' : Rounds round str rs') : rs = rs' := by
  induction rs generalizing str rs' with
  | nil =>
    cases rs' with
    | nil => rfl
    | cons r' rs' => exact absurd h h'.1
  | cons r rs ih =>
    cases rs' with
    | nil => exact absurd h' h.1
    | cons r' rs' =>
      have hr := h.2.1
      rw [h'.2.1] at hr
      cases hr
      rw [ih h.2.2.2 h'.2.2.2]

/-- Rounds that take something reach the end. -/
theorem exists_rounds
    (hround : ∀ str, str ≠ [] → ∃ r, round str = .ok r ∧ r.rest.length < str.length)
    (str : List α) : ∃ rs, Rounds round str rs := by
  induction hn : str.length using Nat.strong_induction_on generalizing str with
  | _ n ih =>
    by_cases hne : str = []
    · exact ⟨[], hne⟩
    · obtain ⟨r, hr, hlt⟩ := hround str hne
      obtain ⟨rs, hrs⟩ := ih r.rest.length (hn ▸ hlt) r.rest rfl
      exact ⟨r :: rs, hne, hr, hlt, hrs⟩

/-- An input that is made of pieces, each of which is the input of a round. -/
theorem rounds_of_pieces {γ : Type} {piece : γ → List α} {value : γ → List β}
    (hne : ∀ x, piece x ≠ [])
    (hround : ∀ x rest, round (piece x ++ rest) = .ok ⟨rest, value x, false⟩) (xs : List γ) :
    ∃ rs, Rounds round (xs.flatMap piece) rs ∧ rs.flatMap Round.output = xs.flatMap value ∧
      rs.any Round.bad = false := by
  induction xs with
  | nil => exact ⟨[], rfl, rfl, rfl⟩
  | cons x xs ih =>
    obtain ⟨rs, hrs, hout, hbad⟩ := ih
    have hpos := List.length_pos_iff.2 (hne x)
    refine ⟨⟨xs.flatMap piece, value x, false⟩ :: rs, ⟨?_, hround x _, ?_, hrs⟩, ?_, hbad⟩
    · exact fun hnil => hne x (List.append_eq_nil_iff.1 hnil).1
    · rw [List.flatMap_cons, List.length_append]
      exact Nat.lt_add_of_pos_left hpos
    · rw [List.flatMap_cons, List.flatMap_cons, hout]

/-- **Without a bad round the input is made of pieces.** -/
theorem pieces_of_rounds {γ : Type} {piece : γ → List α} {value : γ → List β}
    (hround : ∀ str r, str ≠ [] → round str = .ok r → r.bad = false →
      ∃ x, str = piece x ++ r.rest ∧ r.output = value x)
    (h : Rounds round str rs) (hbad : rs.any Round.bad = false) :
    ∃ xs : List γ, str = xs.flatMap piece ∧ rs.flatMap Round.output = xs.flatMap value := by
  induction rs generalizing str with
  | nil => exact ⟨[], h, rfl⟩
  | cons r rs ih =>
    obtain ⟨hne, hr, -, hrest⟩ := h
    rw [List.any_cons, Bool.or_eq_false_iff] at hbad
    obtain ⟨x, hstr, hout⟩ := hround str r hne hr hbad.1
    obtain ⟨xs, hxs, houts⟩ := ih hrest hbad.2
    refine ⟨x :: xs, ?_, ?_⟩
    · rw [hstr, hxs]
      rfl
    · rw [List.flatMap_cons, List.flatMap_cons, hout, houts]

end FroggyKVM.Transcode
