/-
# FroggyKVM.Symbols.Parse — what `internal_parse` makes of a text.

`Seen` is what the loop has read: tokens, a `)`, tokens.  `Parsed` ties the counters, the buffer and
the last token to it.  **A text that is accepted is a sequence of tokens with at most one `)`; the
input is left exactly when the text ends behind the first `)`.**
-/
import FroggyKVM.Symbols.Descriptor

namespace FroggyKVM.Symbols

/-! ## The bytes of a token -/

/-- The two bytes of an encoded number. -/
def pairOf (value : Nat) : List UInt8 := [UInt8.ofNat (value >>> 8), UInt8.ofNat (value &&& 0xff)]

/-- The bytes that `internal_parse` stores for a token. -/
def Token.bytes (classes : Classes) : Token → List UInt8
  | .void => [86]
  | .simple c => [c]
  | .ofClass c => pairOf (encodeUshort ((classes.classId c).getD 0))

/-- How many bytes these are. -/
def Token.size : Token → Nat
  | .ofClass _ => 2
  | _ => 1

def encoded (classes : Classes) (toks : List Token) : List UInt8 := toks.flatMap (·.bytes classes)

def sizeOfTokens (toks : List Token) : Nat := (toks.map Token.size).sum

/-- The class of a token has an id, and its letter is one of a type. -/
def Token.Known (classes : Classes) : Token → Prop
  | .void => True
  | .simple c => isSimpleTypeSymbol c = true
  | .ofClass c => (classes.classId c).isSome = true

theorem Token.length_bytes (classes : Classes) (t : Token) : (t.bytes classes).length = t.size := by
  cases t <;> rfl

theorem length_encoded (classes : Classes) (toks : List Token) :
    (encoded classes toks).length = sizeOfTokens toks := by
  induction toks with
  | nil => rfl
  | cons t toks ih =>
    rw [encoded, List.flatMap_cons, List.length_append, t.length_bytes]
    exact congrArg (t.size + ·) ih

theorem sizeOfTokens_append (l l' : List Token) :
    sizeOfTokens (l ++ l') = sizeOfTokens l + sizeOfTokens l' := by
  simp [sizeOfTokens]

theorem wordsOf_append (l l' : List Token) : wordsOf (l ++ l') = wordsOf l + wordsOf l' := by
  simp [wordsOf]

/-- A number of 14 bits in two bytes: both are above 127, and can be read back. -/
theorem encodeUshort_digits {a b : Nat} (ha : a < 128) (hb : b < 128) :
    encodeUshort (a * 128 + b) = (a + 128) * 256 + (b + 128) := by
  have hhigh : ∀ a < 128, ((a <<< 7 &&& 0xff80) <<< 1) ||| (a <<< 7 &&& 0x7f) ||| 0x8000 =
      (a + 128) <<< 8 := by decide
  have hlow : ∀ b < 128, ((b &&& 0xff80) <<< 1) ||| (b &&& 0x7f) ||| 0x80 = b + 128 := by decide
  have hsplit : a * 128 + b = a <<< 7 ||| b := by
    rw [← Nat.shiftLeft_add_eq_or_of_lt (show b < 2 ^ 7 by omega), Nat.shiftLeft_eq]
  -- each byte comes from its own digit
  calc encodeUshort (a * 128 + b)
      = (((a <<< 7 &&& 0xff80) <<< 1) ||| (a <<< 7 &&& 0x7f) ||| 0x8000) |||
          (((b &&& 0xff80) <<< 1) ||| (b &&& 0x7f) ||| 0x80) := by
        rw [encodeUshort, hsplit, Nat.and_or_distrib_right, Nat.and_or_distrib_right,
          Nat.shiftLeft_or_distrib, show (0x8080 : Nat) = 0x8000 ||| 0x80 from rfl]
        ac_rfl
    _ = (a + 128) <<< 8 ||| (b + 128) := by rw [hhigh a ha, hlow b hb]
    _ = (a + 128) * 256 + (b + 128) := by
        rw [← Nat.shiftLeft_add_eq_or_of_lt (show b + 128 < 2 ^ 8 by omega), Nat.shiftLeft_eq]

theorem encodeUshort_eq {n : Nat} (h : n < 2 ^ 14) :
    encodeUshort n = (n / 128 + 128) * 256 + (n % 128 + 128) := by
  have := encodeUshort_digits (show n / 128 < 128 by omega) (show n % 128 < 128 by omega)
  rwa [Nat.div_add_mod' n 128] at this

theorem pairOf_encodeUshort {n : Nat} (h : n < 2 ^ 14) :
    pairOf (encodeUshort n) = [UInt8.ofNat (n / 128 + 128), UInt8.ofNat (n % 128 + 128)] := by
  rw [pairOf, encodeUshort_eq h, Nat.shiftRight_eq_div_pow,
    show (0xff : Nat) = 2 ^ 8 - 1 from rfl, Nat.and_two_pow_sub_one_eq_mod]
  congr 2
  · omega
  · congr 2
    omega

section

variable {classes : Classes} {junk : Nat → UInt8}

theorem putEncodedUshort_ok {b : Buffer UInt8} {i : Nat} (h : i + 2 ≤ b.length) (value : Nat) :
    putEncodedUshort b i value = .ok (b.fill i (pairOf value)) := by
  rw [putEncodedUshort, Buffer.set_eq_fill (by omega)]
  show access ((b.fill i _).set (i + 1) _) = _
  rw [Buffer.set_eq_fill (by rw [Buffer.fill_length]; omega)]
  exact congrArg Except.ok (b.fill_fill i [UInt8.ofNat (value >>> 8)] _)

/-- The code of a known token, against its bytes. -/
theorem Token.code_eq {t : Token} {type : Nat} (h : t.code classes = some type)
    (hknown : t.Known classes) :
    type < 128 ∧ t.bytes classes = [UInt8.ofNat type] ∧ t.size = 1 ∨
      128 ≤ type ∧ t.bytes classes = pairOf type ∧ t.size = 2 := by
  cases t with
  | void =>
    cases h
    exact .inl ⟨by decide, rfl, rfl⟩
  | simple c =>
    cases h
    have hc := (simple_not_digit hknown).2.2.2.2.2.2
    exact .inl ⟨hc, by simp [Token.bytes], rfl⟩
  | ofClass c =>
    obtain ⟨id, hid, rfl⟩ := Option.map_eq_some_iff.mp h
    refine .inr ⟨?_, by simp [Token.bytes, hid], rfl⟩
    rw [encodeUshort_eq (classes.small c id hid)]
    omega

theorem Token.known_of_code {t : Token} {text : List UInt8} {type : Nat} (htext : t.Spells text)
    (h : t.code classes = some type) : t.Known classes := by
  cases htext with
  | void => trivial
  | simple hc => exact hc
  | instances _ | array _ _ =>
    obtain ⟨id, hid, -⟩ := Option.map_eq_some_iff.mp h
    exact Option.isSome_of_mem hid

/-! ## The loop -/

/-- What has been read: tokens, and the tokens behind a `)` if there was one. -/
structure Seen where
  params : List Token
  after : Option (List Token)

namespace Seen

def all (seen : Seen) : List Token := seen.params ++ seen.after.getD []

def push (seen : Seen) (t : Token) : Seen :=
  match seen.after with
  | none => { seen with params := seen.params ++ [t] }
  | some l => { seen with after := some (l ++ [t]) }

def close (seen : Seen) : Seen := { seen with after := some [] }

def pushAll (seen : Seen) (toks : List Token) : Seen := toks.foldl push seen

@[simp] theorem all_push (seen : Seen) (t : Token) : (seen.push t).all = seen.all ++ [t] := by
  obtain ⟨params, after⟩ := seen
  cases after <;> simp [all, push]

theorem all_close {seen : Seen} (h : seen.after = none) : seen.close.all = seen.all := by
  simp [all, close, h]

theorem pushAll_open {seen : Seen} (h : seen.after = none) (toks : List Token) :
    seen.pushAll toks = { seen with params := seen.params ++ toks } := by
  induction toks generalizing seen with
  | nil => simp [pushAll]
  | cons t toks ih =>
    have := @ih (seen.push t) (by simp [push, h])
    simpa [pushAll, push, h] using this

theorem pushAll_closed {seen : Seen} {l : List Token} (h : seen.after = some l)
    (toks : List Token) : seen.pushAll toks = { seen with after := some (l ++ toks) } := by
  induction toks generalizing seen l with
  | nil => simp [pushAll, ← h]
  | cons t toks ih =>
    have := @ih (seen.push t) (l ++ [t]) (by simp [push, h])
    simpa [pushAll, push, h] using this

@[simp] theorem all_pushAll (seen : Seen) (toks : List Token) :
    (seen.pushAll toks).all = seen.all ++ toks := by
  induction toks generalizing seen with
  | nil => simp [pushAll]
  | cons t toks ih => simpa [pushAll] using ih (seen.push t)

end Seen

/-- The variables of the loop, when `seen` has been read of a text of kind `m`. -/
structure Parsed (classes : Classes) (junk : Nat → UInt8) (m : Bool) (seen : Seen) (p : Parsing) :
    Prop where
  kind : p.ps.isMethodSignature = m
  tokenCount : p.ps.tokenCount = seen.all.length
  wordCount : p.ps.tokenWordCount = wordsOf seen.all
  paren : p.ps.closeParenPosition = seen.after.map fun _ => seen.params.length
  parameterWords : seen.after ≠ none → p.ps.parameterWordCount = wordsOf seen.params
  buffer : p.buffer = (⟨1024, junk⟩ : Buffer UInt8).fill 4 (encoded classes seen.all)
  outPos : p.outPos = 4 + sizeOfTokens seen.all
  lastType : ∀ t, seen.all.getLast? = some t → t.code classes = some p.lastType
  inLimit : sizeOfTokens seen.all < 512
  known : ∀ t ∈ seen.all, t.Known classes

variable {m : Bool} {seen : Seen} {p : Parsing}

/-- Behind a `)`. -/
theorem Parsed.close (h : Parsed classes junk m seen p) (hopen : seen.after = none)
    (rest : List UInt8) :
    Parsed classes junk m seen.close { p with ps := { p.ps with
      current := rest
      closeParenPosition := some p.ps.tokenCount
      parameterWordCount := p.ps.tokenWordCount } } := by
  have hall := Seen.all_close hopen
  have hparams : seen.all = seen.params := by simp [Seen.all, hopen]
  exact {
    kind := h.kind
    tokenCount := hall ▸ h.tokenCount
    wordCount := hall ▸ h.wordCount
    paren := by simp [Seen.close, h.tokenCount, hparams]
    parameterWords := fun _ => by simp [Seen.close, h.wordCount, hparams]
    buffer := hall ▸ h.buffer
    outPos := hall ▸ h.outPos
    lastType := hall ▸ h.lastType
    inLimit := hall ▸ h.inLimit
    known := hall ▸ h.known }

/-- The part of the loop body behind `next`. -/
def storeToken (p : Parsing) (type : Nat) : Except Failure (Option Parsing) := do
  let p ← putType p type
  check (p.outPos < 4 + 256 * 2)
  .ok (some p)

/-- **Storing a token.** -/
theorem Parsed.stored (h : Parsed classes junk m seen p) {t : Token} {type : Nat}
    (hcode : t.code classes = some type) (hknown : t.Known classes) (rest : List UInt8) :
    Ends (storeToken { p with ps := p.ps.behind t rest } type)
      (fun e => e = .classFormatError ∧ 512 ≤ sizeOfTokens seen.all + t.size) fun r =>
        ∃ p', r = some p' ∧ Parsed classes junk m (seen.push t) p' ∧ p'.ps.current = rest := by
  have hput : putType { p with ps := p.ps.behind t rest } type = .ok {
      ps := p.ps.behind t rest
      buffer := (⟨1024, junk⟩ : Buffer UInt8).fill 4 (encoded classes (seen.all ++ [t]))
      outPos := 4 + sizeOfTokens seen.all + t.size
      lastType := type } := by
    have hroom := h.inLimit
    have hfill := (⟨1024, junk⟩ : Buffer UInt8).fill_fill 4 (encoded classes seen.all)
      (t.bytes classes)
    rw [length_encoded, show encoded classes seen.all ++ t.bytes classes =
      encoded classes (seen.all ++ [t]) by simp [encoded]] at hfill
    unfold putType
    rcases Token.code_eq hcode hknown with ⟨hlt, hbytes, hsize⟩ | ⟨hle, hbytes, hsize⟩
    · rw [if_pos hlt, h.buffer, h.outPos, Buffer.set_eq_fill (by rw [Buffer.fill_length]; show _ < 1024; omega), ← hbytes,
        hfill, hsize]
      rfl
    · rw [if_neg (by omega), h.buffer, h.outPos,
        putEncodedUshort_ok (by rw [Buffer.fill_length]; show _ ≤ 1024; omega), ← hbytes, hfill, hsize]
      rfl
  rw [storeToken, hput]
  show Ends (check _ >>= _) _ _
  by_cases hfit : sizeOfTokens seen.all + t.size < 512
  · rw [check_true (by simp only [decide_eq_true_eq]; omega)]
    have hall := seen.all_push t
    refine ⟨_, rfl, ?_, rfl⟩
    exact {
      kind := h.kind
      tokenCount := by
        rw [hall, List.length_append]
        exact congrArg (· + 1) h.tokenCount
      wordCount := by
        rw [hall, wordsOf_append]
        simp [ParseStream.behind, h.wordCount, wordsOf]
      paren := by
        obtain ⟨params, after⟩ := seen
        cases after <;> exact h.paren
      parameterWords := by
        obtain ⟨params, after⟩ := seen
        cases after with
        | none => exact fun hne => absurd rfl hne
        | some l => exact fun _ => h.parameterWords (Option.some_ne_none _)
      buffer := by rw [hall]
      outPos := by
        rw [hall, sizeOfTokens_append, ← Nat.add_assoc]
        rfl
      lastType := by
        intro t' ht'
        rw [hall, List.getLast?_concat] at ht'
        cases ht'
        exact hcode
      inLimit := by
        rw [hall, sizeOfTokens_append]
        exact hfit
      known := by
        intro t' ht'
        rw [hall, List.mem_append, List.mem_singleton] at ht'
        rcases ht' with ht' | rfl
        exacts [h.known t' ht', hknown] }
  · refine (check_ends (F := fun e => e = .classFormatError ∧ _) ⟨rfl, by omega⟩).bind ?_
    intro _ hcheck
    simp only [decide_eq_true_eq] at hcheck
    omega

theorem parseStep_nil (h : p.ps.current = []) : parseStep classes p = .ok none := by
  rw [parseStep, next, h]
  rfl

/-- The loop body, when there is a byte. -/
theorem parseStep_cons {byte : UInt8} {rest : List UInt8} (h : p.ps.current = byte :: rest) :
    parseStep classes p = (closeParen { p.ps with current := rest } byte >>= fun r =>
      nextToken classes r.1 r.2 >>= fun r' => storeToken { p with ps := r'.2 } r'.1) := by
  rw [parseStep, next, h]
  dsimp only
  cases closeParen { p.ps with current := rest } byte with
  | error e => rfl
  | ok r =>
    show (nextToken classes r.1 r.2 >>= _) >>= _ = nextToken classes r.1 r.2 >>= _
    cases nextToken classes r.1 r.2 <;> rfl

theorem Token.Spells.head {t : Token} {text : List UInt8} (h : t.Spells text) :
    ∃ byte rest, text = byte :: rest ∧ byte ≠ 41 ∧ byte ≠ 40 := by
  cases h with
  | void => exact ⟨_, _, rfl, by decide, by decide⟩
  | simple hc => exact ⟨_, _, rfl, (simple_not_digit hc).2.2.2.2.1, (simple_not_digit hc).2.2.2.2.2.1⟩
  | instances _ | array _ _ => exact ⟨_, _, rfl, by decide, by decide⟩

/-- The loop body, on the byte that starts a token. -/
theorem Parsed.token (h : Parsed classes junk m seen p) {t : Token} {text rest rest' : List UInt8}
    {byte : UInt8} (htext : t.Spells text) (hbytes : byte :: rest = text ++ rest')
    (hnamed : t.Named (Valid classes)) (hcur : p.ps.current = rest) :
    Ends (nextToken classes byte p.ps >>= fun r => storeToken { p with ps := r.2 } r.1)
      (fun e => e = .unresolved ∨
        e = .classFormatError ∧ 512 ≤ sizeOfTokens seen.all + t.size) fun r =>
      ∃ p', r = some p' ∧ Parsed classes junk m (seen.push t) p' ∧ p'.ps.current = rest' := by
  rw [← hcur] at hbytes
  refine ((nextToken_reads htext hbytes hnamed).mono (fun e he => .inl he) fun _ => id).bind ?_
  rintro ⟨type, ps'⟩ ⟨hcode, hps⟩
  dsimp only at hcode hps ⊢
  rw [hps]
  exact (h.stored hcode (Token.known_of_code htext hcode) rest').mono (fun e he => .inr he)
    fun _ => id

/-- **A token in front of the rest.** -/
theorem Parsed.step (h : Parsed classes junk m seen p) {t : Token} {text rest : List UInt8}
    (htext : t.Spells text) (hcur : p.ps.current = text ++ rest)
    (hnamed : t.Named (Valid classes)) :
    Ends (parseStep classes p) (fun e => e = .unresolved ∨
        e = .classFormatError ∧ 512 ≤ sizeOfTokens seen.all + t.size) fun r =>
      ∃ p', r = some p' ∧ Parsed classes junk m (seen.push t) p' ∧ p'.ps.current = rest := by
  obtain ⟨byte, tail, rfl, hparen, -⟩ := htext.head
  rw [parseStep_cons hcur, closeParen, if_neg hparen]
  have h' : Parsed classes junk m seen { p with ps := { p.ps with current := tail ++ rest } } :=
    { h with kind := h.kind }
  exact h'.token htext rfl hnamed rfl

/-- **A `)` and a token in front of the rest.** -/
theorem Parsed.closeStep (h : Parsed classes junk m seen p) (hopen : seen.after = none) {t : Token}
    {text rest : List UInt8} (htext : t.Spells text) (hcur : p.ps.current = 41 :: (text ++ rest))
    (hnamed : t.Named (Valid classes)) :
    Ends (parseStep classes p) (fun e => e = .unresolved ∨
        e = .classFormatError ∧ 512 ≤ sizeOfTokens seen.all + t.size) fun r =>
      ∃ p', r = some p' ∧ Parsed classes junk m (seen.close.push t) p' ∧ p'.ps.current = rest := by
  obtain ⟨byte, tail, rfl, -, -⟩ := htext.head
  have hparen := h.paren
  rw [hopen] at hparen
  have hclose : closeParen { p.ps with current := byte :: (tail ++ rest) } 41 = .ok (byte, { p.ps with
      current := tail ++ rest
      closeParenPosition := some p.ps.tokenCount
      parameterWordCount := p.ps.tokenWordCount }) := by
    rw [closeParen, if_pos rfl]
    simp only [hparen, Option.map_none]
    rfl
  rw [parseStep_cons hcur, List.cons_append, hclose]
  have h' := h.close hopen (tail ++ rest)
  have htoken := h'.token htext rfl hnamed rfl
  rwa [Seen.all_close hopen] at htoken

/-- A `)` at the end of the input. -/
theorem Parsed.dangling (h : Parsed classes junk m seen p) (hopen : seen.after = none)
    (hcur : p.ps.current = [41]) : parseStep classes p = .error .outside := by
  have hparen := h.paren
  rw [hopen] at hparen
  rw [parseStep_cons hcur, closeParen, if_pos rfl]
  simp only [hparen, Option.map_none]
  rfl

/-- **What the loop body can read.** -/
theorem Parsed.step_cases (h : Parsed classes junk m seen p) : Ends (parseStep classes p)
    (fun e => e = .outside → p.ps.current = [41] ∧ seen.after = none) fun r =>
      match r with
      | none => p.ps.current = []
      | some p' => ∃ (t : Token) (text : List UInt8), t.Spells text ∧ t.Named (Valid classes) ∧
        (p.ps.current = text ++ p'.ps.current ∧ Parsed classes junk m (seen.push t) p' ∨
          seen.after = none ∧ p.ps.current = 41 :: (text ++ p'.ps.current) ∧
            Parsed classes junk m (seen.close.push t) p') := by
  cases hcur : p.ps.current with
  | nil =>
    rw [parseStep_nil hcur]
    rfl
  | cons byte rest =>
    rw [parseStep_cons hcur, closeParen]
    -- The token that starts with `byte`, read with `)` behind or not.
    have hread : ∀ (seen' : Seen) (ps : ParseStream) (byte : UInt8),
        Parsed classes junk m seen' { p with ps := ps } →
        Ends (nextToken classes byte ps >>= fun r => storeToken { p with ps := r.2 } r.1)
          (· ≠ .outside) fun r => ∃ (t : Token) (text : List UInt8) (p' : Parsing), r = some p' ∧
            t.Spells text ∧ t.Named (Valid classes) ∧ byte :: ps.current = text ++ p'.ps.current ∧
            Parsed classes junk m (seen'.push t) p' := by
      intro seen' ps byte hps
      refine (nextToken_ends byte ps).bind ?_
      rintro ⟨type, ps'⟩ ⟨t, text, htext, hbytes, hnamed, hcode, hps'⟩
      dsimp only at hbytes hcode hps' ⊢
      rw [hps']
      refine (hps.stored hcode (Token.known_of_code htext hcode) ps'.current).mono ?_ ?_
      · rintro _ ⟨rfl, -⟩
        exact nofun
      · rintro _ ⟨p', rfl, hp', hcur'⟩
        exact ⟨t, text, p', rfl, htext, hnamed, by rw [hbytes, hcur'], hp'⟩
    split_ifs with hparen
    · dsimp only
      rw [h.paren]
      cases hafter : seen.after with
      | some l => exact nofun
      | none =>
        dsimp only [Option.map_none]
        cases rest with
        | nil => exact fun _ => ⟨by rw [hparen], rfl⟩
        | cons byte' rest =>
          refine (hread seen.close _ byte' (h.close hafter rest)).mono (fun e he he' => absurd he' he) ?_
          rintro _ ⟨t, text, p', rfl, htext, hnamed, hbytes, hp'⟩
          dsimp only at hbytes
          exact ⟨t, text, htext, hnamed, .inr ⟨rfl, by rw [hparen, hbytes], hp'⟩⟩
    · have h' : Parsed classes junk m seen { p with ps := { p.ps with current := rest } } :=
        { h with kind := h.kind }
      refine (hread seen _ byte h').mono (fun e he he' => absurd he' he) ?_
      rintro _ ⟨t, text, p', rfl, htext, hnamed, hbytes, hp'⟩
      exact ⟨t, text, htext, hnamed, .inl ⟨hbytes, hp'⟩⟩

/-! ## Runs of the loop -/

theorem parseLoop_none (h : parseStep classes p = .ok none) : parseLoop classes p = .ok p := by
  rw [parseLoop]
  split <;> simp_all

theorem parseLoop_some {p' : Parsing} (h : parseStep classes p = .ok (some p')) :
    parseLoop classes p = parseLoop classes p' := by
  rw [parseLoop]
  split <;> simp_all

theorem parseLoop_error {e : Failure} (h : parseStep classes p = .error e) :
    parseLoop classes p = .error e := by
  rw [parseLoop]
  split <;> simp_all

/-- The loop comes to a state in `Q`, unless a class cannot be made or `n` bytes are too many. -/
def Comes (classes : Classes) (p : Parsing) (n : Nat) (Q : Parsing → Prop) : Prop :=
  parseLoop classes p = .error .unresolved ∨
    parseLoop classes p = .error .classFormatError ∧ 512 ≤ n ∨
    ∃ p', parseLoop classes p = parseLoop classes p' ∧ Q p'

theorem Comes.step {Q : Parsing → Prop} {k n : Nat} (hkn : k ≤ n)
    (h : Ends (parseStep classes p) (fun e => e = .unresolved ∨ e = .classFormatError ∧ 512 ≤ k)
      fun r => ∃ p', r = some p' ∧ Comes classes p' n Q) : Comes classes p n Q := by
  cases hstep : parseStep classes p with
  | error e =>
    rw [hstep] at h
    rcases h with rfl | ⟨rfl, hk⟩
    · exact .inl (parseLoop_error hstep)
    · exact .inr (.inl ⟨parseLoop_error hstep, Nat.le_trans hk hkn⟩)
  | ok r =>
    rw [hstep] at h
    obtain ⟨p', rfl, h'⟩ := h
    unfold Comes at h' ⊢
    rwa [parseLoop_some hstep]

/-- All class names in the tokens are taken for valid. -/
def AllValid (classes : Classes) (toks : List Token) : Prop :=
  ∀ t ∈ toks, t.Named (Valid classes)

/-- **The loop reads tokens.** -/
theorem Parsed.texts (h : Parsed classes junk m seen p) {toks : List Token} {a : List UInt8}
    (rest : List UInt8) (htexts : Texts toks a) (hnamed : AllValid classes toks)
    (hcur : p.ps.current = a ++ rest) :
    Comes classes p (sizeOfTokens (seen.all ++ toks)) fun p' =>
      Parsed classes junk m (seen.pushAll toks) p' ∧ p'.ps.current = rest := by
  induction htexts generalizing seen p with
  | nil => exact .inr (.inr ⟨p, rfl, h, hcur⟩)
  | @cons t toks text a htext _ ih =>
    rw [List.append_assoc] at hcur
    refine Comes.step (k := sizeOfTokens seen.all + t.size) ?_
      ((h.step htext hcur (hnamed t (by simp))).mono (fun _ => id) ?_)
    · simp [sizeOfTokens]
    · rintro _ ⟨p', rfl, hp', hcur'⟩
      refine ⟨p', rfl, ?_⟩
      have := ih hp' (fun t ht => hnamed t (by simp [ht])) hcur'
      rwa [Seen.all_push, List.append_assoc] at this

/-- **The loop reads a `)` and tokens.** -/
theorem Parsed.textsBehind (h : Parsed classes junk m seen p) (hopen : seen.after = none)
    {toks : List Token} {b : List UInt8} (rest : List UInt8) (htexts : Texts toks b) (hne : toks ≠ [])
    (hnamed : AllValid classes toks) (hcur : p.ps.current = 41 :: (b ++ rest)) :
    Comes classes p (sizeOfTokens (seen.all ++ toks)) fun p' =>
      Parsed classes junk m (seen.close.pushAll toks) p' ∧ p'.ps.current = rest := by
  obtain - | @⟨t, toks, text, b, htext, htexts⟩ := htexts
  · exact absurd rfl hne
  · rw [List.append_assoc] at hcur
    refine Comes.step (k := sizeOfTokens seen.all + t.size) ?_
      ((h.closeStep hopen htext hcur (hnamed t (by simp))).mono (fun _ => id) ?_)
    · simp [sizeOfTokens]
    · rintro _ ⟨p', rfl, hp', hcur'⟩
      refine ⟨p', rfl, ?_⟩
      have := hp'.texts rest htexts (fun t ht => hnamed t (by simp [ht])) hcur'
      rwa [Seen.all_push, Seen.all_close hopen, List.append_assoc] at this

/-- What the loop has found in a text from `seen` on, if it ends with `seen'`. -/
def Found (classes : Classes) (seen : Seen) (bs : List UInt8) (seen' : Seen) : Prop :=
  (∃ toks, Texts toks bs ∧ AllValid classes toks ∧ seen' = seen.pushAll toks) ∨
    seen.after = none ∧ ∃ toks a toks' b, Texts toks a ∧ Texts toks' b ∧ toks' ≠ [] ∧
      AllValid classes (toks ++ toks') ∧ bs = a ++ 41 :: b ∧
      seen' = (seen.pushAll toks).close.pushAll toks'

theorem Found.cons {t : Token} {text bs : List UInt8} {seen' : Seen} (htext : t.Spells text)
    (hnamed : t.Named (Valid classes)) (h : Found classes (seen.push t) bs seen') :
    Found classes seen (text ++ bs) seen' := by
  rcases h with ⟨toks, htexts, hall, rfl⟩ | ⟨hopen, toks, a, toks', b, ha, hb, hne, hall, rfl, rfl⟩
  · exact .inl ⟨t :: toks, .cons htext htexts, by simpa [AllValid] using ⟨hnamed, hall⟩, rfl⟩
  · refine .inr ⟨?_, t :: toks, text ++ a, toks', b, .cons htext ha, hb, hne, ?_, by simp, rfl⟩
    · obtain ⟨params, after⟩ := seen
      cases after
      exacts [rfl, nomatch hopen]
    · simpa [AllValid] using ⟨hnamed, by simpa [AllValid] using hall⟩

theorem Found.consBehind {t : Token} {text bs : List UInt8} {seen' : Seen} (htext : t.Spells text)
    (hnamed : t.Named (Valid classes)) (hopen : seen.after = none)
    (h : Found classes (seen.close.push t) bs seen') :
    Found classes seen (41 :: (text ++ bs)) seen' := by
  rcases h with ⟨toks, htexts, hall, rfl⟩ | ⟨hclosed, -⟩
  · exact .inr ⟨hopen, [], [], t :: toks, _, .nil, .cons htext htexts, nofun,
      by simpa [AllValid] using ⟨hnamed, hall⟩, rfl, rfl⟩
  · nomatch hclosed

/-- A text that ends behind a `)`, with nothing but tokens in front. -/
def EndsOpen (classes : Classes) (seen : Seen) (bs : List UInt8) : Prop :=
  seen.after = none ∧ ∃ toks a, Texts toks a ∧ AllValid classes toks ∧ bs = a ++ [41] ∧
    sizeOfTokens (seen.all ++ toks) < 512

/-- **What the loop can read.** -/
theorem Parsed.loop (h : Parsed classes junk m seen p) : Ends (parseLoop classes p)
    (fun e => e = .outside → EndsOpen classes seen p.ps.current) fun p' => ∃ seen',
      Parsed classes junk m seen' p' ∧ Found classes seen p.ps.current seen' := by
  induction p using parseLoop.induct classes generalizing seen with
  | case1 p e hstep =>
    rw [parseLoop_error hstep]
    have hcases := h.step_cases
    rw [hstep] at hcases
    intro he
    obtain ⟨hcur, hopen⟩ := hcases he
    have hlimit := h.inLimit
    exact ⟨hopen, [], [], .nil, by simp [AllValid], hcur, by rwa [List.append_nil]⟩
  | case2 p hstep =>
    rw [parseLoop_none hstep]
    have hcases := h.step_cases
    rw [hstep] at hcases
    have hcur : p.ps.current = [] := hcases
    exact ⟨seen, h, .inl ⟨[], hcur ▸ .nil, by simp [AllValid], rfl⟩⟩
  | case3 p p' hstep ih =>
    rw [parseLoop_some hstep]
    have hcases := h.step_cases
    rw [hstep] at hcases
    obtain ⟨t, text, htext, hnamed, ⟨hcur, hp'⟩ | ⟨hopen, hcur, hp'⟩⟩ := hcases
    · refine (ih hp').mono (fun e he houtside => ?_) ?_
      · obtain ⟨hopen, toks, a, ha, hall, hbs, hsize⟩ := he houtside
        refine ⟨?_, t :: toks, text ++ a, .cons htext ha, ?_, by rw [hcur, hbs, List.append_assoc], ?_⟩
        · obtain ⟨params, after⟩ := seen
          cases after
          exacts [rfl, nomatch hopen]
        · simpa [AllValid] using ⟨hnamed, hall⟩
        · rwa [Seen.all_push, List.append_assoc] at hsize
      · rintro p'' ⟨seen', hseen', hfound⟩
        exact ⟨seen', hseen', hcur ▸ hfound.cons htext hnamed⟩
    · refine (ih hp').mono (fun e he houtside => ?_) ?_
      · nomatch (he houtside).1
      · rintro p'' ⟨seen', hseen', hfound⟩
        exact ⟨seen', hseen', hcur ▸ hfound.consBehind htext hnamed hopen⟩

end

end FroggyKVM.Symbols
