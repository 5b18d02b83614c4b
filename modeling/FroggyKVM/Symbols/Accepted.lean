/-
# FroggyKVM.Symbols.Accepted — which texts `internal_parse` accepts.

`Taken` is the language of the parser.  It is larger than that of descriptors: `V` may be a parameter,
a field may have a `)` in front, and class names are whatever `is_valid_class_name` takes; it is
smaller, too, since parameters and return type must fit into 511 bytes.
-/
import FroggyKVM.Symbols.Parse

namespace FroggyKVM.Symbols

/-- The tokens of a descriptor. -/
def Descriptor.tokens : Descriptor → List Token
  | .field t => [t]
  | .method params ret => ret :: params

/-- All classes of a descriptor have ids. -/
def Descriptor.Known (classes : Classes) (d : Descriptor) : Prop :=
  ∀ t ∈ d.tokens, t.Known classes

/-- The bytes of the symbol for a descriptor. -/
def Descriptor.symbol (classes : Classes) : Descriptor → List UInt8
  | .field t => t.bytes classes
  | .method params ret =>
    pairOf (encodeUshort (wordsOf params)) ++ (ret.bytes classes ++ encoded classes params)

/-- **The texts that are accepted.** -/
inductive Taken (classes : Classes) : List UInt8 → Descriptor → Prop
  | field {t : Token} {s : List UInt8} : t.Spells s → t ≠ .void → t.Named (Valid classes) →
    Taken classes s (.field t)
  | paren {t : Token} {a : List UInt8} : t.Spells a → t ≠ .void → t.Named (Valid classes) →
    Taken classes (41 :: a) (.field t)
  | method {params : List Token} {ret : Token} {a b : List UInt8} : Texts params a → ret.Spells b →
    AllValid classes (params ++ [ret]) → wordsOf params ≤ 255 →
    sizeOfTokens (params ++ [ret]) < 512 → Taken classes (40 :: (a ++ 41 :: b)) (.method params ret)

/-- A text that ends behind its first `)`: the parser looks for a token behind it. -/
inductive Dangling (classes : Classes) : List UInt8 → Prop
  | field {toks : List Token} {a : List UInt8} : toks ≠ [] → Texts toks a → AllValid classes toks →
    sizeOfTokens toks < 512 → Dangling classes (a ++ [41])
  | method {toks : List Token} {a : List UInt8} : toks ≠ [] → Texts toks a → AllValid classes toks →
    sizeOfTokens toks < 512 → Dangling classes (40 :: (a ++ [41]))

section

variable {classes : Classes} {junk : Nat → UInt8} {seen : Seen} {p : Parsing}

/-! ## Behind the loop -/

/-- The front of a text in a buffer. -/
theorem slice_front (b : Buffer UInt8) {i : Nat} {xs ys : List UInt8} (h : i + xs.length ≤ b.length) :
    access ((b.fill i (xs ++ ys)).slice i xs.length) = .ok xs := by
  rw [← b.fill_before, Buffer.slice_fill (by rwa [Buffer.fill_length])]
  rfl

theorem access_set {b : Buffer UInt8} {i : Nat} (h : i < b.length) (x : UInt8) :
    access (b.set i x) = .ok (b.fill i [x]) := by
  rw [Buffer.set_eq_fill h]
  rfl

theorem Parsed.isValid {m : Bool} (h : Parsed classes junk m seen p) :
    p.ps.isValidMethodSignature = true ↔
      seen.all = [] ∧ seen.after = none ∨ ∃ t, seen.after = some [t] := by
  rw [ParseStream.isValidMethodSignature, h.paren, h.tokenCount]
  obtain ⟨params, _ | l⟩ := seen
  · simp [Seen.all]
  · simp only [Seen.all, Option.map_some, Option.getD_some, List.length_append, beq_iff_eq,
      Option.some.injEq]
    rw [show (params.length + l.length = params.length + 1 ↔ l.length = 1) by omega,
      List.length_eq_one_iff]
    simp

/-- **The symbol of a method.** -/
theorem Parsed.finishMethod_ok {params : List Token} {ret : Token}
    (h : Parsed classes junk true ⟨params, some [ret]⟩ p) (hwords : wordsOf params ≤ 255) :
    finishMethod p = .ok (Descriptor.symbol classes (.method params ret)) := by
  have hvalid := h.isValid.mpr (.inr ⟨ret, rfl⟩)
  have hwords' := h.parameterWords nofun
  dsimp only at hwords'
  have hall : (Seen.mk params (some [ret])).all = params ++ [ret] := rfl
  have hcode := h.lastType ret (by rw [hall, List.getLast?_concat])
  have hknown := h.known ret (by simp [hall])
  have hlimit := h.inLimit
  have hbuffer := h.buffer
  have hout := h.outPos
  rw [hall, sizeOfTokens_append] at hlimit hout
  rw [hall] at hbuffer
  have hret : sizeOfTokens [ret] = ret.size := by simp [sizeOfTokens]
  rw [hret] at hlimit hout
  have hpair : (pairOf (encodeUshort (wordsOf params))).length = 2 := rfl
  -- The two texts in front, and the length of what is taken.
  have hslice : ∀ i, i + (2 + ret.size) = 4 → ∀ b : Buffer UInt8, b.length = 1024 →
      access (((b.fill 4 (encoded classes (params ++ [ret]))).fill (i + 2) (ret.bytes classes)).fill i
        (pairOf (encodeUshort (wordsOf params))) |>.slice i (4 + (sizeOfTokens params + ret.size) - ret.size - i)) =
        .ok (Descriptor.symbol classes (.method params ret)) := by
    intro i hi b hb
    have hsymbol : (Descriptor.symbol classes (.method params ret)).length =
        4 + (sizeOfTokens params + ret.size) - ret.size - i := by
      rw [Descriptor.symbol, List.length_append, List.length_append, hpair, length_encoded,
        ret.length_bytes]
      omega
    have h4 : 4 = i + 2 + (ret.bytes classes).length := by
      rw [ret.length_bytes]
      omega
    have hfront := b.fill_before (i + 2) (ret.bytes classes) (encoded classes (params ++ [ret]))
    rw [← h4] at hfront
    have hfront' := b.fill_before i (pairOf (encodeUshort (wordsOf params)))
      (ret.bytes classes ++ encoded classes (params ++ [ret]))
    rw [hpair] at hfront'
    rw [hfront, hfront', ← hsymbol]
    have hsplit : pairOf (encodeUshort (wordsOf params)) ++
        (ret.bytes classes ++ encoded classes (params ++ [ret])) =
        Descriptor.symbol classes (.method params ret) ++ ret.bytes classes := by
      simp [Descriptor.symbol, encoded]
    rw [hsplit]
    exact slice_front b (by rw [hsymbol, hb]; omega)
  unfold finishMethod
  rw [hwords']
  dsimp only
  rw [check_true (by simp [hvalid, hwords])]
  show (if p.lastType < 128 then _ else _ : Except Failure (List UInt8)) = _
  rcases Token.code_eq hcode hknown with ⟨hlt, hbytes, hsize⟩ | ⟨hle, hbytes, hsize⟩
  · have := hslice 1 (by omega) ⟨1024, junk⟩ rfl
    rw [if_pos hlt, hbuffer, access_set (show 3 < 1024 by decide), ← hbytes, ok_bind,
      putEncodedUshort_ok (show 1 + 2 ≤ 1024 by decide), ok_bind, hout]
    rw [hsize] at this ⊢
    exact this
  · have := hslice 0 (by omega) ⟨1024, junk⟩ rfl
    rw [if_neg (by omega), hbuffer, putEncodedUshort_ok (show 2 + 2 ≤ 1024 by decide), ← hbytes,
      ok_bind, putEncodedUshort_ok (show 0 + 2 ≤ 1024 by decide), ok_bind, hout]
    rw [hsize] at this ⊢
    exact this

/-- The symbol of a field. -/
theorem Parsed.finishField_ok {t : Token} (h : Parsed classes junk false seen p)
    (hall : seen.all = [t]) (hvoid : t ≠ .void) (htext : ∃ text, t.Spells text) :
    finishField p = .ok (Descriptor.symbol classes (.field t)) := by
  have hcount := h.tokenCount
  have hcode := h.lastType t (by rw [hall]; rfl)
  have hbuffer := h.buffer
  have hout := h.outPos
  rw [hall] at hcount hbuffer hout
  have hlast : p.lastType ≠ 86 := by
    intro hv
    rw [hv] at hcode
    obtain ⟨text, htext⟩ := htext
    cases htext with
    | void => exact hvoid rfl
    | simple hc =>
      have h86 := (simple_not_digit hc).2.2.2.1
      exact h86 (UInt8.toNat_inj.mp (Option.some.inj hcode))
    | instances _ | array _ _ =>
      obtain ⟨id, hid, heq⟩ := Option.map_eq_some_iff.mp hcode
      rw [encodeUshort_eq (classes.small _ _ hid)] at heq
      omega
  rw [finishField, hcount, check_true (by simp [hlast])]
  show access (p.buffer.slice 4 (p.outPos - 4)) = _
  have hsym : Descriptor.symbol classes (.field t) = encoded classes [t] := by
    simp [Descriptor.symbol, encoded]
  have hlen : p.outPos - 4 = (encoded classes [t]).length := by
    rw [hout, length_encoded]
    omega
  rw [hbuffer, hlen, hsym, Buffer.slice_fill]
  · rfl
  · have := h.inLimit
    rw [length_encoded, ← hall]
    show _ ≤ 1024
    omega

/-! ## From the start -/

/-- The variables of the loop at its start. -/
def startOf (junk : Nat → UInt8) (m : Bool) (current : List UInt8) : Parsing :=
  ⟨⟨current, m, 0, 0, 0, none⟩, ⟨1024, junk⟩, 4, 0⟩

theorem parsed_start (classes : Classes) (junk : Nat → UInt8) (m : Bool) (current : List UInt8) :
    Parsed classes junk m ⟨[], none⟩ (startOf junk m current) where
  kind := rfl
  tokenCount := rfl
  wordCount := rfl
  paren := rfl
  parameterWords h := absurd rfl h
  buffer := (Buffer.fill_nil _ _).symm
  outPos := rfl
  lastType := nofun
  inLimit := by decide
  known := nofun

theorem internalParse_field {c d : UInt8} {rest : List UInt8} (hc : c ≠ 40) :
    internalParse classes junk (c :: d :: rest) =
      (parseLoop classes (startOf junk false (c :: d :: rest)) >>= fun p =>
        if p.ps.isMethodSignature then finishMethod p else finishField p) := by
  have hstart : initializeStream (c :: d :: rest) = .ok ⟨c :: d :: rest, false, 0, 0, 0, none⟩ := by
    rw [initializeStream, nextChar]
    exact if_neg hc
  rw [internalParse, hstart]
  · rfl
  · exact nofun
  · exact nofun

theorem internalParse_method {c d : UInt8} {rest : List UInt8} :
    internalParse classes junk (40 :: c :: d :: rest) =
      (parseLoop classes (startOf junk true (c :: d :: rest)) >>= fun p =>
        if p.ps.isMethodSignature then finishMethod p else finishField p) := by
  have hstart : initializeStream (40 :: c :: d :: rest) =
      .ok ⟨c :: d :: rest, true, 0, 0, 0, none⟩ := by
    rw [initializeStream, nextChar]
    rw [ok_bind]
    dsimp only
    rw [if_pos rfl, check_true (by simp)]
    rfl
  rw [internalParse, hstart]
  · rfl
  · exact nofun
  · exact nofun

theorem texts_nil {a : List UInt8} (h : Texts [] a) : a = [] := by
  cases h
  rfl

theorem texts_single {t : Token} {a : List UInt8} : Texts [t] a ↔ t.Spells a := by
  constructor
  · rintro (_ | ⟨htext, hnil⟩)
    rw [texts_nil hnil, List.append_nil]
    exact htext
  · intro h
    exact List.append_nil a ▸ .cons h .nil

/-- What has been found in a whole text. -/
theorem Found.cases {bs : List UInt8} {seen' : Seen} (h : Found classes ⟨[], none⟩ bs seen') :
    (∃ toks, Texts toks bs ∧ AllValid classes toks ∧ seen' = ⟨toks, none⟩) ∨
      ∃ toks a toks' b, Texts toks a ∧ Texts toks' b ∧ toks' ≠ [] ∧ AllValid classes (toks ++ toks') ∧
        bs = a ++ 41 :: b ∧ seen' = ⟨toks, some toks'⟩ := by
  rcases h with ⟨toks, htexts, hall, rfl⟩ | ⟨_, toks, a, toks', b, ha, hb, hne, hall, hbs, rfl⟩
  · exact .inl ⟨toks, htexts, hall, by rw [Seen.pushAll_open rfl]; rfl⟩
  · refine .inr ⟨toks, a, toks', b, ha, hb, hne, hall, hbs, ?_⟩
    rw [Seen.pushAll_closed (l := []) rfl, Seen.pushAll_open rfl]
    rfl

/-- What `finishMethod` returns. -/
theorem Parsed.finishMethod_cases (rest : List UInt8)
    (h : Parsed classes junk true seen p) (hne : rest ≠ []) (hfound : Found classes ⟨[], none⟩ rest seen) :
    Ends (finishMethod p) (· ≠ .outside) fun sym => ∃ d, Taken classes (40 :: rest) d ∧
      d.Known classes ∧ sym = d.symbol classes := by
  by_cases hok : p.ps.isValidMethodSignature = true ∧ p.ps.parameterWordCount ≤ 255
  · rcases hfound.cases with ⟨toks, htexts, -, rfl⟩ | ⟨toks, a, toks', b, ha, hb, hne', hall, rfl, rfl⟩
    · rcases h.isValid.mp hok.1 with ⟨hnil, -⟩ | ⟨t, ht⟩
      · obtain rfl : toks = [] := by simpa [Seen.all] using hnil
        exact absurd (texts_nil htexts) hne
      · cases ht
    · rcases h.isValid.mp hok.1 with ⟨-, hnone⟩ | ⟨t, ht⟩
      · cases hnone
      · obtain rfl : toks' = [t] := Option.some.inj ht
        have hwords : wordsOf toks ≤ 255 := (h.parameterWords (Option.some_ne_none _)) ▸ hok.2
        rw [h.finishMethod_ok hwords]
        refine ⟨_, .method ha (texts_single.mp hb) hall hwords h.inLimit, ?_, rfl⟩
        intro t' ht'
        refine h.known t' ?_
        simp only [Descriptor.tokens, List.mem_cons] at ht'
        simp only [Seen.all, Option.getD_some, List.mem_append, List.mem_singleton]
        tauto
  · unfold finishMethod
    dsimp only
    refine (check_ends (F := (· ≠ .outside)) fun hc => by cases hc).bind fun _ hcheck => absurd ?_ hok
    simpa using hcheck

/-- What `finishField` returns. -/
theorem Parsed.finishField_cases {s : List UInt8} (h : Parsed classes junk false seen p)
    (hfound : Found classes ⟨[], none⟩ s seen) :
    Ends (finishField p) (· ≠ .outside) fun sym => ∃ d, Taken classes s d ∧
      d.Known classes ∧ sym = d.symbol classes := by
  by_cases hok : p.ps.tokenCount = 1 ∧ p.lastType ≠ 86
  · have hcount := h.tokenCount
    rw [hok.1] at hcount
    obtain ⟨t, ht⟩ := List.length_eq_one_iff.mp hcount.symm
    have hvoid : t ≠ .void := by
      rintro rfl
      exact hok.2 (Option.some.inj (h.lastType .void (by rw [ht]; rfl))).symm
    have hknown : (Descriptor.field t).Known classes := by
      intro t' ht'
      obtain rfl := List.mem_singleton.mp ht'
      exact h.known t' (by simp [ht])
    rcases hfound.cases with ⟨toks, htexts, hall, rfl⟩ | ⟨toks, a, toks', b, ha, hb, hne', hall, rfl, rfl⟩
    · obtain rfl : toks = [t] := by simpa [Seen.all] using ht
      have htext := texts_single.mp htexts
      rw [h.finishField_ok ht hvoid ⟨_, htext⟩]
      exact ⟨_, .field htext hvoid (hall t (by simp)), hknown, rfl⟩
    · have hsum : toks ++ toks' = [t] := ht
      rcases List.append_eq_singleton_iff.mp hsum with ⟨rfl, rfl⟩ | ⟨rfl, rfl⟩
      · obtain rfl := texts_nil ha
        have htext := texts_single.mp hb
        rw [h.finishField_ok ht hvoid ⟨_, htext⟩]
        exact ⟨_, .paren htext hvoid (hall t (by simp)), hknown, rfl⟩
      · exact absurd rfl hne'
  · unfold finishField
    refine (check_ends (F := (· ≠ .outside)) fun hc => by cases hc).bind fun _ hcheck => absurd ?_ hok
    simpa using hcheck

/-- A text of one byte. -/
theorem internalParse_byte (c : UInt8) : internalParse classes junk [c] =
    if isSimpleTypeSymbol c then .ok [c] else .error .classFormatError := rfl

/-- **What is accepted, and when the input is left.** -/
theorem internalParse_ends (classes : Classes) (junk : Nat → UInt8) (s : List UInt8) : Ends (internalParse classes junk s)
    (fun e => e = .outside → Dangling classes s) fun sym =>
      ∃ d, Taken classes s d ∧ d.Known classes ∧ sym = d.symbol classes := by
  match s with
  | [] => exact nofun
  | [c] =>
    rw [internalParse_byte]
    split_ifs with hc
    · refine ⟨.field (.simple c), .field (.simple hc) nofun trivial, ?_, rfl⟩
      intro t ht
      obtain rfl := List.mem_singleton.mp ht
      exact hc
    · exact nofun
  | c :: d :: rest =>
    by_cases hc : c = 40
    · subst hc
      cases rest with
      | nil => exact nofun
      | cons e rest =>
        rw [internalParse_method]
        refine ((parsed_start classes junk true (d :: e :: rest)).loop.mono ?_ fun _ => id).bind ?_
        · intro err herr houtside
          obtain ⟨-, toks, a, ha, hall, hbs, hsize⟩ := herr houtside
          have hbs : d :: e :: rest = a ++ [41] := hbs
          rw [hbs]
          refine .method ?_ ha hall hsize
          rintro rfl
          rw [texts_nil ha] at hbs
          nomatch hbs
        · rintro p ⟨seen, hp, hfound⟩
          rw [hp.kind]
          exact (hp.finishMethod_cases (d :: e :: rest) nofun hfound).mono (fun e he he' => absurd he' he) fun _ => id
    · rw [internalParse_field hc]
      refine ((parsed_start classes junk false (c :: d :: rest)).loop.mono ?_ fun _ => id).bind ?_
      · intro err herr houtside
        obtain ⟨-, toks, a, ha, hall, hbs, hsize⟩ := herr houtside
        have hbs : c :: d :: rest = a ++ [41] := hbs
        rw [hbs]
        refine .field ?_ ha hall hsize
        rintro rfl
        rw [texts_nil ha] at hbs
        nomatch hbs
      · rintro p ⟨seen, hp, hfound⟩
        rw [hp.kind]
        exact (hp.finishField_cases hfound).mono (fun e he he' => absurd he' he) fun _ => id

theorem Texts.ne_nil {toks : List Token} {a : List UInt8} (h : Texts toks a) (hne : toks ≠ []) :
    ∃ c rest, a = c :: rest ∧ c ≠ 40 ∧ c ≠ 41 := by
  cases h with
  | nil => exact absurd rfl hne
  | cons htext _ =>
    obtain ⟨byte, rest, rfl, h41, h40⟩ := htext.head
    exact ⟨byte, _, rfl, h40, h41⟩

/-- The loop at the end of the input. -/
theorem Comes.done {n : Nat} {Q : Parsing → Prop} (h : Comes classes p n Q) (hn : n < 512)
    (hcur : ∀ p', Q p' → p'.ps.current = []) :
    parseLoop classes p = .error .unresolved ∨ ∃ p', parseLoop classes p = .ok p' ∧ Q p' := by
  rcases h with h | ⟨-, h⟩ | ⟨p', h, hQ⟩
  · exact .inl h
  · omega
  · exact .inr ⟨p', h.trans (parseLoop_none (parseStep_nil (hcur p' hQ))), hQ⟩

/-- One run of the loop and then another. -/
theorem Comes.trans {n n' : Nat} {Q Q' : Parsing → Prop} (h : Comes classes p n Q) (hn : n ≤ n')
    (h' : ∀ p', Q p' → Comes classes p' n' Q') : Comes classes p n' Q' := by
  rcases h with h | ⟨h, hle⟩ | ⟨p', h, hQ⟩
  · exact .inl h
  · exact .inr (.inl ⟨h, Nat.le_trans hle hn⟩)
  · have := h' p' hQ
    unfold Comes at this ⊢
    rwa [h]

/-- The texts of one byte. -/
theorem Token.Spells.single {t : Token} {c : UInt8} (h : t.Spells [c]) :
    t = .void ∨ t = .simple c ∧ isSimpleTypeSymbol c = true := by
  generalize hs : [c] = s at h
  cases h with
  | void => exact .inl rfl
  | simple hc =>
    cases hs
    exact .inr ⟨rfl, hc⟩
  | @instances name _ =>
    have := congrArg List.length hs
    simp at this
  | array _ harray =>
    cases harray with
    | last _ htext => cases htext <;> simp at hs
    | more _ _ => simp at hs

theorem sizeOfTokens_single (t : Token) :
    sizeOfTokens ((Seen.mk [] none).all ++ [t]) < 512 := by
  cases t <;> simp [sizeOfTokens, Seen.all, Token.size]

/-- **A text of the language is accepted.** -/
theorem internalParse_taken (junk : Nat → UInt8) {s : List UInt8} {d : Descriptor} (h : Taken classes s d) :
    internalParse classes junk s = .error .unresolved ∨
      internalParse classes junk s = .ok (d.symbol classes) := by
  cases h with
  | @field t _ htext hvoid hnamed =>
    obtain ⟨c, rest, rfl, h41, h40⟩ := htext.head
    cases rest with
    | nil =>
      obtain rfl | ⟨rfl, hc⟩ := htext.single
      · exact absurd rfl hvoid
      · rw [internalParse_byte, if_pos hc]
        exact .inr rfl
    | cons c' rest =>
      rw [internalParse_field h40]
      have hrun := (parsed_start classes junk false (c :: c' :: rest)).texts []
        (texts_single.mpr htext) (by simpa [AllValid] using hnamed)
        (List.append_nil _).symm
      rcases hrun.done (sizeOfTokens_single t) fun _ h => h.2 with h | ⟨p, hp, hparsed, -⟩
      · rw [h]
        exact .inl rfl
      · rw [hp, ok_bind, hparsed.kind]
        exact .inr (hparsed.finishField_ok (Seen.all_pushAll _ _) hvoid ⟨_, htext⟩)
  | @paren t a htext hvoid hnamed =>
    obtain ⟨c, rest, rfl, h41, h40⟩ := htext.head
    rw [internalParse_field (by decide)]
    have hrun := (parsed_start classes junk false (41 :: c :: rest)).textsBehind
      rfl [] (texts_single.mpr htext) (fun hc => by cases hc) (by simpa [AllValid] using hnamed)
      (by simp [startOf])
    rcases hrun.done (sizeOfTokens_single t) fun _ h => h.2 with h | ⟨p, hp, hparsed, -⟩
    · rw [h]
      exact .inl rfl
    · rw [hp, ok_bind, hparsed.kind]
      exact .inr (hparsed.finishField_ok (Seen.all_pushAll _ _) hvoid ⟨_, htext⟩)
  | @method params ret a b ha hb hall hwords hsize =>
    obtain ⟨c, d, rest, hab⟩ : ∃ c d rest, a ++ 41 :: b = c :: d :: rest := by
      obtain ⟨c, b', rfl, -⟩ := hb.head
      cases a with
      | nil => exact ⟨_, _, _, rfl⟩
      | cons x a => cases a <;> exact ⟨_, _, _, rfl⟩
    have hparams := (parsed_start classes junk true (a ++ 41 :: b)).texts (41 :: b) ha
      (fun t ht => hall t (by simp [ht])) rfl
    have hrun : Comes classes (startOf junk true (a ++ 41 :: b)) (sizeOfTokens (params ++ [ret]))
        fun p' => Parsed classes junk true ⟨params, some [ret]⟩ p' ∧ p'.ps.current = [] := by
      refine hparams.trans (by simp [Seen.all, sizeOfTokens]) fun p hp => ?_
      rw [Seen.pushAll_open rfl] at hp
      have := hp.1.textsBehind rfl [] (texts_single.mpr hb) (fun hc => by cases hc)
        (fun t ht => hall t (by simp [List.mem_singleton.mp ht])) (by simpa using hp.2)
      rw [Seen.pushAll_closed (l := []) rfl] at this
      simpa [Seen.all, Seen.close] using this
    rcases hrun.done hsize fun _ h => h.2 with h | ⟨p, hp, hparsed, -⟩
    · rw [hab] at h ⊢
      rw [internalParse_method, h]
      exact .inl rfl
    · rw [hab] at hp ⊢
      rw [internalParse_method, hp, ok_bind, hparsed.kind]
      exact .inr (hparsed.finishMethod_ok hwords)

/-- **A text that ends behind its first `)` makes the parser leave the input.** -/
theorem internalParse_dangling {s : List UInt8} (h : Dangling classes s) :
    internalParse classes junk s = .error .unresolved ∨
      internalParse classes junk s = .error .outside := by
  -- The loop comes to the `)`.
  have hrun : ∀ (m : Bool) {toks : List Token} {a : List UInt8}, Texts toks a →
      AllValid classes toks → sizeOfTokens toks < 512 →
      parseLoop classes (startOf junk m (a ++ [41])) = .error .unresolved ∨
        parseLoop classes (startOf junk m (a ++ [41])) = .error .outside := by
    intro m toks a ha hall hsize
    rcases (parsed_start classes junk m (a ++ [41])).texts [41] ha hall rfl with
      h | ⟨-, h⟩ | ⟨p, hp, hparsed, hcur⟩
    · exact .inl h
    · simp only [Seen.all, List.nil_append, Option.getD_none] at h
      omega
    · have hopen : (Seen.pushAll ⟨[], none⟩ toks).after = none := by rw [Seen.pushAll_open rfl]
      exact .inr (hp.trans (parseLoop_error (hparsed.dangling hopen hcur)))
  cases h with
  | @field toks a hne ha hall hsize =>
    obtain ⟨c, rest, rfl, h40, -⟩ := ha.ne_nil hne
    obtain ⟨d, rest', hrest⟩ : ∃ d rest', rest ++ [41] = d :: rest' := by
      cases rest <;> exact ⟨_, _, rfl⟩
    have h := hrun false ha hall hsize
    rw [List.cons_append, hrest] at h ⊢
    rw [internalParse_field h40]
    rcases h with h | h <;> rw [h]
    exacts [.inl rfl, .inr rfl]
  | @method toks a hne ha hall hsize =>
    obtain ⟨c, rest, rfl, -, -⟩ := ha.ne_nil hne
    obtain ⟨d, rest', hrest⟩ : ∃ d rest', rest ++ [41] = d :: rest' := by
      cases rest <;> exact ⟨_, _, rfl⟩
    have h := hrun true ha hall hsize
    rw [List.cons_append, hrest] at h ⊢
    rw [internalParse_method]
    rcases h with h | h <;> rw [h]
    exacts [.inl rfl, .inr rfl]

end

end FroggyKVM.Symbols
