/-
# FroggyKVM.Symbols.Decoding — from the bytes of a symbol back to the types.

A `SignatureStream` over the symbol of a method yields its parameters with their word indices, and
then the return type; symbols of different types differ.  **Parsing is exact except for five kinds of
texts**: those that end behind the first `)`, fields with a `)` in front, methods with a parameter `V`,
names that are no class names but taken for valid, and methods with 255 parameters and a return type
that are all classes.
-/
import FroggyKVM.Symbols.Accepted

namespace FroggyKVM.Symbols

/-! ## What a stream should yield -/

/-- The basic type of a type; with `fast`, arrays count as objects. -/
def Token.basicType (fast : Bool) : Token → BasicType
  | .void => .void
  | .simple c =>
    if c = 66 then .byte
    else if c = 67 then .char
    else if c = 68 then .double
    else if c = 70 then .float
    else if c = 73 then .int
    else if c = 74 then .long
    else if c = 83 then .short
    else .boolean
  | .ofClass c => if fast || c.isInstanceClass then .object else .array

def Token.classId (classes : Classes) : Token → Option Nat
  | .ofClass c => classes.classId c
  | _ => none

/-- The parameters with their word indices, from `i` on. -/
def parametersFrom (classes : Classes) (fast : Bool) :
    Nat → List Token → List (Nat × BasicType × Option Nat)
  | _, [] => []
  | i, t :: toks => (i, t.basicType fast, t.classId classes) ::
    parametersFrom classes fast (i + t.words) toks

section

variable {classes : Classes} {junk : Nat → UInt8} {fast : Bool}

/-! ## Reading a symbol -/

theorem byteAt_append (front : List UInt8) (b : UInt8) (back : List UInt8) :
    byteAt (front ++ b :: back) front.length = .ok b := by
  rw [byteAt, List.getElem?_append_right (Nat.le_refl _), Nat.sub_self]
  rfl

theorem decodeUshort_digits {a b : Nat} (ha : a < 128) (hb : b < 128) :
    (((UInt8.ofNat (a + 128)).toNat &&& 0x7f) <<< 7) |||
      ((UInt8.ofNat (b + 128)).toNat &&& 0x7f) = a * 128 + b := by
  have hdigit : ∀ a < 128, (UInt8.ofNat (a + 128)).toNat &&& 0x7f = a := by decide
  rw [hdigit a ha, hdigit b hb, ← Nat.shiftLeft_add_eq_or_of_lt (show b < 2 ^ 7 by omega),
    Nat.shiftLeft_eq]

/-- **An encoded number can be read back.** -/
theorem decodeUshortAt_append (front : List UInt8) {n : Nat} (h : n < 2 ^ 14) (back : List UInt8) :
    decodeUshortAt (front ++ (pairOf (encodeUshort n) ++ back)) front.length = .ok n := by
  have hdigits := decodeUshort_digits (show n / 128 < 128 by omega) (show n % 128 < 128 by omega)
  rw [Nat.div_add_mod' n 128] at hdigits
  rw [pairOf_encodeUshort h, decodeUshortAt]
  have hhi := byteAt_append front (UInt8.ofNat (n / 128 + 128)) (UInt8.ofNat (n % 128 + 128) :: back)
  have hlo := byteAt_append (front ++ [UInt8.ofNat (n / 128 + 128)]) (UInt8.ofNat (n % 128 + 128)) back
  rw [List.append_assoc, List.length_append, List.length_singleton] at hlo
  simp only [List.cons_append, List.nil_append] at hhi hlo ⊢
  rw [hhi, ok_bind, hlo, ok_bind, hdigits]

/-- What stands at a position of a symbol: a letter, or the id of a class. -/
inductive Stands (classes : Classes) (fast : Bool) (t : Token) (symbol : List UInt8) (i : Nat) : Prop
  | letter {c : UInt8} : byteAt symbol i = .ok c → c < 0x80 →
    primitiveFieldBasicTypeFor c.toNat = .ok (t.basicType fast) → t.classId classes = none →
    t.size = 1 → Stands classes fast t symbol i
  | id {c : UInt8} {id : Nat} : byteAt symbol i = .ok c → ¬ c < 0x80 →
    decodeUshortAt symbol i = .ok id → classType classes fast id = t.basicType fast →
    t.classId classes = some id → t.size = 2 → Stands classes fast t symbol i

/-- **The bytes of a token, in a symbol.** -/
theorem Token.stands (t : Token) (fast : Bool) (h : t.Known classes) (front back : List UInt8) :
    Stands classes fast t (front ++ (t.bytes classes ++ back)) front.length := by
  cases t with
  | void => exact .letter (byteAt_append front 86 back) (by decide) rfl rfl rfl
  | simple c =>
    have hat := byteAt_append front c back
    simp only [Known, isSimpleTypeSymbol, List.contains_cons, List.contains_nil, Bool.or_false,
      Bool.or_eq_true, beq_iff_eq] at h
    rcases h with rfl | rfl | rfl | rfl | rfl | rfl | rfl | rfl <;>
      exact .letter hat (by decide) rfl rfl rfl
  | ofClass c =>
    obtain ⟨id, hid⟩ := Option.isSome_iff_exists.mp h
    have hlt := classes.small c id hid
    have hbytes : (ofClass c).bytes classes = pairOf (encodeUshort id) := by simp [bytes, hid]
    have hpair := pairOf_encodeUshort hlt
    have hat : byteAt (front ++ ((ofClass c).bytes classes ++ back)) front.length =
        .ok (UInt8.ofNat (id / 128 + 128)) := by
      rw [hbytes, hpair]
      exact byteAt_append front _ _
    have hge : ¬ UInt8.ofNat (id / 128 + 128) < 0x80 := by
      rw [UInt8.lt_iff_toNat_lt, UInt8.toNat_ofNat']
      show ¬ _ < 128
      omega
    refine .id hat hge (hbytes ▸ decodeUshortAt_append front hlt back) ?_ hid rfl
    rw [classType, classes.isInstanceClass_id c id hid]
    cases fast <;> cases hc : c.isInstanceClass <;> simp [basicType, hc]

/-- The words of a parameter are those of its basic type. -/
theorem Token.wordSize (fast : Bool) {t : Token} (h : t.Known classes) (hvoid : t ≠ .void) :
    wordSizeFor (t.basicType fast) = .ok t.words := by
  cases t with
  | void => exact absurd rfl hvoid
  | simple c =>
    simp only [Known, isSimpleTypeSymbol, List.contains_cons, List.contains_nil, Bool.or_false,
      Bool.or_eq_true, beq_iff_eq] at h
    rcases h with rfl | rfl | rfl | rfl | rfl | rfl | rfl | rfl <;> rfl
  | ofClass c => cases fast <;> cases hc : c.isInstanceClass <;> simp [basicType, hc, words, wordSizeFor]

theorem Token.words_pos (t : Token) : 0 < t.words := by
  cases t with
  | simple c =>
    by_cases hc : c = 74 ∨ c = 68 <;> simp [words, hc]
  | _ => exact Nat.one_pos

/-! ## The stream -/

/-- Where a stream stands between the parameters `done` and `rest` of a method; `index` is the word
index of what comes next. -/
structure Between (params : List Token) (ret : Token) (done rest : List Token) (index : Nat)
    (ss : SignatureStream) : Prop where
  all : params = done ++ rest
  numParamWords : ss.numParamWords = wordsOf params
  position : ss.position = 2 + ret.size + sizeOfTokens done
  processed : ss.numParamWordsProcessed = wordsOf done
  index : ∃ size, wordSizeFor ss.type = .ok size ∧ ss.wordIndex + size = index

/-- The stream behind all parameters. -/
structure AtReturn (ret : Token) (fast : Bool) (index : Nat) (ss : SignatureStream) : Prop where
  isReturnType : ss.isReturnType = true
  type : ss.type = ret.basicType fast
  index : ss.wordIndex = index

theorem returnType_eq {params : List Token} {ret : Token} (hret : ret.Known classes) :
    returnType classes fast (Descriptor.symbol classes (.method params ret)) =
      .ok (ret.basicType fast) := by
  obtain ⟨hat, hlt, htype, -, -⟩ | ⟨hat, hge, hid, htype, -, -⟩ := ret.stands fast hret
    (pairOf (encodeUshort (wordsOf params))) (encoded classes params)
  · rw [returnType, Descriptor.symbol, show byteAt _ 2 = _ from hat, ok_bind, if_pos hlt, htype]
  · rw [returnType, Descriptor.symbol, show byteAt _ 2 = _ from hat, ok_bind, if_neg hge,
      show decodeUshortAt _ 2 = _ from hid, ok_bind, htype]

/-- `next` at the end of the parameters. -/
theorem Between.next_return {params done : List Token} {ret : Token} {index : Nat}
    {ss : SignatureStream} (h : Between params ret done [] index ss) (hret : ret.Known classes) :
    ∃ ss', ss.next classes fast (Descriptor.symbol classes (.method params ret)) = .ok ss' ∧
      ss'.eos = true ∧ AtReturn ret fast index ss' := by
  obtain ⟨size, hsize, hindex⟩ := h.index
  have hall : done = params := by rw [h.all, List.append_nil]
  have hprocessed := h.processed
  rw [hall] at hprocessed
  refine ⟨{ ss with
    wordIndex := ss.wordIndex + size
    isReturnType := true
    type := ret.basicType fast
    numParamWordsProcessed := ss.numParamWordsProcessed + 1 }, ?_, ?_, rfl, rfl, hindex⟩
  · rw [SignatureStream.next, hsize, ok_bind]
    dsimp only
    rw [if_neg (by rw [hprocessed, h.numParamWords]; exact Nat.lt_irrefl _), returnType_eq hret,
      ok_bind]
  · simp [SignatureStream.eos, hprocessed, h.numParamWords]

/-- `next` in front of a parameter. -/
theorem Between.next_parameter {params done rest : List Token} {t ret : Token} {index : Nat}
    {ss : SignatureStream} (h : Between params ret done (t :: rest) index ss)
    (ht : t.Known classes) (hvoid : t ≠ .void) :
    ∃ ss', ss.next classes fast (Descriptor.symbol classes (.method params ret)) = .ok ss' ∧
      ss'.item = (index, t.basicType fast, t.classId classes) ∧ ss'.eos = false ∧
      Between params ret (done ++ [t]) rest (index + t.words) ss' := by
  obtain ⟨size, hsize, hindex⟩ := h.index
  have hword := Token.wordSize fast ht hvoid
  have hwords : wordsOf params = wordsOf done + (t.words + wordsOf rest) := by
    rw [h.all, wordsOf_append]
    rfl
  have hpos := t.words_pos
  have hmore : ss.numParamWordsProcessed < ss.numParamWords := by
    rw [h.processed, h.numParamWords, hwords]
    omega
  have hsymbol : Descriptor.symbol classes (.method params ret) =
      (pairOf (encodeUshort (wordsOf params)) ++ ret.bytes classes ++ encoded classes done) ++
        (t.bytes classes ++ encoded classes rest) := by
    simp [Descriptor.symbol, encoded, h.all]
  have hlength : (pairOf (encodeUshort (wordsOf params)) ++ ret.bytes classes ++
      encoded classes done).length = ss.position := by
    rw [h.position, List.length_append, List.length_append, ret.length_bytes, length_encoded]
    rfl
  have hstands := t.stands fast ht (pairOf (encodeUshort (wordsOf params)) ++
    ret.bytes classes ++ encoded classes done) (encoded classes rest)
  rw [← hsymbol, hlength] at hstands
  -- What the new stream shows of its place.
  have hbetween : ∀ ss' : SignatureStream, ss'.numParamWords = ss.numParamWords →
      ss'.position = ss.position + t.size → ss'.type = t.basicType fast → ss'.wordIndex = index →
      ss'.numParamWordsProcessed = ss.numParamWordsProcessed + t.words →
      ss'.eos = false ∧ Between params ret (done ++ [t]) rest (index + t.words) ss' := by
    intro ss' hnum hposition htype hindex' hprocessed
    refine ⟨?_, ?_, ?_, ?_, ?_, t.words, ?_, by rw [hindex']⟩
    · simp only [SignatureStream.eos, hnum, hprocessed, h.processed, h.numParamWords, hwords,
        decide_eq_false_iff_not]
      omega
    · rw [h.all, List.append_assoc, List.singleton_append]
    · rw [hnum, h.numParamWords]
    · rw [hposition, h.position, sizeOfTokens_append]
      simp [sizeOfTokens, Nat.add_assoc]
    · rw [hprocessed, h.processed, wordsOf_append]
      simp [wordsOf]
    · rw [htype, hword]
  rw [SignatureStream.next, hsize, ok_bind]
  dsimp only
  rw [if_pos hmore]
  obtain ⟨hat, hlt, htype, hclass, hone⟩ | ⟨hat, hge, hid, htype, hclass, htwo⟩ := hstands
  · rw [hat, ok_bind, if_pos hlt, htype, ok_bind, hword, ok_bind]
    refine ⟨_, rfl, ?_, hbetween _ rfl (by rw [hone]) rfl hindex rfl⟩
    have hnot : ¬ (t.basicType fast = .object ∨ t.basicType fast = .array) := by
      cases t with
      | void => simp [Token.basicType]
      | simple c =>
        unfold Token.basicType
        dsimp only
        split_ifs <;> simp
      | ofClass c => cases hone
    rw [SignatureStream.item, if_neg hnot, hclass]
    exact congrArg (·, _) hindex
  · rw [hat, ok_bind, if_neg hge, hid, ok_bind, htype, hword, ok_bind]
    refine ⟨_, rfl, ?_, hbetween _ rfl (by rw [htwo]) rfl hindex rfl⟩
    have hobj : t.basicType fast = .object ∨ t.basicType fast = .array := by
      cases t with
      | void | simple c => cases htwo
      | ofClass c =>
        unfold Token.basicType
        dsimp only
        split_ifs <;> simp
    rw [SignatureStream.item, if_pos hobj, hclass]
    exact congrArg (·, _) hindex

/-- **The loop over the stream ends behind the parameters.** -/
theorem Between.run {params done rest : List Token} {ret : Token} {index : Nat}
    {ss : SignatureStream} (h : Between params ret done rest index ss) (fast : Bool)
    (hret : ret.Known classes) (hrest : ∀ t ∈ rest, t.Known classes ∧ t ≠ .void) :
    ∃ ss' end', ss.next classes fast (Descriptor.symbol classes (.method params ret)) = .ok ss' ∧
      AtReturn ret fast (index + wordsOf rest) end' ∧ ∀ fuel, rest.length < fuel →
        ss'.run classes fast (Descriptor.symbol classes (.method params ret)) fuel =
          .ok (some (parametersFrom classes fast index rest, end')) := by
  induction rest generalizing done index ss with
  | nil =>
    obtain ⟨ss', hnext, heos, hend⟩ := h.next_return hret
    refine ⟨ss', ss', hnext, hend, fun fuel hfuel => ?_⟩
    obtain ⟨fuel, rfl⟩ := Nat.exists_eq_succ_of_ne_zero (Nat.ne_of_gt hfuel)
    rw [SignatureStream.run, if_pos heos]
    rfl
  | cons t rest ih =>
    obtain ⟨ht, hvoid⟩ := hrest t (by simp)
    obtain ⟨ss', hnext, hitem, heos, hbetween⟩ := h.next_parameter ht hvoid
    obtain ⟨ss'', end', hnext', hend, hrun⟩ := ih hbetween fun t' ht' => hrest t' (by simp [ht'])
    refine ⟨ss', end', hnext, ?_, fun fuel hfuel => ?_⟩
    · rw [show wordsOf (t :: rest) = t.words + wordsOf rest from rfl, ← Nat.add_assoc]
      exact hend
    · obtain ⟨fuel, rfl⟩ := Nat.exists_eq_succ_of_ne_zero (Nat.ne_of_gt (Nat.zero_lt_of_lt hfuel))
      rw [List.length_cons] at hfuel
      rw [SignatureStream.run, if_neg (by simp [heos]), hnext', ok_bind, hrun fuel (by omega), ok_bind,
        hitem]
      rfl

/-- What `SignatureStream` should do with the symbol of a method: yield the receiver if there is one,
the parameters, and then the return type. -/
def Streams (classes : Classes) (symbol : List UInt8) (params : List Token) (ret : Token) : Prop :=
  ∀ isStatic fast : Bool, ∃ fuel ss end',
    openStream classes isStatic fast symbol = .ok ss ∧
    ss.run classes fast symbol fuel = .ok (some (
      (if isStatic then parametersFrom classes fast 0 params
        else (0, .object, none) :: parametersFrom classes fast 1 params), end')) ∧
    AtReturn ret fast ((if isStatic then 0 else 1) + wordsOf params) end' ∧
    ∀ id, ret.classId classes = some id → decodeUshortAt symbol 2 = .ok id

theorem streams_symbol {params : List Token} {ret : Token}
    (hret : ret.Known classes) (hparams : ∀ t ∈ params, t.Known classes ∧ t ≠ .void)
    (hwords : wordsOf params ≤ 255) :
    Streams classes (Descriptor.symbol classes (.method params ret)) params ret := by
  intro isStatic fast
  have hnum : decodeUshortAt (Descriptor.symbol classes (.method params ret)) 0 =
      .ok (wordsOf params) := decodeUshortAt_append [] (by omega) _
  have hstands := ret.stands fast hret (pairOf (encodeUshort (wordsOf params)))
    (encoded classes params)
  have hclass : ∀ id, ret.classId classes = some id →
      decodeUshortAt (Descriptor.symbol classes (.method params ret)) 2 = .ok id := by
    intro id hid
    obtain ⟨-, -, -, hnone, -⟩ | ⟨-, -, hat, -, hclass, -⟩ := hstands
    · rw [hnone] at hid
      nomatch hid
    · cases hid.symm.trans hclass
      exact hat
  -- The stream before anything is read, for a receiver or for none.
  have hopen : ∃ chr, byteAt (Descriptor.symbol classes (.method params ret)) 2 = .ok chr ∧
      ∀ type size, wordSizeFor type = .ok size →
        Between params ret [] params size ⟨wordsOf params, 2 + if chr < 128 then 1 else 2, 0, 0, false, type, none⟩ := by
    obtain ⟨hat, hlt, -, -, hone⟩ | ⟨hat, hge, -, -, -, htwo⟩ := hstands
    · exact ⟨_, hat, fun type size hsize => ⟨rfl, rfl, by simp [hone, hlt, sizeOfTokens], rfl, size,
        hsize, Nat.zero_add size⟩⟩
    · exact ⟨_, hat, fun type size hsize => ⟨rfl, rfl, by simp [htwo, hge, sizeOfTokens], rfl, size,
        hsize, Nat.zero_add size⟩⟩
  obtain ⟨chr, hchr, hstart⟩ := hopen
  rw [openStream, hnum, ok_bind, hchr, ok_bind]
  cases isStatic with
  | true =>
    obtain ⟨ss', end', hnext, hend, hrun⟩ := (hstart .void 0 rfl).run fast hret hparams
    exact ⟨params.length + 1, ss', end', hnext, hrun _ (Nat.lt_succ_self _), hend, hclass⟩
  | false =>
    obtain ⟨ss', end', hnext, hend, hrun⟩ := (hstart .object 1 rfl).run fast hret hparams
    refine ⟨params.length + 2, _, end', rfl, ?_, hend, hclass⟩
    rw [SignatureStream.run, if_neg (by simp [SignatureStream.eos]), hnext, ok_bind,
      hrun _ (Nat.lt_succ_self _), ok_bind]
    rfl

/-! ## Symbols of different types differ -/

theorem Token.bytes_ne_nil (t : Token) : t.bytes classes ≠ [] := by
  cases t <;> exact nofun

/-- Two tokens whose bytes start two texts alike. -/
theorem Token.eq_of_stands {t t' : Token} (h : t.Known classes) (h' : t'.Known classes)
    (back back' : List UInt8) (heq : t.bytes classes ++ back = t'.bytes classes ++ back') :
    t = t' := by
  have hs := t.stands true h [] back
  have hs' := t'.stands true h' [] back'
  rw [List.nil_append] at hs hs'
  rw [heq] at hs
  obtain ⟨hat, hlt, htype, -, hone⟩ | ⟨hat, hge, hid, -, hclass, htwo⟩ := hs <;>
    obtain ⟨hat', hlt', htype', -, hone'⟩ | ⟨hat', hge', hid', -, hclass', htwo'⟩ := hs' <;>
    cases hat.symm.trans hat'
  · have hhead : ∀ t : Token, t.size = 1 → ∃ c, t.bytes classes = [c] ∧
        (t = .void ∧ c = 86 ∨ t = .simple c) := by
      intro t ht
      cases t with
      | void => exact ⟨86, rfl, .inl ⟨rfl, rfl⟩⟩
      | simple c => exact ⟨c, rfl, .inr rfl⟩
      | ofClass c => nomatch ht
    obtain ⟨c, hc, hct⟩ := hhead t hone
    obtain ⟨c', hc', hct'⟩ := hhead t' hone'
    rw [hc, hc'] at heq
    obtain rfl := (List.cons.inj heq).1
    rcases hct with ⟨rfl, rfl⟩ | rfl <;> rcases hct' with ⟨rfl, h86⟩ | rfl
    · rfl
    · nomatch h'
    · subst h86
      nomatch h
    · rfl
  · exact absurd hlt hge'
  · exact absurd hlt' hge
  · cases hid.symm.trans hid'
    cases t with
    | void | simple c => nomatch htwo
    | ofClass c =>
      cases t' with
      | void | simple c' => nomatch htwo'
      | ofClass c' => rw [classes.distinct c c' _ hclass hclass']

/-- The tokens that have bytes of their own. -/
theorem prefixFree_bytes : Codewords.PrefixFree fun t : { t : Token // t.Known classes } =>
    t.1.bytes classes where
  ne_nil t := t.1.bytes_ne_nil
  unique := by
    rintro ⟨t, ht⟩ ⟨t', ht'⟩ ⟨back, hback⟩
    exact Subtype.ext (Token.eq_of_stands ht ht' back []
      (by rw [List.append_nil]; exact hback))

theorem encoded_injective {l l' : List Token} (h : ∀ t ∈ l, t.Known classes)
    (h' : ∀ t ∈ l', t.Known classes) (heq : encoded classes l = encoded classes l') : l = l' := by
  lift l to List { t : Token // t.Known classes } using h
  lift l' to List { t : Token // t.Known classes } using h'
  rw [encoded, encoded, List.flatMap_map, List.flatMap_map] at heq
  rw [prefixFree_bytes.flatMap_injective heq]

/-- **The symbol tells the type.** -/
theorem symbol_injective {d d' : Descriptor} (h : d.Known classes) (h' : d'.Known classes)
    (heq : d.symbol classes = d'.symbol classes) : d = d' := by
  have hlength : ∀ t : Token, (t.bytes classes).length ≤ 2 ∧ 0 < (t.bytes classes).length := by
    intro t
    rw [t.length_bytes]
    cases t <;> exact ⟨by simp [Token.size], by simp [Token.size]⟩
  have hlen := congrArg List.length heq
  cases d with
  | field t =>
    cases d' with
    | field t' =>
      rw [Token.eq_of_stands (h t (by simp [Descriptor.tokens])) (h' t' (by simp [Descriptor.tokens]))
        [] [] (by simpa [Descriptor.symbol] using heq)]
    | method params ret =>
      have h₁ := hlength t
      have h₂ := hlength ret
      simp only [Descriptor.symbol, List.length_append, pairOf, List.length_cons,
        List.length_nil] at hlen
      omega
  | method params ret =>
    cases d' with
    | field t =>
      have h₁ := hlength t
      have h₂ := hlength ret
      simp only [Descriptor.symbol, List.length_append, pairOf, List.length_cons,
        List.length_nil] at hlen
      omega
    | method params' ret' =>
      have hback := (List.append_inj heq rfl).2
      obtain rfl := Token.eq_of_stands (h ret (by simp [Descriptor.tokens]))
        (h' ret' (by simp [Descriptor.tokens])) _ _ hback
      rw [encoded_injective (fun t ht => h t (by simp [Descriptor.tokens, ht]))
        (fun t ht => h' t (by simp [Descriptor.tokens, ht])) (List.append_cancel_left hback)]

/-! ## Exactness -/

/-- **What parsing `s` should do**: stay inside `s`, accept exactly the descriptors, give a method a
symbol whose stream yields its types, and tell types apart. -/
structure Exact (classes : Classes) (junk : Nat → UInt8) (s : List UInt8) : Prop where
  inside : internalParse classes junk s ≠ .error .outside
  accepts : (∃ symbol, internalParse classes junk s = .ok symbol) ↔ ∃ d, Denotes s d
  streams : ∀ symbol params ret, internalParse classes junk s = .ok symbol →
    Denotes s (.method params ret) → Streams classes symbol params ret
  symbols : ∀ junk' s' symbol symbol' d d', internalParse classes junk s = .ok symbol →
    internalParse classes junk' s' = .ok symbol' → Denotes s d → Denotes s' d' →
    (symbol = symbol' ↔ d = d')

/-- The class name in a token. -/
def Token.className : Token → Option (List UInt8)
  | .ofClass (.instanceClass name) | .ofClass (.arrayClass _ (.instances name)) => some name
  | _ => none

/-- A class name in a token that is none, but taken for valid. -/
def Token.FalselyNamed (classes : Classes) (t : Token) : Prop :=
  ∃ name, t.className = some name ∧ FalseName classes.isTypeSymbol name

/-- **The texts that parsing is not exact for.** -/
inductive Stray (classes : Classes) : List UInt8 → Prop
  | dangling {s : List UInt8} : Dangling classes s → Stray classes s
  | paren {t : Token} {a : List UInt8} : t.Spells a → t ≠ .void → t.Named (Valid classes) →
    Stray classes (41 :: a)
  | field {t : Token} {s : List UInt8} : t.Spells s → t.FalselyNamed classes → Stray classes s
  | method {params : List Token} {ret : Token} {a b : List UInt8} : Texts params a → ret.Spells b →
    AllValid classes (params ++ [ret]) → wordsOf params ≤ 255 →
    sizeOfTokens (params ++ [ret]) < 512 →
    (.void ∈ params ∨ ∃ t ∈ params ++ [ret], t.FalselyNamed classes) →
    Stray classes (40 :: (a ++ 41 :: b))
  | widest {params : List Token} {ret : Token} {s : List UInt8} : Denotes s (.method params ret) →
    params.length = 255 → (∀ t ∈ params ++ [ret], ∃ c, t = .ofClass c) → Stray classes s

theorem Token.named_iff {P : List UInt8 → Prop} {t : Token} :
    t.Named P ↔ ∀ name, t.className = some name → P name := by
  rcases t with - | c | ⟨name | ⟨d, c | name⟩⟩ <;> simp [Named, className]

theorem Token.Named.mono {P Q : List UInt8 → Prop} {t : Token} (h : t.Named P)
    (hPQ : ∀ name, P name → Q name) : t.Named Q :=
  named_iff.mpr fun name hname => hPQ name (named_iff.mp h name hname)

theorem valid_of_className {name : List UInt8} (h : ClassName name) : Valid classes name :=
  isValidClassName_iff.mpr (.inl h)

/-- A name that is taken for valid is a class name or stray. -/
theorem Token.named_or {t : Token} (h : t.Named (Valid classes)) :
    t.Named ClassName ∨ t.FalselyNamed classes := by
  by_cases hfalse : t.FalselyNamed classes
  · exact .inr hfalse
  · refine .inl (named_iff.mpr fun name hname => ?_)
    rcases isValidClassName_iff.mp (named_iff.mp h name hname) with hclass | hbad
    exacts [hclass, absurd ⟨name, hname, hbad⟩ hfalse]

theorem Token.FalselyNamed.valid {t : Token} (h : t.FalselyNamed classes) :
    t.Named (Valid classes) := by
  obtain ⟨name, hname, hfalse⟩ := h
  refine named_iff.mpr fun name' hname' => ?_
  cases hname.symm.trans hname'
  exact isValidClassName_iff.mpr (.inr hfalse)

theorem Token.FalselyNamed.not_named {t : Token} (h : t.FalselyNamed classes) :
    ¬ t.Named ClassName := by
  obtain ⟨name, hname, hfalse⟩ := h
  exact fun hnamed => hfalse.1 (named_iff.mp hnamed name hname)

theorem Token.size_le (t : Token) : t.size ≤ 2 ∧ 0 < t.words ∧
    (t.size = 2 → ∃ c, t = .ofClass c) := by
  cases t with
  | ofClass c => exact ⟨Nat.le_refl 2, Nat.one_pos, fun _ => ⟨c, rfl⟩⟩
  | void => exact ⟨by decide, by decide, nofun⟩
  | simple c => exact ⟨Nat.le_succ 1, (Token.simple c).words_pos, nofun⟩

/-- 255 words of parameters and a return type do not fit only if all take two bytes. -/
theorem widest_of_size {params : List Token} {ret : Token} (hwords : wordsOf params ≤ 255)
    (hsize : 512 ≤ sizeOfTokens (params ++ [ret])) :
    params.length = 255 ∧ ∀ t ∈ params ++ [ret], ∃ c, t = .ofClass c := by
  have hret := ret.size_le
  have hcount : params.length ≤ wordsOf params := by
    clear hwords hsize
    induction params with
    | nil => exact Nat.le_refl 0
    | cons t params ih =>
      have := t.words_pos
      have hcons : wordsOf (t :: params) = t.words + wordsOf params := rfl
      rw [hcons, List.length_cons]
      omega
  have hsum : ∀ l : List Token, sizeOfTokens l ≤ 2 * l.length ∧
      (sizeOfTokens l = 2 * l.length → ∀ t ∈ l, ∃ c, t = .ofClass c) := by
    intro l
    induction l with
    | nil => exact ⟨Nat.le_refl 0, nofun⟩
    | cons t l ih =>
      obtain ⟨hle, -, htwo⟩ := t.size_le
      have hcons : sizeOfTokens (t :: l) = t.size + sizeOfTokens l := rfl
      rw [hcons, List.length_cons]
      refine ⟨by omega, fun heq t' ht' => ?_⟩
      rcases List.mem_cons.mp ht' with rfl | ht'
      exacts [htwo (by omega), ih.2 (by omega) t' ht']
  obtain ⟨hle, hall⟩ := hsum (params ++ [ret])
  rw [List.length_append, List.length_singleton] at hle hall
  exact ⟨by omega, hall (by omega)⟩

theorem Element.Spells.unique {e e' : Element} {a a' r r' : List UInt8} (h : e.Spells a)
    (h' : e'.Spells a') (heq : a ++ r = a' ++ r') : e = e' ∧ r = r' := by
  cases h with
  | simple hc =>
    cases h' with
    | simple hc' =>
      cases heq
      exact ⟨rfl, rfl⟩
    | instances _ => exact absurd (List.cons.inj heq).1 (simple_not_digit hc).2.1
  | @instances name hname =>
    cases h' with
    | simple hc' => exact absurd (List.cons.inj heq).1.symm (simple_not_digit hc').2.1
    | @instances name' hname' =>
      have hread : upToSemicolon (name ++ 59 :: r) = some (name, r) :=
        upToSemicolon_iff.mpr ⟨hname, rfl⟩
      have hread' : upToSemicolon (name' ++ 59 :: r') = some (name', r') :=
        upToSemicolon_iff.mpr ⟨hname', rfl⟩
      rw [show name ++ 59 :: r = name' ++ 59 :: r' by simpa using heq, hread'] at hread
      cases hread
      exact ⟨rfl, rfl⟩

/-- The first byte of the text for elements: no digit, and not `[`. -/
theorem Element.Spells.head {e : Element} {a : List UInt8} (h : e.Spells a) :
    ∃ c rest, a = c :: rest ∧ isDigit c = false ∧ c ≠ 91 := by
  cases h with
  | simple hc => exact ⟨_, _, rfl, (simple_not_digit hc).1, (simple_not_digit hc).2.2.1⟩
  | instances _ => exact ⟨_, _, rfl, by decide, by decide⟩

theorem SpellsArray.unique {d d' : Nat} {e e' : Element} {a a' r r' : List UInt8}
    (h : SpellsArray d e a) (h' : SpellsArray d' e' a') (heq : a ++ r = a' ++ r') :
    d = d' ∧ e = e' ∧ r = r' := by
  induction h generalizing d' a' with
  | last hdigits htext =>
    obtain ⟨c, rest, rfl, hc, h91⟩ := htext.head
    cases h' with
    | last hdigits' htext' =>
      obtain ⟨c', rest', rfl, hc', -⟩ := htext'.head
      have hdrop := congrArg (List.dropWhile isDigit) heq
      rw [List.append_assoc, List.append_assoc, List.cons_append, List.cons_append,
        dropWhile_digits hdigits hc, dropWhile_digits hdigits' hc'] at hdrop
      obtain ⟨rfl, rfl⟩ := htext.unique htext' hdrop
      exact ⟨rfl, rfl, rfl⟩
    | more hdigits' _ =>
      have hdrop := congrArg (List.dropWhile isDigit) heq
      rw [List.append_assoc, List.append_assoc, List.cons_append, List.cons_append,
        dropWhile_digits hdigits hc, dropWhile_digits hdigits' (by decide)] at hdrop
      exact absurd (List.cons.inj hdrop).1 h91
  | more hdigits _ ih =>
    cases h' with
    | last hdigits' htext' =>
      obtain ⟨c', rest', rfl, hc', h91⟩ := htext'.head
      have hdrop := congrArg (List.dropWhile isDigit) heq
      rw [List.append_assoc, List.append_assoc, List.cons_append, List.cons_append,
        dropWhile_digits hdigits (by decide), dropWhile_digits hdigits' hc'] at hdrop
      exact absurd (List.cons.inj hdrop).1.symm h91
    | more hdigits' htext' =>
      have hdrop := congrArg (List.dropWhile isDigit) heq
      rw [List.append_assoc, List.append_assoc, List.cons_append, List.cons_append,
        dropWhile_digits hdigits (by decide), dropWhile_digits hdigits' (by decide)] at hdrop
      obtain ⟨rfl, rfl, rfl⟩ := ih htext' (List.cons.inj hdrop).2
      exact ⟨rfl, rfl, rfl⟩

/-- **A text starts with the text of one token only.** -/
theorem Token.Spells.unique {t t' : Token} {a a' r r' : List UInt8} (h : t.Spells a)
    (h' : t'.Spells a') (heq : a ++ r = a' ++ r') : t = t' ∧ r = r' := by
  cases h with
  | void =>
    cases h' with
    | void => exact ⟨rfl, (List.cons.inj heq).2⟩
    | simple hc => exact absurd (List.cons.inj heq).1.symm (simple_not_digit hc).2.2.2.1
    | instances _ | array _ _ => exact absurd (List.cons.inj heq).1 (by decide)
  | simple hc =>
    obtain ⟨-, h76, h91, h86, -⟩ := simple_not_digit hc
    cases h' with
    | void => exact absurd (List.cons.inj heq).1 h86
    | simple hc' =>
      cases heq
      exact ⟨rfl, rfl⟩
    | instances _ => exact absurd (List.cons.inj heq).1 h76
    | array _ _ => exact absurd (List.cons.inj heq).1 h91
  | instances hname =>
    cases h' with
    | void | array _ _ => exact absurd (List.cons.inj heq).1 (by decide)
    | simple hc => exact absurd (List.cons.inj heq).1.symm (simple_not_digit hc).2.1
    | instances hname' =>
      obtain ⟨helement, rfl⟩ := (Element.Spells.instances hname).unique (.instances hname') heq
      cases helement
      exact ⟨rfl, rfl⟩
  | array _ harray =>
    cases h' with
    | void | instances _ => exact absurd (List.cons.inj heq).1 (by decide)
    | simple hc => exact absurd (List.cons.inj heq).1.symm (simple_not_digit hc).2.2.1
    | array _ harray' =>
      obtain ⟨rfl, rfl, rfl⟩ := harray.unique harray' (List.cons.inj heq).2
      exact ⟨rfl, rfl⟩

theorem Token.Spells.eq {t t' : Token} {a : List UInt8} (h : t.Spells a) (h' : t'.Spells a) :
    t = t' :=
  (h.unique h' (rfl : a ++ [] = a ++ [])).1

/-- The tokens in front of a `)`. -/
theorem Texts.unique {toks toks' : List Token} {a a' r r' : List UInt8} (h : Texts toks a)
    (h' : Texts toks' a') (heq : a ++ 41 :: r = a' ++ 41 :: r') : toks = toks' ∧ r = r' := by
  induction h generalizing toks' a' with
  | nil =>
    cases h' with
    | nil => exact ⟨rfl, (List.cons.inj heq).2⟩
    | cons htext _ =>
      obtain ⟨c, rest, rfl, h41, -⟩ := htext.head
      exact absurd (List.cons.inj heq).1.symm h41
  | cons htext _ ih =>
    cases h' with
    | nil =>
      obtain ⟨c, rest, rfl, h41, -⟩ := htext.head
      exact absurd (List.cons.inj heq).1 h41
    | cons htext' hrest' =>
      rw [List.append_assoc, List.append_assoc] at heq
      obtain ⟨rfl, heq⟩ := htext.unique htext' heq
      obtain ⟨rfl, rfl⟩ := ih hrest' heq
      exact ⟨rfl, rfl⟩

/-- Two ways to read a text of a method. -/
theorem method_unique {params params' : List Token} {ret ret' : Token} {a a' b b' : List UInt8}
    (ha : Texts params a) (ha' : Texts params' a') (hb : ret.Spells b) (hb' : ret'.Spells b')
    (heq : 40 :: (a ++ 41 :: b) = 40 :: (a' ++ 41 :: b')) : params = params' ∧ ret = ret' := by
  obtain ⟨rfl, rfl⟩ := ha.unique ha' (List.cons.inj heq).2
  exact ⟨rfl, hb.eq hb'⟩

/-- What a text denotes does not depend on who reads it. -/
theorem Taken.eq_of_denotes {s : List UInt8} {d d' : Descriptor} (h : Taken classes s d)
    (h' : Denotes s d') : d = d' := by
  cases h with
  | field htext _ _ =>
    cases h' with
    | field htext' _ _ => rw [htext.eq htext']
    | method _ _ _ _ _ =>
      obtain ⟨c, rest, hc, -, h40⟩ := htext.head
      exact absurd (List.cons.inj hc).1.symm h40
  | paren _ _ _ =>
    cases h' with
    | field htext' _ _ =>
      obtain ⟨c, rest, hc, h41, -⟩ := htext'.head
      exact absurd (List.cons.inj hc).1.symm h41
  | @method params ret a b ha hb _ _ _ =>
    generalize hs : 40 :: (a ++ 41 :: b) = s at h'
    cases h' with
    | field htext' _ _ =>
      obtain ⟨c, rest, rfl, -, h40⟩ := htext'.head
      exact absurd (List.cons.inj hs).1.symm h40
    | method ha' hb' _ _ _ =>
      obtain ⟨rfl, rfl⟩ := method_unique ha ha' hb hb' hs
      rfl

/-- The symbol of an accepted descriptor. -/
theorem symbol_of_ok {s symbol : List UInt8} {d : Descriptor}
    (hok : internalParse classes junk s = .ok symbol) (h : Denotes s d) :
    Taken classes s d ∧ d.Known classes ∧ symbol = d.symbol classes := by
  have hends := internalParse_ends classes junk s
  rw [hok] at hends
  obtain ⟨d', htaken, hknown, hsymbol⟩ := hends
  obtain rfl := htaken.eq_of_denotes h
  exact ⟨htaken, hknown, hsymbol⟩

theorem Denotes.ofMethod {s : List UInt8} {params : List Token} {ret : Token}
    (h : Denotes s (.method params ret)) :
    (∀ t ∈ params, t ≠ .void ∧ t.Named ClassName) ∧ ret.Named ClassName ∧ wordsOf params ≤ 255 := by
  generalize hd : Descriptor.method params ret = d at h
  cases h with
  | field _ _ _ => nomatch hd
  | method _ _ hparams hret hwords =>
    cases hd
    exact ⟨hparams, hret, hwords⟩

theorem Taken.fits {s : List UInt8} {params : List Token} {ret : Token}
    (h : Taken classes s (.method params ret)) : sizeOfTokens (params ++ [ret]) < 512 := by
  generalize hd : Descriptor.method params ret = d at h
  cases h with
  | field _ _ _ | paren _ _ _ => nomatch hd
  | method _ _ _ _ hsize =>
    cases hd
    exact hsize

theorem Stray.not_exact {s : List UInt8} (h : Stray classes s)
    (hres : internalParse classes junk s ≠ .error .unresolved) : ¬ Exact classes junk s := by
  intro hexact
  -- A text of the parser's language denotes what it is taken for.
  have htaken : ∀ {d : Descriptor}, Taken classes s d → Denotes s d := by
    intro d htaken
    have hok := (internalParse_taken junk htaken).resolve_left hres
    obtain ⟨d', hd'⟩ := hexact.accepts.mp ⟨_, hok⟩
    rwa [htaken.eq_of_denotes hd']
  cases h with
  | dangling h => exact hexact.inside ((internalParse_dangling h).resolve_left hres)
  | paren htext hvoid hnamed =>
    obtain ⟨htext', -, -⟩ := htaken (.paren htext hvoid hnamed)
    obtain ⟨c, rest, hc, h41, -⟩ := htext'.head
    exact h41 (List.cons.inj hc).1.symm
  | @field t _ htext hfalse =>
    have hvoid : t ≠ Token.void := by
      rintro rfl
      obtain ⟨name, hname, -⟩ := hfalse
      nomatch hname
    obtain ⟨-, -, hnamed⟩ := htaken (.field htext hvoid hfalse.valid)
    exact hfalse.not_named hnamed
  | method ha hb hall hwords hsize hbad =>
    obtain ⟨hparams, hret, -⟩ := (htaken (.method ha hb hall hwords hsize)).ofMethod
    rcases hbad with hvoid | ⟨t, ht, hfalse⟩
    · exact (hparams _ hvoid).1 rfl
    · rcases List.mem_append.mp ht with ht | ht
      · exact hfalse.not_named (hparams t ht).2
      · obtain rfl := List.mem_singleton.mp ht
        exact hfalse.not_named hret
  | @widest params ret _ hd hlength hall =>
    obtain ⟨symbol, hok⟩ := hexact.accepts.mpr ⟨_, hd⟩
    obtain ⟨htaken, -⟩ := symbol_of_ok hok hd
    have hsize := htaken.fits
    have hsizes : ∀ l : List Token, (∀ t ∈ l, ∃ c, t = .ofClass c) → sizeOfTokens l = 2 * l.length := by
      intro l hl
      induction l with
      | nil => rfl
      | cons t l ih =>
        obtain ⟨c, rfl⟩ := hl t (by simp)
        have := ih fun t' ht' => hl t' (by simp [ht'])
        rw [show sizeOfTokens (.ofClass c :: l) = 2 + sizeOfTokens l from rfl, List.length_cons]
        omega
    rw [hsizes _ hall, List.length_append, hlength] at hsize
    rw [List.length_singleton] at hsize
    exact absurd hsize (by decide)

theorem exact_of_not_stray {s : List UInt8} (h : ¬ Stray classes s)
    (hres : internalParse classes junk s ≠ .error .unresolved) : Exact classes junk s := by
  have hends := internalParse_ends classes junk s
  refine ⟨?_, ⟨?_, ?_⟩, ?_, ?_⟩
  · intro houtside
    rw [houtside] at hends
    exact h (.dangling (hends rfl))
  · rintro ⟨symbol, hok⟩
    rw [hok] at hends
    obtain ⟨d, htaken, -, -⟩ := hends
    cases htaken with
    | @field t _ htext hvoid hnamed =>
      rcases Token.named_or hnamed with hclass | hfalse
      exacts [⟨_, .field htext hvoid hclass⟩, absurd (.field htext hfalse) h]
    | paren htext hvoid hnamed => exact absurd (.paren htext hvoid hnamed) h
    | @method params ret a b ha hb hall hwords hsize =>
      have hclean : ∀ t ∈ params ++ [ret], t.Named ClassName := by
        intro t ht
        rcases Token.named_or (hall t ht) with hclass | hfalse
        exacts [hclass, absurd (.method ha hb hall hwords hsize (.inr ⟨t, ht, hfalse⟩)) h]
      have hvoid : .void ∉ params := fun hv =>
        h (.method ha hb hall hwords hsize (.inl hv))
      exact ⟨_, .method ha hb (fun t ht => ⟨fun ht' => hvoid (ht' ▸ ht), hclean t (by simp [ht])⟩)
        (hclean ret (by simp)) hwords⟩
  · rintro ⟨d, hd⟩
    have htaken : Taken classes s d := by
      cases hd with
      | field htext hvoid hnamed => exact .field htext hvoid (hnamed.mono fun _ => valid_of_className)
      | @method params ret a b ha hb hparams hret hwords =>
        refine .method ha hb ?_ hwords ?_
        · intro t ht
          refine Token.Named.mono ?_ fun _ => valid_of_className
          rcases List.mem_append.mp ht with ht | ht
          · exact (hparams t ht).2
          · rwa [List.mem_singleton.mp ht]
        · by_contra hsize
          obtain ⟨hlength, hall⟩ := widest_of_size hwords (Nat.le_of_not_lt hsize)
          exact h (.widest (.method ha hb hparams hret hwords) hlength hall)
    exact ⟨_, (internalParse_taken junk htaken).resolve_left hres⟩
  · intro symbol params ret hok hd
    obtain ⟨-, hknown, rfl⟩ := symbol_of_ok hok hd
    obtain ⟨hparams, -, hwords⟩ := hd.ofMethod
    exact streams_symbol (hknown ret (by simp [Descriptor.tokens]))
      (fun t ht => ⟨hknown t (by simp [Descriptor.tokens, ht]), (hparams t ht).1⟩) hwords
  · intro junk' s' symbol symbol' d d' hok hok' hd hd'
    obtain ⟨-, hknown, rfl⟩ := symbol_of_ok hok hd
    obtain ⟨-, hknown', rfl⟩ := symbol_of_ok hok' hd'
    exact ⟨symbol_injective hknown hknown', fun h => h ▸ rfl⟩

end

/-- No classes at all. -/
def noClasses : Classes where
  classId _ := none
  isInstanceClass _ := false
  isTypeSymbol _ := false
  distinct := nofun
  small := nofun
  isInstanceClass_id := nofun

/-- The text `(I)V`. -/
theorem internalParse_IV : internalParse noClasses (fun _ => 0) [40, 73, 41, 86] ≠
    .error .unresolved := by
  rw [internalParse_method, parseLoop_some rfl, parseLoop_some rfl, parseLoop_none rfl]
  exact nofun

end FroggyKVM.Symbols
