/-
# FroggyKVM.Symbols.Descriptor — what descriptors are, and what one token of a text is read as.

A descriptor is a text for a type, or for a list of types and a return type in parentheses.  Digits
behind a `[` are the VM's own extension.  **`ParseStream::next` reads a token exactly when the text
starts with the text of one, up to the check of class names.**
-/
import FroggyKVM.Lib.Codewords
import FroggyKVM.Symbols.TypeSymbol

namespace FroggyKVM.Symbols

/-! ## Texts of types -/

/-- `V`, a type of one letter, or a class. -/
inductive Token
  | void
  | simple (c : UInt8)
  | ofClass (c : JavaClass)
  deriving DecidableEq, Repr

namespace Element

/-- The text for the elements of an array. -/
inductive Spells : Element → List UInt8 → Prop
  | simple {c : UInt8} : isSimpleTypeSymbol c = true → Spells (.simple c) [c]
  | instances {name : List UInt8} : 59 ∉ name → Spells (.instances name) (76 :: (name ++ [59]))

end Element

/-- The text behind the first `[` of an array. -/
inductive SpellsArray : Nat → Element → List UInt8 → Prop
  | last {e : Element} {digits text : List UInt8} : (∀ c ∈ digits, isDigit c = true) →
    e.Spells text → SpellsArray 1 e (digits ++ text)
  | more {d : Nat} {e : Element} {digits text : List UInt8} : (∀ c ∈ digits, isDigit c = true) →
    SpellsArray d e text → SpellsArray (d + 1) e (digits ++ 91 :: text)

namespace Token

/-- The text of a token.  An array has at most 255 dimensions. -/
inductive Spells : Token → List UInt8 → Prop
  | void : Spells .void [86]
  | simple {c : UInt8} : isSimpleTypeSymbol c = true → Spells (.simple c) [c]
  | instances {name : List UInt8} : 59 ∉ name →
    Spells (.ofClass (.instanceClass name)) (76 :: (name ++ [59]))
  | array {d : Nat} {e : Element} {text : List UInt8} : d ≤ 255 → SpellsArray d e text →
    Spells (.ofClass (.arrayClass d e)) (91 :: text)

/-- The class name in a token satisfies `P`. -/
def Named (P : List UInt8 → Prop) : Token → Prop
  | .ofClass (.instanceClass name) | .ofClass (.arrayClass _ (.instances name)) => P name
  | _ => True

/-- The words a parameter takes; `V` counts as one. -/
def words : Token → Nat
  | .simple c => if c = 74 ∨ c = 68 then 2 else 1
  | _ => 1

/-- The number that stands for a token, if its class has an id. -/
def code (classes : Classes) : Token → Option Nat
  | .void => some 86
  | .simple c => some c.toNat
  | .ofClass c => (classes.classId c).map encodeUshort

end Token

/-- The number of words of the parameters. -/
def wordsOf (toks : List Token) : Nat := (toks.map Token.words).sum

/-- A text that is the texts of tokens, one after the other. -/
inductive Texts : List Token → List UInt8 → Prop
  | nil : Texts [] []
  | cons {t : Token} {toks : List Token} {text rest : List UInt8} : t.Spells text →
    Texts toks rest → Texts (t :: toks) (text ++ rest)

/-- A type of a field, or the parameters and the return type of a method. -/
inductive Descriptor
  | field (t : Token)
  | method (params : List Token) (ret : Token)
  deriving DecidableEq, Repr

/-- **What a descriptor denotes.**  The parameters of a method take at most 255 words, and none is
`V`. -/
inductive Denotes : List UInt8 → Descriptor → Prop
  | field {t : Token} {s : List UInt8} : t.Spells s → t ≠ .void → t.Named ClassName →
    Denotes s (.field t)
  | method {params : List Token} {ret : Token} {a b : List UInt8} : Texts params a → ret.Spells b →
    (∀ t ∈ params, t ≠ .void ∧ t.Named ClassName) → ret.Named ClassName → wordsOf params ≤ 255 →
    Denotes (40 :: (a ++ 41 :: b)) (.method params ret)

/-! ## Reading a token -/

theorem upToSemicolon_iff {bs name rest : List UInt8} :
    upToSemicolon bs = some (name, rest) ↔ 59 ∉ name ∧ bs = name ++ 59 :: rest := by
  induction bs generalizing name with
  | nil => simp [upToSemicolon]
  | cons c bs ih =>
    rw [upToSemicolon]
    split_ifs with hc
    · subst hc
      constructor
      · rintro ⟨⟩
        exact ⟨by simp, rfl⟩
      · rintro ⟨hname, heq⟩
        cases name with
        | nil =>
          cases heq
          rfl
        | cons x name =>
          cases heq
          simp at hname
    · rw [Option.map_eq_some_iff]
      constructor
      · rintro ⟨⟨n, r⟩, hr, hpair⟩
        cases hpair
        obtain ⟨hn, rfl⟩ := ih.mp hr
        exact ⟨by simp [hn, Ne.symm hc], rfl⟩
      · rintro ⟨hname, heq⟩
        cases name with
        | nil =>
          cases heq
          exact absurd rfl hc
        | cons x name =>
          cases heq
          exact ⟨(name, rest), ih.mpr ⟨fun h => hname (by simp [h]), rfl⟩, rfl⟩

section

variable {classes : Classes}

/-- The names that the VM takes for valid. -/
def Valid (classes : Classes) (name : List UInt8) : Prop :=
  isValidClassName classes.isTypeSymbol name = true

theorem find_ends (c : JavaClass) {F : Failure → Prop} (hF : F .unresolved) :
    Ends (classes.find c) F fun id => classes.classId c = some id := by
  unfold Classes.find
  split
  · assumption
  · exact hF

theorem find_unresolved (c : JavaClass) :
    Ends (classes.find c) (· = .unresolved) fun id => classes.classId c = some id :=
  find_ends c rfl

theorem check_ends {b : Bool} {F : Failure → Prop} (hF : F .classFormatError) :
    Ends (check b) F fun _ => b = true := by
  cases b
  exacts [hF, rfl]

theorem check_true {b : Bool} (h : b = true) : check b = .ok () := by
  rw [h]
  rfl

/-- A stream behind one more token. -/
def ParseStream.behind (ps : ParseStream) (t : Token) (rest : List UInt8) : ParseStream :=
  { ps with
    current := rest
    tokenCount := ps.tokenCount + 1
    tokenWordCount := ps.tokenWordCount + t.words }

/-! ### What is read is the text of a token -/

theorem getClass_ends (bs : List UInt8) : Ends (getClass classes bs) (· ≠ .outside) fun r =>
    59 ∉ r.1 ∧ bs = r.1 ++ 59 :: r.2 ∧ Valid classes r.1 := by
  unfold getClass
  split
  · exact nofun
  · rename_i name rest hscan
    obtain ⟨hname, hbs⟩ := upToSemicolon_iff.mp hscan
    exact (check_ends nofun).bind fun _ hvalid => (find_ends _ nofun).bind fun _ _ =>
      ⟨hname, hbs, hvalid⟩

theorem getArrayClass_ends (left dimension : Nat) (bs : List UInt8) :
    Ends (getArrayClass classes left dimension bs) (· ≠ .outside) fun r =>
      ∃ d e text, d + 1 ≤ left ∧ SpellsArray (d + 1) e text ∧ bs = text ++ r.2 ∧
        r.1 = .arrayClass (dimension + d) e ∧ (Token.ofClass r.1).Named (Valid classes) := by
  induction left generalizing dimension bs with
  | zero =>
    intro hc
    cases hc
  | succ left ih =>
    rw [getArrayClass]
    have hdigits : ∀ c ∈ bs.takeWhile isDigit, isDigit c = true := 
      List.all_eq_true.mp (List.all_takeWhile (p := isDigit) (l := bs))
    have hbs := (List.takeWhile_append_dropWhile (p := isDigit) (l := bs)).symm
    generalize bs.takeWhile isDigit = digits at hdigits hbs
    split
    · intro hc
      cases hc
    · rename_i c rest hc
      rw [hc] at hbs
      split_ifs with h76 h91 hsimple
      · refine (getClass_ends rest).bind ?_
        rintro ⟨name, r⟩ ⟨hname, hrest, hvalid⟩
        refine (find_ends _ fun hc => by cases hc).bind fun _ _ => ?_
        refine ⟨0, .instances name, _, by omega, .last hdigits (.instances hname), ?_, rfl, hvalid⟩
        dsimp only at hrest ⊢
        rw [hbs, h76, hrest]
        simp
      · refine (ih (dimension + 1) rest).mono (fun _ h => h) ?_
        rintro ⟨ac, r⟩ ⟨d, e, text, hd, htext, hrest, hac, hnamed⟩
        refine ⟨d + 1, e, _, by omega, .more hdigits htext, ?_, ?_, hnamed⟩
        · dsimp only at hrest ⊢
          rw [hbs, h91, hrest]
          simp
        · dsimp only at hac ⊢
          rw [hac, Nat.add_right_comm, Nat.add_assoc]
      · refine (find_ends _ fun hc => by cases hc).bind fun _ _ => ?_
        exact ⟨0, .simple c, _, by omega, .last hdigits (.simple hsimple), by simp [hbs], rfl,
          trivial⟩
      · intro hc
        cases hc

/-- **What `next` reads.** -/
theorem nextToken_ends (byte : UInt8) (ps : ParseStream) :
    Ends (nextToken classes byte ps) (· ≠ .outside) fun r => ∃ (t : Token) (text : List UInt8),
      t.Spells text ∧ byte :: ps.current = text ++ r.2.current ∧ t.Named (Valid classes) ∧
        t.code classes = some r.1 ∧ r.2 = ps.behind t r.2.current := by
  unfold nextToken
  dsimp only
  split_ifs with hletter htwo h76 h91
  · rcases hletter with rfl | hsimple
    · exact absurd htwo (by decide)
    · exact ⟨.simple byte, _, .simple hsimple, rfl, trivial, rfl,
        by simp [ParseStream.behind, Token.words, htwo]⟩
  · rcases hletter with rfl | hsimple
    · exact ⟨.void, _, .void, rfl, trivial, rfl, rfl⟩
    · exact ⟨.simple byte, _, .simple hsimple, rfl, trivial, rfl,
        by simp [ParseStream.behind, Token.words, htwo]⟩
  · refine (getClass_ends ps.current).bind ?_
    rintro ⟨name, rest⟩ ⟨hname, hrest, hvalid⟩
    refine (find_ends _ nofun).bind fun id hid => ?_
    refine ⟨.ofClass (.instanceClass name), _, .instances hname, ?_, hvalid, ?_, rfl⟩
    · dsimp only at hrest ⊢
      rw [h76, hrest]
      simp
    · simp [Token.code, hid]
  · refine (getArrayClass_ends 255 1 ps.current).bind ?_
    rintro ⟨ac, rest⟩ ⟨d, e, text, hd, htext, hrest, hac, hnamed⟩
    refine (find_ends _ nofun).bind fun id hid => ?_
    refine ⟨.ofClass ac, 91 :: text, ?_, ?_, hnamed, ?_, rfl⟩
    · dsimp only at hac
      rw [hac, Nat.add_comm 1 d]
      exact .array (by omega) htext
    · dsimp only at hrest ⊢
      rw [h91, hrest, List.cons_append]
    · simp [Token.code, hid]
  · exact nofun

/-! ### The text of a token is read -/

theorem getClass_reads {name : List UInt8} (hname : 59 ∉ name) (hvalid : Valid classes name)
    (rest : List UInt8) :
    Ends (getClass classes (name ++ 59 :: rest)) (· = .unresolved) (· = (name, rest)) := by
  rw [getClass, upToSemicolon_iff.mpr ⟨hname, rfl⟩]
  dsimp only
  rw [check_true hvalid]
  exact (find_unresolved _).bind fun _ _ => rfl

theorem dropWhile_digits {digits : List UInt8} (h : ∀ c ∈ digits, isDigit c = true) {c : UInt8}
    (hc : isDigit c = false) (rest : List UInt8) :
    (digits ++ c :: rest).dropWhile isDigit = c :: rest := by
  rw [List.dropWhile_append_of_pos h, List.dropWhile_cons_of_neg (by simp [hc])]

theorem simple_not_digit {c : UInt8} (h : isSimpleTypeSymbol c = true) :
    isDigit c = false ∧ c ≠ 76 ∧ c ≠ 91 ∧ c ≠ 86 ∧ c ≠ 41 ∧ c ≠ 40 ∧ c < 128 := by
  simp only [isSimpleTypeSymbol, List.contains_cons, List.contains_nil, Bool.or_false,
    Bool.or_eq_true, beq_iff_eq] at h
  rcases h with rfl | rfl | rfl | rfl | rfl | rfl | rfl | rfl <;> decide

theorem getArrayClass_reads {d left dimension : Nat} {e : Element} {text : List UInt8}
    (htext : SpellsArray d e text) (hleft : d ≤ left) (rest : List UInt8)
    (hnamed : (Token.ofClass (.arrayClass d e)).Named (Valid classes)) :
    Ends (getArrayClass classes left dimension (text ++ rest)) (· = .unresolved)
      (· = (.arrayClass (dimension + d - 1) e, rest)) := by
  induction htext generalizing left dimension with
  | last hdigits htext =>
    obtain ⟨left, rfl⟩ := Nat.exists_eq_succ_of_ne_zero (Nat.ne_of_gt hleft)
    rw [getArrayClass]
    cases htext with
    | simple hc =>
      obtain ⟨hdigit, h76, h91, -⟩ := simple_not_digit hc
      rw [List.append_assoc, List.cons_append, List.nil_append, dropWhile_digits hdigits hdigit]
      dsimp only
      rw [if_neg h76, if_neg h91, if_pos hc]
      exact (find_unresolved _).bind fun _ _ => rfl
    | instances hname =>
      rw [List.append_assoc, List.cons_append, dropWhile_digits hdigits (by decide), List.append_assoc,
        List.cons_append, List.nil_append]
      dsimp only
      rw [if_pos rfl]
      refine (getClass_reads hname hnamed rest).bind ?_
      rintro _ rfl
      exact (find_unresolved _).bind fun _ _ => rfl
  | @more d e digits text hdigits _ ih =>
    obtain ⟨left, rfl⟩ := Nat.exists_eq_succ_of_ne_zero (Nat.ne_of_gt (Nat.lt_of_lt_of_le d.succ_pos hleft))
    rw [getArrayClass, List.append_assoc, List.cons_append, dropWhile_digits hdigits (by decide)]
    dsimp only
    rw [if_neg (by decide), if_pos rfl]
    have := @ih left (dimension + 1) (by omega) (by cases e <;> exact hnamed)
    rwa [show dimension + 1 + d - 1 = dimension + (d + 1) - 1 by omega] at this

/-- **What `next` does with the text of a token.** -/
theorem nextToken_reads {t : Token} {text rest : List UInt8} {byte : UInt8} {ps : ParseStream}
    (htext : t.Spells text) (hbytes : byte :: ps.current = text ++ rest)
    (hnamed : t.Named (Valid classes)) :
    Ends (nextToken classes byte ps) (· = .unresolved) fun r =>
      t.code classes = some r.1 ∧ r.2 = ps.behind t rest := by
  unfold nextToken
  cases htext with
  | void =>
    cases hbytes
    exact ⟨rfl, rfl⟩
  | simple hc =>
    cases hbytes
    dsimp only
    rw [if_pos (.inr hc)]
    split_ifs with htwo
    · exact ⟨rfl, by simp [ParseStream.behind, Token.words, htwo]⟩
    · exact ⟨rfl, by simp [ParseStream.behind, Token.words, htwo]⟩
  | @instances name hname =>
    obtain ⟨rfl, hcur⟩ := List.cons.inj hbytes
    dsimp only
    have hcur : ps.current = name ++ 59 :: rest := by simpa using hcur
    rw [if_neg (by decide), if_pos rfl, hcur]
    refine (getClass_reads hname hnamed rest).bind ?_
    rintro _ rfl
    exact (find_unresolved _).bind fun id hid => ⟨by simp [Token.code, hid], rfl⟩
  | @array d e text hd harray =>
    obtain ⟨rfl, hcur⟩ := List.cons.inj hbytes
    dsimp only
    rw [if_neg (by decide), if_neg (by decide), if_pos rfl, hcur]
    refine (getArrayClass_reads harray hd rest hnamed).bind ?_
    rintro _ rfl
    rw [show 1 + d - 1 = d by omega]
    exact (find_unresolved _).bind fun id hid => ⟨by simp [Token.code, hid], rfl⟩

end

end FroggyKVM.Symbols
