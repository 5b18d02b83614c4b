/-
# FroggyKVM.Symbols.TypeSymbol — parsing a descriptor, and streaming over what it was encoded to.

`TypeSymbol::internal_parse` (`handles/TypeSymbol.cpp`) turns a field or method descriptor into the
bytes of a symbol; `SignatureStream` (`handles/Signature.cpp`) goes over the parameters and the return
type of such a symbol.

The input is the list of the bytes that `_current_ptr` has not passed yet.  Classes are what
`SystemDictionary` makes of names; their ids are a parameter.  Nothing here allocates.
-/
import FroggyKVM.Lib.Fill
import FroggyKVM.Lib.Returns
import FroggyKVM.Symbols.ClassName

namespace FroggyKVM.Symbols

/-! ## Types and classes -/

/-- `is_simple_type_symbol`: one of `B`, `C`, `D`, `F`, `I`, `J`, `S`, `Z`. -/
def isSimpleTypeSymbol (c : UInt8) : Bool := [66, 67, 68, 70, 73, 74, 83, 90].contains c

/-- What the elements of an array are: a type of one letter, or instances of a class. -/
inductive Element
  | simple (c : UInt8)
  | instances (name : List UInt8)
  deriving DecidableEq, Repr

/-- A class that has an id of its own. -/
inductive JavaClass
  | instanceClass (name : List UInt8)
  | arrayClass (dimension : Nat) (element : Element)
  deriving DecidableEq, Repr

def JavaClass.isInstanceClass : JavaClass → Bool
  | .instanceClass _ => true
  | .arrayClass _ _ => false

/-- The classes of the VM.  A class that cannot be made has no id. -/
structure Classes where
  classId : JavaClass → Option Nat
  /-- `Universe::class_from_id(id)->is_instance_class()` -/
  isInstanceClass : Nat → Bool
  /-- The symbol with these bytes is a field type, of an array or of one byte. -/
  isTypeSymbol : List UInt8 → Bool
  distinct : ∀ c c' id, classId c = some id → classId c' = some id → c = c'
  small : ∀ c id, classId c = some id → id < 2 ^ 14
  isInstanceClass_id : ∀ c id, classId c = some id → isInstanceClass id = c.isInstanceClass

/-- Why parsing stops: an exception of the code, a class that cannot be made, or an access outside the
input, the buffer, a symbol or a table. -/
inductive Failure
  | classFormatError
  | unresolved
  | outside
  deriving DecidableEq, Repr

/-- The id of a class. -/
def Classes.find (classes : Classes) (c : JavaClass) : Except Failure Nat :=
  match classes.classId c with
  | some id => .ok id
  | none => .error .unresolved

def check (b : Bool) : Except Failure Unit := if b then .ok () else .error .classFormatError

/-- Accesses of a buffer. -/
def access {α : Type} (x : Except MemFault α) : Except Failure α :=
  match x with
  | .ok a => .ok a
  | .error _ => .error .outside

/-! ## Two bytes for a number -/

def encodeUshort (value : Nat) : Nat :=
  ((value &&& 0xff80) <<< 1) ||| (value &&& 0x7f) ||| 0x8080

def putEncodedUshort (buffer : Buffer UInt8) (i value : Nat) : Except Failure (Buffer UInt8) := do
  let buffer ← access (buffer.set i (UInt8.ofNat (value >>> 8)))
  access (buffer.set (i + 1) (UInt8.ofNat (value &&& 0xff)))

def byteAt (symbol : List UInt8) (i : Nat) : Except Failure UInt8 :=
  match symbol[i]? with
  | some b => .ok b
  | none => .error .outside

def decodeUshortAt (symbol : List UInt8) (i : Nat) : Except Failure Nat := do
  let hibyte ← byteAt symbol i
  let lobyte ← byteAt symbol (i + 1)
  .ok (((hibyte.toNat &&& 0x7f) <<< 7) ||| (lobyte.toNat &&& 0x7f))

/-! ## `ParseStream` -/

structure ParseStream where
  current : List UInt8
  isMethodSignature : Bool
  tokenCount : Nat
  tokenWordCount : Nat
  parameterWordCount : Nat
  closeParenPosition : Option Nat
  deriving DecidableEq, Repr

/-- `next_char`. -/
def nextChar : List UInt8 → Except Failure (UInt8 × List UInt8)
  | [] => .error .outside
  | c :: rest => .ok (c, rest)

/-- `ParseStream::initialize`. -/
def initializeStream (s : List UInt8) : Except Failure ParseStream := do
  let (c, rest) ← nextChar s
  if c = 40 then
    check (3 ≤ s.length)
    .ok ⟨rest, true, 0, 0, 0, none⟩
  else .ok ⟨s, false, 0, 0, 0, none⟩

/-- The loop of `get_class`: the bytes in front of the `;` and those behind it. -/
def upToSemicolon : List UInt8 → Option (List UInt8 × List UInt8)
  | [] => none
  | c :: rest => if c = 59 then some ([], rest)
    else (upToSemicolon rest).map fun (name, end') => (c :: name, end')

/-- `ParseStream::get_class`. -/
def getClass (classes : Classes) (current : List UInt8) : Except Failure (List UInt8 × List UInt8) :=
  match upToSemicolon current with
  | none => .error .classFormatError
  | some (name, rest) => do
    check (isValidClassName classes.isTypeSymbol name)
    let _ ← classes.find (.instanceClass name)
    .ok (name, rest)

def isDigit (c : UInt8) : Bool := 48 ≤ c && c ≤ 57

/-- `ParseStream::get_array_class`, with the number of dimensions it still looks at. -/
def getArrayClass (classes : Classes) :
    Nat → Nat → List UInt8 → Except Failure (JavaClass × List UInt8)
  | 0, _, _ => .error .classFormatError
  | left + 1, dimension, current =>
    match current.dropWhile isDigit with
    | [] => .error .classFormatError
    | c :: rest =>
      if c = 76 then do
        let (name, rest) ← getClass classes rest
        let _ ← classes.find (.arrayClass dimension (.instances name))
        .ok (.arrayClass dimension (.instances name), rest)
      else if c = 91 then getArrayClass classes left (dimension + 1) rest
      else if isSimpleTypeSymbol c then do
        let _ ← classes.find (.arrayClass dimension (.simple c))
        .ok (.arrayClass dimension (.simple c), rest)
      else .error .classFormatError

/-- What `ParseStream::next` does about a `)`; the byte that the token starts with. -/
def closeParen (ps : ParseStream) (byte : UInt8) : Except Failure (UInt8 × ParseStream) :=
  if byte = 41 then
    match ps.closeParenPosition with
    | none => do
      let (byte, rest) ← nextChar ps.current
      .ok (byte, { ps with
        current := rest
        closeParenPosition := some ps.tokenCount
        parameterWordCount := ps.tokenWordCount })
    | some _ => .error .classFormatError
  else .ok (byte, ps)

/-- The rest of `ParseStream::next`: the token that starts with `byte`. -/
def nextToken (classes : Classes) (byte : UInt8) (ps : ParseStream) :
    Except Failure (Nat × ParseStream) :=
  let ps := { ps with
    tokenCount := ps.tokenCount + 1
    tokenWordCount := ps.tokenWordCount + 1 }
  if byte = 86 ∨ isSimpleTypeSymbol byte then
    if byte = 74 ∨ byte = 68 then
      .ok (byte.toNat, { ps with tokenWordCount := ps.tokenWordCount + 1 })
    else .ok (byte.toNat, ps)
  else if byte = 76 then do
    let (name, rest) ← getClass classes ps.current
    let id ← classes.find (.instanceClass name)
    .ok (encodeUshort id, { ps with current := rest })
  else if byte = 91 then do
    let (ac, rest) ← getArrayClass classes 255 1 ps.current
    let id ← classes.find ac
    .ok (encodeUshort id, { ps with current := rest })
  else .error .classFormatError

/-- `ParseStream::next`; `none` is `PARSE_END`. -/
def next (classes : Classes) (ps : ParseStream) : Except Failure (Option Nat × ParseStream) :=
  match ps.current with
  | [] => .ok (none, ps)
  | byte :: rest => do
    let (byte, ps) ← closeParen { ps with current := rest } byte
    let (type, ps) ← nextToken classes byte ps
    .ok (some type, ps)

/-! ## `internal_parse` -/

/-- The variables of the loop of `internal_parse`. -/
structure Parsing where
  ps : ParseStream
  buffer : Buffer UInt8
  outPos : Nat
  lastType : Nat

/-- Store one token. -/
def putType (p : Parsing) (type : Nat) : Except Failure Parsing :=
  if type < 128 then do
    let buffer ← access (p.buffer.set p.outPos (UInt8.ofNat type))
    .ok { p with buffer := buffer, outPos := p.outPos + 1, lastType := type }
  else do
    let buffer ← putEncodedUshort p.buffer p.outPos type
    .ok { p with buffer := buffer, outPos := p.outPos + 2, lastType := type }

/-- The body of the loop of `internal_parse`; `none` is the `break`. -/
def parseStep (classes : Classes) (p : Parsing) : Except Failure (Option Parsing) := do
  let (type, ps) ← next classes p.ps
  match type with
  | none => .ok none
  | some type =>
    let p ← putType { p with ps := ps } type
    check (p.outPos < 4 + 256 * 2)
    .ok (some p)

theorem upToSemicolon_shorter {bs name rest : List UInt8} (h : upToSemicolon bs = some (name, rest)) :
    rest.length < bs.length := by
  induction bs generalizing name with
  | nil => cases h
  | cons c bs ih =>
    rw [upToSemicolon] at h
    split_ifs at h
    · cases h
      exact Nat.lt_succ_self _
    · obtain ⟨⟨n, r⟩, hr, hpair⟩ := Option.map_eq_some_iff.mp h
      cases hpair
      exact Nat.lt_succ_of_lt (ih hr)

theorem getClass_shorter {classes : Classes} {bs name rest : List UInt8}
    (h : getClass classes bs = .ok (name, rest)) : rest.length < bs.length := by
  unfold getClass at h
  split at h
  · cases h
  · rename_i n r hscan
    obtain ⟨_, _, h⟩ := ok_of_bind h
    obtain ⟨_, _, h⟩ := ok_of_bind h
    cases h
    exact upToSemicolon_shorter hscan

theorem getArrayClass_shorter {classes : Classes} {left dimension : Nat} {bs rest : List UInt8}
    {ac : JavaClass} (h : getArrayClass classes left dimension bs = .ok (ac, rest)) :
    rest.length < bs.length := by
  induction left generalizing dimension bs with
  | zero => cases h
  | succ left ih =>
    rw [getArrayClass] at h
    have hskip := (List.dropWhile_sublist isDigit (l := bs)).length_le
    split at h
    · cases h
    · rename_i c r hc
      rw [hc, List.length_cons] at hskip
      split_ifs at h
      · obtain ⟨⟨name, r'⟩, hclass, h⟩ := ok_of_bind h
        obtain ⟨_, _, h⟩ := ok_of_bind h
        cases h
        have := getClass_shorter hclass
        omega
      · have := ih h
        omega
      · obtain ⟨_, _, h⟩ := ok_of_bind h
        cases h
        omega

theorem nextToken_shorter {classes : Classes} {byte : UInt8} {ps ps' : ParseStream} {type : Nat}
    (h : nextToken classes byte ps = .ok (type, ps')) :
    ps'.current.length ≤ ps.current.length := by
  unfold nextToken at h
  dsimp only at h
  split_ifs at h
  · cases h
    exact Nat.le_refl _
  · cases h
    exact Nat.le_refl _
  · obtain ⟨⟨name, rest⟩, hclass, h⟩ := ok_of_bind h
    obtain ⟨_, _, h⟩ := ok_of_bind h
    cases h
    exact Nat.le_of_lt (getClass_shorter hclass)
  · obtain ⟨⟨ac, rest⟩, harray, h⟩ := ok_of_bind h
    obtain ⟨_, _, h⟩ := ok_of_bind h
    cases h
    exact Nat.le_of_lt (getArrayClass_shorter harray)

theorem closeParen_shorter {byte byte' : UInt8} {ps ps' : ParseStream}
    (h : closeParen ps byte = .ok (byte', ps')) : ps'.current.length ≤ ps.current.length := by
  unfold closeParen at h
  split_ifs at h
  · split at h
    · obtain ⟨⟨c, rest⟩, hnext, h⟩ := ok_of_bind h
      cases h
      unfold nextChar at hnext
      split at hnext
      · cases hnext
      · rename_i hcur
        cases hnext
        rw [hcur]
        exact Nat.le_succ _
    · cases h
  · cases h
    exact Nat.le_refl _

/-- A token is not empty. -/
theorem next_shorter {classes : Classes} {ps ps' : ParseStream} {type : Nat}
    (h : next classes ps = .ok (some type, ps')) : ps'.current.length < ps.current.length := by
  unfold next at h
  split at h
  · cases h
  · rename_i byte rest hcur
    obtain ⟨⟨byte', ps₁⟩, hclose, h⟩ := ok_of_bind h
    obtain ⟨⟨type', ps₂⟩, htoken, h⟩ := ok_of_bind h
    cases h
    have h₁ := closeParen_shorter hclose
    have h₂ := nextToken_shorter htoken
    rw [hcur, List.length_cons]
    dsimp only at h₁ h₂
    omega

theorem putType_ps {p p' : Parsing} {type : Nat} (h : putType p type = .ok p') : p'.ps = p.ps := by
  unfold putType at h
  split_ifs at h
  all_goals
    obtain ⟨_, _, h⟩ := ok_of_bind h
    cases h
    rfl

theorem parseStep_shorter {classes : Classes} {p p' : Parsing}
    (h : parseStep classes p = .ok (some p')) : p'.ps.current.length < p.ps.current.length := by
  obtain ⟨⟨type, ps⟩, hnext, h⟩ := ok_of_bind h
  dsimp only at h
  split at h
  · cases h
  · obtain ⟨p₁, hput, h⟩ := ok_of_bind h
    obtain ⟨_, _, h⟩ := ok_of_bind h
    cases h
    rw [putType_ps hput]
    exact next_shorter hnext

/-- The loop of `internal_parse`. -/
def parseLoop (classes : Classes) (p : Parsing) : Except Failure Parsing :=
  match _h : parseStep classes p with
  | .error e => .error e
  | .ok none => .ok p
  | .ok (some p') => parseLoop classes p'
termination_by p.ps.current.length
decreasing_by exact parseStep_shorter _h

def ParseStream.isValidMethodSignature (ps : ParseStream) : Bool :=
  match ps.closeParenPosition with
  | none => ps.tokenCount == 0
  | some closeParenPosition => ps.tokenCount == closeParenPosition + 1

/-- What `internal_parse` does behind its loop, for a method: the return type and the number of
parameter words go to the front. -/
def finishMethod (p : Parsing) : Except Failure (List UInt8) := do
  let parameterWords := p.ps.parameterWordCount
  check (p.ps.isValidMethodSignature && parameterWords ≤ 255)
  if p.lastType < 128 then
    let buffer ← access (p.buffer.set 3 (UInt8.ofNat p.lastType))
    let buffer ← putEncodedUshort buffer 1 (encodeUshort parameterWords)
    access (buffer.slice 1 (p.outPos - 1 - 1))
  else
    let buffer ← putEncodedUshort p.buffer 2 p.lastType
    let buffer ← putEncodedUshort buffer 0 (encodeUshort parameterWords)
    access (buffer.slice 0 (p.outPos - 2))

/-- The same, for a field. -/
def finishField (p : Parsing) : Except Failure (List UInt8) := do
  check (p.ps.tokenCount == 1 && p.lastType ≠ 86)
  access (p.buffer.slice 4 (p.outPos - 4))

/-- **`TypeSymbol::internal_parse`**: the bytes of the symbol.  The buffer is static, and has `junk` in
it. -/
def internalParse (classes : Classes) (junk : Nat → UInt8) (s : List UInt8) :
    Except Failure (List UInt8) :=
  match s with
  | [] => .error .classFormatError
  | [c] => if isSimpleTypeSymbol c then .ok [c] else .error .classFormatError
  | _ => do
    let ps ← initializeStream s
    let p ← parseLoop classes ⟨ps, ⟨1024, junk⟩, 4, 0⟩
    if p.ps.isMethodSignature then finishMethod p else finishField p

/-! ## `SignatureStream` -/

/-- `BasicType`. -/
inductive BasicType
  | boolean | char | float | double | byte | short | int | long | object | array | void | illegal
  deriving DecidableEq, Repr

/-- `word_size_for`; the table has no entry for `T_ILLEGAL`. -/
def wordSizeFor : BasicType → Except Failure Nat
  | .illegal => .error .outside
  | .void => .ok 0
  | .double | .long => .ok 2
  | _ => .ok 1

/-- `primitive_field_basic_type_for`: the table goes from `A` to `Z`. -/
def primitiveFieldBasicTypeFor (chr : Nat) : Except Failure BasicType :=
  if chr < 65 ∨ 90 < chr then .error .outside
  else .ok <| match chr with
    | 66 => .byte
    | 67 => .char
    | 68 => .double
    | 70 => .float
    | 73 => .int
    | 74 => .long
    | 83 => .short
    | 86 => .void
    | 90 => .boolean
    | _ => .illegal

/-- The type of a class, when it matters (`fast` is off) whether it is an array. -/
def classType (classes : Classes) (fast : Bool) (id : Nat) : BasicType :=
  if !fast && !classes.isInstanceClass id then .array else .object

/-- `Signature::return_type`. -/
def returnType (classes : Classes) (fast : Bool) (signature : List UInt8) :
    Except Failure BasicType := do
  let chr ← byteAt signature 2
  if chr < 0x80 then primitiveFieldBasicTypeFor chr.toNat
  else do
    let id ← decodeUshortAt signature 2
    .ok (classType classes fast id)

/-- The fields of a `SignatureStream`; `_current_class_id` has no value at first. -/
structure SignatureStream where
  numParamWords : Nat
  position : Nat
  wordIndex : Nat
  numParamWordsProcessed : Nat
  isReturnType : Bool
  type : BasicType
  currentClassId : Option Nat
  deriving DecidableEq, Repr

def SignatureStream.eos (ss : SignatureStream) : Bool :=
  ss.numParamWords < ss.numParamWordsProcessed

/-- `SignatureStream::next`. -/
def SignatureStream.next (classes : Classes) (fast : Bool) (signature : List UInt8)
    (ss : SignatureStream) : Except Failure SignatureStream := do
  let size ← wordSizeFor ss.type
  let ss := { ss with wordIndex := ss.wordIndex + size }
  if ss.numParamWordsProcessed < ss.numParamWords then
    let chr ← byteAt signature ss.position
    if chr < 0x80 then
      let type ← primitiveFieldBasicTypeFor chr.toNat
      let size ← wordSizeFor type
      .ok { ss with
        type := type
        position := ss.position + 1
        numParamWordsProcessed := ss.numParamWordsProcessed + size }
    else
      let id ← decodeUshortAt signature ss.position
      let size ← wordSizeFor (classType classes fast id)
      .ok { ss with
        type := classType classes fast id
        currentClassId := some id
        position := ss.position + 2
        numParamWordsProcessed := ss.numParamWordsProcessed + size }
  else
    let type ← returnType classes fast signature
    .ok { ss with
      isReturnType := true
      type := type
      numParamWordsProcessed := ss.numParamWordsProcessed + 1 }

/-- The constructor of `SignatureStream`. -/
def openStream (classes : Classes) (isStatic fast : Bool) (signature : List UInt8) :
    Except Failure SignatureStream := do
  let numParamWords ← decodeUshortAt signature 0
  let chr ← byteAt signature 2
  let ss : SignatureStream := ⟨numParamWords, 2 + if chr < 128 then 1 else 2, 0, 0, false, .object, none⟩
  if isStatic then SignatureStream.next classes fast signature { ss with type := .void } else .ok ss

/-- What the body of a loop over the stream sees: index, type, and the class of a reference. -/
def SignatureStream.item (ss : SignatureStream) : Nat × BasicType × Option Nat :=
  (ss.wordIndex, ss.type, if ss.type = .object ∨ ss.type = .array then ss.currentClassId else none)

/-- `for (; !ss.eos(); ss.next())`: what the body sees, and the stream behind the loop; `none` when
`fuel` steps do not end it. -/
def SignatureStream.run (classes : Classes) (fast : Bool) (signature : List UInt8) :
    Nat → SignatureStream →
      Except Failure (Option (List (Nat × BasicType × Option Nat) × SignatureStream))
  | 0, _ => .ok none
  | fuel + 1, ss =>
    if ss.eos then .ok (some ([], ss))
    else do
      let ss' ← ss.next classes fast signature
      let r ← run classes fast signature fuel ss'
      .ok (r.map fun (items, end') => (ss.item :: items, end'))

end FroggyKVM.Symbols
