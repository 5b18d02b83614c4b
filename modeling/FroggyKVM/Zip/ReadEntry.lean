/-
# FroggyKVM.Zip.ReadEntry — the launcher's JAR reader (`platform_gb300/midlet_meta.c`).

`gb300_read_jar_entry` looks for the end record from the back of the file, walks through the central
directory and reads the first entry that its name test accepts.  The test drops leading slashes,
cuts names at 255 bytes and ignores the case of the manifest's name; a deflated entry is given a
buffer of its size below one megabyte and of 64 kilobytes else, and an empty one is taken for an
error.  **For an archive whose end record is the last one in the file, the reader is right exactly
when the first entry accepted is the one asked for and has a size it can read.**
-/
import FroggyKVM.Lib.Text
import FroggyKVM.Zip.Directory

namespace FroggyKVM.Zip

/-! ## The reader -/

/-- An `uint32_t`. -/
def u32 (n : Nat) : Nat := n % 4294967296

/-- `fseek` takes a `long` of 32 bits. -/
def canSeek (offset : Nat) : Bool := decide (offset < 2147483648)

/-- The four bytes of a signature, the last two given. -/
def isSig (b : List UInt8) (i c d : Nat) : Bool :=
  ch b i == 0x50 && ch b (i + 1) == 0x4b && ch b (i + 2) == c && ch b (i + 3) == d

/-- The search for the end record among the first `n` offsets, from the last one down. -/
def searchEnd (searchBuf : List UInt8) : Nat → Option Nat
  | 0 => none
  | n + 1 => if isSig searchBuf n 5 6 then some n else searchEnd searchBuf n

/-- The search buffer and the offset of the end record in it: the last 2048 bytes are tried first,
then all that a comment can take.  `mallocOk n` says whether `malloc(n)` succeeds. -/
def findEnd (mallocOk : Nat → Bool) (file : List UInt8) : Option (List UInt8 × Nat) :=
  let searchLen := if file.length < 2048 then file.length else 2048
  if mallocOk searchLen then
    let searchBuf := bytesAt file (file.length - searchLen) searchLen
    match searchEnd searchBuf (searchLen - 22 + 1) with
    | some i => some (searchBuf, i)
    | none =>
      if searchLen < file.length then
        let searchLen := if file.length < 65558 then file.length else 65558
        if mallocOk searchLen then
          let searchBuf := bytesAt file (file.length - searchLen) searchLen
          (searchEnd searchBuf (searchLen - 22 + 1)).map fun i => (searchBuf, i)
        else none
      else none
  else none

/-- The data of an entry with the given header fields; `puff` takes the size of the destination and
the source and gives an error code and what it has written. -/
def readData (mallocOk : Nat → Bool) (puff : Nat → List UInt8 → Nat × List UInt8)
    (file : List UInt8) (method compSize uncompSize localHeaderOffset : Nat) : Option (List UInt8) :=
  let locHdr := bytesAt file localHeaderOffset 30
  if canSeek localHeaderOffset ∧ locHdr.length = 30 ∧ isSig locHdr 0 3 4 then
    let dataOffset := u32 (localHeaderOffset + 30 + sh locHdr 26 + sh locHdr 28)
    let data := bytesAt file dataOffset compSize
    if canSeek dataOffset = false then none
    else if method = 0 then
      if mallocOk (u32 (compSize + 128)) ∧ data.length = compSize then some data else none
    else if method = 8 then
      let maxUncomp := if 0 < uncompSize ∧ uncompSize < 1048576 then uncompSize else 65536
      if mallocOk compSize ∧ mallocOk (maxUncomp + 128) ∧ data.length = compSize then
        let (puffErr, result) := puff maxUncomp data
        if puffErr = 0 ∧ 0 < result.length then some result else none
      else none
    else none
  else none

/-- ASCII letters in lower case. -/
def toLower (c : UInt8) : UInt8 := if 65 ≤ c ∧ c ≤ 90 then c + 32 else c

/-- `strcasecmp(a, b) == 0`. -/
def sameIgnoringCase (a b : List UInt8) : Bool := a.map toLower == b.map toLower

def manifestName : List UInt8 := ascii "META-INF/MANIFEST.MF"

/-- The name test of the reader, with the first bytes of a name in a buffer of 256. -/
def nameMatches (name target : List UInt8) : Bool :=
  let filename := cString (name.take 255)
  filename == target ||
    (sameIgnoringCase target manifestName && sameIgnoringCase filename manifestName)

/-- The loop over the central directory, with `left` entries to go. -/
def readLoop (mallocOk : Nat → Bool) (puff : Nat → List UInt8 → Nat × List UInt8)
    (file cdBuf target : List UInt8) : (left pos : Nat) → Option (List UInt8)
  | 0, _ => none
  | left + 1, pos =>
    if u32 (pos + 46) ≤ cdBuf.length ∧ isSig cdBuf pos 1 2 then
      let nameLen := sh cdBuf (pos + 28)
      if cdBuf.length < u32 (pos + 46 + nameLen) then none
      else if nameMatches (bytesAt cdBuf (pos + 46) nameLen) target then
        readData mallocOk puff file (sh cdBuf (pos + 10)) (lg cdBuf (pos + 20)) (lg cdBuf (pos + 24))
          (lg cdBuf (pos + 42))
      else readLoop mallocOk puff file cdBuf target left
        (u32 (pos + (46 + nameLen + sh cdBuf (pos + 30) + sh cdBuf (pos + 32))))
    else none

/-- `gb300_read_jar_entry`: the data, whose length is `*out_size`, or nothing; `ftell` returns a
`long` as well. -/
def gb300ReadJarEntry (mallocOk : Nat → Bool) (puff : Nat → List UInt8 → Nat × List UInt8)
    (file entryName : List UInt8) : Option (List UInt8) :=
  let target := (cString entryName).dropWhile (· = 47)
  if file.length < 22 ∨ 2147483648 ≤ file.length then none
  else
    match findEnd mallocOk file with
    | none => none
    | some (searchBuf, eocdOffset) =>
      let totalEntries := sh searchBuf (eocdOffset + 10)
      let cdSize := lg searchBuf (eocdOffset + 12)
      let cdOffset := lg searchBuf (eocdOffset + 16)
      if file.length < u32 (cdOffset + cdSize) ∨ cdSize = 0 then none
      else
        let cdBuf := bytesAt file cdOffset cdSize
        if mallocOk cdSize ∧ canSeek cdOffset ∧ cdBuf.length = cdSize then
          readLoop mallocOk puff file cdBuf target totalEntries 0
        else none

/-! ## Archives -/

/-- An entry of an archive, with its local header and data; `Inflates c u` says that `c` is a
DEFLATE stream of `u`. -/
structure Member (Inflates : List UInt8 → List UInt8 → Prop) where
  entry : CentralEntry
  localHeader : List UInt8
  localName : List UInt8
  localExtra : List UInt8
  data : List UInt8
  contents : List UInt8
  length_localHeader : localHeader.length = 30
  sig : lg localHeader 0 = 0x04034b50
  name_localHeader : sh localHeader 26 = localName.length
  extra_localHeader : sh localHeader 28 = localExtra.length
  censiz_entry : censiz entry.header = data.length
  cenlen_entry : cenlen entry.header = contents.length
  method : (cenhow entry.header = 0 ∧ data = contents) ∨
    (cenhow entry.header = 8 ∧ Inflates data contents)

/-- The local header of a member, its name and extra field, and the data. -/
def Member.bytes {Inflates : List UInt8 → List UInt8 → Prop} (m : Member Inflates) : List UInt8 :=
  m.localHeader ++ (m.localName ++ (m.localExtra ++ m.data))

/-- The bytes of an archive. -/
def archiveBytes (before : List UInt8) (es : List CentralEntry) (endRecord comment : List UInt8) :
    List UInt8 := before ++ (directoryBytes es ++ (endRecord ++ comment))

/-- A well-formed archive: the end record tells the central directory and the comment, names are not
repeated, and each entry tells where its local header is. -/
structure Archive (Inflates : List UInt8 → List UInt8 → Prop) where
  before : List UInt8
  members : List (Member Inflates)
  endRecord : List UInt8
  comment : List UInt8
  length_endRecord : endRecord.length = 22
  sig_endRecord : lg endRecord 0 = 0x06054b50
  entries_endRecord : sh endRecord 10 = members.length
  size_endRecord : lg endRecord 12 = (directoryBytes (members.map Member.entry)).length
  offset_endRecord : lg endRecord 16 = before.length
  comment_endRecord : sh endRecord 20 = comment.length
  names_nodup : (members.map fun m => m.entry.name).Nodup
  located : ∀ m ∈ members, ∃ pre rest, pre.length = cenoff m.entry.header ∧
    archiveBytes before (members.map Member.entry) endRecord comment = pre ++ (m.bytes ++ rest)

namespace Archive
variable {Inflates : List UInt8 → List UInt8 → Prop}

def file (a : Archive Inflates) : List UInt8 :=
  archiveBytes a.before (a.members.map Member.entry) a.endRecord a.comment

/-- No later end record, false or not, begins behind the one of the archive. -/
def EndIsLast (a : Archive Inflates) : Prop :=
  ∀ i, 0 < i → i + 22 ≤ (a.endRecord ++ a.comment).length →
    isSig (a.endRecord ++ a.comment) i 5 6 = false

/-- What is asked of a reader: the contents of the entry with the name, nothing if there is none. -/
def Reads (a : Archive Inflates) (name : List UInt8) (result : Option (List UInt8)) : Prop :=
  (∀ m ∈ a.members, m.entry.name = name → result = some m.contents) ∧
  ((∀ m ∈ a.members, m.entry.name ≠ name) → result = none)

end Archive

/-- The sizes that the reader can read. -/
def Member.HasReadableSize {Inflates : List UInt8 → List UInt8 → Prop} (m : Member Inflates) : Prop :=
  cenhow m.entry.header = 0 ∨ (0 < m.contents.length ∧ m.contents.length < 1048576)

instance {Inflates : List UInt8 → List UInt8 → Prop} (m : Member Inflates) :
    Decidable m.HasReadableSize := inferInstanceAs (Decidable (_ ∨ _))

/-! ## Finding the end record -/

theorem ch_lt (b : List UInt8) (n : Nat) : ch b n < 256 := UInt8.toNat_lt ..

/-- A signature is a little-endian number. -/
theorem isSig_iff {b : List UInt8} {i c d : Nat} (hc : c < 256) :
    isSig b i c d = true ↔ lg b i = 0x4b50 + 65536 * (c + 256 * d) := by
  have h0 := ch_lt b i
  have h1 := ch_lt b (i + 1)
  have h2 := ch_lt b (i + 2)
  have h3 := ch_lt b (i + 3)
  simp only [isSig, Bool.and_eq_true, beq_iff_eq, lg, sh, Nat.add_assoc, Nat.reduceAdd]
  omega

theorem isSig_append_right (a b : List UInt8) (i c d : Nat) :
    isSig (a ++ b) (a.length + i) c d = isSig b i c d := by
  simp only [isSig, Nat.add_assoc, ch_append_right]

/-- The search finds the last signature. -/
theorem searchEnd_eq_some {b : List UInt8} {n i : Nat} (hi : i < n) (hsig : isSig b i 5 6 = true)
    (hlast : ∀ j, i < j → j < n → isSig b j 5 6 = false) : searchEnd b n = some i := by
  induction n with
  | zero => exact absurd hi (Nat.not_lt_zero i)
  | succ n ih =>
    rw [searchEnd]
    rcases Nat.lt_or_eq_of_le (Nat.le_of_lt_succ hi) with hlt | rfl
    · rw [if_neg (by rw [hlast n hlt (Nat.lt_succ_self n)]; exact Bool.false_ne_true)]
      exact ih hlt fun j hij hjn => hlast j hij (Nat.lt_succ_of_lt hjn)
    · rw [if_pos hsig]

theorem searchEnd_eq_none {b : List UInt8} {n : Nat} (h : ∀ j, j < n → isSig b j 5 6 = false) :
    searchEnd b n = none := by
  induction n with
  | zero => rfl
  | succ n ih =>
    rw [searchEnd, if_neg (by rw [h n (Nat.lt_succ_self n)]; exact Bool.false_ne_true)]
    exact ih fun j hj => h j (Nat.lt_succ_of_lt hj)

/-- The last bytes of a file. -/
theorem bytesAt_last {file : List UInt8} {n : Nat} (h : n ≤ file.length) :
    bytesAt file (file.length - n) n = file.drop (file.length - n) := by
  rw [bytesAt, List.take_of_length_le]
  rw [List.length_drop]
  omega

/-- A search that has the end record in its buffer. -/
theorem search_hit {front tail : List UInt8} {n : Nat} (hn : n ≤ (front ++ tail).length)
    (htail : tail.length ≤ n) (hlong : 22 ≤ tail.length) (hsig : isSig tail 0 5 6 = true)
    (hlast : ∀ i, 0 < i → i + 22 ≤ tail.length → isSig tail i 5 6 = false) :
    ∃ front', bytesAt (front ++ tail) ((front ++ tail).length - n) n = front' ++ tail ∧
      searchEnd (front' ++ tail) (n - 22 + 1) = some front'.length := by
  have hlen : (front ++ tail).length = front.length + tail.length := List.length_append
  have hbuf : (front ++ tail).drop ((front ++ tail).length - n) =
      front.drop ((front ++ tail).length - n) ++ tail := by
    rw [List.drop_append_of_le_length (by omega)]
  refine ⟨front.drop ((front ++ tail).length - n), (bytesAt_last hn).trans hbuf, ?_⟩
  have hfront : (front.drop ((front ++ tail).length - n)).length = n - tail.length := by
    rw [List.length_drop]
    omega
  apply searchEnd_eq_some
  · omega
  · have h := isSig_append_right (front.drop ((front ++ tail).length - n)) tail 0 5 6
    rw [Nat.add_zero] at h
    rw [h, hsig]
  · intro j hj hjn
    obtain ⟨i, rfl⟩ := Nat.exists_eq_add_of_lt hj
    rw [Nat.add_assoc, isSig_append_right]
    exact hlast _ (by omega) (by omega)

/-- A search in a part of the comment. -/
theorem search_miss {front tail : List UInt8} {n : Nat} (hn : n < tail.length) (hlong : 22 ≤ n)
    (hlast : ∀ i, 0 < i → i + 22 ≤ tail.length → isSig tail i 5 6 = false) :
    searchEnd (bytesAt (front ++ tail) ((front ++ tail).length - n) n) (n - 22 + 1) = none := by
  have hlen : (front ++ tail).length = front.length + tail.length := List.length_append
  rw [bytesAt_last (by omega)]
  apply searchEnd_eq_none
  intro j hj
  have hdrop : (front ++ tail).drop ((front ++ tail).length - n) = tail.drop (tail.length - n) := by
    rw [List.drop_append, List.drop_of_length_le (by omega), List.nil_append]
    congr 1
    omega
  have hsplit := isSig_append_right (tail.take (tail.length - n)) (tail.drop (tail.length - n)) j 5 6
  rw [List.take_append_drop, List.length_take] at hsplit
  rw [hdrop, ← hsplit]
  exact hlast _ (by omega) (by omega)

theorem sh_lt (b : List UInt8) (n : Nat) : sh b n < 65536 := by
  have := ch_lt b n
  have := ch_lt b (n + 1)
  rw [sh]
  omega

namespace Archive
variable {Inflates : List UInt8 → List UInt8 → Prop} {a : Archive Inflates}

theorem file_eq (a : Archive Inflates) : a.file =
    (a.before ++ directoryBytes (a.members.map Member.entry)) ++ (a.endRecord ++ a.comment) :=
  (List.append_assoc ..).symm

/-- **The end record is found**, in the first window or in the second. -/
theorem findEnd_eq {mallocOk : Nat → Bool} (hmalloc : ∀ n, mallocOk n = true) (hend : a.EndIsLast) :
    ∃ front, findEnd mallocOk a.file =
      some (front ++ (a.endRecord ++ a.comment), front.length) := by
  have hcomment := sh_lt a.endRecord 20
  rw [a.comment_endRecord] at hcomment
  have htail : (a.endRecord ++ a.comment).length = 22 + a.comment.length := by
    rw [List.length_append, a.length_endRecord]
  have hsig : isSig (a.endRecord ++ a.comment) 0 5 6 = true := by
    rw [isSig_iff (by omega), lg_append_left (by rw [a.length_endRecord]; omega), a.sig_endRecord]
  have hfile : a.file.length =
      (a.before ++ directoryBytes (a.members.map Member.entry)).length + (22 + a.comment.length) := by
    rw [file_eq, List.length_append, htail]
  have hhit : ∀ n, n ≤ a.file.length → 22 + a.comment.length ≤ n → ∃ front,
      bytesAt a.file (a.file.length - n) n = front ++ (a.endRecord ++ a.comment) ∧
      searchEnd (front ++ (a.endRecord ++ a.comment)) (n - 22 + 1) = some front.length := by
    intro n hn hlong
    rw [file_eq] at hn ⊢
    exact search_hit hn (by omega) (by omega) hsig hend
  by_cases hshort : 22 + a.comment.length ≤ if a.file.length < 2048 then a.file.length else 2048
  · obtain ⟨front, hbuf, hsearch⟩ := hhit _ (by split <;> omega) hshort
    refine ⟨front, ?_⟩
    simp only [findEnd, hmalloc, if_true, hbuf, hsearch]
  · -- the first window lies in the comment
    have hwindow : ¬ a.file.length < 2048 := fun h => hshort (by rw [if_pos h]; omega)
    rw [if_neg hwindow] at hshort
    have hmiss : searchEnd (bytesAt a.file (a.file.length - 2048) 2048) (2048 - 22 + 1) = none := by
      rw [file_eq]
      exact search_miss (by omega) (by omega) hend
    obtain ⟨front, hbuf, hsearch⟩ := hhit (if a.file.length < 65558 then a.file.length else 65558)
      (by split <;> omega) (by split <;> omega)
    refine ⟨front, ?_⟩
    have hmore : 2048 < a.file.length := by omega
    simp only [findEnd, hmalloc, if_true, if_neg hwindow, hmiss, if_pos hmore, hbuf, hsearch,
      Option.map_some]

end Archive

/-! ## Reading the data of a member -/

/-- `puff` decodes DEFLATE: it writes the whole output, or reports an error when the destination is
too small. -/
def Decodes (Inflates : List UInt8 → List UInt8 → Prop)
    (puff : Nat → List UInt8 → Nat × List UInt8) : Prop :=
  ∀ n c u, Inflates c u → (u.length ≤ n → puff n c = (0, u)) ∧ (n < u.length → (puff n c).1 ≠ 0)

section ReadData
variable {Inflates : List UInt8 → List UInt8 → Prop} {mallocOk : Nat → Bool}
  {puff : Nat → List UInt8 → Nat × List UInt8} {file : List UInt8}

/-- **The data of a member is read** when it has a size that can be read. -/
theorem readData_eq {m : Member Inflates} (hmalloc : ∀ n, mallocOk n = true)
    (hpuff : Decodes Inflates puff) (hsmall : file.length < 2147483648)
    (hlocated : ∃ pre rest, pre.length = cenoff m.entry.header ∧ file = pre ++ (m.bytes ++ rest)) :
    readData mallocOk puff file (cenhow m.entry.header) (censiz m.entry.header)
      (cenlen m.entry.header) (cenoff m.entry.header) =
      if m.HasReadableSize then some m.contents else none := by
  obtain ⟨pre, rest, hpre, hfile⟩ := hlocated
  have hlength : file.length = pre.length + (30 + (m.localName.length + (m.localExtra.length +
      m.data.length)) + rest.length) := by
    rw [hfile, List.length_append, List.length_append, Member.bytes, List.length_append,
      List.length_append, List.length_append, m.length_localHeader]
  have hheader : bytesAt file (cenoff m.entry.header) 30 = m.localHeader := by
    rw [hfile, Member.bytes, List.append_assoc]
    exact bytesAt_append_of_eq hpre.symm m.length_localHeader.symm
  have hsig : isSig m.localHeader 0 3 4 = true := by rw [isSig_iff (by omega), m.sig]
  have hoffset : u32 (cenoff m.entry.header + 30 + sh m.localHeader 26 + sh m.localHeader 28) =
      (pre ++ (m.localHeader ++ (m.localName ++ m.localExtra))).length := by
    rw [m.name_localHeader, m.extra_localHeader, ← hpre, u32, Nat.mod_eq_of_lt (by omega),
      List.length_append, List.length_append, List.length_append, m.length_localHeader]
    omega
  have hdata : bytesAt file (pre ++ (m.localHeader ++ (m.localName ++ m.localExtra))).length
      (censiz m.entry.header) = m.data := by
    have hsplit : file = (pre ++ (m.localHeader ++ (m.localName ++ m.localExtra))) ++
        (m.data ++ rest) := by
      rw [hfile, Member.bytes]
      simp only [List.append_assoc]
    rw [hsplit]
    exact bytesAt_append_of_eq rfl m.censiz_entry
  have hseek : canSeek (cenoff m.entry.header) = true :=
    decide_eq_true (by omega)
  have hseek' : canSeek (pre ++ (m.localHeader ++ (m.localName ++ m.localExtra))).length = true := by
    refine decide_eq_true ?_
    rw [List.length_append, List.length_append, List.length_append, m.length_localHeader]
    omega
  rw [readData, hheader]
  dsimp only
  rw [if_pos ⟨hseek, m.length_localHeader, hsig⟩, hoffset, hdata,
    if_neg (by rw [hseek']; exact Bool.noConfusion), m.censiz_entry, m.cenlen_entry]
  simp only [hmalloc, true_and]
  rcases m.method with ⟨hmethod, hstored⟩ | ⟨hmethod, hdeflated⟩
  · rw [if_pos hmethod, if_pos trivial, if_pos (.inl hmethod), hstored]
  · have hne : ¬ cenhow m.entry.header = 0 := by omega
    rw [if_neg hne, if_pos hmethod, if_pos trivial]
    by_cases hsize : 0 < m.contents.length ∧ m.contents.length < 1048576
    · rw [if_pos hsize, (hpuff _ _ _ hdeflated).1 (Nat.le_refl _), if_pos ⟨rfl, hsize.1⟩,
        if_pos (.inr hsize)]
    · have hno : ¬ m.HasReadableSize := fun h => h.elim hne hsize
      rw [if_neg hsize, if_neg hno]
      apply if_neg
      rintro ⟨herr, hpos⟩
      by_cases hempty : m.contents.length = 0
      · -- an empty result is taken for an error
        rw [(hpuff _ _ _ hdeflated).1 (by omega)] at hpos
        exact absurd hpos (by dsimp only; omega)
      · -- the buffer is too small
        exact (hpuff _ _ _ hdeflated).2 (by omega) herr

/-- **The loop reads the first member accepted**, by induction over the members still to come. -/
theorem readLoop_eq {cdBuf target : List UInt8} (hmalloc : ∀ n, mallocOk n = true)
    (hpuff : Decodes Inflates puff) (hsmall : file.length < 2147483648)
    (hcd : cdBuf.length < 2147483648) : ∀ {ms : List (Member Inflates)} {p : List UInt8} {pos : Nat},
    p.length = pos → cdBuf = p ++ directoryBytes (ms.map Member.entry) →
    (∀ m ∈ ms, ∃ pre rest, pre.length = cenoff m.entry.header ∧ file = pre ++ (m.bytes ++ rest)) →
    readLoop mallocOk puff file cdBuf target ms.length pos =
      (ms.find? fun m => nameMatches m.entry.name target).bind fun m =>
        if m.HasReadableSize then some m.contents else none
  | [], _, _, _, _, _ => by
    rw [List.length_nil, readLoop, List.find?_nil, Option.bind_none]
  | m :: ms, pre, _, rfl, hbuf, hlocated => by
    have hentry : cdBuf = pre ++ (m.entry.bytes ++ directoryBytes (ms.map Member.entry)) := by
      rw [hbuf, List.map_cons, directoryBytes, List.flatMap_cons]
      rfl
    obtain ⟨hafter, hpos⟩ := after_entry hentry
    have hsize : m.entry.size = 46 + m.entry.name.length + cenext m.entry.header +
        cencom m.entry.header := by rw [CentralEntry.size, m.entry.cennam_header, CENHDRSIZ]
    have hfits : pre.length + m.entry.size ≤ cdBuf.length := by
      have := congrArg List.length hafter
      rw [List.length_append, hpos] at this
      omega
    have hbytes : m.entry.bytes ++ directoryBytes (ms.map Member.entry) = m.entry.header ++
        (m.entry.name ++ (m.entry.extra ++ (m.entry.comment ++
          directoryBytes (ms.map Member.entry)))) := by
      rw [CentralEntry.bytes]
      simp only [List.append_assoc]
    -- the fields of the header, as the loop reads them
    have hsh : ∀ i, i + 1 < 46 → sh cdBuf (pre.length + i) = sh m.entry.header i := fun i hi => by
      rw [hentry, sh_append_right, hbytes, sh_append_left (by rw [m.entry.length_header]; exact hi)]
    have hlg : ∀ i, i + 3 < 46 → lg cdBuf (pre.length + i) = lg m.entry.header i := fun i hi => by
      rw [hentry, lg_append_right, hbytes, lg_append_left (by rw [m.entry.length_header]; exact hi)]
    have hsig : isSig cdBuf pre.length 1 2 = true := by
      rw [isSig_iff (by omega)]
      have h := hlg 0 (by omega)
      rw [Nat.add_zero] at h
      rw [h, m.entry.sig, CENSIG]
    have hname : bytesAt cdBuf (pre.length + 46) m.entry.name.length = m.entry.name := by
      rw [← m.entry.cennam_header]
      exact name_at hentry
    rw [List.length_cons, readLoop,
      if_pos ⟨by rw [u32, Nat.mod_eq_of_lt (by omega)]; omega, hsig⟩]
    dsimp only
    rw [hsh 28 (by omega), hsh 10 (by omega), hsh 30 (by omega), hsh 32 (by omega),
      hlg 20 (by omega), hlg 24 (by omega), hlg 42 (by omega),
      show sh m.entry.header 28 = m.entry.name.length from m.entry.cennam_header, hname,
      if_neg (by rw [u32, Nat.mod_eq_of_lt (by omega)]; omega)]
    by_cases hmatch : nameMatches m.entry.name target = true
    · rw [if_pos hmatch, List.find?_cons_of_pos (p := fun m : Member Inflates =>
        nameMatches m.entry.name target) hmatch, Option.bind_some]
      exact readData_eq hmalloc hpuff hsmall (hlocated m (List.mem_cons_self ..))
    · have hnext : u32 (pre.length + (46 + m.entry.name.length + sh m.entry.header 30 +
          sh m.entry.header 32)) = (pre ++ m.entry.bytes).length := by
        rw [hpos, hsize, u32]
        exact Nat.mod_eq_of_lt (by rw [hsize] at hfits; exact Nat.lt_of_le_of_lt hfits (by omega))
      rw [if_neg hmatch, List.find?_cons_of_neg (p := fun m : Member Inflates =>
        nameMatches m.entry.name target) hmatch]
      exact readLoop_eq hmalloc hpuff hsmall hcd hnext.symm hafter
        fun m hm => hlocated m (List.mem_cons_of_mem _ hm)

end ReadData

namespace Archive
variable {Inflates : List UInt8 → List UInt8 → Prop} {a : Archive Inflates}

/-- The first member that the name test accepts. -/
def accepted (a : Archive Inflates) (name : List UInt8) : Option (Member Inflates) :=
  a.members.find? fun m => nameMatches m.entry.name ((cString name).dropWhile (· = 47))

/-- **What the reader returns.** -/
theorem gb300ReadJarEntry_eq {mallocOk : Nat → Bool} {puff : Nat → List UInt8 → Nat × List UInt8}
    (hmalloc : ∀ n, mallocOk n = true) (hpuff : Decodes Inflates puff) (hend : a.EndIsLast)
    (name : List UInt8) : gb300ReadJarEntry mallocOk puff a.file name =
      if 2147483648 ≤ a.file.length then none
      else (a.accepted name).bind fun m => if m.HasReadableSize then some m.contents else none := by
  have hlength : a.file.length = a.before.length +
      (directoryBytes (a.members.map Member.entry)).length + (22 + a.comment.length) := by
    rw [file_eq, List.length_append, List.length_append, List.length_append, a.length_endRecord]
  by_cases hlarge : 2147483648 ≤ a.file.length
  · rw [gb300ReadJarEntry, if_pos (.inr hlarge), if_pos hlarge]
  · obtain ⟨front, hfound⟩ := findEnd_eq hmalloc hend
    have hdirectory : bytesAt a.file a.before.length
        (directoryBytes (a.members.map Member.entry)).length =
        directoryBytes (a.members.map Member.entry) := bytesAt_append
    rw [gb300ReadJarEntry, if_neg (by omega), if_neg hlarge, hfound]
    dsimp only
    rw [sh_append_right, lg_append_right, lg_append_right,
      sh_append_left (by rw [a.length_endRecord]; omega),
      lg_append_left (by rw [a.length_endRecord]; omega),
      lg_append_left (by rw [a.length_endRecord]; omega),
      a.entries_endRecord, a.size_endRecord, a.offset_endRecord, hdirectory, u32,
      Nat.mod_eq_of_lt (by omega)]
    by_cases hempty : (directoryBytes (a.members.map Member.entry)).length = 0
    · -- an empty directory has no members
      have hnone : a.members = [] := by
        have hle := length_le_length_directoryBytes (a.members.map Member.entry)
        rw [List.length_map] at hle
        exact List.eq_nil_of_length_eq_zero (by omega)
      rw [if_pos (.inr hempty), accepted, hnone, List.find?_nil, Option.bind_none]
    · rw [if_neg (by omega), if_pos ⟨hmalloc _, decide_eq_true (by omega), rfl⟩]
      exact readLoop_eq hmalloc hpuff (by omega) (by omega) (p := []) rfl rfl a.located

/-- The first member accepted is the one with the name, or has its contents, and can be read; or
nothing can be read and nothing has the name. -/
def AcceptsRight (a : Archive Inflates) (name : List UInt8) : Prop :=
  match if 2147483648 ≤ a.file.length then none else a.accepted name with
  | none => ∀ m ∈ a.members, m.entry.name ≠ name
  | some m =>
    if m.HasReadableSize then ∃ m' ∈ a.members, m'.entry.name = name ∧ m'.contents = m.contents
    else ∀ m ∈ a.members, m.entry.name ≠ name

/-- Names tell the members of an archive. -/
theorem eq_of_name {m m' : Member Inflates} (hm : m ∈ a.members) (hm' : m' ∈ a.members)
    (h : m.entry.name = m'.entry.name) : m = m' :=
  List.inj_on_of_nodup_map a.names_nodup hm hm' h

/-- **The reader is right** for a name exactly when it accepts the right member. -/
theorem reads_iff {mallocOk : Nat → Bool} {puff : Nat → List UInt8 → Nat × List UInt8}
    (hmalloc : ∀ n, mallocOk n = true) (hpuff : Decodes Inflates puff) (hend : a.EndIsLast)
    (name : List UInt8) :
    a.Reads name (gb300ReadJarEntry mallocOk puff a.file name) ↔ a.AcceptsRight name := by
  have hresult : gb300ReadJarEntry mallocOk puff a.file name =
      (if 2147483648 ≤ a.file.length then none else a.accepted name).bind fun m =>
        if m.HasReadableSize then some m.contents else none := by
    rw [gb300ReadJarEntry_eq hmalloc hpuff hend]
    split
    · rfl
    · rfl
  -- reading nothing is right when there is nothing to read
  have hnone : a.Reads name none ↔ ∀ m ∈ a.members, m.entry.name ≠ name :=
    ⟨fun h m hm hname => absurd (h.1 m hm hname).symm (Option.some_ne_none _),
      fun h => ⟨fun m hm hname => absurd hname (h m hm), fun _ => rfl⟩⟩
  rw [hresult, AcceptsRight]
  cases (if 2147483648 ≤ a.file.length then none else a.accepted name) with
  | none => exact hnone
  | some m =>
    rw [Option.bind_some]
    dsimp only
    split
    · constructor
      · intro h
        by_contra hno
        have hall : ∀ m' ∈ a.members, m'.entry.name ≠ name := fun m' hm' hname =>
          hno ⟨m', hm', hname, (Option.some.inj (h.1 m' hm' hname)).symm⟩
        exact Option.some_ne_none _ (h.2 hall)
      · rintro ⟨m', hm', hname, hcontents⟩
        refine ⟨fun m'' hm'' hname'' => ?_, fun h => absurd hname (h m' hm')⟩
        rw [eq_of_name hm'' hm' (hname''.trans hname.symm), hcontents]
    · exact hnone

end Archive

/-! ## A small archive -/

/-- The one stream the small archive uses: an empty block with the fixed code. -/
def InflatesEmpty (c u : List UInt8) : Prop := c = [3, 0] ∧ u = []

/-- `puff`, on that stream. -/
def puffEmpty (_ : Nat) (c : List UInt8) : Nat × List UInt8 := if c = [3, 0] then (0, []) else (1, [])

theorem decodes_puffEmpty : Decodes InflatesEmpty puffEmpty := by
  rintro n c u ⟨rfl, rfl⟩
  exact ⟨fun _ => rfl, fun h => absurd h (Nat.not_lt_zero n)⟩

/-- A central header with a name of one byte. -/
def tinyEntry (method size length offset name : UInt8) : CentralEntry where
  header := [0x50, 0x4b, 1, 2, 20, 0, 20, 0, 0, 0, method, 0, 0, 0, 0, 0, 0, 0, 0, 0, size, 0, 0, 0,
    length, 0, 0, 0, 1, 0, 0, 0, 0, 0, 0, 0, 0, 0, 0, 0, 0, 0, offset, 0, 0, 0]
  name := [name]
  extra := []
  comment := []
  length_header := rfl
  sig := by simp [lg, sh, ch, CENSIG]
  cennam_header := by simp [cennam, sh, ch]
  cenext_header := by simp [cenext, sh, ch]
  cencom_header := by simp [cencom, sh, ch]

def tinyLocalHeader : List UInt8 :=
  [0x50, 0x4b, 3, 4] ++ (List.replicate 22 0 ++ [1, 0, 0, 0])

/-- The stored entry `s` with the one byte 7. -/
def tinyStored : Member InflatesEmpty where
  entry := tinyEntry 0 1 1 0 115
  localHeader := tinyLocalHeader
  localName := [115]
  localExtra := []
  data := [7]
  contents := [7]
  length_localHeader := rfl
  sig := rfl
  name_localHeader := rfl
  extra_localHeader := rfl
  censiz_entry := rfl
  cenlen_entry := rfl
  method := .inl ⟨rfl, rfl⟩

/-- The deflated entry `e`, which is empty. -/
def tinyDeflated : Member InflatesEmpty where
  entry := tinyEntry 8 2 0 32 101
  localHeader := tinyLocalHeader
  localName := [101]
  localExtra := []
  data := [3, 0]
  contents := []
  length_localHeader := rfl
  sig := rfl
  name_localHeader := rfl
  extra_localHeader := rfl
  censiz_entry := rfl
  cenlen_entry := rfl
  method := .inr ⟨rfl, rfl, rfl⟩

/-- The archive of the two. -/
def tinyArchive : Archive InflatesEmpty where
  before := tinyStored.bytes ++ tinyDeflated.bytes
  members := [tinyStored, tinyDeflated]
  endRecord := [0x50, 0x4b, 5, 6, 0, 0, 0, 0, 2, 0, 2, 0, 94, 0, 0, 0, 65, 0, 0, 0, 0, 0]
  comment := []
  length_endRecord := rfl
  sig_endRecord := rfl
  entries_endRecord := rfl
  size_endRecord := rfl
  offset_endRecord := rfl
  comment_endRecord := rfl
  names_nodup := by decide
  located := by
    intro m hm
    rcases List.mem_cons.1 hm with rfl | hm
    · exact ⟨[], _, rfl, List.append_assoc ..⟩
    · obtain rfl := List.mem_singleton.1 hm
      exact ⟨tinyStored.bytes, _, rfl, List.append_assoc ..⟩

theorem tinyArchive_endIsLast : tinyArchive.EndIsLast := by
  intro i hi hle
  exact absurd hle (by
    have hlength : (tinyArchive.endRecord ++ tinyArchive.comment).length = 22 := rfl
    omega)

/-- The stored entry is read. -/
theorem Archive.reads_stored : tinyArchive.Reads [115]
    (gb300ReadJarEntry (fun _ => true) puffEmpty tinyArchive.file [115]) := by
  refine (Archive.reads_iff (fun _ => rfl) decodes_puffEmpty tinyArchive_endIsLast [115]).2 ?_
  have haccepted : (if 2147483648 ≤ tinyArchive.file.length then none
      else tinyArchive.accepted [115]) = some tinyStored := by
    rw [if_neg (by decide +kernel)]
    rfl
  rw [Archive.AcceptsRight, haccepted]
  dsimp only
  rw [if_pos (.inl rfl)]
  exact ⟨tinyStored, List.mem_cons_self .., rfl, rfl⟩

/-- **The empty entry reads as missing.** -/
theorem Archive.reads_empty : ¬ ∀ (Inflates : List UInt8 → List UInt8 → Prop)
    (a : Archive Inflates) (puff : Nat → List UInt8 → Nat × List UInt8) (name : List UInt8),
    Decodes Inflates puff → a.Reads name (gb300ReadJarEntry (fun _ => true) puff a.file name) := by
  intro h
  have hread := (h _ tinyArchive puffEmpty [101] decodes_puffEmpty).1 tinyDeflated
    (List.mem_cons_of_mem _ (List.mem_singleton_self _)) rfl
  have hnone : gb300ReadJarEntry (fun _ => true) puffEmpty tinyArchive.file [101] = none := by
    decide +kernel
  rw [hnone] at hread
  exact Option.some_ne_none _ hread.symm

end FroggyKVM.Zip
