/-
# FroggyKVM.Rms.FileList — listing and deleting the stores of a suite (`rms_posix.c`).

The native code recognises the files of a suite by their prefix `suite_%d_`, the stores among them
by the suffix `_0.rms`, and reads the name of a store back from the hexadecimal digits between the
two.  Prefix and suffix find exactly the files of the suite, so count and deletion are right; **the
listed names are the names the stores were created with exactly when folding leaves these as they
are.**
-/
import FroggyKVM.Rms.Files

namespace FroggyKVM.Rms

/-! ## Strings from UTF-8 (`CharacterStream.cpp`) -/

/-- `get_next_jchar_slow`, after the byte `ch1`. -/
def getNextJcharSlow (ch1 : UInt8) (rest : List UInt8) : Option (UInt16 × List UInt8) :=
  match (ch1 >>> 4).toNat with
  | 0x8 | 0x9 | 0xA | 0xB | 0xF => none
  | 0xC | 0xD =>
    match rest with
    | [] => none
    | ch2 :: rest =>
      if ch2 &&& 0xC0 = 0x80 then
        some (((ch1 &&& 0x1F).toUInt16 <<< 6) + (ch2 &&& 0x3F).toUInt16, rest)
      else none
  | 0xE =>
    match rest with
    | ch2 :: ch3 :: rest =>
      if ch2 &&& 0xC0 = 0x80 then
        if ch3 &&& 0xC0 = 0x80 then
          some ((((ch1 &&& 0x0F).toUInt16 <<< 6) + (ch2 &&& 0x3F).toUInt16) <<< 6 +
            (ch3 &&& 0x3F).toUInt16, rest)
        else some (((ch1 &&& 0x0F).toUInt16 <<< 6) + (ch2 &&& 0x3F).toUInt16, ch3 :: rest)
      else none
    | _ => none
  | _ => some (ch1.toUInt16, rest)

/-- `get_next_jchar_from_utf8`: the next character and what follows it, nothing at an error. -/
def getNextJcharFromUtf8 : List UInt8 → Option (UInt16 × List UInt8)
  | [] => none
  | ch1 :: rest =>
    if ch1 = 0 then none
    else if 128 ≤ ch1 then getNextJcharSlow ch1 rest
    else some (ch1.toUInt16, rest)

/-- The characters of a stream; each takes one byte or more. -/
def readUtf8 : Nat → List UInt8 → Option (List UInt16)
  | _, [] => some []
  | 0, _ :: _ => none
  | fuel + 1, b :: bs =>
    match getNextJcharFromUtf8 (b :: bs) with
    | none => none
    | some (c, rest) => (readUtf8 fuel rest).map (c :: ·)

/-- `KNI_NewStringUTF`; a stream with an error has a negative length, and no string is made. -/
def newStringUtf (s : List UInt8) : Option (List UInt16) := readUtf8 s.length s

/-! ## The directory (`opendir`, `readdir`) -/

/-- What `readdir` gives for the directory `dir`, in any order. -/
structure Entries (dir : List UInt8) (fs : FileSystem) (names : List (List UInt8)) : Prop where
  nodup : names.Nodup
  mem_iff : ∀ n, n ∈ names ↔
    (47 ∉ n ∧ (fs (dir ++ (ascii "/" ++ n))).isSome) ∨ n = ascii "." ∨ n = ascii ".."

/-- The tests of `count_record_stores` and `fill_record_stores_list`: the prefix of the suite, the
suffix of a store, and a file that is not empty. -/
def isRecordStore (dir : List UInt8) (fs : FileSystem) (suiteId : Int) (n : List UInt8) : Bool :=
  (suitePrefix suiteId).isPrefixOf n && decide (6 < n.length) &&
    decide (n.drop (n.length - 6) = ascii "_0.rms") &&
    match fs (fullPath dir n) with
    | none => false
    | some contents => decide (0 < contents.length)

/-- `count_record_stores`. -/
def countRecordStores (dir : List UInt8) (fs : FileSystem) (names : List (List UInt8))
    (suiteId : Int) : Nat :=
  (names.filter (isRecordStore dir fs suiteId)).length

/-- The string `fill_record_stores_list` writes for an entry, if it writes one. -/
def recordStoreName (dir : List UInt8) (fs : FileSystem) (suiteId : Int) (n : List UInt8) :
    Option (Option (List UInt16)) :=
  let prefixLen := (suitePrefix suiteId).length
  if isRecordStore dir fs suiteId n then
    -- with the suffix inside the prefix, the unsigned length of the name wraps around
    if 6 + prefixLen ≤ n.length ∧ n.length - 6 - prefixLen < 512 then
      (decodeHex 256 ((n.drop prefixLen).take (n.length - 6 - prefixLen))).map fun decoded =>
        newStringUtf (cString decoded)
    else none
  else none

/-- The loop of `fill_record_stores_list`, with `idx` strings written. -/
def fillLoop (dir : List UInt8) (fs : FileSystem) (suiteId : Int) (maxCount : Nat) :
    Nat → List (List UInt8) → List (Option (List UInt16))
  | _, [] => []
  | idx, n :: names =>
    if idx < maxCount then
      match recordStoreName dir fs suiteId n with
      | none => fillLoop dir fs suiteId maxCount idx names
      | some s => s :: fillLoop dir fs suiteId maxCount (idx + 1) names
    else []

/-- `fill_record_stores_list`: what is written into the array, null for a string not made. -/
def fillRecordStoresList (dir : List UInt8) (fs : FileSystem) (names : List (List UInt8))
    (suiteId : Int) (maxCount : Nat) : List (Option (List UInt16)) :=
  fillLoop dir fs suiteId maxCount 0 names

/-- `RecordStoreFile.listRecordStores`, whose array has room for the stores counted. -/
def listRecordStores (dir : List UInt8) (fs : FileSystem) (names : List (List UInt8))
    (suiteId : Int) : List (Option (List UInt16)) :=
  fillRecordStoresList dir fs names suiteId (countRecordStores dir fs names suiteId)

/-- The test of `delete_all_record_stores`. -/
def isSuiteFile (suiteId : Int) (n : List UInt8) : Bool :=
  (suitePrefix suiteId).isPrefixOf n && decide (4 < n.length) &&
    decide (n.drop (n.length - 4) = ascii ".rms")

/-- `delete_all_record_stores`. -/
def deleteAllRecordStores (dir : List UInt8) (fs : FileSystem) (names : List (List UInt8))
    (suiteId : Int) : FileSystem :=
  names.foldl (fun fs n => if isSuiteFile suiteId n then fs.unlink (fullPath dir n) else fs) fs

/-- The files after stores were opened and written. -/
def createStores (dir : List UInt8) (stores : List (StoreKey × List UInt8)) : FileSystem :=
  stores.foldl (fun fs x => (fs.openFile (buildStorePath dir x.1)).writeFile
    (buildStorePath dir x.1) x.2) fun _ => none

/-- The stores of a suite are listed, counted and deleted exactly; files with another extension
belong to the suite but are not listed. -/
structure Exact (dir : List UInt8) (stores : List (StoreKey × List UInt8)) (suiteId : Int)
    (names : List (List UInt8)) : Prop where
  once : (listRecordStores dir (createStores dir stores) names suiteId).Nodup
  listed : ∀ s, s ∈ listRecordStores dir (createStores dir stores) names suiteId ↔
    ∃ x ∈ stores, x.1.suiteId = suiteId ∧ x.1.extension = 0 ∧ s = some x.1.name
  counted : countRecordStores dir (createStores dir stores) names suiteId =
    (listRecordStores dir (createStores dir stores) names suiteId).length
  deleted : ∀ x ∈ stores, x.1.suiteId = suiteId →
    deleteAllRecordStores dir (createStores dir stores) names suiteId
      (buildStorePath dir x.1) = none
  kept : ∀ p, (∀ x ∈ stores, x.1.suiteId = suiteId → buildStorePath dir x.1 ≠ p) →
    deleteAllRecordStores dir (createStores dir stores) names suiteId p =
      createStores dir stores p

/-! ## Reading a name back -/

/-- ASCII bytes are their own characters. -/
theorem readUtf8_ascii : ∀ {s : List UInt8} {fuel : Nat}, (∀ b ∈ s, b ≠ 0 ∧ b < 128) →
    s.length ≤ fuel → readUtf8 fuel s = some (s.map UInt8.toUInt16)
  | [], _, _, _ => by rw [readUtf8, List.map_nil]
  | b :: bs, 0, _, h => absurd h (by rw [List.length_cons]; omega)
  | b :: bs, fuel + 1, h, hfuel => by
    obtain ⟨hzero, hlt⟩ := h b (List.mem_cons_self ..)
    have hchar : getNextJcharFromUtf8 (b :: bs) = some (b.toUInt16, bs) := by
      rw [getNextJcharFromUtf8, if_neg hzero, if_neg (UInt8.not_le.2 hlt)]
    rw [List.length_cons] at hfuel
    rw [readUtf8, hchar]
    dsimp only
    rw [readUtf8_ascii (fun b hb => h b (List.mem_cons_of_mem _ hb)) (by omega), Option.map_some,
      List.map_cons]

theorem nameBytes_ascii {name : List UInt16} {b : UInt8} (h : b ∈ nameBytes name) :
    b ≠ 0 ∧ b < 128 := by
  refine ⟨of_decide_eq_true (List.mem_takeWhile_imp (p := fun b => decide (b ≠ 0)) h), ?_⟩
  obtain ⟨c, -, rfl⟩ := List.mem_map.1 ((List.takeWhile_sublist _).mem h)
  split
  · rename_i hc
    rw [UInt8.lt_iff_toNat_lt, UInt16.toNat_toUInt8]
    exact lt_of_le_of_lt (Nat.mod_le ..) (UInt16.lt_iff_toNat_lt.1 hc)
  · decide

theorem cString_nameBytes (name : List UInt16) : cString (nameBytes name) = nameBytes name := by
  apply List.takeWhile_eq_self_iff.2
  intro b hb
  exact decide_eq_true (nameBytes_ascii hb).1

/-- The name read back is the folded name. -/
theorem newStringUtf_nameBytes (k : StoreKey) :
    newStringUtf (cString (nameBytes k.name)) = some (foldedName k.name) := by
  rw [cString_nameBytes, newStringUtf, readUtf8_ascii (fun b hb => nameBytes_ascii hb) le_rfl,
    map_nameBytes k.name_length.2]

/-- Folding again changes nothing. -/
theorem foldedName_folded (name : List UInt16) : foldedName (foldedName name) = foldedName name := by
  have hunit : ∀ c ∈ foldedName name, c ≠ 0 ∧ (if c < 128 then c else 95) = c := fun c hc => by
    refine ⟨of_decide_eq_true (List.mem_takeWhile_imp (p := fun c => decide (c ≠ 0)) hc), ?_⟩
    obtain ⟨d, -, rfl⟩ := List.mem_map.1 ((List.takeWhile_sublist _).mem hc)
    split
    · rfl
    · rfl
  have hmap : (foldedName name).map (fun c => if c < 128 then c else 95) = foldedName name :=
    (List.map_congr_left fun c hc => (hunit c hc).2).trans (List.map_id _)
  rw [foldedName, hmap]
  exact List.takeWhile_eq_self_iff.2 fun c hc => decide_eq_true (hunit c hc).1

/-! ## The entries of a suite -/

/-- A file name has the prefix of its own suite only. -/
theorem isPrefixOf_storeFileName {suiteId : Int} {k : StoreKey} :
    (suitePrefix suiteId).isPrefixOf (storeFileName k) ↔ k.suiteId = suiteId := by
  rw [List.isPrefixOf_iff_prefix]
  constructor
  · rintro ⟨t, ht⟩
    exact (suitePrefix_append_inj ht).1.symm
  · rintro rfl
    exact List.prefix_append ..

/-- The end of a list that is long enough. -/
theorem drop_eq_iff {α : Type*} {l t : List α} (h : t.length < l.length) :
    l.drop (l.length - t.length) = t ↔ ∃ s, l = s ++ t := by
  constructor
  · intro hdrop
    have hl := List.take_append_drop (l.length - t.length) l
    rw [hdrop] at hl
    exact ⟨_, hl.symm⟩
  · rintro ⟨s, rfl⟩
    rw [List.length_append, Nat.add_sub_cancel]
    exact List.drop_left

theorem length_storeFileName (k : StoreKey) : (storeFileName k).length =
    (suitePrefix k.suiteId).length + (encodeHex 512 (nameBytes k.name)).length +
      (extensionSuffix k.extension).length := by
  rw [storeFileName, List.length_append, List.length_append, Nat.add_assoc]

theorem length_suitePrefix (suiteId : Int) :
    (suitePrefix suiteId).length = 6 + ((decimal suiteId).length + 1) := by
  rw [suitePrefix, List.length_append, List.length_append]
  rfl

/-- The suffix of a store is the one of extension 0. -/
theorem storeSuffix_storeFileName {k : StoreKey} :
    (∃ s, storeFileName k = s ++ ascii "_0.rms") ↔ k.extension = 0 := by
  constructor
  · rintro ⟨s, hs⟩
    have hrms : ascii "_0.rms" = 95 :: (decimal 0 ++ ascii ".rms") := rfl
    have hext : extensionSuffix k.extension = 95 :: (decimal k.extension ++ ascii ".rms") := rfl
    rw [storeFileName, hext, hrms, ← List.cons_append, ← List.cons_append, ← List.append_assoc,
      ← List.append_assoc, ← List.append_assoc] at hs
    -- the last separator is found from behind
    have hrev := congrArg List.reverse (List.append_cancel_right hs)
    rw [List.reverse_append, List.reverse_append, List.reverse_append, List.reverse_cons,
      List.reverse_cons, List.append_assoc, List.append_assoc] at hrev
    obtain ⟨hnum, -⟩ := append_sep_inj (c := 95)
      (fun h => sep_notMem_decimal _ (List.mem_reverse.1 h))
      (fun h => sep_notMem_decimal _ (List.mem_reverse.1 h)) hrev
    exact decimal_injective (List.reverse_inj.1 hnum)
  · intro h
    rw [storeFileName, h, ← List.append_assoc]
    exact ⟨_, rfl⟩

/-- **The deletion tests find the files of the suite.** -/
theorem isSuiteFile_storeFileName {suiteId : Int} {k : StoreKey} :
    isSuiteFile suiteId (storeFileName k) ↔ k.suiteId = suiteId := by
  have hlen : 4 < (storeFileName k).length := by
    have := length_suitePrefix k.suiteId
    rw [length_storeFileName]
    omega
  have hsuffix : ∃ s, storeFileName k = s ++ ascii ".rms" :=
    ⟨suitePrefix k.suiteId ++ (encodeHex 512 (nameBytes k.name) ++
      (ascii "_" ++ decimal k.extension)), by
      simp only [storeFileName, extensionSuffix, List.append_assoc]⟩
  have hdrop := (drop_eq_iff (t := ascii ".rms") hlen).2 hsuffix
  rw [isSuiteFile, Bool.and_eq_true, Bool.and_eq_true, isPrefixOf_storeFileName]
  exact ⟨fun h => h.1.1, fun h => ⟨⟨h, decide_eq_true hlen⟩, decide_eq_true hdrop⟩⟩

theorem slash_notMem_storeFileName (k : StoreKey) : 47 ∉ storeFileName k := by
  have hdecimal : ∀ x : Int, (47 : UInt8) ∉ decimal x := fun x h => by
    rcases decimal_range h with h | ⟨h, -⟩
    · exact absurd h (by decide)
    · exact absurd h (by decide)
  intro h
  rw [storeFileName, suitePrefix, extensionSuffix] at h
  simp only [List.mem_append] at h
  rcases h with (h | h | h) | h | h | h | h
  · exact absurd h (by decide)
  · exact hdecimal _ h
  · exact absurd h (by decide)
  · rw [encodeHex_nameBytes] at h
    obtain ⟨b, -, hb⟩ := List.mem_flatMap.1 h
    rcases hexByte_range hb with ⟨h, -⟩ | ⟨h, -⟩
    · exact absurd h (by decide)
    · exact absurd h (by decide)
  · exact absurd h (by decide)
  · exact hdecimal _ h
  · exact absurd h (by decide)

/-! ## The files created -/

/-- The stores created fit into the path buffers and are not empty. -/
def Creatable (dir : List UInt8) (stores : List (StoreKey × List UInt8)) : Prop :=
  ∀ x ∈ stores, PathFits dir x.1 ∧ x.2 ≠ []

theorem fullPath_eq {dir n : List UInt8} (h : (dir ++ (ascii "/" ++ n)).length < 512) :
    fullPath dir n = dir ++ (ascii "/" ++ n) := List.take_of_length_le (by omega)

/-- Every file is one of a store, with data. -/
theorem createStores_some {dir : List UInt8} {stores : List (StoreKey × List UInt8)}
    {p contents : List UInt8} (h : createStores dir stores p = some contents) :
    ∃ x ∈ stores, buildStorePath dir x.1 = p ∧ x.2 = contents := by
  induction stores using List.reverseRecOn with
  | nil => exact absurd h.symm (Option.some_ne_none contents)
  | append_singleton stores x ih =>
    rw [createStores, List.foldl_append, List.foldl_cons, List.foldl_nil,
      FileSystem.writeFile] at h
    split at h
    · exact ⟨x, List.mem_append_right _ (List.mem_singleton_self x), Eq.symm (by assumption),
        Option.some.inj h⟩
    · rename_i hp
      rw [FileSystem.openFile, if_neg hp] at h
      obtain ⟨y, hy, hpath⟩ := ih h
      exact ⟨y, List.mem_append_left _ hy, hpath⟩

/-- Every store has a file. -/
theorem createStores_isSome {dir : List UInt8} {stores : List (StoreKey × List UInt8)}
    {x : StoreKey × List UInt8} (h : x ∈ stores) :
    (createStores dir stores (buildStorePath dir x.1)).isSome := by
  induction stores using List.reverseRecOn with
  | nil => exact absurd h List.not_mem_nil
  | append_singleton stores y ih =>
    rw [createStores, List.foldl_append, List.foldl_cons, List.foldl_nil, FileSystem.writeFile]
    split
    · rfl
    · rename_i hne
      rw [FileSystem.openFile, if_neg hne]
      rcases List.mem_append.1 h with h | h
      · exact ih h
      · exact absurd (List.mem_singleton.1 h ▸ rfl) hne

/-- **The entries of the directory are the files of the stores.** -/
theorem mem_entries {dir : List UInt8} {stores : List (StoreKey × List UInt8)}
    {names : List (List UInt8)} (hentries : Entries dir (createStores dir stores) names)
    (hcreatable : Creatable dir stores) {n : List UInt8} (hdot : n ≠ ascii ".")
    (hdots : n ≠ ascii "..") : n ∈ names ↔ ∃ x ∈ stores, n = storeFileName x.1 := by
  rw [hentries.mem_iff]
  constructor
  · rintro (⟨-, hfile⟩ | h | h)
    · obtain ⟨contents, hcontents⟩ := Option.isSome_iff_exists.1 hfile
      obtain ⟨x, hx, hpath, -⟩ := createStores_some hcontents
      rw [buildStorePath, fullPath_eq (hcreatable x hx).1] at hpath
      exact ⟨x, hx, (List.append_cancel_left (List.append_cancel_left hpath)).symm⟩
    · exact absurd h hdot
    · exact absurd h hdots
  · rintro ⟨x, hx, rfl⟩
    refine .inl ⟨slash_notMem_storeFileName _, ?_⟩
    rw [← fullPath_eq (hcreatable x hx).1]
    exact createStores_isSome hx

/-- The directory itself and its parent have no suite's prefix. -/
theorem isPrefixOf_dots {suiteId : Int} {n : List UInt8} (h : n = ascii "." ∨ n = ascii "..") :
    (suitePrefix suiteId).isPrefixOf n = false := by
  apply Bool.eq_false_iff.2
  intro hstart
  have hle := (List.isPrefixOf_iff_prefix.1 hstart).length_le
  rw [length_suitePrefix] at hle
  have hn : n.length ≤ 2 := by
    rcases h with rfl | rfl
    · decide
    · decide
  omega

/-- An entry with the prefix of a suite is the file of one of its stores. -/
theorem of_prefix {dir : List UInt8} {stores : List (StoreKey × List UInt8)}
    {names : List (List UInt8)} (hentries : Entries dir (createStores dir stores) names)
    (hcreatable : Creatable dir stores) {suiteId : Int} {n : List UInt8} (hn : n ∈ names)
    (hstart : (suitePrefix suiteId).isPrefixOf n) :
    ∃ x ∈ stores, n = storeFileName x.1 ∧ x.1.suiteId = suiteId := by
  have hdots : ¬ (n = ascii "." ∨ n = ascii "..") := fun h => by
    rw [isPrefixOf_dots h] at hstart
    exact Bool.noConfusion hstart
  obtain ⟨x, hx, rfl⟩ := (mem_entries hentries hcreatable (fun h => hdots (.inl h))
    (fun h => hdots (.inr h))).1 hn
  exact ⟨x, hx, rfl, isPrefixOf_storeFileName.1 hstart⟩

theorem storeFileName_mem {dir : List UInt8} {stores : List (StoreKey × List UInt8)}
    {names : List (List UInt8)} (hentries : Entries dir (createStores dir stores) names)
    (hcreatable : Creatable dir stores) {x : StoreKey × List UInt8} (hx : x ∈ stores) :
    storeFileName x.1 ∈ names := by
  have hdots : ¬ (storeFileName x.1 = ascii "." ∨ storeFileName x.1 = ascii "..") := fun h => by
    have hstart := isPrefixOf_storeFileName.2 (rfl : x.1.suiteId = x.1.suiteId)
    rw [isPrefixOf_dots h] at hstart
    exact Bool.noConfusion hstart
  exact (mem_entries hentries hcreatable (fun h => hdots (.inl h)) (fun h => hdots (.inr h))).2
    ⟨x, hx, rfl⟩

/-! ## Exactness -/

section
variable {dir : List UInt8} {stores : List (StoreKey × List UInt8)} {names : List (List UInt8)}
  {suiteId : Int}

/-- **The listing tests find the stores of the suite.** -/
theorem isRecordStore_storeFileName (hcreatable : Creatable dir stores)
    {x : StoreKey × List UInt8} (hx : x ∈ stores) :
    isRecordStore dir (createStores dir stores) suiteId (storeFileName x.1) ↔
      x.1.suiteId = suiteId ∧ x.1.extension = 0 := by
  have hlen : 6 < (storeFileName x.1).length := by
    rw [length_storeFileName, length_suitePrefix]
    omega
  have hsuffix := (drop_eq_iff (t := ascii "_0.rms") hlen).trans storeSuffix_storeFileName
  obtain ⟨contents, hcontents⟩ := Option.isSome_iff_exists.1 (@createStores_isSome dir _ _ hx)
  obtain ⟨y, hy, -, rfl⟩ := createStores_some hcontents
  have hdata := List.length_pos_iff.2 (hcreatable y hy).2
  rw [buildStorePath] at hcontents
  rw [isRecordStore, hcontents, Bool.and_eq_true, Bool.and_eq_true, Bool.and_eq_true,
    isPrefixOf_storeFileName]
  constructor
  · rintro ⟨⟨⟨hsuite, -⟩, hdrop⟩, -⟩
    exact ⟨hsuite, hsuffix.1 (of_decide_eq_true hdrop)⟩
  · rintro ⟨hsuite, hext⟩
    exact ⟨⟨⟨hsuite, decide_eq_true hlen⟩, decide_eq_true (hsuffix.2 hext)⟩, decide_eq_true hdata⟩

/-- **The name read from the file of a store is the folded one.** -/
theorem recordStoreName_storeFileName (hcreatable : Creatable dir stores)
    {x : StoreKey × List UInt8} (hx : x ∈ stores) (hsuite : x.1.suiteId = suiteId)
    (hext : x.1.extension = 0) :
    recordStoreName dir (createStores dir stores) suiteId (storeFileName x.1) =
      some (some (foldedName x.1.name)) := by
  have hstore := (isRecordStore_storeFileName hcreatable hx).2 ⟨hsuite, hext⟩
  have hexLength : (encodeHex 512 (nameBytes x.1.name)).length ≤ 64 := by
    have := length_nameBytes_le x.1
    rw [encodeHex_nameBytes, length_flatMap_hexByte]
    omega
  have hlength := length_storeFileName x.1
  have hsuffix : (extensionSuffix x.1.extension).length = 6 := by rw [hext]; rfl
  rw [hsuffix, hsuite] at hlength
  have hname : ((storeFileName x.1).drop (suitePrefix suiteId).length).take
      ((storeFileName x.1).length - 6 - (suitePrefix suiteId).length) =
      encodeHex 512 (nameBytes x.1.name) := by
    rw [hlength, show (suitePrefix suiteId).length + (encodeHex 512 (nameBytes x.1.name)).length +
      6 - 6 - (suitePrefix suiteId).length = (encodeHex 512 (nameBytes x.1.name)).length by omega,
      storeFileName, hsuite, List.drop_left, List.take_left]
  rw [recordStoreName, if_pos hstore, if_pos (by omega), hname, decodeHex_encodeHex,
    Option.map_some, newStringUtf_nameBytes]

/-- The loop writes a string for every entry that has one, while there is room. -/
theorem fillLoop_eq {fs : FileSystem} {maxCount : Nat} : ∀ {ns : List (List UInt8)} {idx : Nat},
    idx + (ns.filterMap (recordStoreName dir fs suiteId)).length ≤ maxCount →
    fillLoop dir fs suiteId maxCount idx ns = ns.filterMap (recordStoreName dir fs suiteId)
  | [], _, _ => rfl
  | n :: ns, idx, h => by
    cases hname : recordStoreName dir fs suiteId n with
    | none =>
      rw [List.filterMap_cons_none hname] at h ⊢
      rw [fillLoop, hname]
      dsimp only
      rw [fillLoop_eq h]
      split
      · rfl
      · -- no room is left, and nothing is left to write
        exact (List.eq_nil_of_length_eq_zero (by omega)).symm
    | some s =>
      rw [List.filterMap_cons_some hname] at h ⊢
      rw [List.length_cons] at h
      rw [fillLoop, hname, if_pos (by omega)]
      dsimp only
      rw [fillLoop_eq (by omega)]

variable (hentries : Entries dir (createStores dir stores) names)
  (hcreatable : Creatable dir stores)
include hentries hcreatable

/-- An entry is listed exactly when it is counted. -/
theorem isSome_recordStoreName {n : List UInt8} (hn : n ∈ names) :
    (recordStoreName dir (createStores dir stores) suiteId n).isSome =
      isRecordStore dir (createStores dir stores) suiteId n := by
  by_cases hstore : isRecordStore dir (createStores dir stores) suiteId n = true
  · have hstart : (suitePrefix suiteId).isPrefixOf n := by
      rw [isRecordStore, Bool.and_eq_true, Bool.and_eq_true, Bool.and_eq_true] at hstore
      exact hstore.1.1.1
    obtain ⟨x, hx, rfl, hsuite⟩ := of_prefix hentries hcreatable hn hstart
    have hext := ((isRecordStore_storeFileName hcreatable hx).1 hstore).2
    rw [hstore, recordStoreName_storeFileName hcreatable hx hsuite hext, Option.isSome_some]
  · rw [recordStoreName, if_neg hstore, Option.isSome_none, Bool.eq_false_iff.2 hstore]

theorem countRecordStores_eq : countRecordStores dir (createStores dir stores) names suiteId =
    (names.filterMap (recordStoreName dir (createStores dir stores) suiteId)).length := by
  rw [List.length_filterMap_eq_countP, countRecordStores, ← List.countP_eq_length_filter]
  exact List.countP_congr fun n hn => by rw [isSome_recordStoreName hentries hcreatable hn]

/-- Every entry with a name is written. -/
theorem listRecordStores_eq : listRecordStores dir (createStores dir stores) names suiteId =
    names.filterMap (recordStoreName dir (createStores dir stores) suiteId) := by
  apply fillLoop_eq
  rw [countRecordStores_eq hentries hcreatable]
  omega

/-- An entry with a name is the file of a store of the suite, and its name is the folded one. -/
theorem of_recordStoreName {n : List UInt8} {s : Option (List UInt16)} (hn : n ∈ names)
    (hname : recordStoreName dir (createStores dir stores) suiteId n = some s) :
    ∃ x ∈ stores, n = storeFileName x.1 ∧ x.1.suiteId = suiteId ∧ x.1.extension = 0 ∧
      s = some (foldedName x.1.name) := by
  have hstore := @isSome_recordStoreName _ _ _ suiteId hentries hcreatable _ hn
  rw [hname, Option.isSome_some] at hstore
  have hstart : (suitePrefix suiteId).isPrefixOf n := by
    have h := hstore.symm
    rw [isRecordStore, Bool.and_eq_true, Bool.and_eq_true, Bool.and_eq_true] at h
    exact h.1.1.1
  obtain ⟨x, hx, rfl, hsuite⟩ := of_prefix hentries hcreatable hn hstart
  have hext := ((isRecordStore_storeFileName hcreatable hx).1 hstore.symm).2
  rw [recordStoreName_storeFileName hcreatable hx hsuite hext] at hname
  exact ⟨x, hx, rfl, hsuite, hext, (Option.some.inj hname).symm⟩

/-- **What is listed**: the folded names of the stores of the suite. -/
theorem mem_listRecordStores {s : Option (List UInt16)} :
    s ∈ listRecordStores dir (createStores dir stores) names suiteId ↔
      ∃ x ∈ stores, x.1.suiteId = suiteId ∧ x.1.extension = 0 ∧
        s = some (foldedName x.1.name) := by
  rw [listRecordStores_eq hentries hcreatable, List.mem_filterMap]
  constructor
  · rintro ⟨n, hn, hname⟩
    obtain ⟨x, hx, -, hlisted⟩ := of_recordStoreName hentries hcreatable hn hname
    exact ⟨x, hx, hlisted⟩
  · rintro ⟨x, hx, hsuite, hext, rfl⟩
    exact ⟨_, storeFileName_mem hentries hcreatable hx,
      recordStoreName_storeFileName hcreatable hx hsuite hext⟩

/-- No name is listed twice: a file name tells the folded name. -/
theorem nodup_listRecordStores :
    (listRecordStores dir (createStores dir stores) names suiteId).Nodup := by
  rw [listRecordStores_eq hentries hcreatable]
  refine List.pairwise_filterMap.2 (hentries.nodup.imp_of_mem fun {n n'} hn hn' hne => ?_)
  intro s hs s' hs' heq
  subst heq
  obtain ⟨x, -, rfl, hsuite, hext, hfold⟩ := of_recordStoreName hentries hcreatable hn hs
  obtain ⟨x', -, rfl, hsuite', hext', hfold'⟩ := of_recordStoreName hentries hcreatable hn' hs'
  apply hne
  exact storeFileName_inj.2 ⟨hsuite.trans hsuite'.symm, hext.trans hext'.symm,
    Option.some.inj (hfold.symm.trans hfold')⟩

omit hentries hcreatable

/-- Deletion goes through the entries; a file stays when no entry that passes the tests is its
name. -/
theorem foldl_unlink {suiteId : Int} {p : List UInt8} : ∀ {ns : List (List UInt8)}
    {fs : FileSystem}, ns.foldl (fun fs n => if isSuiteFile suiteId n then
      fs.unlink (fullPath dir n) else fs) fs p =
      if ∃ n ∈ ns, isSuiteFile suiteId n ∧ fullPath dir n = p then none else fs p
  | [], fs => (if_neg fun ⟨_, hn, _⟩ => absurd hn List.not_mem_nil).symm
  | n :: ns, fs => by
    rw [List.foldl_cons, foldl_unlink]
    by_cases hlater : ∃ n ∈ ns, isSuiteFile suiteId n ∧ fullPath dir n = p
    · obtain ⟨m, hm, htest⟩ := hlater
      rw [if_pos ⟨m, hm, htest⟩, if_pos ⟨m, List.mem_cons_of_mem _ hm, htest⟩]
    · rw [if_neg hlater]
      by_cases hnow : isSuiteFile suiteId n ∧ fullPath dir n = p
      · rw [if_pos hnow.1, FileSystem.unlink, if_pos hnow.2.symm]
        exact (if_pos ⟨n, List.mem_cons_self .., hnow⟩).symm
      · have hnone : ¬ ∃ m ∈ n :: ns, isSuiteFile suiteId m ∧ fullPath dir m = p := by
          rintro ⟨m, hm, htest⟩
          rcases List.mem_cons.1 hm with rfl | hm
          · exact hnow htest
          · exact hlater ⟨m, hm, htest⟩
        rw [if_neg hnone]
        split
        · exact if_neg fun hp => hnow ⟨by assumption, hp.symm⟩
        · rfl

include hentries hcreatable

/-- **Bulk deletion is exact**: the files of the suite go, and no other file. -/
theorem deleteAllRecordStores_eq {p : List UInt8} :
    deleteAllRecordStores dir (createStores dir stores) names suiteId p =
      if ∃ x ∈ stores, x.1.suiteId = suiteId ∧ buildStorePath dir x.1 = p then none
      else createStores dir stores p := by
  rw [deleteAllRecordStores, foldl_unlink]
  refine if_congr ⟨?_, ?_⟩ rfl rfl
  · rintro ⟨n, hn, htest, rfl⟩
    have hstart : (suitePrefix suiteId).isPrefixOf n := by
      rw [isSuiteFile, Bool.and_eq_true, Bool.and_eq_true] at htest
      exact htest.1.1
    obtain ⟨x, hx, rfl, hsuite⟩ := of_prefix hentries hcreatable hn hstart
    exact ⟨x, hx, hsuite, rfl⟩
  · rintro ⟨x, hx, hsuite, rfl⟩
    exact ⟨_, storeFileName_mem hentries hcreatable hx, isSuiteFile_storeFileName.2 hsuite, rfl⟩

/-- **Listing and deleting are exact** exactly when folding keeps the names of the suite's
stores. -/
theorem exact_iff : Exact dir stores suiteId names ↔
    ∀ x ∈ stores, x.1.suiteId = suiteId → x.1.extension = 0 → foldedName x.1.name = x.1.name := by
  constructor
  · intro h x hx hsuite hext
    -- the name the store was created with is listed, and what is listed is folded
    obtain ⟨y, -, -, -, hname⟩ := (mem_listRecordStores hentries hcreatable).1
      ((h.listed _).2 ⟨x, hx, hsuite, hext, rfl⟩)
    rw [Option.some.inj hname, foldedName_folded]
  · intro h
    refine ⟨nodup_listRecordStores hentries hcreatable, fun s => ?_, ?_, ?_, ?_⟩
    · rw [mem_listRecordStores hentries hcreatable]
      constructor
      · rintro ⟨x, hx, hsuite, hext, rfl⟩
        exact ⟨x, hx, hsuite, hext, congrArg some (h x hx hsuite hext)⟩
      · rintro ⟨x, hx, hsuite, hext, rfl⟩
        exact ⟨x, hx, hsuite, hext, congrArg some (h x hx hsuite hext).symm⟩
    · rw [listRecordStores_eq hentries hcreatable]
      exact countRecordStores_eq hentries hcreatable
    · intro x hx hsuite
      rw [deleteAllRecordStores_eq hentries hcreatable, if_pos ⟨x, hx, hsuite, rfl⟩]
    · intro p hp
      rw [deleteAllRecordStores_eq hentries hcreatable, if_neg]
      rintro ⟨x, hx, hsuite, hpath⟩
      exact hp x hx hsuite hpath

end

/-- A directory with the one store of suite 1 that has the given name. -/
theorem entries_single {name : List UInt16} (h : 1 ≤ name.length ∧ name.length ≤ 32)
    (hcreatable : Creatable (ascii "/rms") [(dbFile name h, [1])])
    (hdots : storeFileName (dbFile name h) ≠ ascii "." ∧
      storeFileName (dbFile name h) ≠ ascii "..") :
    Entries (ascii "/rms") (createStores (ascii "/rms") [(dbFile name h, [1])])
      [ascii ".", storeFileName (dbFile name h), ascii ".."] := by
  refine ⟨?_, fun n => ?_⟩
  · refine List.nodup_cons.2 ⟨?_, List.nodup_cons.2 ⟨?_, List.pairwise_singleton ..⟩⟩
    · intro hmem
      rcases List.mem_cons.1 hmem with hmem | hmem
      · exact hdots.1 hmem.symm
      · exact absurd hmem (by decide)
    · intro hmem
      exact hdots.2 (List.mem_singleton.1 hmem)
  · have hfits := (hcreatable _ (List.mem_singleton_self _)).1
    constructor
    · intro hmem
      simp only [List.mem_cons, List.not_mem_nil, or_false] at hmem
      rcases hmem with rfl | rfl | rfl
      · exact .inr (.inl rfl)
      · refine .inl ⟨slash_notMem_storeFileName _, ?_⟩
        rw [← fullPath_eq hfits]
        exact createStores_isSome (List.mem_singleton_self _)
      · exact .inr (.inr rfl)
    · rintro (⟨-, hfile⟩ | rfl | rfl)
      · obtain ⟨contents, hcontents⟩ := Option.isSome_iff_exists.1 hfile
        obtain ⟨x, hx, hpath, -⟩ := createStores_some hcontents
        obtain rfl := List.mem_singleton.1 hx
        rw [buildStorePath, fullPath_eq hfits] at hpath
        rw [← List.append_cancel_left (List.append_cancel_left hpath)]
        exact List.mem_cons_of_mem _ (List.mem_cons_self ..)
      · exact List.mem_cons_self ..
      · exact List.mem_cons_of_mem _ (List.mem_cons_of_mem _ (List.mem_singleton_self _))

/-- The store `a` alone. -/
theorem exact_ascii : Exact (ascii "/rms") [(dbFile [97] (by decide), [1])] 1
    [ascii ".", storeFileName (dbFile [97] (by decide)), ascii ".."] := by
  have hcreatable : Creatable (ascii "/rms") [(dbFile [97] (by decide), [1])] := by
    intro x hx
    obtain rfl := List.mem_singleton.1 hx
    exact ⟨by decide, by decide⟩
  refine (exact_iff (entries_single _ hcreatable ⟨by decide, by decide⟩) hcreatable).2 ?_
  intro x hx _ _
  obtain rfl := List.mem_singleton.1 hx
  decide

/-- **The store `é` is listed as an underscore.** -/
theorem listed_folded : ¬ ∀ (dir : List UInt8) (stores : List (StoreKey × List UInt8))
    (names : List (List UInt8)) (suiteId : Int), Entries dir (createStores dir stores) names →
    Creatable dir stores → Exact dir stores suiteId names := by
  intro h
  have hcreatable : Creatable (ascii "/rms") [(dbFile [0xE9] (by decide), [1])] := by
    intro x hx
    obtain rfl := List.mem_singleton.1 hx
    exact ⟨by decide, by decide⟩
  have hexact := h _ _ _ 1 (entries_single _ hcreatable ⟨by decide, by decide⟩) hcreatable
  have hlisted : some [95] ∈ listRecordStores (ascii "/rms")
      (createStores (ascii "/rms") [(dbFile [0xE9] (by decide), [1])])
      [ascii ".", storeFileName (dbFile [0xE9] (by decide)), ascii ".."] 1 := by decide +kernel
  obtain ⟨x, hx, -, -, hname⟩ := (hexact.listed _).1 hlisted
  obtain rfl := List.mem_singleton.1 hx
  exact absurd hname (by decide)

end FroggyKVM.Rms
