/-
# FroggyKVM.Zip.EntryCache — looking up entries of a JAR file (`JarFileParser.cpp`).

`find_entry` keeps the headers it has passed in a cache and starts the next scan behind the last
header it cached, `nextCenOffset`, taking everything before that to be in the cache.  Directory
names and headers without memory are not cached, so they can be passed over; and a lookup that
fails leaves `nextCenOffset` where it was, so the next one caches the same headers again.  **In
every run whose lookups meet neither, a lookup finds exactly the entries that exist, with the
header of the uncached scan, and no entry is cached twice.**
-/
import FroggyKVM.Lib.Lts
import FroggyKVM.Lib.MachineInt
import FroggyKVM.Zip.Directory

namespace FroggyKVM.Zip

/-! ## The parser -/

def MAX_ENTRY_NAME : Nat := 256

/-- `JarFileParserDesc`: the used slots of `_entry_cache`, the number of its slots (0 while it is
null), and of `_current_entry` what `find_entry` uses. -/
structure JarFileParser where
  entryCache : List (List UInt8)
  slots : Nat
  nextCenOffset : Nat
  centralHeader : List UInt8
  length : Int
  deriving DecidableEq

/-- Whether the heap has room for a larger cache and for a cache line. -/
structure Alloc where
  table : Bool
  line : Bool
  deriving DecidableEq

namespace JarFileParser

/-- `find_entry_from_cache`. -/
def findEntryFromCache (p : JarFileParser) (matchName : List UInt8) : Option JarFileParser :=
  (p.entryCache.find? fun line => decide (line.length - CENHDRSIZ = matchName.length) &&
    decide (line.drop CENHDRSIZ = matchName)).map fun line =>
      { p with centralHeader := line.take CENHDRSIZ, length := i32 (cenlen (line.take CENHDRSIZ)) }

/-- `add_current_entry_to_cache0`, with at most `maxCount` lines. -/
def addCurrentEntryToCache0 (maxCount : Nat) (alloc : Alloc) (p : JarFileParser)
    (name : List UInt8) : JarFileParser × Bool :=
  let oldSize := p.entryCache.length
  let newSize := min (oldSize * 5 / 4 + 20) maxCount
  let line := p.centralHeader ++ name
  if oldSize = p.slots then
    if newSize ≤ oldSize then (p, false)
    else if alloc.table then
      if alloc.line then
        ({ p with slots := newSize, entryCache := p.entryCache ++ [line] }, true)
      else ({ p with slots := newSize }, false)
    else (p, false)
  else if alloc.line then ({ p with entryCache := p.entryCache ++ [line] }, true)
  else (p, false)

/-- The names that are not cached. -/
def isDirectoryName (name : List UInt8) : Bool :=
  decide (1 < name.length) && name.getLast? == some 47

/-- `add_current_entry_to_cache`. -/
def addCurrentEntryToCache (maxCount : Nat) (alloc : Alloc) (p : JarFileParser)
    (name : List UInt8) : JarFileParser × Bool :=
  if isDirectoryName name then (p, false) else addCurrentEntryToCache0 maxCount alloc p name

/-- The end of `find_entry` at a match. -/
def found (p : JarFileParser) (nextCenOffset : Nat) : JarFileParser :=
  { p with length := i32 (cenlen p.centralHeader), nextCenOffset := nextCenOffset }

/-- The loop of `find_entry`; `alloc` is what the heap has at each header. -/
def findEntryLoop (maxCount : Nat) (file : List UInt8) (useEntryCache : Bool)
    (alloc : Nat → Alloc) (matchName : Option (List UInt8)) :
    Nat → (offset nextCenOffset : Nat) → JarFileParser → Option (JarFileParser × Bool)
  | 0, _, _, _ => none
  | fuel + 1, offset, nextCenOffset, p =>
    let cenp := bytesAt file offset CENHDRSIZ
    let p := { p with centralHeader := cenp ++ p.centralHeader.drop cenp.length }
    if cenp.length ≠ CENHDRSIZ then some (p, false)
    else if lg cenp 0 ≠ CENSIG then some (p, false)
    else
      let foundNameLen := cennam cenp
      let skipBytes := CENHDRSIZ + foundNameLen + cenext cenp + cencom cenp
      match matchName with
      | none => some (p.found offset, true)
      | some matchName =>
        if (useEntryCache || decide (foundNameLen = matchName.length)) = true ∧
            foundNameLen ≤ MAX_ENTRY_NAME then
          let foundName := bytesAt file (offset + CENHDRSIZ) foundNameLen
          if foundName.length ≠ foundNameLen then some (p, false)
          else
            let (p, ok) := if useEntryCache then
              addCurrentEntryToCache maxCount (alloc offset) p foundName else (p, false)
            -- everything up to this header is taken to be cached
            let nextCenOffset := if ok then offset + skipBytes else nextCenOffset
            if foundNameLen = matchName.length ∧ foundName = matchName then
              some (p.found nextCenOffset, true)
            else findEntryLoop maxCount file useEntryCache alloc (some matchName) fuel
              (offset + skipBytes) nextCenOffset p
        else findEntryLoop maxCount file useEntryCache alloc (some matchName) fuel
          (offset + skipBytes) nextCenOffset p

/-- `find_entry`. -/
def findEntry (maxCount : Nat) (file : List UInt8) (useEntryCache : Bool) (alloc : Nat → Alloc)
    (matchName : Option (List UInt8)) (p : JarFileParser) : Option (JarFileParser × Bool) :=
  let scan := findEntryLoop maxCount file useEntryCache alloc matchName (file.length + 1)
    p.nextCenOffset p.nextCenOffset p
  match matchName with
  | none => scan
  | some name =>
    if useEntryCache then
      match p.findEntryFromCache name with
      | some p => some (p, true)
      | none => scan
    else scan

end JarFileParser

/-! ## JAR files -/

/-- A file with a well-formed central directory: names are not repeated, and no further header
follows the last entry. -/
structure JarFile where
  before : List UInt8
  entries : List CentralEntry
  after : List UInt8
  names_nodup : (entries.map CentralEntry.name).Nodup
  end_after : after.length < CENHDRSIZ ∨ lg after 0 ≠ CENSIG

namespace JarFile

def file (jar : JarFile) : List UInt8 := jar.before ++ (directoryBytes jar.entries ++ jar.after)

/-- `find_end_of_central_header` leaves the parser at the first header. -/
def parser (jar : JarFile) : JarFileParser where
  entryCache := []
  slots := 0
  nextCenOffset := jar.before.length
  centralHeader := List.replicate CENHDRSIZ 0
  length := 0

end JarFile

/-- A call of `find_entry` with a name, and what the heap has while it scans. -/
structure Lookup where
  name : List UInt8
  alloc : Nat → Alloc

namespace CentralEntry

/-- The cache line of an entry. -/
def line (e : CentralEntry) : List UInt8 := e.header ++ e.name

end CentralEntry

/-- The entries with their offsets. -/
def locate : Nat → List CentralEntry → List (Nat × CentralEntry)
  | _, [] => []
  | o, e :: es => (o, e) :: locate (o + e.size) es

namespace JarFileParser

/-- Whether the cache has the name. -/
def isCached (p : JarFileParser) (name : List UInt8) : Bool := (p.findEntryFromCache name).isSome

/-- No line can be added to a full cache. -/
def IsFull (maxCount : Nat) (p : JarFileParser) : Prop :=
  p.entryCache.length = p.slots ∧ maxCount ≤ p.entryCache.length

instance (maxCount : Nat) (p : JarFileParser) : Decidable (p.IsFull maxCount) :=
  inferInstanceAs (Decidable (_ ∧ _))

/-! ## One header of a scan -/

/-- **What caching a header does.** -/
theorem addCurrentEntryToCache_spec (maxCount : Nat) (alloc : Alloc) (p : JarFileParser)
    (name : List UInt8) : ∃ p' ok, p.addCurrentEntryToCache maxCount alloc name = (p', ok) ∧
    p'.centralHeader = p.centralHeader ∧ p'.nextCenOffset = p.nextCenOffset ∧
    (p.IsFull maxCount → p' = p) ∧
    ((ok = true ∧ p'.entryCache = p.entryCache ++ [p.centralHeader ++ name] ∧
        alloc.line = true ∧ ¬ p.IsFull maxCount) ∨
      (ok = false ∧ p'.entryCache = p.entryCache)) := by
  obtain ⟨p', ok, h⟩ : ∃ p' ok, p.addCurrentEntryToCache maxCount alloc name = (p', ok) :=
    ⟨_, _, rfl⟩
  refine ⟨p', ok, h, ?_⟩
  simp only [addCurrentEntryToCache, addCurrentEntryToCache0] at h
  have hgrow : ¬ min (p.entryCache.length * 5 / 4 + 20) maxCount ≤ p.entryCache.length →
      ¬ p.IsFull maxCount := fun hn hfull => hn (Nat.le_trans (Nat.min_le_right _ _) hfull.2)
  split at h
  · cases h
    exact ⟨rfl, rfl, fun _ => rfl, .inr ⟨rfl, rfl⟩⟩
  · split at h
    · split at h
      · cases h
        exact ⟨rfl, rfl, fun _ => rfl, .inr ⟨rfl, rfl⟩⟩
      · rename_i hn
        split at h
        · split at h
          · cases h
            exact ⟨rfl, rfl, fun hf => absurd hf (hgrow hn), .inl ⟨rfl, rfl, by assumption, hgrow hn⟩⟩
          · cases h
            exact ⟨rfl, rfl, fun hf => absurd hf (hgrow hn), .inr ⟨rfl, rfl⟩⟩
        · cases h
          exact ⟨rfl, rfl, fun _ => rfl, .inr ⟨rfl, rfl⟩⟩
    · rename_i hne
      have hroom : ¬ p.IsFull maxCount := fun hf => hne hf.1
      split at h
      · cases h
        exact ⟨rfl, rfl, fun hf => absurd hf hroom, .inl ⟨rfl, rfl, by assumption, hroom⟩⟩
      · cases h
        exact ⟨rfl, rfl, fun _ => rfl, .inr ⟨rfl, rfl⟩⟩

section Loop
variable {maxCount : Nat} {file : List UInt8} {useEntryCache : Bool} {alloc : Nat → Alloc}
  {name : List UInt8} {fuel : Nat} {pre rest : List UInt8} {nextCenOffset : Nat}
  {p : JarFileParser}

/-- **The loop at an entry.** -/
theorem findEntryLoop_entry {e : CentralEntry} (hfile : file = pre ++ (e.bytes ++ rest))
    (hp : p.centralHeader.length = CENHDRSIZ) :
    findEntryLoop maxCount file useEntryCache alloc (some name) (fuel + 1) pre.length nextCenOffset p =
      let p := { p with centralHeader := e.header }
      if (useEntryCache || decide (e.name.length = name.length)) = true ∧
          e.name.length ≤ MAX_ENTRY_NAME then
        let x := if useEntryCache then
          addCurrentEntryToCache maxCount (alloc pre.length) p e.name else (p, false)
        let nextCenOffset := if x.2 then pre.length + e.size else nextCenOffset
        if e.name = name then some (x.1.found nextCenOffset, true)
        else findEntryLoop maxCount file useEntryCache alloc (some name) fuel
          (pre.length + e.size) nextCenOffset x.1
      else findEntryLoop maxCount file useEntryCache alloc (some name) fuel
        (pre.length + e.size) nextCenOffset p := by
  have hskip : pre.length + (CENHDRSIZ + e.name.length + cenext e.header + cencom e.header) =
      pre.length + e.size := by rw [CentralEntry.size, e.cennam_header]
  have hold : e.header ++ p.centralHeader.drop CENHDRSIZ = e.header := by
    rw [List.drop_of_length_le (Nat.le_of_eq hp), List.append_nil]
  have hname := name_at hfile
  rw [e.cennam_header] at hname
  rw [findEntryLoop]
  simp only [header_at hfile, hold, e.length_header, e.sig, ne_eq, not_true_eq_false, if_false,
    e.cennam_header, hname, hskip]
  have hmatch : (e.name.length = name.length ∧ e.name = name) ↔ e.name = name :=
    ⟨fun h => h.2, fun h => ⟨congrArg List.length h, h⟩⟩
  simp only [hmatch]

/-- The loop behind the last entry. -/
theorem findEntryLoop_end (hfile : file = pre ++ rest)
    (hend : rest.length < CENHDRSIZ ∨ lg rest 0 ≠ CENSIG) (hp : p.centralHeader.length = CENHDRSIZ) :
    ∃ header : List UInt8, header.length = CENHDRSIZ ∧
      findEntryLoop maxCount file useEntryCache alloc (some name) (fuel + 1) pre.length
        nextCenOffset p = some ({ p with centralHeader := header }, false) := by
  have hread : bytesAt file pre.length CENHDRSIZ = rest.take CENHDRSIZ := by
    rw [hfile, bytesAt, List.drop_left]
  refine ⟨rest.take CENHDRSIZ ++ p.centralHeader.drop (rest.take CENHDRSIZ).length, ?_, ?_⟩
  · rw [List.length_append, List.length_drop, hp, List.length_take]
    omega
  · rw [findEntryLoop]
    simp only [hread]
    split
    · rfl
    · rename_i hlen
      have hlong : CENHDRSIZ ≤ rest.length := by
        rw [List.length_take] at hlen
        omega
      have hsig : lg (rest.take CENHDRSIZ) 0 ≠ CENSIG := by
        rcases hend with h | h
        · omega
        · rw [← List.take_append_drop CENHDRSIZ rest] at h
          rwa [lg_append_left (by rw [List.length_take]; unfold CENHDRSIZ at *; omega)] at h
      rw [if_pos hsig]

end Loop

/-! ## A whole scan -/

/-- What a scan for `name` over the entries `es`, the first at offset `o`, makes of a parser `p`;
`added` are the entries it caches. -/
structure Scanned (maxCount : Nat) (alloc : Nat → Alloc) (name : List UInt8) (o : Nat)
    (es : List CentralEntry) (nextCenOffset : Nat) (p p' : JarFileParser) (b : Bool)
    (added : List (Nat × CentralEntry)) : Prop where
  header : p'.centralHeader.length = CENHDRSIZ
  cache : p'.entryCache = p.entryCache ++ added.map fun x => x.2.line
  sublist : added.Sublist (locate o es)
  short : ∀ x ∈ added, x.2.name.length ≤ MAX_ENTRY_NAME
  passed : ∀ x ∈ added, x.2.name = name ∨
    (x ∈ (locate o es).takeWhile (fun x => x.2.name ≠ name) ∧ (alloc x.1).line = true ∧
      ¬ p.IsFull maxCount)
  hit : ∀ e, es.find? (fun e => e.name = name) = some e → b = true ∧ p'.centralHeader = e.header ∧
    p'.length = i32 (cenlen e.header) ∧ (p'.nextCenOffset = nextCenOffset ∨
      ∃ passed left, es = passed ++ left ∧ p'.nextCenOffset = o + (directoryBytes passed).length)
  miss : es.find? (fun e => e.name = name) = none → b = false ∧ p'.nextCenOffset = p.nextCenOffset

/-- The entry at the head of a scan is cached or not. -/
structure Passed (maxCount : Nat) (alloc : Nat → Alloc) (o : Nat) (e : CentralEntry)
    (p : JarFileParser) (x : JarFileParser × Bool) (new : List (Nat × CentralEntry)) : Prop where
  header : x.1.centralHeader = e.header
  offset : x.1.nextCenOffset = p.nextCenOffset
  full : p.IsFull maxCount → x.1.IsFull maxCount
  cache : x.1.entryCache = p.entryCache ++ new.map fun x => x.2.line
  new_cases : (new = [] ∧ x.2 = false) ∨ (new = [(o, e)] ∧ e.name.length ≤ MAX_ENTRY_NAME ∧
    (alloc o).line = true ∧ ¬ p.IsFull maxCount)

section Scan
variable {maxCount : Nat} {alloc : Nat → Alloc} {name : List UInt8} {o : Nat}
  {es : List CentralEntry} {e : CentralEntry} {nextCenOffset : Nat} {p p' : JarFileParser}
  {b : Bool}

/-- A header that is not read is not cached. -/
theorem Passed.skip (maxCount : Nat) (alloc : Nat → Alloc) (o : Nat) (e : CentralEntry)
    (p : JarFileParser) :
    Passed maxCount alloc o e p ({ p with centralHeader := e.header }, false) [] :=
  ⟨rfl, rfl, fun h => h, (List.append_nil _).symm, .inl ⟨rfl, rfl⟩⟩

/-- A header that is read may be cached. -/
theorem Passed.read (maxCount : Nat) (alloc : Nat → Alloc) (o : Nat) (p : JarFileParser)
    (useEntryCache : Bool) (h : e.name.length ≤ MAX_ENTRY_NAME) :
    ∃ new, Passed maxCount alloc o e p
      (if useEntryCache then addCurrentEntryToCache maxCount (alloc o)
        { p with centralHeader := e.header } e.name else
        ({ p with centralHeader := e.header }, false)) new := by
  split
  · obtain ⟨p', ok, hadd, hheader, hoffset, hfull, hcache⟩ := addCurrentEntryToCache_spec maxCount
      (alloc o) { p with centralHeader := e.header } e.name
    rw [hadd]
    have hkeep : p.IsFull maxCount → p'.IsFull maxCount := fun h => by
      rw [hfull h]
      exact h
    rcases hcache with ⟨-, hadded, hline, hroom⟩ | ⟨hok, hsame⟩
    · exact ⟨[(o, e)], hheader, hoffset, hkeep, hadded, .inr ⟨rfl, h, hline, hroom⟩⟩
    · exact ⟨[], hheader, hoffset, hkeep, hsame.trans (List.append_nil _).symm, .inl ⟨rfl, hok⟩⟩
  · exact ⟨[], Passed.skip ..⟩

/-- The scan stops at an entry with the name. -/
theorem Scanned.stop {x : JarFileParser × Bool} {new : List (Nat × CentralEntry)}
    (hx : Passed maxCount alloc o e p x new) (hname : e.name = name) :
    Scanned maxCount alloc name o (e :: es) nextCenOffset p
      (x.1.found (if x.2 then o + e.size else nextCenOffset)) true new where
  header := by
    rw [found, hx.header]
    exact e.length_header
  cache := hx.cache
  sublist := by
    rcases hx.new_cases with ⟨rfl, -⟩ | ⟨rfl, -⟩
    · exact List.nil_sublist _
    · exact List.Sublist.cons_cons _ (List.nil_sublist _)
  short := fun y hy => by
    rcases hx.new_cases with ⟨rfl, -⟩ | ⟨rfl, hshort, -⟩
    · exact absurd hy List.not_mem_nil
    · obtain rfl := List.mem_singleton.1 hy
      exact hshort
  passed := fun y hy => by
    rcases hx.new_cases with ⟨rfl, -⟩ | ⟨rfl, -⟩
    · exact absurd hy List.not_mem_nil
    · obtain rfl := List.mem_singleton.1 hy
      exact .inl hname
  hit := fun e' he' => by
    rw [List.find?_cons_of_pos (p := fun e : CentralEntry => decide (e.name = name))
      (decide_eq_true hname)] at he'
    obtain rfl := Option.some.inj he'
    refine ⟨rfl, hx.header, ?_, ?_⟩
    · rw [found, hx.header]
    · rw [found]
      dsimp only
      split
      · refine .inr ⟨[e], es, rfl, ?_⟩
        rw [directoryBytes, List.flatMap_cons, List.flatMap_nil, List.append_nil, e.length_bytes]
      · exact .inl rfl
  miss := fun h => by
    rw [List.find?_cons_of_pos (p := fun e : CentralEntry => decide (e.name = name))
      (decide_eq_true hname)] at h
    exact absurd h (Option.some_ne_none e)

/-- The scan goes on behind an entry with another name. -/
theorem Scanned.cons {x : JarFileParser × Bool} {new added : List (Nat × CentralEntry)}
    (hx : Passed maxCount alloc o e p x new) (hname : e.name ≠ name)
    (hrest : Scanned maxCount alloc name (o + e.size) es
      (if x.2 then o + e.size else nextCenOffset) x.1 p' b added) :
    Scanned maxCount alloc name o (e :: es) nextCenOffset p p' b (new ++ added) where
  header := hrest.header
  cache := by rw [hrest.cache, hx.cache, List.map_append, List.append_assoc]
  sublist := by
    rcases hx.new_cases with ⟨rfl, -⟩ | ⟨rfl, -⟩
    · exact hrest.sublist.cons _
    · exact hrest.sublist.cons_cons _
  short := fun y hy => by
    rcases List.mem_append.1 hy with hy | hy
    · rcases hx.new_cases with ⟨rfl, -⟩ | ⟨rfl, hshort, -⟩
      · exact absurd hy List.not_mem_nil
      · obtain rfl := List.mem_singleton.1 hy
        exact hshort
    · exact hrest.short y hy
  passed := fun y hy => by
    rw [locate, List.takeWhile_cons_of_pos (p := fun x : Nat × CentralEntry => decide (x.2.name ≠ name))
      (decide_eq_true hname)]
    rcases List.mem_append.1 hy with hy | hy
    · rcases hx.new_cases with ⟨rfl, -⟩ | ⟨rfl, -, hline, hroom⟩
      · exact absurd hy List.not_mem_nil
      · obtain rfl := List.mem_singleton.1 hy
        exact .inr ⟨List.mem_cons_self .., hline, hroom⟩
    · rcases hrest.passed y hy with h | ⟨h, hline, hroom⟩
      · exact .inl h
      · exact .inr ⟨List.mem_cons_of_mem _ h, hline, fun hf => hroom (hx.full hf)⟩
  hit := fun e' he' => by
    rw [List.find?_cons_of_neg (by simpa using hname)] at he'
    obtain ⟨hb, hheader, hlength, hoffset⟩ := hrest.hit e' he'
    refine ⟨hb, hheader, hlength, ?_⟩
    have hfirst : o + (directoryBytes [e]).length = o + e.size := by
      rw [directoryBytes, List.flatMap_cons, List.flatMap_nil, List.append_nil, e.length_bytes]
    rcases hoffset with h | ⟨passed, left, rfl, h⟩
    · rw [h]
      split
      · exact .inr ⟨[e], es, rfl, hfirst.symm⟩
      · exact .inl rfl
    · refine .inr ⟨e :: passed, left, rfl, ?_⟩
      rw [h, directoryBytes, directoryBytes, List.flatMap_cons, List.length_append, e.length_bytes,
        Nat.add_assoc]
  miss := fun h => by
    rw [List.find?_cons_of_neg (by simpa using hname)] at h
    obtain ⟨hb, hoffset⟩ := hrest.miss h
    exact ⟨hb, hoffset.trans hx.offset⟩

/-- **The scan of a directory**, by induction over its entries. -/
theorem findEntryLoop_scanned (maxCount : Nat) (alloc : Nat → Alloc) (name : List UInt8)
    {file after : List UInt8} (useEntryCache : Bool)
    (hend : after.length < CENHDRSIZ ∨ lg after 0 ≠ CENSIG) : ∀ {es : List CentralEntry}
    {pre : List UInt8} {o fuel : Nat} (nextCenOffset : Nat) (p : JarFileParser),
    (∀ e ∈ es, e.name = name → e.name.length ≤ MAX_ENTRY_NAME) → pre.length = o →
    file = pre ++ (directoryBytes es ++ after) → es.length < fuel →
    p.centralHeader.length = CENHDRSIZ →
    ∃ p' b added, findEntryLoop maxCount file useEntryCache alloc (some name) fuel o
        nextCenOffset p = some (p', b) ∧
      Scanned maxCount alloc name o es nextCenOffset p p' b added
  | [], pre, _, fuel + 1, nextCenOffset, p, _, rfl, hfile, _, hp => by
    obtain ⟨header, hheader, hloop⟩ : ∃ header : List UInt8, header.length = CENHDRSIZ ∧
        findEntryLoop maxCount file useEntryCache alloc (some name) (fuel + 1) pre.length
          nextCenOffset p = some ({ p with centralHeader := header }, false) :=
      findEntryLoop_end hfile hend hp
    refine ⟨_, _, [], hloop, hheader, (List.append_nil _).symm, List.nil_sublist _, ?_, ?_, ?_, ?_⟩
    · exact fun x hx => absurd hx List.not_mem_nil
    · exact fun x hx => absurd hx List.not_mem_nil
    · exact fun e he => absurd he.symm (Option.some_ne_none e)
    · exact fun _ => ⟨rfl, rfl⟩
  | e :: es, pre, _, fuel + 1, nextCenOffset, p, hlen, rfl, hfile, hfuel, hp => by
    have hentry : file = pre ++ (e.bytes ++ (directoryBytes es ++ after)) := by
      rw [hfile, directoryBytes, List.flatMap_cons, List.append_assoc]
      rfl
    obtain ⟨hafter, hpre⟩ := after_entry hentry
    have hlen' : ∀ e ∈ es, e.name = name → e.name.length ≤ MAX_ENTRY_NAME :=
      fun e he => hlen e (List.mem_cons_of_mem _ he)
    have hfuel' : es.length < fuel := by
      rw [List.length_cons] at hfuel
      omega
    rw [findEntryLoop_entry hentry hp]
    dsimp only
    split
    · rename_i hread
      obtain ⟨new, hx⟩ := Passed.read maxCount alloc pre.length p useEntryCache hread.2
      split
      · rename_i hname
        exact ⟨_, _, new, rfl, .stop hx hname⟩
      · rename_i hname
        obtain ⟨p', b, added, hloop, hrest⟩ := findEntryLoop_scanned maxCount alloc name useEntryCache hend _ _ hlen' hpre hafter
          hfuel' (hx.header ▸ e.length_header)
        exact ⟨p', b, new ++ added, hloop, .cons hx hname hrest⟩
    · rename_i hread
      -- an entry with the name would have been read
      have hname : e.name ≠ name := fun h => hread ⟨by simp [h], hlen e (List.mem_cons_self ..) h⟩
      obtain ⟨p', b, added, hloop, hrest⟩ := findEntryLoop_scanned maxCount alloc name useEntryCache hend nextCenOffset
        { p with centralHeader := e.header } hlen' hpre hafter hfuel' e.length_header
      exact ⟨p', b, [] ++ added, hloop, .cons (Passed.skip ..) hname hrest⟩

end Scan

end JarFileParser

/-! ## Offsets -/

theorem locate_append (o : Nat) (es es' : List CentralEntry) :
    locate o (es ++ es') = locate o es ++ locate (o + (directoryBytes es).length) es' := by
  induction es generalizing o with
  | nil => rfl
  | cons e es ih =>
    rw [List.cons_append, locate, locate, ih, List.cons_append, directoryBytes, directoryBytes,
      List.flatMap_cons, List.length_append, e.length_bytes, Nat.add_assoc]

theorem mem_locate {o : Nat} {es : List CentralEntry} {x : Nat × CentralEntry}
    (h : x ∈ locate o es) :
    x.2 ∈ es ∧ o ≤ x.1 ∧ x.1 < o + (directoryBytes es).length := by
  induction es generalizing o with
  | nil => exact absurd h List.not_mem_nil
  | cons e es ih =>
    have hlength : (directoryBytes (e :: es)).length = e.size + (directoryBytes es).length := by
      rw [directoryBytes, List.flatMap_cons, List.length_append, e.length_bytes]
      rfl
    have hpos := e.size_pos
    rw [hlength]
    rcases List.mem_cons.1 h with rfl | h
    · exact ⟨List.mem_cons_self .., Nat.le_refl _, by omega⟩
    · obtain ⟨hmem, hle, hlt⟩ := ih h
      exact ⟨List.mem_cons_of_mem _ hmem, by omega, by omega⟩

theorem map_snd_locate (o : Nat) (es : List CentralEntry) : (locate o es).map Prod.snd = es := by
  induction es generalizing o with
  | nil => rfl
  | cons e es ih => rw [locate, List.map_cons, ih]

/-- The headers from an offset on. -/
theorem filter_locate {o : Nat} {passed left : List CentralEntry} {next : Nat}
    (hnext : next = o + (directoryBytes passed).length) :
    (locate o (passed ++ left)).filter (fun x => decide (next ≤ x.1)) = locate next left := by
  have hpassed : (locate o passed).filter (fun x => decide (next ≤ x.1)) = [] := by
    refine List.filter_eq_nil_iff.2 fun x hx hle => ?_
    have := (mem_locate hx).2.2
    have := of_decide_eq_true hle
    omega
  have hleft : (locate next left).filter (fun x => decide (next ≤ x.1)) = locate next left :=
    List.filter_eq_self.2 fun x hx => decide_eq_true (mem_locate hx).2.1
  rw [locate_append, ← hnext, List.filter_append, hpassed, hleft, List.nil_append]

/-! ## Runs of lookups -/

namespace JarFile

/-- The parser after a call of `find_entry` with the cache. -/
def step (jar : JarFile) (maxCount : Nat) (p : JarFileParser) (l : Lookup) :
    Except Unit JarFileParser :=
  match p.findEntry maxCount jar.file true l.alloc (some l.name) with
  | some (p, _) => .ok p
  | none => .error ()

/-- A call of `find_entry` with the cache. -/
def Step (jar : JarFile) (maxCount : Nat) (p : JarFileParser) (l : Lookup) (p' : JarFileParser) :
    Prop :=
  ∃ b, p.findEntry maxCount jar.file true l.alloc (some l.name) = some (p', b)

/-- The headers that a scan for a name passes. -/
def scanned (jar : JarFile) (p : JarFileParser) (name : List UInt8) : List (Nat × CentralEntry) :=
  ((locate jar.before.length jar.entries).filter fun x =>
    decide (p.nextCenOffset ≤ x.1)).takeWhile fun x => decide (x.2.name ≠ name)

/-- What `find_entry` relies on when the cache does not have the name: the name was not passed over,
and no header on the way is cached already (unless there is no room to cache it again). -/
structure CacheCovers (jar : JarFile) (maxCount : Nat) (p : JarFileParser) (l : Lookup) : Prop where
  short : ∀ e ∈ jar.entries, e.name = l.name → e.name.length ≤ MAX_ENTRY_NAME
  not_passed : p.isCached l.name = false →
    ∀ x ∈ locate jar.before.length jar.entries, x.1 < p.nextCenOffset → x.2.name ≠ l.name
  not_again : p.isCached l.name = false → ¬ p.IsFull maxCount →
    ∀ x ∈ jar.scanned p l.name, p.isCached x.2.name = true → (l.alloc x.1).line = false

instance (jar : JarFile) (maxCount : Nat) (p : JarFileParser) (l : Lookup) :
    Decidable (jar.CacheCovers maxCount p l) :=
  decidable_of_iff ((∀ e ∈ jar.entries, e.name = l.name → e.name.length ≤ MAX_ENTRY_NAME) ∧
    (p.isCached l.name = false →
      ∀ x ∈ locate jar.before.length jar.entries, x.1 < p.nextCenOffset → x.2.name ≠ l.name) ∧
    (p.isCached l.name = false → ¬ p.IsFull maxCount →
      ∀ x ∈ jar.scanned p l.name, p.isCached x.2.name = true → (l.alloc x.1).line = false))
    ⟨fun ⟨h, h', h''⟩ => ⟨h, h', h''⟩, fun ⟨h, h', h''⟩ => ⟨h, h', h''⟩⟩

/-- A lookup succeeds exactly when the entry exists, as the uncached scan from the first header
does, and gives the same header. -/
def Transparent (jar : JarFile) (maxCount : Nat) (p : JarFileParser) (l : Lookup) : Prop :=
  ∃ p' q b, p.findEntry maxCount jar.file true l.alloc (some l.name) = some (p', b) ∧
    jar.parser.findEntry maxCount jar.file false l.alloc (some l.name) = some (q, b) ∧
    (b = true ↔ ∃ e ∈ jar.entries, e.name = l.name) ∧
    (b = true → p'.centralHeader = q.centralHeader ∧ p'.length = q.length)

/-- What every lookup keeps: `nextCenOffset` is the offset of a header or of the end, and the cache
lines are those of entries. -/
structure Keeps (jar : JarFile) (p : JarFileParser) : Prop where
  header : p.centralHeader.length = CENHDRSIZ
  offset : ∃ passed left, jar.entries = passed ++ left ∧
    p.nextCenOffset = jar.before.length + (directoryBytes passed).length
  cache : ∃ cached : List CentralEntry, p.entryCache = cached.map CentralEntry.line ∧
    ∀ e ∈ cached, e ∈ jar.entries

end JarFile

theorem CentralEntry.drop_line (e : CentralEntry) : e.line.drop CENHDRSIZ = e.name := by
  rw [line, ← e.length_header, List.drop_left]

/-- Looking a name up in cache lines of entries. -/
theorem JarFileParser.findEntryFromCache_eq {p : JarFileParser} {cached : List CentralEntry}
    (h : p.entryCache = cached.map CentralEntry.line) (name : List UInt8) :
    p.findEntryFromCache name = (cached.find? fun e => decide (e.name = name)).map fun e =>
      { p with centralHeader := e.header, length := i32 (cenlen e.header) } := by
  have htake : ∀ e : CentralEntry, e.line.take CENHDRSIZ = e.header := fun e => by
    rw [CentralEntry.line, ← e.length_header, List.take_left]
  have hlength : ∀ e : CentralEntry, e.line.length - CENHDRSIZ = e.name.length := fun e => by
    rw [← List.length_drop, e.drop_line]
  have hmatch : ((fun line => decide (line.length - CENHDRSIZ = name.length) &&
      decide (line.drop CENHDRSIZ = name)) ∘ CentralEntry.line) =
      fun e : CentralEntry => decide (e.name = name) := by
    funext e
    rw [Function.comp, hlength, e.drop_line, ← Bool.decide_and]
    exact decide_eq_decide.2 ⟨fun h => h.2, fun h => ⟨congrArg List.length h, h⟩⟩
  rw [findEntryFromCache, h, List.find?_map, Option.map_map, hmatch]
  congr 1
  funext e
  rw [Function.comp, htake]

theorem JarFileParser.isCached_iff {p : JarFileParser} {cached : List CentralEntry}
    (h : p.entryCache = cached.map CentralEntry.line) {name : List UInt8} :
    p.isCached name = true ↔ ∃ e ∈ cached, e.name = name := by
  rw [isCached, findEntryFromCache_eq h, Option.isSome_map, List.find?_isSome]
  simp only [decide_eq_true_eq]

namespace JarFile
variable {jar : JarFile} {maxCount : Nat} {p : JarFileParser} {l : Lookup}

/-- Names tell the entries of a JAR file. -/
theorem eq_of_name {e e' : CentralEntry} (he : e ∈ jar.entries) (he' : e' ∈ jar.entries)
    (h : e.name = e'.name) : e = e' :=
  List.inj_on_of_nodup_map jar.names_nodup he he' h

theorem find?_eq_some {e : CentralEntry} (he : e ∈ jar.entries) :
    jar.entries.find? (fun x => decide (x.name = e.name)) = some e := by
  have hsome : (jar.entries.find? fun x => decide (x.name = e.name)).isSome :=
    List.find?_isSome.2 ⟨e, he, decide_eq_true rfl⟩
  obtain ⟨e', hfind⟩ := Option.isSome_iff_exists.1 hsome
  have hname : decide (e'.name = e.name) = true :=
    List.find?_some (p := fun x : CentralEntry => decide (x.name = e.name)) hfind
  rw [hfind, eq_of_name (List.mem_of_find?_eq_some hfind) he (of_decide_eq_true hname)]

theorem keeps_initial (jar : JarFile) : jar.Keeps jar.parser where
  header := rfl
  offset := ⟨[], jar.entries, rfl, rfl⟩
  cache := ⟨[], rfl, fun _ he => absurd he List.not_mem_nil⟩

theorem length_entries_lt (jar : JarFile) {es : List CentralEntry}
    (h : ∃ passed, jar.entries = passed ++ es) : es.length < jar.file.length + 1 := by
  obtain ⟨passed, h⟩ := h
  have hle := length_le_length_directoryBytes jar.entries
  rw [h, List.length_append] at hle
  rw [file, List.length_append, List.length_append, h]
  omega

/-- **What a scan does**, from any header on. -/
theorem scan_spec (maxCount : Nat) (l : Lookup) (hp : jar.Keeps p) (useEntryCache : Bool)
    (hshort : ∀ e ∈ jar.entries, e.name = l.name → e.name.length ≤ MAX_ENTRY_NAME) :
    ∃ passed left p' b added, jar.entries = passed ++ left ∧
      p.nextCenOffset = jar.before.length + (directoryBytes passed).length ∧
      JarFileParser.findEntryLoop maxCount jar.file useEntryCache l.alloc (some l.name)
        (jar.file.length + 1) p.nextCenOffset p.nextCenOffset p = some (p', b) ∧
      JarFileParser.Scanned maxCount l.alloc l.name p.nextCenOffset left p.nextCenOffset p p' b
        added := by
  obtain ⟨passed, left, hentries, hoffset⟩ := hp.offset
  have hfile : jar.file = (jar.before ++ directoryBytes passed) ++
      (directoryBytes left ++ jar.after) := by
    rw [file, hentries, directoryBytes, directoryBytes, directoryBytes, List.flatMap_append]
    simp only [List.append_assoc]
  obtain ⟨p', b, added, hloop, hscan⟩ := JarFileParser.findEntryLoop_scanned maxCount l.alloc l.name
    useEntryCache jar.end_after
    p.nextCenOffset p
    (fun e he => hshort e (by rw [hentries]; exact List.mem_append_right _ he))
    (by rw [List.length_append, ← hoffset]) hfile (jar.length_entries_lt ⟨passed, hentries⟩)
    hp.header
  exact ⟨passed, left, p', b, added, hentries, hoffset, hloop, hscan⟩

/-- The scan without the cache finds the entry with the name. -/
theorem findEntry_uncached (jar : JarFile) (maxCount : Nat)
    (hshort : ∀ e ∈ jar.entries, e.name = l.name → e.name.length ≤ MAX_ENTRY_NAME) :
    ∃ q b, jar.parser.findEntry maxCount jar.file false l.alloc (some l.name) = some (q, b) ∧
      (∀ e, jar.entries.find? (fun e => decide (e.name = l.name)) = some e →
        b = true ∧ q.centralHeader = e.header ∧ q.length = i32 (cenlen e.header)) ∧
      (jar.entries.find? (fun e => decide (e.name = l.name)) = none → b = false) := by
  obtain ⟨passed, left, q, b, added, hentries, hoffset, hloop, hscan⟩ :=
    scan_spec maxCount l jar.keeps_initial false hshort
  -- nothing is passed over yet
  have hpassed : passed = [] := by
    have hle := length_le_length_directoryBytes passed
    have hzero : jar.parser.nextCenOffset = jar.before.length := rfl
    exact List.eq_nil_of_length_eq_zero (by omega)
  subst hpassed
  rw [List.nil_append] at hentries
  refine ⟨q, b, hloop, ?_, ?_⟩
  · intro e he
    rw [hentries] at he
    obtain ⟨hb, hheader, hlength, -⟩ := hscan.hit e he
    exact ⟨hb, hheader, hlength⟩
  · intro hnone
    rw [hentries] at hnone
    exact (hscan.miss hnone).1

/-- The result of a lookup that the cache covers. -/
structure Answers (jar : JarFile) (l : Lookup) (p' : JarFileParser) (b : Bool) : Prop where
  hit : ∀ e, jar.entries.find? (fun e => decide (e.name = l.name)) = some e →
    b = true ∧ p'.centralHeader = e.header ∧ p'.length = i32 (cenlen e.header)
  miss : jar.entries.find? (fun e => decide (e.name = l.name)) = none → b = false

/-- A lookup of a name that the cache has. -/
theorem findEntry_cached (maxCount : Nat) (hp : jar.Keeps p) (hcached : p.isCached l.name = true) :
    ∃ p', p.findEntry maxCount jar.file true l.alloc (some l.name) = some (p', true) ∧
      jar.Keeps p' ∧ p'.entryCache = p.entryCache ∧ jar.Answers l p' true := by
  obtain ⟨cached, hcache, hmem⟩ := hp.cache
  rw [JarFileParser.isCached, JarFileParser.findEntryFromCache_eq hcache, Option.isSome_map] at hcached
  obtain ⟨e, he⟩ := Option.isSome_iff_exists.1 hcached
  have hname : decide (e.name = l.name) = true :=
    List.find?_some (p := fun x : CentralEntry => decide (x.name = l.name)) he
  have hentry := hmem e (List.mem_of_find?_eq_some he)
  refine ⟨{ p with centralHeader := e.header, length := i32 (cenlen e.header) }, ?_, ?_, rfl, ?_⟩
  · rw [JarFileParser.findEntry, if_pos rfl, JarFileParser.findEntryFromCache_eq hcache, he, Option.map_some]
  · exact ⟨e.length_header, hp.offset, cached, hcache, hmem⟩
  · have hfind := find?_eq_some hentry
    rw [of_decide_eq_true hname] at hfind
    constructor
    · intro e' he'
      obtain rfl := Option.some.inj (hfind.symm.trans he')
      exact ⟨rfl, rfl, by dsimp only⟩
    · intro hnone
      rw [hfind] at hnone
      exact absurd hnone (Option.some_ne_none e)

/-- A lookup of a name that the cache does not have, and that was not passed over. -/
theorem findEntry_scans (hp : jar.Keeps p) (hl : jar.CacheCovers maxCount p l)
    (hcached : p.isCached l.name = false) :
    ∃ p' b, p.findEntry maxCount jar.file true l.alloc (some l.name) = some (p', b) ∧
      jar.Keeps p' ∧ (p.entryCache.Nodup → p'.entryCache.Nodup) ∧ jar.Answers l p' b := by
  obtain ⟨passed, left, p', b, added, hentries, hoffset, hloop, hscan⟩ :=
    scan_spec maxCount l hp true hl.short
  obtain ⟨cached, hcache, hmem⟩ := hp.cache
  have hleft : ∀ e ∈ left, e ∈ jar.entries := fun e he => by
    rw [hentries]
    exact List.mem_append_right _ he
  have hadded : ∀ x ∈ added, x.2 ∈ left := fun x hx => (mem_locate (hscan.sublist.mem hx)).1
  have hlines : p'.entryCache = (cached ++ added.map Prod.snd).map CentralEntry.line := by
    rw [hscan.cache, hcache, List.map_append, List.map_map]
    rfl
  refine ⟨p', b, ?_, ?_, ?_, ?_⟩
  · have hmiss : p.findEntryFromCache l.name = none :=
      Option.isNone_iff_eq_none.1 (Option.isSome_eq_false_iff.1 hcached)
    rw [JarFileParser.findEntry, if_pos rfl, hmiss]
    exact hloop
  · refine ⟨hscan.header, ?_, _, hlines, ?_⟩
    · cases hfind : left.find? (fun e => decide (e.name = l.name)) with
      | none => exact ⟨passed, left, hentries, (hscan.miss hfind).2.trans hoffset⟩
      | some e =>
        rcases (hscan.hit e hfind).2.2.2 with h | ⟨passed', left', hsplit, h⟩
        · exact ⟨passed, left, hentries, h.trans hoffset⟩
        · refine ⟨passed ++ passed', left', by rw [hentries, hsplit, List.append_assoc], ?_⟩
          rw [h, hoffset, directoryBytes, directoryBytes, directoryBytes, List.flatMap_append,
            List.length_append, Nat.add_assoc]
    · intro e he
      rcases List.mem_append.1 he with he | he
      · exact hmem e he
      · obtain ⟨x, hx, rfl⟩ := List.mem_map.1 he
        exact hleft _ (hadded x hx)
  · intro hnodup
    have hinj : ∀ {e e' : CentralEntry}, e ∈ jar.entries → e' ∈ jar.entries → e.line = e'.line →
        e = e' := fun {e e'} he he' h => eq_of_name he he' (by rw [← e.drop_line, h, e'.drop_line])
    rw [hlines, List.map_append]
    refine List.nodup_append.2 ⟨hcache ▸ hnodup, ?_, ?_⟩
    · have hsub : (added.map Prod.snd).Sublist left := by
        rw [← map_snd_locate p.nextCenOffset left]
        exact hscan.sublist.map _
      have hdistinct : left.Nodup := by
        have h := List.Nodup.of_map _ jar.names_nodup
        rw [hentries] at h
        exact (List.nodup_append.1 h).2.1
      refine (hdistinct.sublist hsub).map_on fun e he e' he' h => hinj ?_ ?_ h
      · exact hleft e (hsub.mem he)
      · exact hleft e' (hsub.mem he')
    · rintro line hline line' hline' rfl
      obtain ⟨c, hc, rfl⟩ := List.mem_map.1 hline
      obtain ⟨e, he, hsame⟩ := List.mem_map.1 hline'
      obtain ⟨x, hx, rfl⟩ := List.mem_map.1 he
      obtain rfl := hinj (hleft _ (hadded x hx)) (hmem c hc) hsame
      -- a header is cached again only where the condition excludes it
      rcases hscan.passed x hx with hname | ⟨hpassed, hroom, hfull⟩
      · rw [(JarFileParser.isCached_iff hcache).2 ⟨_, hc, hname⟩] at hcached
        exact Bool.noConfusion hcached
      · have hscanned : x ∈ jar.scanned p l.name := by
          rw [scanned, hentries, filter_locate hoffset]
          exact hpassed
        have hno := hl.not_again hcached hfull x hscanned
          ((JarFileParser.isCached_iff hcache).2 ⟨_, hc, rfl⟩)
        rw [hroom] at hno
        exact Bool.noConfusion hno
  · have hfind : jar.entries.find? (fun e => decide (e.name = l.name)) =
        left.find? (fun e => decide (e.name = l.name)) := by
      rw [hentries, List.find?_append, List.find?_eq_none.2, Option.none_or]
      intro e he hname
      rw [← map_snd_locate jar.before.length passed] at he
      obtain ⟨x, hx, rfl⟩ := List.mem_map.1 he
      refine hl.not_passed hcached x ?_ ?_ (of_decide_eq_true hname)
      · rw [hentries, locate_append]
        exact List.mem_append_left _ hx
      · rw [hoffset]
        exact (mem_locate hx).2.2
    constructor
    · intro e he
      obtain ⟨hb, hheader, hlength, -⟩ := hscan.hit e (hfind ▸ he)
      exact ⟨hb, hheader, hlength⟩
    · exact fun hnone => (hscan.miss (hfind ▸ hnone)).1

/-- **The step lemma**: a lookup that the cache covers gives the right answer and keeps the cache
free of repetitions. -/
theorem findEntry_spec (hp : jar.Keeps p) (hl : jar.CacheCovers maxCount p l) :
    ∃ p' b, p.findEntry maxCount jar.file true l.alloc (some l.name) = some (p', b) ∧
      jar.Keeps p' ∧ (p.entryCache.Nodup → p'.entryCache.Nodup) ∧ jar.Answers l p' b := by
  cases hcached : p.isCached l.name with
  | true =>
    obtain ⟨p', hfind, hkeeps, hsame, hanswer⟩ := findEntry_cached maxCount hp hcached
    exact ⟨p', true, hfind, hkeeps, fun h => hsame ▸ h, hanswer⟩
  | false => exact findEntry_scans hp hl hcached

/-- A right answer is the answer of the uncached scan. -/
theorem transparent (hp : jar.Keeps p) (hl : jar.CacheCovers maxCount p l) :
    jar.Transparent maxCount p l := by
  obtain ⟨p', b, hfind, -, -, hanswer⟩ := findEntry_spec hp hl
  obtain ⟨q, c, hscan, hhit, hmiss⟩ := jar.findEntry_uncached maxCount hl.short
  cases hentry : jar.entries.find? (fun e => decide (e.name = l.name)) with
  | none =>
    obtain rfl := hanswer.miss hentry
    obtain rfl := hmiss hentry
    refine ⟨p', q, false, hfind, hscan, ⟨fun h => Bool.noConfusion h, ?_⟩, fun h => Bool.noConfusion h⟩
    rintro ⟨e, he, hname⟩
    exact absurd (decide_eq_true hname) (List.find?_eq_none.1 hentry e he)
  | some e =>
    obtain ⟨rfl, hheader, hlength⟩ := hanswer.hit e hentry
    obtain ⟨rfl, hheader', hlength'⟩ := hhit e hentry
    have hname : decide (e.name = l.name) = true :=
      List.find?_some (p := fun x : CentralEntry => decide (x.name = l.name)) hentry
    exact ⟨p', q, true, hfind, hscan,
      ⟨fun _ => ⟨e, List.mem_of_find?_eq_some hentry, of_decide_eq_true hname⟩, fun _ => rfl⟩,
      fun _ => ⟨hheader.trans hheader'.symm, hlength.trans hlength'.symm⟩⟩

/-- **The cache is transparent** in every run of lookups that it covers: no entry is cached twice,
and the next such lookup finds what the uncached scan finds. -/
theorem transparent_of_run {lookups : List Lookup}
    (hrun : Lts.Run (Lts.Guarded (jar.Step maxCount) (jar.CacheCovers maxCount)) jar.parser lookups p) :
    p.entryCache.Nodup ∧ ∀ l, jar.CacheCovers maxCount p l → jar.Transparent maxCount p l := by
  have hkeeps : jar.Keeps p ∧ p.entryCache.Nodup := by
    refine hrun.invariant (I := fun p => jar.Keeps p ∧ p.entryCache.Nodup) ?_
      ⟨jar.keeps_initial, List.nodup_nil⟩
    rintro p l p' ⟨hp, hnodup⟩ ⟨hl, b, hstep⟩
    obtain ⟨p₁, b₁, hfind, hkeeps, hcache, -⟩ := findEntry_spec hp hl
    obtain ⟨rfl, -⟩ := Prod.mk.inj (Option.some.inj (hfind.symm.trans hstep))
    exact ⟨hkeeps, hcache hnodup⟩
  exact ⟨hkeeps.2, fun l hl => transparent hkeeps.1 hl⟩

end JarFile

/-! ## A small JAR file -/

/-- An entry with a name of two bytes. -/
def entryNamed (a b : UInt8) : CentralEntry where
  header := [0x50, 0x4b, 1, 2] ++ (List.replicate 24 0 ++ ([2, 0] ++ List.replicate 16 0))
  name := [a, b]
  extra := []
  comment := []
  length_header := rfl
  sig := rfl
  cennam_header := rfl
  cenext_header := rfl
  cencom_header := rfl

/-- The directory `d/` and the file `ab`. -/
def smallJar : JarFile where
  before := []
  entries := [entryNamed 100 47, entryNamed 97 98]
  after := [0x50, 0x4b, 5, 6]
  names_nodup := by decide
  end_after := by decide

/-- A lookup with memory for everything. -/
def Lookup.plain (name : List UInt8) : Lookup := ⟨name, fun _ => ⟨true, true⟩⟩

theorem JarFile.Step.of_step {jar : JarFile} {maxCount : Nat} {p p' : JarFileParser} {l : Lookup}
    (h : jar.step maxCount p l = .ok p') : jar.Step maxCount p l p' := by
  unfold step at h
  split at h
  · rename_i q b hfind
    obtain rfl := Except.ok.inj h
    exact ⟨b, hfind⟩
  · cases h

/-- The directory is looked up before the scan passes it. -/
theorem JarFile.transparent_of_run_small : ∃ p, Lts.Run (Lts.Guarded (smallJar.Step 256)
    (smallJar.CacheCovers 256)) smallJar.parser [.plain [100, 47], .plain [97, 98]] p ∧
    p.entryCache.Nodup ∧ smallJar.Transparent 256 p (.plain [97, 98]) := by
  obtain ⟨p, hrun, hcovers⟩ := Lts.Run.exists_of_exec (smallJar.step 256)
    (fun p l => decide (smallJar.CacheCovers 256 p l))
    (fun p => smallJar.CacheCovers 256 p (.plain [97, 98])) smallJar.parser
    [.plain [100, 47], .plain [97, 98]] (by decide +kernel)
  have hrun : Lts.Run (Lts.Guarded (smallJar.Step 256) (smallJar.CacheCovers 256))
      smallJar.parser _ p := hrun.mono fun _ _ _ h => ⟨of_decide_eq_true h.1, .of_step h.2⟩
  exact ⟨p, hrun, (JarFile.transparent_of_run hrun).1, (JarFile.transparent_of_run hrun).2 _ hcovers⟩

/-- **A directory is passed over**: after the file behind it was found, it is not found any more. -/
theorem JarFile.passed_over : ¬ ∀ (jar : JarFile) (maxCount : Nat) (lookups : List Lookup)
    (p : JarFileParser), Lts.Run (jar.Step maxCount) jar.parser lookups p →
    p.entryCache.Nodup ∧ ∀ l, jar.Transparent maxCount p l := by
  intro h
  obtain ⟨p, hrun, hlost⟩ := Lts.Run.exists_of_exec (smallJar.step 256) (fun _ _ => true)
    (fun p => (p.findEntry 256 smallJar.file true (fun _ => ⟨true, true⟩) (some [100, 47])).map
      Prod.snd = some false) smallJar.parser [.plain [97, 98]] (by decide +kernel)
  obtain ⟨p', q, b, hfind, -, hexists, -⟩ := (h smallJar 256 _ p
    (hrun.mono fun _ _ _ h => .of_step h.2)).2 (.plain [100, 47])
  have hb : b = true := hexists.2 ⟨entryNamed 100 47, List.mem_cons_self .., rfl⟩
  have hno : some b = some false := by
    rw [← hlost]
    exact (congrArg (Option.map Prod.snd) hfind).symm
  rw [hb] at hno
  exact absurd hno (by decide)

end FroggyKVM.Zip
