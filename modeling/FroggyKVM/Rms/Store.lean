/-
# FroggyKVM.Rms.Store — `RecordStoreImpl` over the linear index.

An operation takes the store and returns its result with the store it leaves: the code changes the
file, the header and the offset cache also on the way to an exception.
-/
import FroggyKVM.Rms.Index

namespace FroggyKVM.Rms

/-- The exceptions a record store operation ends with, and the end of a scan's fuel. -/
inductive RmsError where
  | invalidRecordID
  | recordStoreFull
  | io
  | outOfFuel
  deriving DecidableEq, Repr

/-- What the code takes from its surroundings: `RMSConfig.STORAGE_SUITE_LIMIT`, and whether
`truncateFile` shortens the file or only seeks. -/
structure Config where
  storageSuiteLimit : Nat
  limit_int : storageSuiteLimit < 2147483648
  shrinks : Bool := true

/-- An open record store: `dbHeader`, the file behind `dbFile`, and `dbIndex.recordIdOffsets`. -/
structure Store where
  dbHeader : DbHeader := {}
  file : List UInt8 := DbHeader.bytes {}
  recordIdOffsets : Option OffsetCache := none

namespace Store

def getSize (s : Store) : Int := i32 (DB_HEADER_SIZE + s.dbHeader.dataSize)

def getNumRecords (s : Store) : Int := s.dbHeader.numLive

def getNextRecordID (s : Store) : Int := s.dbHeader.nextId

/-- Enough iterations for any scan of a well-formed file: a block has at least eight bytes. -/
def fuel (s : Store) : Nat := s.file.length + 1

/-! ## `RecordStoreIndex` -/

/-- The loop of `getRecordHeader_SearchFromTo` at `currentOffset`.  It remembers every offset it
visits under the id it is looking for. -/
def searchLoop (file : List UInt8) (recordId offsetUpto : Int) :
    Nat → Int → Option OffsetCache → Except RmsError (Option (Int × BlockHeader)) × Option OffsetCache
  | 0, _, cache => (.error .outOfFuel, cache)
  | fuel + 1, currentOffset, cache =>
    if currentOffset ≥ offsetUpto then (.ok none, cache) else
    match readHeader file currentOffset with
    | none => (.ok none, cache)
    | some header =>
      let cache := cache.map fun c =>
        { c.setElementAt currentOffset recordId with LastSeenOffset := currentOffset }
      if header.id = recordId then (.ok (some (currentOffset, header)), cache)
      else searchLoop file recordId offsetUpto fuel
        (i32 (currentOffset + calculateBlockSize header.size)) cache

/-- `getRecordHeader_SearchFromTo`, up to the end of the data. -/
def searchFrom (s : Store) (recordId offsetFrom : Int) :
    Except RmsError (Option (Int × BlockHeader)) × Store :=
  let r := searchLoop s.file recordId s.getSize s.fuel offsetFrom s.recordIdOffsets
  (r.1, { s with recordIdOffsets := r.2 })

/-- The second half of `getRecordHeader_NoCache`: search from the start of the data. -/
def searchFromStart (s : Store) (recordId : Int) : Except RmsError (Int × BlockHeader) × Store :=
  match s.searchFrom recordId DB_HEADER_SIZE with
  | (.ok (some found), s) => (.ok found, s)
  | (.ok none, s) => (.error .invalidRecordID, s)
  | (.error e, s) => (.error e, s)

/-- `getRecordHeader_NoCache`. -/
def getRecordHeader_NoCache (s : Store) (recordId : Int) :
    Except RmsError (Int × BlockHeader) × Store :=
  let lastSeen := (s.recordIdOffsets.map (·.LastSeenOffset)).getD NO_OFFSET
  if lastSeen ≠ NO_OFFSET then
    match s.searchFrom recordId lastSeen with
    | (.ok (some found), s) => (.ok found, s)
    | (.ok none, s) => s.searchFromStart recordId
    | (.error e, s) => (.error e, s)
  else s.searchFromStart recordId

/-- The header at the cached offset of a record id, if there is one. -/
def cachedHeader (s : Store) (c : OffsetCache) (recordId : Int) : Option BlockHeader :=
  if c.elementAt recordId ≠ INVALID_OFFSET then readHeader s.file (c.elementAt recordId) else none

/-- `getRecordHeader`. -/
def getRecordHeader (s : Store) (recordId : Int) : Except RmsError (Int × BlockHeader) × Store :=
  if recordId ≤ 0 then (.error .invalidRecordID, s) else
  match s.recordIdOffsets with
  | none => ({ s with recordIdOffsets := some {} }).getRecordHeader_NoCache recordId
  | some c =>
    match s.cachedHeader c recordId with
    | some header =>
      if header.id = recordId then (.ok (c.elementAt recordId, header), s)
      else s.getRecordHeader_NoCache recordId
    | none =>
      -- a cached offset at which no header can be read throws the cache away
      if c.elementAt recordId ≠ INVALID_OFFSET then
        ({ s with recordIdOffsets := some {} }).getRecordHeader_NoCache recordId
      else s.getRecordHeader_NoCache recordId

/-- The loop of `getFreeBlock`; with the offset goes the header it has read there. -/
def freeBlockLoop (file : List UInt8) (size targetSize : Int) :
    Nat → Int → Except RmsError (Option (Int × BlockHeader))
  | 0, _ => .error .outOfFuel
  | fuel + 1, currentOffset =>
    if currentOffset < size then
      match readHeader file currentOffset with
      | none => .error .io
      | some header =>
        let currentSize := calculateBlockSize header.size
        if header.id < 0 ∧ currentSize ≥ targetSize then .ok (some (currentOffset, header))
        else freeBlockLoop file size targetSize fuel (i32 (currentOffset + currentSize))
    else .ok none

/-- `getFreeBlock` for a record of `numBytes` bytes. -/
def getFreeBlock (s : Store) (numBytes : Int) : Except RmsError (Option (Int × BlockHeader)) :=
  freeBlockLoop s.file s.getSize (calculateBlockSize numBytes) s.fuel DB_HEADER_SIZE

/-- The loop of `getRecordIDs`; an unused slot of the array stays 0. -/
def recordIDsLoop (file : List UInt8) (dbSize : Int) : Nat → Nat → Int → Int → List Int
  | 0, slots, _, _ => List.replicate slots 0
  | _ + 1, 0, _, _ => []
  | fuel + 1, slots + 1, currentOffset, currentSize =>
    if currentOffset ≥ dbSize then List.replicate (slots + 1) 0 else
    let currentOffset := i32 (currentOffset + currentSize)
    match readHeader file currentOffset with
    | none => List.replicate (slots + 1) 0
    | some header =>
      let currentSize := calculateBlockSize header.size
      if header.id > 0 then
        header.id :: recordIDsLoop file dbSize fuel slots currentOffset currentSize
      else recordIDsLoop file dbSize fuel (slots + 1) currentOffset currentSize

/-- `getRecordIDs`. -/
def getRecordIDs (s : Store) : List Int :=
  recordIDsLoop s.file s.getSize s.fuel s.getNumRecords.toNat DB_HEADER_SIZE 0

/-- `updateBlock`. -/
def updateBlock (s : Store) (blockOffset : Int) (header : BlockHeader) : Store :=
  { s with recordIdOffsets := s.recordIdOffsets.map (·.setElementAt blockOffset header.id) }

/-- `removeBlock`. -/
def removeBlock (s : Store) : Store :=
  { s with recordIdOffsets := s.recordIdOffsets.map fun c => { c with LastSeenOffset := NO_OFFSET } }

/-- `deleteRecordIndex`. -/
def deleteRecordIndex (s : Store) (recordId : Int) : Store :=
  { s with recordIdOffsets := s.recordIdOffsets.map (·.removeElementAt recordId) }

/-! ## Blocks -/

/-- Seek to `offset` and write. -/
def write (s : Store) (offset : Int) (bytes : List UInt8) : Store :=
  { s with file := splice s.file offset.toNat bytes }

/-- Write `n` bytes of the header at `offset`. -/
def writeDbHeader (s : Store) (offset n : Nat) : Store :=
  s.write offset ((s.dbHeader.bytes.drop offset).take n)

/-- `writeBlock`: the header, then the data of a record padded to a multiple of eight bytes. -/
def writeBlock (s : Store) (blockOffset : Int) (header : BlockHeader) (data : List UInt8) : Store :=
  let s := s.write blockOffset header.bytes
  let s := s.write (blockOffset + BLOCK_HEADER_SIZE) data
  let remainder := data.length % 8
  let s := if remainder ≠ 0 then
      s.write (blockOffset + BLOCK_HEADER_SIZE + data.length) (DB_SIGNATURE.take (8 - remainder))
    else s
  s.updateBlock blockOffset header

/-- `freeBlock`. -/
def freeBlock (s : Store) (blockOffset : Int) (header : BlockHeader) : Store :=
  let blockSize := calculateBlockSize header.size
  let s := s.writeBlock blockOffset { id := -1, size := blockSize - BLOCK_HEADER_SIZE } []
  let s := { s with dbHeader := { s.dbHeader with freeSize := i32 (s.dbHeader.freeSize + blockSize) } }
  s.writeDbHeader 36 4

/-- `splitBlock`; `header` is the header of the block with the id of the record to be stored. -/
def splitBlock (s : Store) (blockOffset : Int) (header : BlockHeader) (newData : List UInt8) :
    Store :=
  let oldBlockSize := calculateBlockSize header.size
  let newBlockSize := calculateBlockSize newData.length
  let s := s.writeBlock blockOffset { header with size := newData.length } newData
  let freeSize := i32 (oldBlockSize - newBlockSize - BLOCK_HEADER_SIZE)
  if freeSize ≥ 0 then
    s.freeBlock (i32 (blockOffset + newBlockSize)) { header with size := freeSize }
  else s

/-! ## Compaction -/

/-- The inner loop of `compactRecords`: move a block up by `moveUpNumBytes` in chunks. -/
def moveLoop (currentOffset currentSize moveUpNumBytes : Int) :
    Nat → Int → List UInt8 → Except RmsError (List UInt8)
  | 0, _, _ => .error .outOfFuel
  | fuel + 1, numMoved, file =>
    if numMoved < currentSize then
      let curRead := currentSize - numMoved
      let curRead := if curRead > COMPACT_BUFFER_SIZE then COMPACT_BUFFER_SIZE else curRead
      let buffer := (file.drop (currentOffset + numMoved).toNat).take curRead.toNat
      if buffer = [] then .error .io
      else moveLoop currentOffset currentSize moveUpNumBytes fuel (numMoved + buffer.length)
        (splice file (currentOffset + numMoved - moveUpNumBytes).toNat buffer)
    else .ok file

/-- The outer loop of `compactRecords`; the result is the number of bytes saved. -/
def compactLoop : Nat → Int → Int → Store → Except RmsError Int × Store
  | 0, _, _, s => (.error .outOfFuel, s)
  | fuel + 1, currentOffset, moveUpNumBytes, s =>
    if currentOffset < s.getSize then
      match readHeader s.file currentOffset with
      | none => (.error .io, s)
      | some header =>
        let currentSize := calculateBlockSize header.size
        if header.id < 0 then
          compactLoop fuel (i32 (currentOffset + currentSize)) (i32 (moveUpNumBytes + currentSize))
            s.removeBlock
        else if moveUpNumBytes > 0 then
          match moveLoop currentOffset currentSize moveUpNumBytes s.fuel 0 s.file with
          | .error e => (.error e, s)
          | .ok file =>
            compactLoop fuel (i32 (currentOffset + currentSize)) moveUpNumBytes
              ({ s with file := file }.updateBlock (currentOffset - moveUpNumBytes) header)
        else compactLoop fuel (i32 (currentOffset + currentSize)) moveUpNumBytes s
    else (.ok moveUpNumBytes, s)

/-- `compactRecords`. -/
def compactRecords (cfg : Config) (s : Store) : Except RmsError Unit × Store :=
  if s.dbHeader.freeSize = 0 then (.ok (), s) else
  match compactLoop s.fuel DB_HEADER_SIZE 0 s with
  | (.error e, s) => (.error e, s)
  | (.ok moveUpNumBytes, s) =>
    if moveUpNumBytes > 0 then
      let s := { s with dbHeader := { s.dbHeader with
        dataSize := i32 (s.dbHeader.dataSize - moveUpNumBytes), freeSize := 0 } }
      let s := s.writeDbHeader 32 8
      (.ok (), if cfg.shrinks then { s with file := s.file.take s.getSize.toNat } else s)
    else (.ok (), s)

/-! ## Operations -/

/-- `getSizeAvailable`, with the free space of the file system. -/
def getSizeAvailable (cfg : Config) (space : Int) (s : Store) : Int :=
  let fileSpace := i32 (space - BLOCK_HEADER_SIZE - DB_HEADER_SIZE)
  let limitSpace := i32 ((cfg.storageSuiteLimit : Int) - s.dbHeader.dataSize - BLOCK_HEADER_SIZE -
    DB_HEADER_SIZE)
  let rv := if fileSpace < limitSpace then fileSpace else limitSpace
  if rv < 0 then 0 else rv

/-- The end of `addBlock`: write the block behind the data. -/
def appendBlock (s : Store) (recordId : Int) (data : List UInt8) : Store :=
  let s := s.writeBlock s.getSize { id := recordId, size := data.length } data
  let s := { s with dbHeader := { s.dbHeader with
    dataSize := i32 (s.dbHeader.dataSize + calculateBlockSize data.length) } }
  s.writeDbHeader 32 4

/-- `addBlock`. -/
def addBlock (cfg : Config) (space recordId : Int) (data : List UInt8) (s : Store) :
    Except RmsError Unit × Store :=
  let blockSize := calculateBlockSize data.length
  let freeBlocksSize := s.dbHeader.freeSize
  match (if freeBlocksSize ≥ blockSize then s.getFreeBlock data.length else .ok none) with
  | .error e => (.error e, s)
  | .ok (some (blockOffset, header)) =>
    (.ok (), s.splitBlock blockOffset { header with id := recordId } data)
  | .ok none =>
    let spaceAvailable := s.getSizeAvailable cfg space
    if spaceAvailable < blockSize then
      if i32 (spaceAvailable + freeBlocksSize) < blockSize then (.error .recordStoreFull, s)
      else
        match s.compactRecords cfg with
        | (.error e, s) => (.error e, s)
        | (.ok (), s) => (.ok (), s.appendBlock recordId data)
    else (.ok (), s.appendBlock recordId data)

/-- What an update takes from its surroundings: the free space of the file system, and the time. -/
structure Ambient where
  space : Int
  time : Int × Int

/-- `addRecord` with `data` the bytes `data[offset .. offset + numBytes - 1]`. -/
def addRecord (cfg : Config) (amb : Ambient) (data : List UInt8) (s : Store) :
    Except RmsError Int × Store :=
  let recordId := s.getNextRecordID
  match s.addBlock cfg amb.space recordId data with
  | (.error e, s) => (.error e, s)
  | (.ok (), s) =>
    let s := { s with dbHeader := { s.dbHeader with
      nextId := i32 (recordId + 1), numLive := i32 (s.dbHeader.numLive + 1)
      version := i32 (s.dbHeader.version + 1), lastModified := amb.time } }
    (.ok recordId, s.writeDbHeader 12 20)

/-- `deleteRecord`. -/
def deleteRecord (amb : Ambient) (recordId : Int) (s : Store) : Except RmsError Unit × Store :=
  match s.getRecordHeader recordId with
  | (.error e, s) => (.error e, s)
  | (.ok (blockOffset, header), s) =>
    let s := s.freeBlock blockOffset header
    let s := s.deleteRecordIndex recordId
    let s := { s with dbHeader := { s.dbHeader with
      numLive := i32 (s.dbHeader.numLive - 1)
      version := i32 (s.dbHeader.version + 1), lastModified := amb.time } }
    (.ok (), s.writeDbHeader 16 16)

/-- `getRecordSize`. -/
def getRecordSize (recordId : Int) (s : Store) : Except RmsError Int × Store :=
  match s.getRecordHeader recordId with
  | (.error e, s) => (.error e, s)
  | (.ok (_, header), s) => (.ok header.size, s)

/-- `getRecord`; `none` is the `null` for a record without data. -/
def getRecord (recordId : Int) (s : Store) : Except RmsError (Option (List UInt8)) × Store :=
  match s.getRecordHeader recordId with
  | (.error e, s) => (.error e, s)
  | (.ok (blockOffset, header), s) =>
    if header.size = 0 then (.ok none, s)
    else (.ok (some ((s.file.drop (blockOffset + BLOCK_HEADER_SIZE).toNat).take header.size.toNat)), s)

/-- `setRecord` with `newData` the bytes `newData[offset .. offset + numBytes - 1]`. -/
def setRecord (cfg : Config) (amb : Ambient) (recordId : Int) (newData : List UInt8) (s : Store) :
    Except RmsError Unit × Store :=
  match s.getRecordHeader recordId with
  | (.error e, s) => (.error e, s)
  | (.ok (blockOffset, header), s) =>
    let oldBlockSize := calculateBlockSize header.size
    let newBlockSize := calculateBlockSize newData.length
    match (if newBlockSize ≤ oldBlockSize then (.ok (), s.splitBlock blockOffset header newData)
      else (s.freeBlock blockOffset header).addBlock cfg amb.space recordId newData) with
    | (.error e, s) => (.error e, s)
    | (.ok (), s) =>
      let s := { s with dbHeader := { s.dbHeader with
        version := i32 (s.dbHeader.version + 1), lastModified := amb.time } }
      (.ok (), s.writeDbHeader 20 12)

/-- `closeRecordStore`, then opening the same file again. -/
def reopen (cfg : Config) (s : Store) : Except RmsError Unit × Store :=
  match s.compactRecords cfg with
  | (.error e, s) => (.error e, s)
  | (.ok (), s) =>
    match DbHeader.read s.file with
    | none => (.error .io, s)
    | some dbHeader => (.ok (), { dbHeader := dbHeader, file := s.file })

end Store

end FroggyKVM.Rms
