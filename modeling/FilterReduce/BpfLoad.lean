import FilterReduce.CString
import FilterReduce.ElfObject
import FilterReduce.StateProgram

/-!
# The object loader

`bpf_load.c`: reads the maps section of an object, creates the maps, writes their
descriptors into the instructions that refer to them, and loads and attaches the
program sections. The kernel is whatever answers the requests; its answer may
depend on everything asked before.
-/
namespace FilterReduce.BpfLoad

open CString ByteLayout ElfObject StateProgram

def maxMaps : ℕ := 32
def maxProgs : ℕ := 32

structure MapDef where
  type : UInt32
  keySize : UInt32
  valueSize : UInt32
  maxEntries : UInt32
  mapFlags : UInt32
  innerMapIdx : UInt32
  numaNode : UInt32
  deriving DecidableEq

def mapDefSize : ℕ := 28

/-- The structure that a (possibly shorter) byte string is copied into, over zeros. -/
def MapDef.ofBytes (bs : List UInt8) : MapDef :=
  ⟨.ofNat (field 4 0 bs), .ofNat (field 4 4 bs), .ofNat (field 4 8 bs), .ofNat (field 4 12 bs),
    .ofNat (field 4 16 bs), .ofNat (field 4 20 bs), .ofNat (field 4 24 bs)⟩

structure MapData where
  fd : Int32
  name : List UInt8
  elfOffset : ℕ
  mapDef : MapDef
  deriving DecidableEq

inductive ProgType
  | socketFilter | kprobe | tracepoint | rawTracepoint | xdp | perfEvent | cgroupSkb | cgroupSock
  | sockOps | skSkb | skMsg
  deriving DecidableEq, Repr

inductive OpenMode
  | rdonly | trunc | append
  deriving DecidableEq, Repr

inductive Request
  | openFile (path : List UInt8) (mode : OpenMode)
  | read (fd : Int32) (count : ℕ)
  | write (fd : Int32) (bytes : List UInt8)
  | close (fd : Int32)
  | createMap (type : UInt32) (name : List UInt8)
      (keySize valueSize maxEntries mapFlags : UInt32) (node : Int32)
  | createMapInMap (type : UInt32) (name : List UInt8) (keySize : UInt32) (innerMapFd : Int32)
      (maxEntries mapFlags : UInt32) (node : Int32)
  | updateElem (fd key value : Int32)
  | loadProgram (type : ProgType) (insns license : List UInt8) (kernVersion : ℕ)
  | rawTracepointOpen (name : List UInt8) (progFd : Int32)
  | perfEventOpen (config : Int32)
  | perfEnable (fd : Int32)
  | perfSetBpf (fd progFd : Int32)
  deriving DecidableEq

structure Answer where
  ret : Int32
  bytes : List UInt8
  deriving DecidableEq

abbrev Log := List (Request × Answer)

abbrev Kernel := Log → Request → Answer

/-- Executions that C leaves undefined, and the failed assertion. `progTable` is an index
outside `prog_fd` or `event_fd`, `outOfBounds` any other access outside an object. -/
inductive Fault
  | assertion | divisionByZero | outOfBounds | nullPointer | uninitialised | progTable
  deriving DecidableEq, Repr

/-- The global variables of the loader, and all that was asked of the kernel. -/
structure Loader where
  license : List UInt8
  kernVersion : ℕ
  processedSec : ℕ → Bool
  mapFd : ℕ → Int32
  progFd : ℕ → Int32
  eventFd : ℕ → Int32
  progCnt : ℕ
  progArrayFd : Int32
  mapData : ℕ → MapData
  mapDataCount : ℕ
  log : Log

def Loader.initial : Loader where
  license := List.replicate 128 0
  kernVersion := 0
  processedSec := fun _ => false
  mapFd := fun _ => 0
  progFd := fun _ => 0
  eventFd := fun _ => 0
  progCnt := 0
  progArrayFd := -1
  mapData := fun _ => ⟨0, [], 0, .ofBytes []⟩
  mapDataCount := 0
  log := []

abbrev Load := Prog Loader Fault

/-- C `qsort` by `cmp_symbols`: some sorted rearrangement, the order of equal keys is open. -/
structure Qsort where
  sort : List Sym → List Sym
  perm : ∀ l, (sort l).Perm l
  sorted : ∀ l, (sort l).Pairwise fun a b => a.value ≤ b.value

def digitsAtoi (negative : Bool) (s : List UInt8) : Int32 :=
  let v := digitsValue (s.takeWhile isDigit)
  if negative then .ofInt (-(min v (2 ^ 63) : ℕ)) else .ofInt (min v (2 ^ 63 - 1) : ℕ)

def atoi (s : List UInt8) : Int32 :=
  match s.dropWhile isspace with
  | 45 :: rest => digitsAtoi true rest
  | 43 :: rest => digitsAtoi false rest
  | rest => digitsAtoi false rest

section Attach

variable (kernel : Kernel)

def ask (q : Request) : Load Answer := fun s =>
  .ok (kernel s.log q, { s with log := s.log ++ [(q, kernel s.log q)] })

def populateProgArray (event : List UInt8) (fd : Int32) : Load ℤ := do
  let s ← get
  let err ← ask kernel (.updateElem s.progArrayFd (atoi event) fd)
  if err.ret < 0 then return -1 else return 0

def debugfs : List UInt8 := ascii "/sys/kernel/debug/tracing/"

def writeKprobeEvents (val : List UInt8) : Load Int32 := do
  let mode : OpenMode := if val = [] then .trunc else .append
  let fd ← ask kernel (.openFile (debugfs ++ ascii "kprobe_events") mode)
  let ret ← ask kernel (.write fd.ret val)
  let _ ← ask kernel (.close fd.ret)
  return ret.ret

inductive Kind
  | socket | kprobe | kretprobe | tracepoint | rawTracepoint | xdp | perfEvent | cgroupSkb
  | cgroupSk | sockops | skSkb | skMsg
  deriving DecidableEq, Repr

def Kind.tag : Kind → List UInt8
  | .socket => ascii "socket"
  | .kprobe => ascii "kprobe/"
  | .kretprobe => ascii "kretprobe/"
  | .tracepoint => ascii "tracepoint/"
  | .rawTracepoint => ascii "raw_tracepoint/"
  | .xdp => ascii "xdp"
  | .perfEvent => ascii "perf_event"
  | .cgroupSkb => ascii "cgroup/skb"
  | .cgroupSk => ascii "cgroup/sock"
  | .sockops => ascii "sockops"
  | .skSkb => ascii "sk_skb"
  | .skMsg => ascii "sk_msg"

/-- The variables `is_socket`, `is_kprobe`, and so on. -/
def Kind.is (k : Kind) (event : List UInt8) : Bool := startsWith event k.tag

def progType (event : List UInt8) : Option ProgType :=
  if Kind.is .socket event then some .socketFilter
  else if Kind.is .kprobe event || Kind.is .kretprobe event then some .kprobe
  else if Kind.is .tracepoint event then some .tracepoint
  else if Kind.is .rawTracepoint event then some .rawTracepoint
  else if Kind.is .xdp event then some .xdp
  else if Kind.is .perfEvent event then some .perfEvent
  else if Kind.is .cgroupSkb event then some .cgroupSkb
  else if Kind.is .cgroupSk event then some .cgroupSock
  else if Kind.is .sockops event then some .sockOps
  else if Kind.is .skSkb event then some .skSkb
  else if Kind.is .skMsg event then some .skMsg
  else none

/-- `snprintf(buf, sizeof(buf), ...)` with a buffer of 256 bytes. -/
def snprintf (text : List UInt8) : List UInt8 := text.take 255

def kprobeText (isKprobe : Bool) (eventStart event : List UInt8) : List UInt8 :=
  snprintf (ascii (if isKprobe then "p:" else "r:") ++ eventStart ++ event ++ ascii " "
    ++ eventStart ++ event)

def sysStart : List UInt8 := ascii "__x64_"

def registerSyscall (isKprobe : Bool) (event : List UInt8) : Load Int32 :=
  if startsWith event (ascii "sys_") then
    writeKprobeEvents kernel (kprobeText isKprobe sysStart event)
  else pure (-1)

def registerKprobe (isKprobe : Bool) (event : List UInt8) : Load (Option (List UInt8)) := do
  let err ← registerSyscall kernel isKprobe event
  if err < 0 then do
    let err ← writeKprobeEvents kernel (kprobeText isKprobe [] event)
    if err < 0 then return none else return some []
  else return some sysStart

def setEventFd (efd : Int32) : Load PUnit := do
  let s ← get
  if 0 < s.progCnt ∧ s.progCnt ≤ maxProgs then
    modify fun s => { s with eventFd := Function.update s.eventFd (s.progCnt - 1) efd }
  else fail .progTable

/-- Opens the event whose number stands in the file `buf` and ties the program to it. -/
def perfAttach (buf : List UInt8) (fd : Int32) : Load ℤ := do
  -- `strcpy` and `strcat` into `char buf[256]`
  if 256 ≤ buf.length then fail .outOfBounds else do
  let efd ← ask kernel (.openFile buf .rdonly)
  if efd.ret < 0 then return -1 else do
  let err ← ask kernel (.read efd.ret 256)
  if err.ret < 0 ∨ 256 ≤ err.ret.toInt then return -1 else do
  let _ ← ask kernel (.close efd.ret)
  let id := atoi (err.bytes.take err.ret.toInt.toNat)
  let efd ← ask kernel (.perfEventOpen id)
  if efd.ret < 0 then return -1 else do
  setEventFd efd.ret
  let err ← ask kernel (.perfEnable efd.ret)
  if err.ret < 0 then return -1 else do
  let err ← ask kernel (.perfSetBpf efd.ret fd)
  if err.ret < 0 then return -1 else return 0

def attachNumbered (event : List UInt8) (fd : Int32) : Load ℤ :=
  match event with
  | 47 :: number =>
    match number with
    | b :: _ => if isDigit b then populateProgArray kernel number fd else return -1
    | [] => return -1
  | _ => return 0

def attachKprobe (isKprobe : Bool) (event : List UInt8) (fd : Int32) : Load ℤ :=
  match event with
  | [] => return -1
  | b :: _ =>
    if isDigit b then populateProgArray kernel event fd else do
    let eventStart ← registerKprobe kernel isKprobe event
    match eventStart with
    | none => return -1
    | some eventStart =>
      perfAttach kernel
        (debugfs ++ ascii "events/kprobes/" ++ eventStart ++ event ++ ascii "/id") fd

def attachTracepoint (event : List UInt8) (fd : Int32) : Load ℤ :=
  match event with
  | [] => return -1
  | _ => perfAttach kernel (debugfs ++ ascii "events/" ++ event ++ ascii "/id") fd

def attachRawTracepoint (event : List UInt8) (fd : Int32) : Load ℤ := do
  let efd ← ask kernel (.rawTracepointOpen event fd)
  if efd.ret < 0 then return -1 else do
  setEventFd efd.ret
  return 0

/-- The part of `load_and_attach` after the program is loaded. -/
def attach (event : List UInt8) (fd : Int32) : Load ℤ :=
  if Kind.is .xdp event || Kind.is .perfEvent event || Kind.is .cgroupSkb event
      || Kind.is .cgroupSk event then return 0
  else if Kind.is .socket event || Kind.is .sockops event || Kind.is .skSkb event
      || Kind.is .skMsg event then
    let skip := if Kind.is .socket event then 6 else 7
    -- `sk_skb` and `sk_msg` are one character shorter than what is skipped
    if event.length < skip then fail .outOfBounds
    else attachNumbered kernel (event.drop skip) fd
  else if Kind.is .rawTracepoint event then attachRawTracepoint kernel (event.drop 15) fd
  else if Kind.is .kprobe event then attachKprobe kernel true (event.drop 7) fd
  else if Kind.is .kretprobe event then attachKprobe kernel false (event.drop 10) fd
  else if Kind.is .tracepoint event then attachTracepoint kernel (event.drop 11) fd
  else fail .uninitialised

/-- What the kernel is asked to load from a program section: its complete instructions. -/
def loadRequest (s : Loader) (type : ProgType) (prog : List UInt8) : Request :=
  .loadProgram type (prog.take (8 * (prog.length / 8))) s.license s.kernVersion

def addProgFd (fd : Int32) : Load PUnit := do
  let s ← get
  if s.progCnt < maxProgs then
    modify fun s => { s with
      progFd := Function.update s.progFd s.progCnt fd, progCnt := s.progCnt + 1 }
  else fail .progTable

def loadAndAttach (event prog : List UInt8) : Load ℤ :=
  match progType event with
  | none => return -1
  | some type => do
    let s ← get
    if s.progCnt = maxProgs then return -1 else do
    let fd ← ask kernel (loadRequest s type prog)
    if fd.ret < 0 then return -1 else do
    addProgFd fd.ret
    attach kernel event fd.ret

end Attach

section Maps

variable (kernel : Kernel)

def bpfMapTypeProgArray : UInt32 := 3
def bpfMapTypeArrayOfMaps : UInt32 := 12
def bpfMapTypeHashOfMaps : UInt32 := 13
def bpfFNumaNode : UInt32 := 4

def mapAt (i : ℕ) : Load MapData := do
  let s ← get
  if i < maxMaps then return s.mapData i else fail .outOfBounds

def setMapData (i : ℕ) (m : MapData) : Load PUnit :=
  if i < maxMaps then modify fun s => { s with mapData := Function.update s.mapData i m }
  else fail .outOfBounds

def setMapFd (i : ℕ) (fd : Int32) : Load PUnit :=
  if i < maxMaps then modify fun s => { s with mapFd := Function.update s.mapFd i fd }
  else fail .outOfBounds

def numaNode (d : MapDef) : Int32 :=
  if d.mapFlags &&& bpfFNumaNode ≠ 0 then d.numaNode.toInt32 else -1

def MapDef.isMapInMap (d : MapDef) : Prop :=
  d.type = bpfMapTypeArrayOfMaps ∨ d.type = bpfMapTypeHashOfMaps

instance (d : MapDef) : Decidable d.isMapInMap := inferInstanceAs (Decidable (_ ∨ _))

def createMap (m : MapData) : Load Int32 := do
  let d := m.mapDef
  if d.isMapInMap then do
    let s ← get
    if d.innerMapIdx.toNat < maxMaps then do
      let innerMapFd := s.mapFd d.innerMapIdx.toNat
      let a ← ask kernel (.createMapInMap d.type m.name d.keySize innerMapFd d.maxEntries
        d.mapFlags (numaNode d))
      return a.ret
    else fail .outOfBounds
  else do
    let a ← ask kernel (.createMap d.type m.name d.keySize d.valueSize d.maxEntries d.mapFlags
      (numaNode d))
    return a.ret

/-- The callback of `load_bpf_file_fixup_map`, as the change it makes to the map. -/
abbrev FixupMap := MapData → ℕ → MapData

def applyFixup (fixupMap : Option FixupMap) (m : MapData) (i : ℕ) : MapData :=
  match fixupMap with
  | none => m
  | some fixup => fixup m i

/-- One round of `load_maps`; `false` when the kernel refused the map. -/
def loadMap (fixupMap : Option FixupMap) (i : ℕ) : Load Bool := do
  let m ← mapAt i
  let m := applyFixup fixupMap m i
  setMapData i m
  if fixupMap.isSome ∧ m.fd ≠ -1 then do
    setMapFd i m.fd
    return true
  else do
    let fd ← createMap kernel m
    setMapFd i fd
    if fd < 0 then return false else do
    setMapData i { m with fd := fd }
    if m.mapDef.type = bpfMapTypeProgArray then do
      let _ ← modify fun s => { s with progArrayFd := fd }
      return true
    else return true

def loadMaps (fixupMap : Option FixupMap) : ℕ → ℕ → Load ℤ
  | _, 0 => return 0
  | i, n + 1 => do
    let created ← loadMap kernel fixupMap i
    if created then loadMaps fixupMap (i + 1) n else return 1

end Maps

section MapsSection

def collectSyms (shndx : ℕ) : List Sym → List Sym → Except Fault (List Sym)
  | acc, [] => .ok acc
  | acc, s :: rest =>
    if acc.length < maxMaps + 1 then
      collectSyms shndx (if s.shndx = shndx then acc ++ [s] else acc) rest
    else .error .assertion

/-- `false` at the first byte of the range that is not zero. -/
def validateZero (data : List UInt8) : ℕ → ℕ → Except Fault Bool
  | _, 0 => .ok true
  | addr, n + 1 =>
    match data[addr]? with
    | none => .error .outOfBounds
    | some b => if b = 0 then validateZero data (addr + 1) n else .ok false

def einval : ℤ := 22
def efbig : ℤ := 27

/-- One round of the copy loop; `false` for a newer feature that is in use. -/
def copyMap (elf : Elf) (strtabidx : ℕ) (dataMaps : List UInt8) (mapSzElf i : ℕ) (sym : Sym) :
    Load Bool := do
  let mapSzCopy := min mapDefSize mapSzElf
  match elfStrptr elf strtabidx sym.name with
  | none => fail .nullPointer
  | some mapName => do
    let m ← mapAt i
    if dataMaps.length < sym.value + mapSzCopy then fail .outOfBounds else do
    setMapData i ⟨m.fd, mapName, sym.value, .ofBytes (slice dataMaps sym.value mapSzCopy)⟩
    if mapDefSize < mapSzElf then
      pureOr (validateZero dataMaps (sym.value + mapSzCopy) (mapSzElf - mapSzCopy))
    else return true

def copyMaps (elf : Elf) (strtabidx : ℕ) (dataMaps : List UInt8) (mapSzElf : ℕ) :
    ℕ → List Sym → Load ℤ
  | i, [] => return i
  | i, sym :: syms => do
    let copied ← copyMap elf strtabidx dataMaps mapSzElf i sym
    if copied then copyMaps elf strtabidx dataMaps mapSzElf (i + 1) syms else return -efbig

/-- `symbols` stands for the data of the symbol table and the index of its string table. -/
def loadElfMapsSection (qsort : Qsort) (mapsShndx : Option ℕ) (elf : Elf)
    (symbols : Option (List UInt8 × ℕ)) : Load ℤ :=
  match mapsShndx, symbols with
  | some shndx, some (symData, strtabidx) =>
    match elf.sections[shndx]? with
    | none => return -einval
    | some scn => do
      let found ← pureOr (collectSyms shndx [] (symtab symData))
      let sym := qsort.sort found
      if sym.length = 0 then fail .divisionByZero
      else copyMaps elf strtabidx scn.data (scn.data.length / sym.length) 0 sym
  | _, _ => return -einval

end MapsSection

section Relocation

def bpfLdImmDw : UInt8 := 0x18
def bpfPseudoMapFd : UInt8 := 1

/-- `insn[idx].src_reg = BPF_PSEUDO_MAP_FD`: the upper half of the second byte. -/
def setSrcReg (insn : List UInt8) (idx : ℕ) : List UInt8 :=
  splice insn (8 * idx + 1)
    [(slice insn (8 * idx + 1) 1).headD 0 % 16 + 16 * bpfPseudoMapFd]

def setImm (insn : List UInt8) (idx : ℕ) (fd : Int32) : List UInt8 :=
  splice insn (8 * idx + 4) (leBytes 4 fd.toUInt32.toNat)

def findMap (maps : ℕ → MapData) (nrMaps value : ℕ) : Option MapData :=
  ((List.range nrMaps).map maps).find? fun m => m.elfOffset = value

def insnIdx (rel : Rel) : ℕ := rel.offset / 8 % 2 ^ 32

def applyRel (symbols : List Sym) (maps : ℕ → MapData) (nrMaps : ℕ) (insn : List UInt8)
    (rel : Rel) : Except Fault (Bool × List UInt8) :=
  match insn[8 * insnIdx rel]? with
  | none => .error .outOfBounds
  | some code =>
    if code ≠ bpfLdImmDw then .ok (false, insn)
    else if insn.length < 8 * insnIdx rel + 8 then .error .outOfBounds
    else
      match symbols[rel.sym]? with
      | none => .error .uninitialised
      | some sym =>
        match findMap maps nrMaps sym.value with
        | some m => .ok (true, setImm (setSrcReg insn (insnIdx rel)) (insnIdx rel) m.fd)
        | none => .ok (false, setSrcReg insn (insnIdx rel))

/-- The loop over the entries. One that `gelf_getrel` does not find leaves `rel` as it was. -/
def applyRels (symbols : List Sym) (maps : ℕ → MapData) (nrMaps : ℕ) :
    List UInt8 → List (Option Rel) → Except Fault (ℤ × List UInt8)
  | insn, [] => .ok (0, insn)
  | _, none :: _ => .error .uninitialised
  | insn, some rel :: rels => do
    let (go, insn) ← applyRel symbols maps nrMaps insn rel
    if go then applyRels symbols maps nrMaps insn rels else return (1, insn)

/-- Returns the instructions as well, which the source changes in place. -/
def parseReloAndApply (symbols : List Sym) (maps : ℕ → MapData) (nrMaps : ℕ) (sec : Section)
    (insn : List UInt8) : Except Fault (ℤ × List UInt8) :=
  if sec.entsize = 0 then .error .divisionByZero
  else
    let nrels := sec.data.length / sec.entsize
    applyRels symbols maps nrMaps insn ((List.range nrels).map fun i => (reltab sec.data)[i]?)

end Relocation

section File

variable (kernel : Kernel)

def isProcessed (i : ℕ) : Load Bool := do
  let s ← get
  if i < 128 then return s.processedSec i else fail .outOfBounds

def setProcessed (i : ℕ) : Load PUnit :=
  if i < 128 then
    modify fun s => { s with processedSec := Function.update s.processedSec i true }
  else fail .outOfBounds

/-- The variables that the first pass over the sections leaves behind. -/
structure Scan where
  mapsShndx : Option ℕ
  symbols : Option (List UInt8 × ℕ)

/-- One round of the first pass; `none` when the file is refused. -/
def scanSection (elf : Elf) (scan : Scan) (i : ℕ) : Load (Option Scan) :=
  match getSec elf i with
  | none => return some scan
  | some (shname, sec) =>
    if shname = ascii "license" then do
      setProcessed i
      if 128 < sec.data.length then fail .outOfBounds else do
      let _ ← modify fun s => { s with license := splice s.license 0 sec.data }
      return some scan
    else if shname = ascii "version" then do
      setProcessed i
      if sec.data.length ≠ 4 then return none else do
      let _ ← modify fun s => { s with kernVersion := ofLeBytes sec.data }
      return some scan
    else if shname = ascii "maps" then do
      let _ ← modify fun s => { s with
        mapData := fun j => if j < maxMaps then { s.mapData j with fd := -1 } else s.mapData j }
      return some { scan with mapsShndx := some i }
    else if sec.type = .symtab then
      return some { scan with symbols := some (sec.data, sec.link) }
    else return some scan

def scanSections (elf : Elf) : Scan → List ℕ → Load (Option Scan)
  | scan, [] => return some scan
  | scan, i :: is => do
    let next ← scanSection elf scan i
    match next with
    | none => return none
    | some scan => scanSections elf scan is

/-- One round of the second pass. Relocations that do not apply are ignored. -/
def relocateSection (symbols : List Sym) (nrMaps : ℕ) (elf : Elf) (i : ℕ) : Load Elf := do
  let done ← isProcessed i
  if done then return elf else
  match getSec elf i with
  | none => return elf
  | some (_, sec) =>
    if sec.type ≠ .rel then return elf else
    match getSec elf sec.info with
    | none => return elf
    | some (_, prog) =>
      if prog.type ≠ .progbits ∨ prog.execinstr = false then return elf else do
      setProcessed i
      let s ← get
      let (_, insns) ← pureOr (parseReloAndApply symbols s.mapData nrMaps sec prog.data)
      return elf.setData sec.info insns

def programStarts : List (List UInt8) :=
  [ascii "kprobe/", ascii "kretprobe/", ascii "tracepoint/", ascii "raw_tracepoint/", ascii "xdp",
    ascii "perf_event", ascii "socket", ascii "cgroup/", ascii "sockops", ascii "sk_skb",
    ascii "sk_msg"]

/-- `memcmp(s, start, strlen(start)) == 0`, where `s` is all that `s` may be read through. -/
def memcmpEq (s start : List UInt8) : Except Fault Bool :=
  if s.length < start.length then .error .outOfBounds else .ok (startsWith s start)

/-- The comparisons of a name, up to the first that holds. -/
def memcmpAny (s : List UInt8) : List (List UInt8) → Except Fault Bool
  | [] => .ok false
  | start :: starts => do
    let found ← memcmpEq s start
    if found then return true else memcmpAny s starts

def loadPrograms (elf : Elf) : ℤ → List ℕ → Load ℤ
  | ret, [] => return ret
  | ret, i :: is => do
    let done ← isProcessed i
    if done then loadPrograms elf ret is else
    match getSec elf i with
    | none => loadPrograms elf ret is
    | some (shname, sec) => do
      let found ← pureOr (memcmpAny (strBytes elf elf.shstrndx sec.name) programStarts)
      if found then do
        let ret ← loadAndAttach kernel shname sec.data
        if ret ≠ 0 then return ret else loadPrograms elf ret is
      else loadPrograms elf ret is

def sectionIndices (elf : Elf) : List ℕ := List.range' 1 (elf.sections.length - 1)

def linkPrograms (elf : Elf) (symbols : List UInt8) (nrMaps : ℕ) : Load ℤ := do
  let elf' ← (sectionIndices elf).foldlM (relocateSection (symtab symbols) nrMaps) elf
  loadPrograms kernel elf' 1 (sectionIndices elf)

/-- From the end of the first pass to the label `done`. -/
def loadScanned (qsort : Qsort) (fixupMap : Option FixupMap) (elf : Elf) (scan : Scan) :
    Load ℤ :=
  match scan.symbols with
  | none => return 1
  | some (symbols, strtabidx) =>
    match scan.mapsShndx with
    | none => linkPrograms kernel elf symbols 0
    | some shndx => do
      let nrMaps ← loadElfMapsSection qsort (some shndx) elf (some (symbols, strtabidx))
      if nrMaps < 0 then return 1 else do
      let err ← loadMaps kernel fixupMap 0 nrMaps.toNat
      if err ≠ 0 then return 1 else do
      let _ ← modify fun s => { s with mapDataCount := nrMaps.toNat }
      setProcessed shndx
      linkPrograms kernel elf symbols nrMaps.toNat

/-- `file` is what libelf makes of the opened file, `none` if it rejects it. -/
def doLoadBpfFile (qsort : Qsort) (path : List UInt8) (file : Option Elf)
    (fixupMap : Option FixupMap) : Load ℤ := do
  let _ ← modify fun s => { s with
    kernVersion := 0, license := List.replicate 128 0, processedSec := fun _ => false }
  let fd ← ask kernel (.openFile path .rdonly)
  if fd.ret < 0 then return 1 else
  match file with
  | none => return 1
  | some elf => do
    let _ ← writeKprobeEvents kernel []
    let scan ← scanSections elf ⟨none, none⟩ (sectionIndices elf)
    match scan with
    | none => return 1
    | some scan => do
      let ret ← loadScanned kernel qsort fixupMap elf scan
      let _ ← ask kernel (.close fd.ret)
      return ret

def loadBpfFile (qsort : Qsort) (path : List UInt8) (file : Option Elf) : Load ℤ :=
  doLoadBpfFile kernel qsort path file none

def loadBpfFileFixupMap (qsort : Qsort) (path : List UInt8) (file : Option Elf)
    (fixupMap : FixupMap) : Load ℤ :=
  doLoadBpfFile kernel qsort path file (some fixupMap)

end File

end FilterReduce.BpfLoad
