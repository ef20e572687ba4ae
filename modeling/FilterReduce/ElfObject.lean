import FilterReduce.ByteLayout

/-!
# Object files

The part of an ELF64 file that the loader reads through libelf: section headers,
the raw bytes of each section, and symbol and relocation entries decoded from
them. Strings are resolved in the string table that a header names.
-/
namespace FilterReduce.ElfObject

open ByteLayout

/-- The bytes of a C string literal, without its terminator. -/
def ascii (text : String) : List UInt8 := text.toList.map fun c => UInt8.ofNat c.toNat

/-- `strncmp(s, start, strlen(start)) == 0`. -/
def startsWith (s start : List UInt8) : Bool := s.take start.length == start

inductive SecType
  | null | progbits | symtab | strtab | rel | other
  deriving DecidableEq, Repr

structure Section where
  name : ℕ
  type : SecType
  execinstr : Bool
  link : ℕ
  info : ℕ
  entsize : ℕ
  data : List UInt8
  deriving DecidableEq

structure Elf where
  shstrndx : ℕ
  sections : List Section
  deriving DecidableEq

structure Sym where
  name : ℕ
  shndx : ℕ
  value : ℕ
  deriving DecidableEq

/-- `GElf_Rel`; `sym` is `GELF_R_SYM(r_info)`. -/
structure Rel where
  offset : ℕ
  sym : ℕ
  deriving DecidableEq

def Sym.ofBytes (bs : List UInt8) : Sym := ⟨field 4 0 bs, field 2 6 bs, field 8 8 bs⟩

def Rel.ofBytes (bs : List UInt8) : Rel := ⟨field 8 0 bs, field 4 12 bs⟩

def symtab (data : List UInt8) : List Sym := table 24 Sym.ofBytes data

/-- The entries that `gelf_getrel` finds, whatever size the header gives for them. -/
def reltab (data : List UInt8) : List Rel := table 16 Rel.ofBytes data

/-- `elf_strptr`: `none` for the null pointer. -/
def elfStrptr (elf : Elf) (idx off : ℕ) : Option (List UInt8) :=
  match elf.sections[idx]? with
  | none => none
  | some s =>
    if s.type = .strtab ∧ 0 ∈ s.data.drop off then some ((s.data.drop off).takeWhile (· ≠ 0))
    else none

/-- What a pointer from `elf_strptr` may be followed through: the rest of the table. -/
def strBytes (elf : Elf) (idx off : ℕ) : List UInt8 :=
  ((elf.sections[idx]?).map fun s => s.data.drop off).getD []

/-- `get_sec`: the name and header of a section with a name and a body. -/
def getSec (elf : Elf) (i : ℕ) : Option (List UInt8 × Section) :=
  match elf.sections[i]? with
  | none => none
  | some s =>
    match elfStrptr elf elf.shstrndx s.name with
    | none => none
    | some shname => if s.data = [] then none else some (shname, s)

def Elf.setData (elf : Elf) (i : ℕ) (data : List UInt8) : Elf :=
  { elf with sections := elf.sections.modify i fun s => { s with data := data } }

end FilterReduce.ElfObject
