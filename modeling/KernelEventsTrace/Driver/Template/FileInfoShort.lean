import KernelEventsTrace.Lib.ByteMemory

/-!
# `KernelEventsTrace.Driver.Template.FileInfoShort`: an entry of a directory listing

`FileInfoShort` of `driver/template/flt-ex.cpp`: the address of an entry, and the offsets of its
fields. The entry itself lies in memory. A getter reads there, and a setter returns the memory it
leaves. A `ULONG` has four bytes and a pointer has eight, with the lowest byte first.
-/

set_option autoImplicit false

namespace KernelEventsTrace.Driver.Template

open KernelEventsTrace (ByteMemory)

/-- `*(ULONG*)p`. -/
def ulongAt (m : ByteMemory) (p : UInt64) : UInt32 := UInt32.ofNat (m.read p 4)

/-- `*(ULONG*)p = value`. -/
def setUlongAt (m : ByteMemory) (p : UInt64) (value : UInt32) : ByteMemory :=
  m.write p 4 value.toNat

/-- `*(PWCHAR*)p = value`. -/
def setPointerAt (m : ByteMemory) (p value : UInt64) : ByteMemory := m.write p 8 value.toNat

/-- `(size_t)-1`: there is no such field. -/
def noField : UInt64 := 0xFFFFFFFFFFFFFFFF

/-- The data members of `FileInfoShort`. -/
structure FileInfoShort where
  fileInfoAddr : UInt64 := 0
  nextEntryOffsetRva : UInt64 := 0
  fileNameRva : UInt64 := 0
  fileNameLengthRva : UInt64 := 0
  fileAttributesRva : UInt64 := noField
  deriving Repr, DecidableEq

namespace FileInfoShort

/-- The constructor for entries without attributes. -/
def construct (baseVa nextEntryOffsetRva fileNameRva fileNameLengthRva : UInt64) : FileInfoShort :=
  { fileInfoAddr := baseVa, nextEntryOffsetRva, fileNameRva, fileNameLengthRva }

/-- The constructor for entries with attributes. -/
def constructWithAttributes (baseVa nextEntryOffsetRva fileNameRva fileNameLengthRva
    fileAttributesRva : UInt64) : FileInfoShort :=
  { fileInfoAddr := baseVa, nextEntryOffsetRva, fileNameRva, fileNameLengthRva, fileAttributesRva }

/-- The constructor for another entry with the same fields. -/
def constructAt (fileInfo : FileInfoShort) (fileInfoAddr : UInt64) : FileInfoShort :=
  { fileInfo with fileInfoAddr }

variable (f : FileInfoShort) (m : ByteMemory)

/-! ### Getters -/

/-- `GetNextEntryOffset`. -/
def getNextEntryOffset : UInt32 := ulongAt m (f.fileInfoAddr + f.nextEntryOffsetRva)

/-- `GetFileName`. -/
def getFileName : UInt64 := f.fileInfoAddr + f.fileNameRva

/-- `GetFileNameLength`. -/
def getFileNameLength : UInt32 := ulongAt m (f.fileInfoAddr + f.fileNameLengthRva)

/-- `GetFileAttributes`. -/
def getFileAttributes : UInt32 :=
  if f.fileAttributesRva ≠ noField then ulongAt m (f.fileInfoAddr + f.fileAttributesRva) else 0

/-! ### Setters -/

/-- `SetNextEntryOffset`. -/
def setNextEntryOffset (nextEntryVal : UInt32) : ByteMemory :=
  setUlongAt m (f.fileInfoAddr + f.nextEntryOffsetRva) nextEntryVal

/-- `SetFileName`: what is stored is the pointer. -/
def setFileName (fileName : UInt64) : ByteMemory :=
  setPointerAt m (f.fileInfoAddr + f.fileNameRva) fileName

/-- `SetFileNameLength`. -/
def setFileNameLength (length : UInt32) : ByteMemory :=
  setUlongAt m (f.fileInfoAddr + f.fileNameLengthRva) length

/-- `SetFileAttributes`. -/
def setFileAttributes (fileAttributes : UInt32) : ByteMemory :=
  if f.fileAttributesRva ≠ noField then
    setUlongAt m (f.fileInfoAddr + f.fileAttributesRva) fileAttributes
  else m

end FileInfoShort

end KernelEventsTrace.Driver.Template
