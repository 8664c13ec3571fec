import KernelEventsTrace.Driver.Template.FileInfoShort

/-!
# `KernelEventsTrace.Proofs.FileInfoShort`: the fields of a directory entry

`FieldLaws` says what the setters of an entry promise: a getter returns what its setter stored, and
no setter changes a byte outside its own field. The three numeric fields keep this promise.
`SetFileName` stores the eight bytes of the pointer it gets over the name area, and not the
characters the pointer leads to. `NameAgrees` says when this makes no difference, and
`fieldLaws_iff` that the promise is kept exactly then.
-/

set_option autoImplicit false

namespace KernelEventsTrace.Driver.Template

open KernelEventsTrace (ByteMemory InRange Apart byteAt inRange_add not_inRange_add add_distance
  apart_of_offsets)

/-! ### One number -/

/-- The four bytes are read back. -/
theorem ulongAt_setUlongAt (m : ByteMemory) (p : UInt64) (value : UInt32) :
    ulongAt (setUlongAt m p value) p = value := by
  unfold ulongAt setUlongAt
  rw [ByteMemory.read_write (by decide) value.toNat_lt, UInt32.ofNat_toNat]

/-- The bytes around are kept. -/
theorem setUlongAt_of_not_inRange {m : ByteMemory} {p a : UInt64} (h : ¬ InRange p 4 a)
    (value : UInt32) : setUlongAt m p value a = m a :=
  ByteMemory.write_of_not_inRange h

namespace FileInfoShort

variable {f : FileInfoShort} {m : ByteMemory} {capacity : Nat} {s : UInt64} {len : UInt32}

/-! ### The promise -/

/-- The entry has a field for the attributes. -/
def HasAttributes (f : FileInfoShort) : Prop := f.fileAttributesRva ≠ noField

/-- The fields do not overlap: the offset of the next entry, the length of the name, the name area
of this capacity, and the attributes if the entry has them. -/
structure Layout (f : FileInfoShort) (capacity : Nat) : Prop where
  offset_length : Apart (f.fileInfoAddr + f.nextEntryOffsetRva) 4
    (f.fileInfoAddr + f.fileNameLengthRva) 4
  offset_name : Apart (f.fileInfoAddr + f.nextEntryOffsetRva) 4 f.getFileName capacity
  length_name : Apart (f.fileInfoAddr + f.fileNameLengthRva) 4 f.getFileName capacity
  attributes_offset : f.HasAttributes → Apart (f.fileInfoAddr + f.fileAttributesRva) 4
    (f.fileInfoAddr + f.nextEntryOffsetRva) 4
  attributes_length : f.HasAttributes → Apart (f.fileInfoAddr + f.fileAttributesRva) 4
    (f.fileInfoAddr + f.fileNameLengthRva) 4
  attributes_name : f.HasAttributes →
    Apart (f.fileInfoAddr + f.fileAttributesRva) 4 f.getFileName capacity

/-- What the setters promise, for an entry in the memory `m` and a name of `len` bytes at `s`. -/
structure FieldLaws (f : FileInfoShort) (m : ByteMemory) (capacity : Nat) (s : UInt64)
    (len : UInt32) : Prop where
  nextEntryOffset : ∀ v, f.getNextEntryOffset (f.setNextEntryOffset m v) = v
  fileNameLength : ∀ v, f.getFileNameLength (f.setFileNameLength m v) = v
  fileAttributes : f.HasAttributes → ∀ v, f.getFileAttributes (f.setFileAttributes m v) = v
  /-- The bytes of the name are those of `s`. -/
  fileName : ∀ k, k < len.toNat →
    f.setFileName (f.setFileNameLength m len) s (f.getFileName + UInt64.ofNat k) =
      m (s + UInt64.ofNat k)
  nextEntryOffset_frame : ∀ v a, ¬ InRange (f.fileInfoAddr + f.nextEntryOffsetRva) 4 a →
    f.setNextEntryOffset m v a = m a
  fileNameLength_frame : ∀ v a, ¬ InRange (f.fileInfoAddr + f.fileNameLengthRva) 4 a →
    f.setFileNameLength m v a = m a
  fileAttributes_frame : ∀ v a,
    ¬ (f.HasAttributes ∧ InRange (f.fileInfoAddr + f.fileAttributesRva) 4 a) →
    f.setFileAttributes m v a = m a
  fileName_frame : ∀ a, ¬ InRange f.getFileName capacity a → f.setFileName m s a = m a

/-- The name that would be stored is stored by chance: the characters at `s` are the bytes of the
pointer, and then what the name area holds already. An area of fewer than eight bytes is followed by
the rest of the pointer. -/
structure NameAgrees (f : FileInfoShort) (m : ByteMemory) (capacity : Nat) (s : UInt64)
    (len : UInt32) : Prop where
  pointer : ∀ k, k < len.toNat → k < 8 → m (s + UInt64.ofNat k) = byteAt s.toNat k
  rest : ∀ k, k < len.toNat → 8 ≤ k →
    m (s + UInt64.ofNat k) = m (f.getFileName + UInt64.ofNat k)
  behind : ∀ k, k < 8 → capacity ≤ k → m (f.getFileName + UInt64.ofNat k) = byteAt s.toNat k

/-! ### The numeric fields -/

/-- The attributes are read back, if the entry has them. -/
theorem getFileAttributes_setFileAttributes (h : f.HasAttributes) (v : UInt32) :
    f.getFileAttributes (f.setFileAttributes m v) = v := by
  have hfield : f.fileAttributesRva ≠ noField := h
  unfold getFileAttributes setFileAttributes
  rw [if_pos hfield, if_pos hfield, ulongAt_setUlongAt]

/-- Without the field, the setter does nothing. -/
theorem setFileAttributes_frame {a : UInt64}
    (ha : ¬ (f.HasAttributes ∧ InRange (f.fileInfoAddr + f.fileAttributesRva) 4 a))
    (v : UInt32) : f.setFileAttributes m v a = m a := by
  unfold setFileAttributes
  by_cases h : f.fileAttributesRva ≠ noField
  · rw [if_pos h]
    exact setUlongAt_of_not_inRange (fun hr => ha ⟨h, hr⟩) v
  · rw [if_neg h]

/-! ### The name -/

/-- The first eight bytes of the name area are those of the pointer. -/
theorem setFileName_pointer {k : Nat} (hk : k < 8) :
    f.setFileName m s (f.getFileName + UInt64.ofNat k) = byteAt s.toNat k :=
  ByteMemory.write_add hk (by omega)

/-- The others are not changed. -/
theorem setFileName_rest {k : Nat} (hk : 8 ≤ k) (hlt : k < 2 ^ 64) :
    f.setFileName m s (f.getFileName + UInt64.ofNat k) = m (f.getFileName + UInt64.ofNat k) :=
  ByteMemory.write_of_not_inRange (not_inRange_add hlt hk)

/-- The length of the name has its own field. -/
theorem Layout.setFileNameLength_name (h : f.Layout capacity) {k : Nat} (hk : k < capacity) :
    f.setFileNameLength m len (f.getFileName + UInt64.ofNat k) =
      m (f.getFileName + UInt64.ofNat k) :=
  setUlongAt_of_not_inRange (fun hr => h.length_name _ hr (inRange_add hk)) len

/-- The byte at `k`, after both setters. -/
theorem Layout.name_iff (h : f.Layout capacity) {k : Nat} (hk : k < len.toNat)
    (hlen : len.toNat ≤ capacity) :
    f.setFileName (f.setFileNameLength m len) s (f.getFileName + UInt64.ofNat k) =
        m (s + UInt64.ofNat k) ↔
      (k < 8 → m (s + UInt64.ofNat k) = byteAt s.toNat k) ∧
      (8 ≤ k → m (s + UInt64.ofNat k) = m (f.getFileName + UInt64.ofNat k)) := by
  have hlt : k < 2 ^ 64 := by
    have hmax := len.toNat_lt
    omega
  -- The pointer takes the first eight bytes. Behind it the name area is as it was.
  rcases Nat.lt_or_ge k 8 with hk8 | hk8
  · rw [setFileName_pointer hk8]
    constructor
    · intro heq
      exact ⟨fun _ => heq.symm, fun hge => absurd hge (Nat.not_le_of_lt hk8)⟩
    · exact fun hboth => (hboth.1 hk8).symm
  · rw [setFileName_rest hk8 hlt, h.setFileNameLength_name (Nat.lt_of_lt_of_le hk hlen)]
    constructor
    · intro heq
      exact ⟨fun hlt8 => absurd hk8 (Nat.not_le_of_lt hlt8), fun _ => heq.symm⟩
    · exact fun hboth => (hboth.2 hk8).symm

/-- The bytes behind a name area that is shorter than a pointer. -/
theorem setFileName_frame_iff :
    (∀ a, ¬ InRange f.getFileName capacity a → f.setFileName m s a = m a) ↔
      ∀ k, k < 8 → capacity ≤ k → m (f.getFileName + UInt64.ofNat k) = byteAt s.toNat k := by
  constructor
  · intro hframe k hk hge
    have hkeep := hframe _ (not_inRange_add (p := f.getFileName) (by omega) hge)
    rw [setFileName_pointer hk] at hkeep
    exact hkeep.symm
  · intro hbehind a ha
    by_cases hr : InRange f.getFileName 8 a
    · -- The address is behind the area, but the pointer reaches it.
      have hbyte := hbehind _ hr (Nat.le_of_not_lt ha)
      have hstored := setFileName_pointer (f := f) (m := m) (s := s) hr
      rw [add_distance] at hbyte hstored
      rw [hstored, hbyte]
    · exact ByteMemory.write_of_not_inRange hr

/-- The setters keep their promise if and only if the name is stored by chance. -/
theorem fieldLaws_iff (m : ByteMemory) (s : UInt64) (h : f.Layout capacity)
    (hlen : len.toNat ≤ capacity) :
    f.FieldLaws m capacity s len ↔ f.NameAgrees m capacity s len := by
  constructor
  · intro hlaws
    have hname := fun k hk => (h.name_iff hk hlen).mp (hlaws.fileName k hk)
    exact ⟨fun k hk => (hname k hk).1, fun k hk => (hname k hk).2,
      setFileName_frame_iff.mp hlaws.fileName_frame⟩
  · intro hname
    exact
      { nextEntryOffset := ulongAt_setUlongAt m _
        fileNameLength := ulongAt_setUlongAt m _
        fileAttributes := getFileAttributes_setFileAttributes
        fileName := fun k hk => (h.name_iff hk hlen).mpr ⟨hname.pointer k hk, hname.rest k hk⟩
        nextEntryOffset_frame := fun v a ha => setUlongAt_of_not_inRange ha v
        fileNameLength_frame := fun v a ha => setUlongAt_of_not_inRange ha v
        fileAttributes_frame := fun v a ha => setFileAttributes_frame ha v
        fileName_frame := setFileName_frame_iff.mpr hname.behind }

/-- An entry with attributes, and a name area of 16 bytes. -/
def directoryEntry : FileInfoShort := constructWithAttributes 4096 0 64 60 56

/-- No two fields of the entry overlap. -/
theorem layout_directoryEntry : directoryEntry.Layout 16 where
  offset_length := apart_of_offsets (by decide) (by decide)
  offset_name := apart_of_offsets (by decide) (by decide)
  length_name := apart_of_offsets (by decide) (by decide)
  attributes_offset _ := (apart_of_offsets (by decide) (by decide)).symm
  attributes_length _ := apart_of_offsets (by decide) (by decide)
  attributes_name _ := apart_of_offsets (by decide) (by decide)

/-- The character U+5000 at the address 20480, which is 0x5000, and zeros elsewhere. -/
def ownAddress : ByteMemory := fun a => if a = 20481 then 80 else 0

/-- The two bytes of the name are those of its address. -/
theorem nameAgrees_ownAddress : directoryEntry.NameAgrees ownAddress 16 20480 2 where
  pointer k hk _ := by
    obtain rfl | rfl : k = 0 ∨ k = 1 := by
      have hlt : k < 2 := hk
      omega
    · rfl
    · rfl
  rest k hk hge := absurd (Nat.lt_of_lt_of_le hk (by decide)) (Nat.not_lt_of_le hge)
  behind k hk hge := absurd (Nat.lt_of_lt_of_le hk (by decide)) (Nat.not_lt_of_le hge)

/-- The first two bytes of the pointer are the name, which is a single character. -/
theorem fieldLaws_ownAddress : directoryEntry.FieldLaws ownAddress 16 20480 2 :=
  (fieldLaws_iff ownAddress 20480 layout_directoryEntry (by decide)).mpr nameAgrees_ownAddress

/-- The characters `ab` at the address 20480, and zeros elsewhere. -/
def twoCharacters : ByteMemory := fun a => if a = 20480 then 97 else if a = 20482 then 98 else 0

/-- The first character is not stored. -/
theorem not_fieldLaws_directoryEntry :
    directoryEntry.Layout 16 ∧ ¬ directoryEntry.FieldLaws twoCharacters 16 20480 4 := by
  refine ⟨layout_directoryEntry, fun hlaws => ?_⟩
  have hfirst : (0 : UInt8) = 97 := hlaws.fileName 0 (by decide)
  cases hfirst

end FileInfoShort

end KernelEventsTrace.Driver.Template
