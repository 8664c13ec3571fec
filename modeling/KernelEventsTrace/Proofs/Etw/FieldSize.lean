import Mathlib.Data.List.Basic
import KernelEventsTrace.EtwService.WmiEventClass

/-!
# `KernelEventsTrace.Proofs.Etw.FieldSize`: what the size of a property is computed from

`GetEventPropertyValue` takes the size of most properties from their description. Only a string
and a SID are measured in the payload. `layout` says which of the three it is, and `FieldAt` what
the payload must hold for the size to be found. `getEventPropertyValue_eq_ok_iff` connects both to
the code: the call returns a size exactly if `FieldAt` holds of it, and faults if there is none.
-/

set_option autoImplicit false

namespace KernelEventsTrace.EtwService

/-! ### Reads of the payload -/

/-- The `n` bytes at `pos` lie in the payload. -/
def Event.Inside (event : Event) (pos : Int) (n : Nat) : Prop :=
  n = 0 ∨ (0 ≤ pos ∧ pos + n ≤ event.getMofLength)

/-- The `n` bytes at `pos`. -/
def Event.bytesAt (event : Event) (pos : Int) (n : Nat) : List UInt8 :=
  (event.mofData.drop pos.toNat).take n

/-- Bytes can be copied if they lie in the payload. -/
theorem copyMemory_eq_ok_iff {event : Event} {pos : Int} {n : Nat} {bytes : List UInt8} :
    event.copyMemory pos n = .ok bytes ↔ event.Inside pos n ∧ bytes = event.bytesAt pos n := by
  simp only [Event.copyMemory, Event.Inside, Event.bytesAt]
  by_cases hn : n = 0
  · simp [hn, eq_comm]
  · by_cases hin : 0 ≤ pos ∧ pos + n ≤ event.getMofLength
    · simp [hn, hin, eq_comm]
    · simp [hn, hin]

/-- A string of `n` characters and its terminator start the list. -/
def StringAt {α : Type} [Zero α] (l : List α) (n : Nat) : Prop :=
  ∃ chars rest, l = chars ++ 0 :: rest ∧ 0 ∉ chars ∧ chars.length = n

/-- The length of a text is where its zero is. -/
theorem scanLength_append {α : Type} [DecidableEq α] [Zero α] {chars : List α} (rest : List α)
    (h : 0 ∉ chars) : scanLength (chars ++ 0 :: rest) = .ok chars.length := by
  induction chars with
  | nil => simp [scanLength]
  | cons c chars ih =>
    have hc : c ≠ 0 := fun hc => h (by simp [hc])
    have htail : (0 : α) ∉ chars := fun hmem => h (List.mem_cons_of_mem _ hmem)
    simp [scanLength, hc, ih htail]

/-- The scan has found a zero, and none before. -/
theorem stringAt_of_scanLength {α : Type} [DecidableEq α] [Zero α] {l : List α} :
    ∀ {n : Nat}, scanLength l = .ok n → StringAt l n := by
  induction l with
  | nil =>
    intro n h
    cases h
  | cons c cs ih =>
    intro n h
    by_cases hc : c = 0
    · have hn : 0 = n := by simpa [scanLength, hc] using h
      exact ⟨[], cs, by simp [hc], by simp, hn⟩
    · -- The scan goes on behind `c`.
      simp only [scanLength, if_neg hc] at h
      cases hscan : scanLength cs with
      | error fault => simp [hscan] at h
      | ok m =>
        have hn : m + 1 = n := by simpa [hscan] using h
        rcases ih hscan with ⟨chars, rest, hcs, hzero, hlen⟩
        refine ⟨c :: chars, rest, by rw [hcs]; rfl, ?_, by simp [hlen, hn]⟩
        simpa [Ne.symm hc] using hzero

/-- The scan ends at the first zero. -/
theorem scanLength_eq_ok_iff {α : Type} [DecidableEq α] [Zero α] {l : List α} {n : Nat} :
    scanLength l = .ok n ↔ StringAt l n := by
  constructor
  · exact stringAt_of_scanLength
  · intro h
    rcases h with ⟨chars, rest, rfl, hzero, rfl⟩
    exact scanLength_append rest hzero

/-! ### Layouts -/

/-- What the size of a property is computed from. -/
inductive Layout where
  /-- The description gives the size. -/
  | fixed (size : Int)
  /-- A string that a zero ends, measured `n` times. -/
  | string (isWideString : Bool) (n : Nat)
  /-- `n` SIDs. -/
  | sid (n : Nat)
  deriving Repr, DecidableEq

/-- The size of a property of type `CIM_OBJECT` that is no SID. -/
def objectSize (host : WmiHost) (pointerSize : UInt16) (extension : WString) (n : Nat) : Int :=
  if WString.icmpEq (wide "SizeT") extension then int32 (pointerSize.toNat * n)
  else if WString.icmpEq (wide "Port") extension then elementsSize 2 n
  else if WString.icmpEq (wide "IPAddr") extension ∨ WString.icmpEq (wide "IPAddrV4") extension then
    elementsSize 4 n
  else if WString.icmpEq (wide "IPAddrV6") extension then
    if host.ipv6Missing then 0 else elementsSize 16 n
  else if WString.icmpEq (wide "Guid") extension then elementsSize 16 n
  else elementsSize 0 n

/-- The layout by data type, for `n` elements. -/
def typeLayout (host : WmiHost) (pointerSize : UInt16) (p : Property) (n : Nat) : Layout :=
  match p.dataType.cimType with
  | .sint8 | .uint8 => .fixed (if p.qualifiers.extension.isSome then 16 else int32 n)
  | .sint16 | .uint16 | .char16 => .fixed (int32 (2 * n))
  | .sint32 | .uint32 | .boolean => .fixed (int32 (4 * n))
  | .sint64 | .uint64 => .fixed (int32 (8 * n))
  | .string => if isNullTerminated p.qualifiers then .string p.qualifiers.format n else .fixed 0
  | .object =>
    match p.qualifiers.extension with
    | none => .fixed 0
    | some extension =>
      if WString.icmpEq (wide "Sid") extension then .sid n
      else .fixed (objectSize host pointerSize extension n)
  | .real32 | .real64 | .datetime | .reference => .fixed 0

/-- The layout of a property. -/
def layout (host : WmiHost) (pointerSize : UInt16) (p : Property) : Layout :=
  if p.qualifiers.pointer ∨ p.qualifiers.pointerType then .fixed pointerSize.toNat
  else match arraySize p with
    | some n => typeLayout host pointerSize p n
    | none => .fixed 0

/-! ### Fields in a payload -/

/-- A complete string is at `offset`, and `size` is its size with the terminator. The length is
taken modulo `2 ^ 16`. -/
def StringSizeAt (event : Event) (isWideString : Bool) (offset size : Int) : Prop :=
  ∃ n, (if isWideString then StringAt (wchars (event.bytesFrom offset)) n
      else StringAt (event.bytesFrom offset) n) ∧
    size = (if isWideString then 2 else 1) * ((n % 2 ^ 16 : Nat) + 1)

/-- What is read of a SID property lies in the payload, and `size` is its size: the first `ULONG`
and, if it is not zero, the copy behind the header. -/
def SidAt (pointerSize : UInt16) (event : Event) (offset pos : Int) (buffer : SidBuffer)
    (size : Nat) (buffer' : SidBuffer) : Prop :=
  event.Inside pos 4 ∧
    if littleEndian (event.bytesAt pos 4) = 0 then size = 4 ∧ buffer' = buffer
    else
      let header := bytesToSid pointerSize
      let n := copyLength event offset header
      event.Inside (pos + header) n ∧ buffer' = buffer.write (event.bytesAt (pos + header) n) ∧
        size = header + seLengthSid buffer'

/-- SID properties one after the other, the first one at `pos`, make `dataSize` grow to `size`. -/
def SidsAt (pointerSize : UInt16) (event : Event) (offset : Int) :
    Nat → Int → Int → SidBuffer → Int → Prop
  | 0, dataSize, _, _, size => size = dataSize
  | n + 1, dataSize, pos, buffer, size =>
    ∃ element buffer', SidAt pointerSize event offset pos buffer element buffer' ∧
      SidsAt pointerSize event offset n (int32 (dataSize + element)) (pos + element) buffer' size

/-- The payload holds at `offset` what the size of the layout is read from, and the size is
`size`. -/
def FieldAt (pointerSize : UInt16) (event : Event) (buffer : SidBuffer) (offset : Int) :
    Layout → Int → Prop
  | .fixed fixedSize, size => size = fixedSize
  | .string _ 0, size => size = -1
  | .string isWideString (_ + 1), size => StringSizeAt event isWideString offset size
  | .sid n, size => SidsAt pointerSize event offset n 0 offset buffer size

/-! ### The code finds the size of a field -/

/-- A string is as long as its text, or its count says. -/
theorem stringSize_eq_ok_iff {event : Event} {isWideString : Bool} {offset size : Int} :
    stringSize isWideString event offset = .ok size ↔
      StringSizeAt event isWideString offset size := by
  simp only [stringSize, StringSizeAt, wcslen, strlen, ← scanLength_eq_ok_iff]
  cases isWideString with
  | false =>
    simp only [Bool.false_eq_true, if_false]
    cases scanLength (event.bytesFrom offset) <;> simp [eq_comm]
  | true =>
    simp only [if_true]
    cases scanLength (wchars (event.bytesFrom offset)) <;> simp [eq_comm]

/-- The iterations after the first one measure the same string again. -/
theorem stringLoop_of_ok {event : Event} {isWideString : Bool} {offset size : Int}
    (h : stringSize isWideString event offset = .ok size) (n : Nat) :
    stringLoop isWideString event offset n size = .ok size := by
  induction n with
  | zero => rfl
  | succ n ih => simp only [stringLoop, h, ih]

/-- The loop over an array of strings measures the first one again and again. -/
theorem stringLoop_succ (isWideString : Bool) (event : Event) (offset : Int) (n : Nat)
    (dataSize : Int) :
    stringLoop isWideString event offset (n + 1) dataSize =
      stringSize isWideString event offset := by
  cases h : stringSize isWideString event offset with
  | error fault => simp only [stringLoop, h]
  | ok size =>
    simp only [stringLoop, h]
    exact stringLoop_of_ok h n

/-- One SID of an array. -/
theorem sidElement_eq_ok_iff {pointerSize : UInt16} {event : Event} {offset pos : Int}
    {buffer buffer' : SidBuffer} {size : Nat} :
    sidElement pointerSize event offset pos buffer = .ok (size, buffer') ↔
      SidAt pointerSize event offset pos buffer size buffer' := by
  simp only [sidElement, SidAt]
  cases htemp : event.copyMemory pos 4 with
  | error fault =>
    have hin : ¬ event.Inside pos 4 := by
      intro hin
      rw [copyMemory_eq_ok_iff.mpr ⟨hin, rfl⟩] at htemp
      cases htemp
    simp [hin]
  | ok temp =>
    rcases copyMemory_eq_ok_iff.mp htemp with ⟨hin, rfl⟩
    by_cases hzero : littleEndian (event.bytesAt pos 4) = 0
    · simp [hin, hzero, eq_comm]
    · simp only [hin, hzero, Nat.pos_of_ne_zero hzero, if_true, if_false, true_and]
      -- The header is there. What is left is the copy behind it.
      cases hcopy : event.copyMemory (pos + bytesToSid pointerSize)
        (copyLength event offset (bytesToSid pointerSize)) with
      | error fault =>
        have hin' : ¬ event.Inside (pos + bytesToSid pointerSize)
            (copyLength event offset (bytesToSid pointerSize)) := by
          intro hin'
          rw [copyMemory_eq_ok_iff.mpr ⟨hin', rfl⟩] at hcopy
          cases hcopy
        simp [hin']
      | ok bytes =>
        rcases copyMemory_eq_ok_iff.mp hcopy with ⟨hin', rfl⟩
        simp only [hin', true_and, Except.ok.injEq, Prod.mk.injEq]
        constructor
        · intro h
          exact ⟨h.2.symm, by rw [← h.2, ← h.1]⟩
        · intro h
          exact ⟨by rw [h.2, h.1], h.1.symm⟩

/-- The SIDs of an array, one after the other. -/
theorem sidLoop_eq_ok_iff {pointerSize : UInt16} {event : Event} {offset size : Int} {n : Nat} :
    ∀ {dataSize pos : Int} {buffer : SidBuffer},
      sidLoop pointerSize event offset n dataSize pos buffer = .ok size ↔
        SidsAt pointerSize event offset n dataSize pos buffer size := by
  induction n with
  | zero =>
    intro dataSize pos buffer
    simp [sidLoop, SidsAt, eq_comm]
  | succ n ih =>
    intro dataSize pos buffer
    simp only [sidLoop, SidsAt, ← sidElement_eq_ok_iff]
    cases sidElement pointerSize event offset pos buffer with
    | error fault => simp
    | ok element =>
      rcases element with ⟨elementSize, buffer'⟩
      simp [ih]

/-- `_wcsicmp` does not tell apart strings that it finds equal. -/
theorem icmpEq_congr {a b : WString} (h : WString.icmpEq a b = true) (c : WString) :
    WString.icmpEq c b = WString.icmpEq c a := by
  have hmap : a.map WString.lowerUnit = b.map WString.lowerUnit := by
    simpa [WString.icmpEq] using h
  rw [WString.icmpEq, WString.icmpEq, hmap]

/-- A name that `_wcsicmp` tells apart from `Sid` is not the `Extension` of a SID. -/
theorem icmpEq_of_sid {extension : WString} (h : WString.icmpEq (wide "Sid") extension = true)
    (name : WString) (hname : WString.icmpEq name (wide "Sid") = false) :
    WString.icmpEq name extension = false := by
  rw [icmpEq_congr h, hname]

/-- The size of an object with the extension `Sid`. -/
theorem objectValue_of_sid {host : WmiHost} {pointerSize : UInt16} {extension : WString}
    (h : WString.icmpEq (wide "Sid") extension = true) (event : Event) (buffer : SidBuffer)
    (offset : Int) (n : Nat) :
    objectValue host pointerSize extension event buffer offset n =
      sidLoop pointerSize event offset n 0 offset buffer := by
  -- `Sid` is compared last.
  simp only [objectValue, icmpEq_of_sid h (wide "SizeT") (by decide),
    icmpEq_of_sid h (wide "Port") (by decide), icmpEq_of_sid h (wide "IPAddr") (by decide),
    icmpEq_of_sid h (wide "IPAddrV4") (by decide), icmpEq_of_sid h (wide "IPAddrV6") (by decide),
    icmpEq_of_sid h (wide "Guid") (by decide), Bool.false_eq_true, or_self, if_false, if_pos h]

/-- The size of an object with another extension. -/
theorem objectValue_of_not_sid {host : WmiHost} {pointerSize : UInt16} {extension : WString}
    (h : WString.icmpEq (wide "Sid") extension = false) (event : Event) (buffer : SidBuffer)
    (offset : Int) (n : Nat) :
    objectValue host pointerSize extension event buffer offset n =
      .ok (objectSize host pointerSize extension n) := by
  simp only [objectValue, objectSize, h, Bool.false_eq_true, if_false]
  split_ifs <;> rfl

/-- A size from the description does not depend on the payload. -/
theorem fixed_eq_ok_iff {pointerSize : UInt16} {event : Event} {buffer : SidBuffer}
    {offset fixedSize size : Int} :
    (.ok fixedSize : Except Fault Int) = .ok size ↔
      FieldAt pointerSize event buffer offset (.fixed fixedSize) size := by
  simp only [FieldAt, Except.ok.injEq]
  exact eq_comm

/-- The size of a value by its type. -/
theorem typeValue_eq_ok_iff {host : WmiHost} {pointerSize : UInt16} {p : Property} {event : Event}
    {buffer : SidBuffer} {offset size : Int} {n : Nat} :
    typeValue host pointerSize p event buffer offset n = .ok size ↔
      FieldAt pointerSize event buffer offset (typeLayout host pointerSize p n) size := by
  unfold typeValue typeLayout
  cases p.dataType.cimType with
  | string =>
    simp only [stringValue]
    by_cases hterm : isNullTerminated p.qualifiers = true
    · simp only [if_pos hterm]
      cases n with
      | zero => simp [stringLoop, FieldAt, eq_comm]
      | succ n =>
        rw [stringLoop_succ, stringSize_eq_ok_iff]
        rfl
    · simp only [if_neg hterm]
      exact fixed_eq_ok_iff
  | object =>
    cases p.qualifiers.extension with
    | none => exact fixed_eq_ok_iff
    | some extension =>
      by_cases hsid : WString.icmpEq (wide "Sid") extension = true
      · simp only [if_pos hsid]
        rw [objectValue_of_sid hsid, sidLoop_eq_ok_iff]
        rfl
      · simp only [if_neg hsid]
        rw [objectValue_of_not_sid (by simpa using hsid)]
        exact fixed_eq_ok_iff
  | sint8 | uint8 =>
    split_ifs <;> exact fixed_eq_ok_iff
  | _ => exact fixed_eq_ok_iff

/-- `GetEventPropertyValue` returns a size exactly if the payload holds what it is read from. -/
theorem getEventPropertyValue_eq_ok_iff {host : WmiHost} {pointerSize : UInt16} {p : Property}
    {event : Event} {buffer : SidBuffer} {offset size : Int} :
    getEventPropertyValue host pointerSize p event buffer offset = .ok size ↔
      FieldAt pointerSize event buffer offset (layout host pointerSize p) size := by
  unfold getEventPropertyValue layout
  by_cases hpointer : p.qualifiers.pointer = true ∨ p.qualifiers.pointerType = true
  · simp only [if_pos hpointer]
    exact fixed_eq_ok_iff
  · simp only [if_neg hpointer]
    cases arraySize p with
    | none => exact fixed_eq_ok_iff
    | some n => exact typeValue_eq_ok_iff

end KernelEventsTrace.EtwService
