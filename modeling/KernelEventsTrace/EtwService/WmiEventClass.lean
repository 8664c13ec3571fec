import Mathlib.Data.UInt
import KernelEventsTrace.EtwService.WString

/-!
# `KernelEventsTrace.EtwService.WmiEventClass`: where a property lies in an event's payload

`WmiEventClass` of `etw/wmieventclass.cpp` with the two accessors of `etw/event.cpp` that it
calls. The payload of an event has no names in it. WMI describes the event class, and
`GetPropertyInfo` walks the properties in the order of their `WmiDataId` qualifiers, adding up
sizes, to find the offset and the size of a named one.

A read outside the payload, a read of `malloc`ed memory that was never written, and a write
outside the property table end in a `Fault`. An `int` is an `Int` that `int32` wraps. A COM call
that fails leaves its out parameters as they were.
-/

set_option autoImplicit false

namespace KernelEventsTrace.EtwService

/-- Undefined behaviour of the C++ code. -/
inductive Fault where
  /-- A read outside the payload. -/
  | outsidePayload
  /-- A read of allocated memory that was not written. -/
  | unwritten
  /-- A write outside the allocated table. -/
  | outsideTable
  deriving Repr, DecidableEq

/-- The value as a 32-bit `int`. -/
def int32 (n : Int) : Int := n.bmod (2 ^ 32)

/-! ### Payloads -/

/-- An event by its payload. `EVENT_TRACE_HEADER` has a 16-bit `Size` for the whole event. The
bound here is only what an `int` offset needs. -/
structure Event where
  /-- The bytes at `MofData`. -/
  mofData : List UInt8
  size_lt : mofData.length < 2 ^ 31

namespace Event

/-- `GetMofLength`. -/
def getMofLength (event : Event) : Nat := event.mofData.length

/-- `CopyMemory` of `n` bytes from position `pos` of the payload. -/
def copyMemory (event : Event) (pos : Int) (n : Nat) : Except Fault (List UInt8) :=
  if n = 0 then .ok []
  else if 0 ≤ pos ∧ pos + n ≤ event.getMofLength then
    .ok ((event.mofData.drop pos.toNat).take n)
  else .error .outsidePayload

/-- The bytes from position `pos` to the end of the payload. -/
def bytesFrom (event : Event) (pos : Int) : List UInt8 :=
  if 0 ≤ pos then event.mofData.drop pos.toNat else []

end Event

/-- The value of little-endian bytes. -/
def littleEndian : List UInt8 → Nat
  | [] => 0
  | b :: bs => b.toNat + 256 * littleEndian bs

/-- The wide characters in the bytes. A single last byte is no character. -/
def wchars : List UInt8 → WString
  | lo :: hi :: bs => UInt16.ofNat (lo.toNat + 256 * hi.toNat) :: wchars bs
  | _ => []

/-- The length of a string of characters that a zero ends. The scan faults if no zero comes
before the payload ends. -/
def scanLength {α : Type} [DecidableEq α] [Zero α] : List α → Except Fault Nat
  | [] => .error .outsidePayload
  | c :: cs =>
    if c = 0 then .ok 0
    else match scanLength cs with
      | .ok n => .ok (n + 1)
      | .error fault => .error fault

/-- `strlen` at position `pos` of the payload. -/
def strlen (event : Event) (pos : Int) : Except Fault Nat :=
  scanLength (event.bytesFrom pos)

/-- `wcslen` at position `pos` of the payload. -/
def wcslen (event : Event) (pos : Int) : Except Fault Nat :=
  scanLength (wchars (event.bytesFrom pos))

/-! ### Class descriptions -/

/-- `CIMTYPE_ENUMERATION` without `CIM_FLAG_ARRAY`. -/
inductive CimType where
  | sint8 | uint8 | sint16 | uint16 | sint32 | uint32 | sint64 | uint64
  | real32 | real64 | boolean | string | datetime | reference | char16 | object
  deriving Repr, DecidableEq

/-- The `data_type` of a property. -/
structure DataType where
  cimType : CimType
  /-- `CIM_FLAG_ARRAY`. -/
  isArray : Bool
  deriving Repr, DecidableEq

/-- The qualifiers of a property that are read. -/
structure Qualifiers where
  wmiDataId : Option Int
  description : Option WString
  pointer : Bool
  pointerType : Bool
  max : Option Int
  format : Bool
  stringTermination : Option WString
  extension : Option WString
  deriving Repr, DecidableEq

/-- A property of a WMI class. -/
structure Property where
  name : WString
  dataType : DataType
  qualifiers : Qualifiers
  deriving Repr, DecidableEq

/-- A COM call or an allocation of `GetPropertyList`, by the index of the property. -/
inductive WmiCall where
  | getNames
  | mallocProperties
  | mallocIndex
  | safeArrayGetElement (i : Nat)
  | getPropertyQualifierSet (i : Nat)
  | getWmiDataId (i : Nat)
  | getDataType (i : Nat)
  deriving Repr, DecidableEq

/-! ### `GetPropertyList` -/

/-- `PropertyList`, an element of the property table. A field is `none` until it is written. -/
structure PropertyList where
  name : Option WString
  dataType : Option DataType
  qualifiers : Option Qualifiers
  deriving Repr, DecidableEq

/-- What `GetPropertyList` allocates. -/
structure PropertyTable where
  /-- `*p_p_properties`. -/
  properties : List PropertyList
  /-- `*p_p_property_index`: the element for each `WmiDataId`. -/
  index : List (Option Nat)
  deriving Repr, DecidableEq

namespace PropertyTable

/-- The table as `malloc` leaves it. -/
def malloc (count : Nat) : PropertyTable :=
  ⟨List.replicate count ⟨none, none, none⟩, List.replicate count none⟩

/-- Writes to an element of the property list. -/
def modify (t : PropertyTable) (i : Nat) (f : PropertyList → PropertyList) : PropertyTable :=
  { t with properties := t.properties.modify i f }

/-- The property that an index cell leads to. -/
def entry (t : PropertyTable) (cell : Option Nat) : Except Fault Property :=
  match cell.bind (t.properties[·]?) with
  | some ⟨some name, some dataType, some qualifiers⟩ => .ok ⟨name, dataType, qualifiers⟩
  | _ => .error .unwritten

end PropertyTable

/-- `FreePropertyList`, which releases the name and the qualifiers of every element. -/
def freePropertyList (t : PropertyTable) : Except Fault Unit :=
  if t.properties.all fun p => p.name.isSome && p.qualifiers.isSome then .ok ()
  else .error .unwritten

/-- A name or a qualifier set, by the element of the property list that holds it. -/
inductive Resource where
  | name (i : Nat)
  | qualifiers (i : Nat)
  deriving Repr, DecidableEq

/-- The loop of `FreePropertyList` from the element `i` on, by what it releases. -/
def freeElements : Nat → List PropertyList → Except Fault (List Resource)
  | _, [] => .ok []
  | i, p :: ps =>
    match p.name, p.qualifiers with
    | some _, some _ =>
      match freeElements (i + 1) ps with
      | .ok released => .ok (.name i :: .qualifiers i :: released)
      | .error fault => .error fault
    | _, _ => .error .unwritten

/-- The data type of the property `i`, after its index cell. -/
def writeDataType (fails : WmiCall → Bool) (i : Nat) (p : Property) (t : PropertyTable) :
    PropertyTable × Bool :=
  if fails (.getDataType i) then (t, false)
  else (t.modify i fun e => { e with dataType := some p.dataType }, true)

/-- The index cell of the property `i`. A property without `WmiDataId` is ignored. -/
def writeIndex (fails : WmiCall → Bool) (i : Nat) (p : Property) (t : PropertyTable) :
    Except Fault (PropertyTable × Bool) :=
  if fails (.getWmiDataId i) then .ok (t, false)
  else match p.qualifiers.wmiDataId with
    | none => .ok (t, true)
    | some id =>
      let j := id - 1
      if 0 ≤ j ∧ j < t.index.length then
        .ok (writeDataType fails i p { t with index := t.index.set j.toNat (some i) })
      else .error .outsideTable

/-- One iteration of the loop of `GetPropertyList`. The flag is whether all calls succeed. -/
def writeProperty (fails : WmiCall → Bool) (i : Nat) (p : Property) (t : PropertyTable) :
    Except Fault (PropertyTable × Bool) :=
  if fails (.safeArrayGetElement i) then .ok (t, false)
  else
    let t := t.modify i fun e => { e with name := some p.name }
    if fails (.getPropertyQualifierSet i) then .ok (t, false)
    else writeIndex fails i p (t.modify i fun e => { e with qualifiers := some p.qualifiers })

/-- The loop of `GetPropertyList` from the property `i` on. -/
def writeProperties (fails : WmiCall → Bool) :
    Nat → List Property → PropertyTable → Except Fault (PropertyTable × Bool)
  | _, [], t => .ok (t, true)
  | i, p :: ps, t =>
    match writeProperty fails i p t with
    | .ok (t, true) => writeProperties fails (i + 1) ps t
    | .ok (t, false) => .ok (t, false)
    | .error fault => .error fault

/-- The cleanup after a failed call: the table is released, and `FALSE` returned. -/
def cleanup (t : PropertyTable) : Except Fault (Option PropertyTable) :=
  match freePropertyList t with
  | .ok () => .ok none
  | .error fault => .error fault

/-- `GetPropertyList`, or `none` for `FALSE`. -/
def getPropertyList (fails : WmiCall → Bool) (pClass : List Property) :
    Except Fault (Option PropertyTable) :=
  let t := PropertyTable.malloc pClass.length
  if fails .getNames ∨ fails .mallocProperties then .ok none
  else if fails .mallocIndex then cleanup t
  else match writeProperties fails 0 pClass t with
    | .ok (t, true) => .ok (some t)
    | .ok (t, false) => cleanup t
    | .error fault => .error fault

/-- `GetPropertyName`. -/
def getPropertyName (p : Property) : WString := p.qualifiers.description.getD p.name

/-! ### `GetEventPropertyValue` -/

/-- The length of the buffer for a SID. -/
def SECURITY_MAX_SID_SIZE : Nat := 68

/-- The local `buffer` for a SID. -/
abbrev SidBuffer := Fin SECURITY_MAX_SID_SIZE → UInt8

/-- `CopyMemory` to the start of the buffer. -/
def SidBuffer.write (buffer : SidBuffer) (bytes : List UInt8) : SidBuffer :=
  fun i => (bytes[i.val]?).getD (buffer i)

/-- `SeLengthSid`. Byte 1 of a SID is its `SubAuthorityCount`. -/
def seLengthSid (sid : SidBuffer) : Nat := 8 + 4 * (sid ⟨1, by decide⟩).toNat

/-- What lies outside the repository. -/
structure WmiHost where
  /-- The COM calls and allocations that fail. -/
  fails : WmiCall → Bool
  /-- `ntdll` is loaded and has no `RtlIpv6AddressToStringW`. -/
  ipv6Missing : Bool
  /-- What the stack holds at `buffer` in the call for the `i`-th property. -/
  stack : Nat → SidBuffer

/-- The `array_size` of a property, or `none` for an array without `MAX`. -/
def arraySize (p : Property) : Option Nat :=
  if p.dataType.isArray then p.qualifiers.max.map fun n => (n % 2 ^ 32).toNat
  else some 1

/-- The size of a string at `offset`, with its terminator. The `USHORT` cast keeps 16 bits of the
length. -/
def stringSize (isWideString : Bool) (event : Event) (offset : Int) : Except Fault Int :=
  match if isWideString then wcslen event offset else strlen event offset with
  | .ok n => .ok ((if isWideString then 2 else 1) * ((n % 2 ^ 16 : Nat) + 1))
  | .error fault => .error fault

/-- The loop over the strings of an array. Every iteration measures the same string. -/
def stringLoop (isWideString : Bool) (event : Event) (offset : Int) :
    Nat → Int → Except Fault Int
  | 0, dataSize => .ok dataSize
  | n + 1, _ =>
    match stringSize isWideString event offset with
    | .ok dataSize => stringLoop isWideString event offset n dataSize
    | .error fault => .error fault

/-- The `StringTermination` qualifier is absent or says `NullTerminated`. -/
def isNullTerminated (q : Qualifiers) : Bool :=
  match q.stringTermination with
  | none => true
  | some termination => WString.icmpEq termination (wide "NullTerminated")

/-- The branch for `CIM_STRING`. -/
def stringValue (q : Qualifiers) (event : Event) (offset : Int) (n : Nat) : Except Fault Int :=
  if isNullTerminated q then stringLoop q.format event offset n (-1) else .ok 0

/-- The length that is copied to the SID buffer. The subtraction is one of `uint64_t`. -/
def copyLength (event : Event) (offset : Int) (bytesToSid : Nat) : Nat :=
  let rest : Int := ((event.getMofLength : Int) - offset - bytesToSid) % 2 ^ 64
  if rest > SECURITY_MAX_SID_SIZE then SECURITY_MAX_SID_SIZE else rest.toNat

/-- The size of the header before a SID, a `USHORT`. -/
def bytesToSid (pointerSize : UInt16) : Nat := pointerSize.toNat * 2 % 2 ^ 16

/-- The size of a SID property at `pos`, and the buffer after it. -/
def sidElement (pointerSize : UInt16) (event : Event) (offset pos : Int) (buffer : SidBuffer) :
    Except Fault (Nat × SidBuffer) :=
  match event.copyMemory pos 4 with
  | .error fault => .error fault
  | .ok temp =>
    if littleEndian temp > 0 then
      let header := bytesToSid pointerSize
      match event.copyMemory (pos + header) (copyLength event offset header) with
      | .error fault => .error fault
      | .ok bytes =>
        let sid := buffer.write bytes
        .ok (header + seLengthSid sid, sid)
    else .ok (4, buffer)

/-- The loop over the SIDs of an array. -/
def sidLoop (pointerSize : UInt16) (event : Event) (offset : Int) :
    Nat → Int → Int → SidBuffer → Except Fault Int
  | 0, dataSize, _, _ => .ok dataSize
  | n + 1, dataSize, pos, buffer =>
    match sidElement pointerSize event offset pos buffer with
    | .ok (size, buffer) =>
      sidLoop pointerSize event offset n (int32 (dataSize + size)) (pos + size) buffer
    | .error fault => .error fault

/-- `element_size * array_size`, where `element_size` has `array_size` in it already. -/
def elementsSize (size n : Nat) : Int := int32 (int32 (size * n) * n)

/-- The branch for `CIM_OBJECT` with the given `Extension`. -/
def objectValue (host : WmiHost) (pointerSize : UInt16) (extension : WString) (event : Event)
    (buffer : SidBuffer) (offset : Int) (n : Nat) : Except Fault Int :=
  if WString.icmpEq (wide "SizeT") extension then .ok (int32 (pointerSize.toNat * n))
  else if WString.icmpEq (wide "Port") extension then .ok (elementsSize 2 n)
  else if WString.icmpEq (wide "IPAddr") extension ∨ WString.icmpEq (wide "IPAddrV4") extension then
    .ok (elementsSize 4 n)
  else if WString.icmpEq (wide "IPAddrV6") extension then
    if host.ipv6Missing then .ok 0 else .ok (elementsSize 16 n)
  else if WString.icmpEq (wide "Guid") extension then .ok (elementsSize 16 n)
  else if WString.icmpEq (wide "Sid") extension then
    sidLoop pointerSize event offset n 0 offset buffer
  else .ok (elementsSize 0 n)

/-- The `switch` over the data type. -/
def typeValue (host : WmiHost) (pointerSize : UInt16) (p : Property) (event : Event)
    (buffer : SidBuffer) (offset : Int) (n : Nat) : Except Fault Int :=
  match p.dataType.cimType with
  | .sint32 | .uint32 => .ok (int32 (4 * n))
  | .uint64 | .sint64 => .ok (int32 (8 * n))
  | .string => stringValue p.qualifiers event offset n
  | .boolean => .ok (int32 (4 * n))
  | .sint8 | .uint8 =>
    if p.qualifiers.extension.isSome then .ok 16 else .ok (int32 n)
  | .char16 | .sint16 | .uint16 => .ok (int32 (2 * n))
  | .object =>
    match p.qualifiers.extension with
    | some extension => objectValue host pointerSize extension event buffer offset n
    | none => .ok 0
  | .real32 | .real64 | .datetime | .reference => .ok 0

/-- `GetEventPropertyValue`: the `data_size` of the property whose value is at `offset`. -/
def getEventPropertyValue (host : WmiHost) (pointerSize : UInt16) (p : Property) (event : Event)
    (buffer : SidBuffer) (offset : Int) : Except Fault Int :=
  if p.qualifiers.pointer ∨ p.qualifiers.pointerType then .ok pointerSize.toNat
  else match arraySize p with
    | some n => typeValue host pointerSize p event buffer offset n
    | none => .ok 0

/-! ### `GetPropertyInfo` -/

/-- The loop of `GetPropertyInfo` over the index cells from the `i`-th on. -/
def propertyLoop (host : WmiHost) (pointerSize : UInt16) (t : PropertyTable)
    (propertyName : WString) (event : Event) :
    Nat → List (Option Nat) → Int → Int → Except Fault (Int × Int)
  | _, [], _, dataSize => .ok (-1, dataSize)
  | i, cell :: cells, tempOffset, _ =>
    match t.entry cell with
    | .error fault => .error fault
    | .ok p =>
      match getEventPropertyValue host pointerSize p event (host.stack i) tempOffset with
      | .error fault => .error fault
      | .ok dataSize =>
        if dataSize = 0 then .ok (-1, dataSize)
        else if getPropertyName p = propertyName then .ok (tempOffset, dataSize)
        else
          propertyLoop host pointerSize t propertyName event (i + 1) cells
            (int32 (tempOffset + dataSize)) dataSize

/-- The walk over the property table, which is released at its end. -/
def walkTable (host : WmiHost) (pointerSize : UInt16) (t : PropertyTable)
    (propertyName : WString) (event : Event) : Except Fault (Int × Int) :=
  match propertyLoop host pointerSize t propertyName event 0 t.index 0 0 with
  | .error fault => .error fault
  | .ok info =>
    match freePropertyList t with
    | .ok () => .ok info
    | .error fault => .error fault

/-- `GetPropertyInfo`: the offset and the size of the named property. `eventClass` is what
`GetEventCategoryClass` and `GetEventClass` find, by its properties in WMI's order. -/
def getPropertyInfo (host : WmiHost) (pointerSize : UInt16) (eventClass : Option (List Property))
    (propertyName : WString) (event : Event) : Except Fault (Int × Int) :=
  match eventClass with
  | none => .ok (-1, 0)
  | some pClass =>
    match getPropertyList host.fails pClass with
    | .error fault => .error fault
    | .ok none => .ok (-1, 0)
    | .ok (some t) => walkTable host pointerSize t propertyName event

end KernelEventsTrace.EtwService
