import KernelEventsTrace.Proofs.Etw.FieldSize

/-!
# `KernelEventsTrace.Proofs.Etw.Encoding`: the size of an encoded value

The kinds of property that `GetEventPropertyValue` supports and how a value of each kind stands in
a payload. `fieldAt_of_encodes` says that the size read for a property is the length of its
encoding, wherever the encoding stands and whatever follows it.
-/

set_option autoImplicit false

namespace KernelEventsTrace.EtwService

/-! ### Kinds -/

/-- The kinds of a property. -/
inductive Kind where
  | pointer | int8 | int16 | int32 | int64 | boolean | char16
  /-- An 8-bit integer with an `Extension`: 16 bytes of a GUID. -/
  | uint8Guid
  | sizeT | port | ipAddr | ipAddrV6 | guid | sid
  /-- A string that a zero ends. -/
  | string (isWideString : Bool)
  deriving Repr, DecidableEq

/-- The kind of an object by its `Extension`. -/
def objectKind (extension : WString) : Option Kind :=
  if WString.icmpEq (wide "SizeT") extension then some .sizeT
  else if WString.icmpEq (wide "Port") extension then some .port
  else if WString.icmpEq (wide "IPAddr") extension ∨ WString.icmpEq (wide "IPAddrV4") extension then
    some .ipAddr
  else if WString.icmpEq (wide "IPAddrV6") extension then some .ipAddrV6
  else if WString.icmpEq (wide "Guid") extension then some .guid
  else if WString.icmpEq (wide "Sid") extension then some .sid
  else none

/-- The kind of a property that is no array. -/
def Property.kind (p : Property) : Option Kind :=
  if p.qualifiers.pointer ∨ p.qualifiers.pointerType then some .pointer
  else match p.dataType.cimType with
    | .sint8 | .uint8 => if p.qualifiers.extension.isSome then some .uint8Guid else some .int8
    | .sint16 | .uint16 => some .int16
    | .sint32 | .uint32 => some .int32
    | .sint64 | .uint64 => some .int64
    | .boolean => some .boolean
    | .char16 => some .char16
    | .string => if isNullTerminated p.qualifiers then some (.string p.qualifiers.format) else none
    | .object => p.qualifiers.extension.bind objectKind
    | .real32 | .real64 | .datetime | .reference => none

/-- The length of the values of a kind, if all have the same. -/
def Kind.length (pointerSize : UInt16) : Kind → Option Nat
  | .pointer | .sizeT => some pointerSize.toNat
  | .int8 => some 1
  | .int16 | .char16 | .port => some 2
  | .int32 | .boolean | .ipAddr => some 4
  | .int64 => some 8
  | .uint8Guid | .ipAddrV6 | .guid => some 16
  | .sid | .string _ => none

/-! ### Encodings -/

/-- The bytes of wide characters. -/
def encodeWide : WString → List UInt8
  | [] => []
  | c :: cs => UInt8.ofNat (c.toNat % 256) :: UInt8.ofNat (c.toNat / 256) :: encodeWide cs

/-- The bytes that encode a value of a kind. -/
inductive Encodes (pointerSize : UInt16) : Kind → List UInt8 → Prop where
  | fixed {kind : Kind} {bytes : List UInt8} (h : kind.length pointerSize = some bytes.length) :
      Encodes pointerSize kind bytes
  | narrow {chars : List UInt8} (hzero : 0 ∉ chars) (hlen : chars.length < 65535) :
      Encodes pointerSize (.string false) (chars ++ [0])
  | wide {chars : WString} (hzero : 0 ∉ chars) (hlen : chars.length < 65535) :
      Encodes pointerSize (.string true) (encodeWide chars ++ [0, 0])
  /-- No SID: a zero `ULONG`. -/
  | noSid : Encodes pointerSize .sid [0, 0, 0, 0]
  /-- A SID behind a header of two pointers. -/
  | sid {header body : List UInt8} {revision subAuthorityCount : UInt8}
      (hheader : header.length = 2 * pointerSize.toNat) (hulong : 4 ≤ header.length)
      (hnonzero : littleEndian (header.take 4) ≠ 0) (hcount : subAuthorityCount ≤ 15)
      (hbody : body.length = 6 + 4 * subAuthorityCount.toNat) :
      Encodes pointerSize .sid (header ++ revision :: subAuthorityCount :: body)

/-! ### The layout of a kind -/

/-- The layout of a property of the kind. -/
def Kind.layout (pointerSize : UInt16) : Kind → Layout
  | .sid => .sid 1
  | .string isWideString => .string isWideString 1
  | kind => .fixed ((kind.length pointerSize).getD 0)

/-- A number of 32 bits is not wrapped. -/
theorem int32_eq {n : Int} (hlow : -2 ^ 31 ≤ n) (hhigh : n < 2 ^ 31) : int32 n = n := by
  unfold int32
  exact Int.bmod_eq_of_le (by omega) (by omega)

/-- The size of a single element. -/
theorem elementsSize_one {size : Nat} (h : size < 2 ^ 31) : elementsSize size 1 = size := by
  have hone : int32 ((size : Int) * 1) = size := by
    rw [Int.mul_one]
    exact int32_eq (by omega) (by omega)
  show int32 (int32 ((size : Int) * 1) * 1) = size
  rw [hone, hone]

/-- The size of a pointer is not wrapped. -/
theorem int32_pointerSize (pointerSize : UInt16) :
    int32 ((pointerSize.toNat : Int) * (1 : Nat)) = pointerSize.toNat := by
  have hlt := pointerSize.toNat_lt
  show int32 ((pointerSize.toNat : Int) * 1) = pointerSize.toNat
  rw [Int.mul_one]
  exact int32_eq (by omega) (by omega)

/-- The extension `Sid` asks for a SID. -/
theorem objectKind_of_sid {extension : WString}
    (h : WString.icmpEq (wide "Sid") extension = true) : objectKind extension = some .sid := by
  simp only [objectKind, icmpEq_of_sid h (wide "SizeT") (by decide),
    icmpEq_of_sid h (wide "Port") (by decide), icmpEq_of_sid h (wide "IPAddr") (by decide),
    icmpEq_of_sid h (wide "IPAddrV4") (by decide), icmpEq_of_sid h (wide "IPAddrV6") (by decide),
    icmpEq_of_sid h (wide "Guid") (by decide), Bool.false_eq_true, or_self, if_false, if_pos h]

/-- The layout of a property of the kind with `n` elements. -/
def Kind.arrayLayout (host : WmiHost) (pointerSize : UInt16) (n : Nat) : Kind → Layout
  | .pointer => .fixed pointerSize.toNat
  | .int8 => .fixed (EtwService.int32 n)
  | .int16 | .char16 => .fixed (EtwService.int32 (2 * n))
  | .int32 | .boolean => .fixed (EtwService.int32 (4 * n))
  | .int64 => .fixed (EtwService.int32 (8 * n))
  | .uint8Guid => .fixed 16
  | .sizeT => .fixed (EtwService.int32 (pointerSize.toNat * n))
  | .port => .fixed (elementsSize 2 n)
  | .ipAddr => .fixed (elementsSize 4 n)
  | .ipAddrV6 => .fixed (if host.ipv6Missing then 0 else elementsSize 16 n)
  | .guid => .fixed (elementsSize 16 n)
  | .sid => .sid n
  | .string isWideString => .string isWideString n

/-- The size of an object that is no SID, by its kind. -/
theorem objectSize_of_kind (host : WmiHost) (pointerSize : UInt16) (n : Nat)
    {extension : WString} {kind : Kind} (hkind : objectKind extension = some kind)
    (hsid : WString.icmpEq (wide "Sid") extension = false) :
    kind.arrayLayout host pointerSize n = .fixed (objectSize host pointerSize extension n) := by
  simp only [objectKind, hsid, Bool.false_eq_true, if_false] at hkind
  simp only [objectSize]
  split_ifs at hkind ⊢ <;> cases hkind <;> simp_all [Kind.arrayLayout]

/-- The layout of a property is that of its kind. -/
theorem layout_of_elements (host : WmiHost) (pointerSize : UInt16) {p : Property} {kind : Kind}
    {n : Nat} (hsize : arraySize p = some n) (hkind : p.kind = some kind) :
    layout host pointerSize p = kind.arrayLayout host pointerSize n := by
  unfold Property.kind at hkind
  unfold layout
  by_cases hpointer : p.qualifiers.pointer = true ∨ p.qualifiers.pointerType = true
  · rw [if_pos hpointer] at hkind ⊢
    cases hkind
    rfl
  · rw [if_neg hpointer] at hkind ⊢
    simp only [hsize]
    unfold typeLayout
    cases htype : p.dataType.cimType with
    | sint8 | uint8 =>
      simp only [htype] at hkind ⊢
      split_ifs at hkind ⊢ <;> cases hkind <;> rfl
    | string =>
      simp only [htype] at hkind ⊢
      split_ifs at hkind ⊢
      cases hkind
      rfl
    | object =>
      simp only [htype] at hkind ⊢
      cases hext : p.qualifiers.extension with
      | none => simp [hext] at hkind
      | some extension =>
        have hkind : objectKind extension = some kind := by simpa [hext] using hkind
        by_cases hsid : WString.icmpEq (wide "Sid") extension = true
        · rw [objectKind_of_sid hsid] at hkind
          cases hkind
          simp only [if_pos hsid]
          rfl
        · simp only [if_neg hsid]
          exact (objectSize_of_kind host pointerSize n hkind (by simpa using hsid)).symm
    | real32 | real64 | datetime | reference => simp [htype] at hkind
    | _ =>
      simp only [htype] at hkind ⊢
      cases hkind
      rfl

/-- A single element has the layout of its kind. -/
theorem arrayLayout_one {host : WmiHost} (hipv6 : host.ipv6Missing = false) (pointerSize : UInt16)
    (kind : Kind) : kind.arrayLayout host pointerSize 1 = kind.layout pointerSize := by
  cases kind with
  | sizeT =>
    show Layout.fixed (EtwService.int32 _) = _
    rw [int32_pointerSize]
    rfl
  | port =>
    show Layout.fixed (elementsSize 2 1) = _
    rw [elementsSize_one (by omega)]
    rfl
  | ipAddr =>
    show Layout.fixed (elementsSize 4 1) = _
    rw [elementsSize_one (by omega)]
    rfl
  | ipAddrV6 =>
    simp only [Kind.arrayLayout, hipv6, Bool.false_eq_true, if_false]
    rw [elementsSize_one (by omega)]
    rfl
  | guid =>
    show Layout.fixed (elementsSize 16 1) = _
    rw [elementsSize_one (by omega)]
    rfl
  | _ => rfl

/-- The layout of a property that is no array is that of its kind. -/
theorem layout_of_kind {host : WmiHost} (hipv6 : host.ipv6Missing = false) (pointerSize : UInt16)
    {p : Property} {kind : Kind} (harray : p.dataType.isArray = false)
    (hkind : p.kind = some kind) :
    layout host pointerSize p = kind.layout pointerSize := by
  rw [layout_of_elements host pointerSize (show arraySize p = some 1 by simp [arraySize, harray])
    hkind, arrayLayout_one hipv6]

/-! ### The size of an encoded value -/

/-- The characters are read back. -/
theorem wchars_encodeWide (chars : WString) (rest : List UInt8) :
    wchars (encodeWide chars ++ rest) = chars ++ wchars rest := by
  induction chars with
  | nil => rfl
  | cons c chars ih =>
    have hlt := c.toNat_lt
    have hlow : (UInt8.ofNat (c.toNat % 256)).toNat = c.toNat % 256 := by
      rw [UInt8.toNat_ofNat']
      omega
    have hhigh : (UInt8.ofNat (c.toNat / 256)).toNat = c.toNat / 256 := by
      rw [UInt8.toNat_ofNat']
      omega
    show UInt16.ofNat (_ + 256 * _) :: wchars (encodeWide chars ++ rest) = _
    rw [ih, hlow, hhigh, Nat.mod_add_div, UInt16.ofNat_toNat]
    rfl

/-- A character has two bytes. -/
theorem length_encodeWide (chars : WString) : (encodeWide chars).length = 2 * chars.length := by
  induction chars with
  | nil => rfl
  | cons c chars ih =>
    simp only [encodeWide, List.length_cons, ih]
    omega

/-- The bytes that follow a prefix of the payload. -/
theorem bytesFrom_of_append {event : Event} {before after : List UInt8}
    (hdata : event.mofData = before ++ after) : event.bytesFrom before.length = after := by
  simp [Event.bytesFrom, hdata]

/-- A narrow text is as long as its encoding, with the zero. -/
theorem stringSizeAt_narrow {event : Event} {before chars after : List UInt8}
    (hdata : event.mofData = before ++ ((chars ++ [0]) ++ after)) (hzero : 0 ∉ chars)
    (hlen : chars.length < 65535) :
    StringSizeAt event false before.length (chars ++ [0]).length := by
  refine ⟨chars.length, ⟨chars, after, ?_, hzero, rfl⟩, ?_⟩
  · rw [bytesFrom_of_append hdata]
    simp
  · rw [Nat.mod_eq_of_lt (by omega)]
    simp

/-- A wide text is as long as its encoding, with the zero. -/
theorem stringSizeAt_wide {event : Event} {before after : List UInt8} {chars : WString}
    (hdata : event.mofData = before ++ ((encodeWide chars ++ [0, 0]) ++ after)) (hzero : 0 ∉ chars)
    (hlen : chars.length < 65535) :
    StringSizeAt event true before.length (encodeWide chars ++ [0, 0]).length := by
  refine ⟨chars.length, ⟨chars, wchars after, ?_, hzero, rfl⟩, ?_⟩
  · rw [bytesFrom_of_append hdata, List.append_assoc, wchars_encodeWide]
    rfl
  · rw [Nat.mod_eq_of_lt (by omega), List.length_append, length_encodeWide]
    simp
    omega

/-- The bytes of an encoding that stands in the payload. -/
theorem bytesAt_of_append {event : Event} {before bytes after : List UInt8}
    (hdata : event.mofData = before ++ (bytes ++ after)) {n : Nat} (hn : n ≤ bytes.length) :
    event.bytesAt before.length n = bytes.take n := by
  simp only [Event.bytesAt, hdata, Int.toNat_natCast, List.drop_left]
  exact List.take_append_of_le_length hn

/-- What stands between two parts is inside of the payload. -/
theorem inside_of_append {event : Event} {before bytes after : List UInt8}
    (hdata : event.mofData = before ++ (bytes ++ after)) {n : Nat} (hn : n ≤ bytes.length) :
    event.Inside before.length n := by
  right
  have hlen : event.getMofLength = before.length + (bytes.length + after.length) := by
    simp [Event.getMofLength, hdata]
  omega

/-- A null SID takes four bytes. -/
theorem sidAt_noSid {pointerSize : UInt16} {event : Event} {before after : List UInt8}
    (hdata : event.mofData = before ++ ([0, 0, 0, 0] ++ after)) (offset : Int)
    (buffer : SidBuffer) :
    SidAt pointerSize event offset before.length buffer 4 buffer := by
  refine ⟨inside_of_append hdata (by simp), ?_⟩
  rw [bytesAt_of_append hdata (by simp), if_pos (by rfl)]
  exact ⟨rfl, rfl⟩

/-- The length of the copy for a SID that stands in the payload behind `offset`. -/
theorem copyLength_of_append {event : Event} {before done header sid after : List UInt8}
    (hdata : event.mofData = before ++ (done ++ (header ++ (sid ++ after)))) :
    copyLength event before.length header.length =
      min SECURITY_MAX_SID_SIZE (done.length + sid.length + after.length) := by
  have hlen : event.getMofLength =
      before.length + (done.length + (header.length + (sid.length + after.length))) := by
    simp [Event.getMofLength, hdata]
  have hlt : event.getMofLength < 2 ^ 31 := event.size_lt
  have hrest : ((event.getMofLength : Int) - before.length - header.length) % 2 ^ 64 =
      (done.length + sid.length + after.length : Nat) := by
    omega
  have hmax : SECURITY_MAX_SID_SIZE = 68 := rfl
  unfold copyLength
  rw [hrest, hmax]
  dsimp only
  split_ifs <;> omega

/-- Byte 1 of a SID tells its length, once it was copied. -/
theorem seLengthSid_write (buffer : SidBuffer) (revision subAuthorityCount : UInt8)
    (rest : List UInt8) {n : Nat} (h : 2 ≤ n) :
    seLengthSid (buffer.write ((revision :: subAuthorityCount :: rest).take n)) =
      8 + 4 * subAuthorityCount.toNat := by
  have htake : ((revision :: subAuthorityCount :: rest).take n)[1]? = some subAuthorityCount := by
    rw [List.getElem?_take_of_lt (by omega)]
    rfl
  simp only [seLengthSid, SidBuffer.write, htake, Option.getD_some]

/-- A SID behind the bytes `done` of the property has the length of its encoding as its size. It is
read at all exactly if the copy, which is as long as if the SID were the first, ends in the
payload. -/
theorem sidAt_iff {pointerSize : UInt16} (hpointer : pointerSize.toNat < 2 ^ 15) {event : Event}
    {before done header body after : List UInt8} {revision subAuthorityCount : UInt8}
    (hdata : event.mofData =
      before ++ (done ++ ((header ++ revision :: subAuthorityCount :: body) ++ after)))
    (hheader : header.length = 2 * pointerSize.toNat) (hulong : 4 ≤ header.length)
    (hnonzero : littleEndian (header.take 4) ≠ 0)
    (hbody : body.length = 6 + 4 * subAuthorityCount.toNat) (buffer : SidBuffer) (size : Nat) :
    (∃ buffer', SidAt pointerSize event before.length (before.length + done.length) buffer size
        buffer') ↔
      size = (header ++ revision :: subAuthorityCount :: body).length ∧
        (done = [] ∨ SECURITY_MAX_SID_SIZE ≤
          (revision :: subAuthorityCount :: body ++ after).length) := by
  have hbytes : bytesToSid pointerSize = header.length := by
    unfold bytesToSid
    omega
  have hsid : event.mofData = (before ++ done) ++
      (header ++ ((revision :: subAuthorityCount :: body) ++ after)) := by
    rw [hdata, List.append_assoc, List.append_assoc]
  have hbehind : event.mofData = (before ++ (done ++ header)) ++
      (((revision :: subAuthorityCount :: body) ++ after) ++ []) := by
    rw [hsid, List.append_nil]
    simp only [List.append_assoc]
  have hcopy := @copyLength_of_append event before done header
    (revision :: subAuthorityCount :: body) after (by rw [hsid, List.append_assoc])
  have hmax : SECURITY_MAX_SID_SIZE = 68 := rfl
  rw [hmax] at hcopy ⊢
  have hpos : (before.length : Int) + done.length = (before ++ done).length := by
    rw [List.length_append]
    rfl
  have hpos' : ((before ++ done).length : Int) + header.length =
      (before ++ (done ++ header)).length := by
    rw [← List.append_assoc, @List.length_append _ (before ++ done) header]
    rfl
  have hinside : event.Inside (before ++ (done ++ header)).length
      (copyLength event before.length header.length) ↔
        done = [] ∨ 68 ≤ (revision :: subAuthorityCount :: body ++ after).length := by
    have hlen : event.getMofLength = (before ++ (done ++ header)).length +
        (revision :: subAuthorityCount :: body ++ after).length := by
      simp only [Event.getMofLength, hbehind, List.append_nil]
      exact List.length_append
    have hempty : done = [] ↔ done.length = 0 := List.length_eq_zero_iff.symm
    simp only [List.length_append, List.length_cons] at hcopy hlen ⊢
    rw [Event.Inside, hempty]
    omega
  have hlength : (header ++ revision :: subAuthorityCount :: body).length =
      header.length + (8 + 4 * subAuthorityCount.toNat) := by
    rw [List.length_append, List.length_cons, List.length_cons, hbody]
    omega
  rw [hlength, ← hinside]
  unfold SidAt
  rw [hpos, hbytes, bytesAt_of_append hsid hulong]
  simp only [if_neg hnonzero, hpos']
  have hsize : event.Inside (before ++ (done ++ header)).length
      (copyLength event before.length header.length) →
        seLengthSid (buffer.write (event.bytesAt (before ++ (done ++ header)).length
          (copyLength event before.length header.length))) = 8 + 4 * subAuthorityCount.toNat := by
    intro hin
    -- The copy ends in the payload, and has the 8 bytes before the sub-authorities.
    have hlong := hinside.mp hin
    have hhigh : copyLength event before.length header.length ≤
        (revision :: subAuthorityCount :: body ++ after).length := by
      simp only [List.length_append, List.length_cons] at hcopy hlong ⊢
      rcases hlong with rfl | hlong
      · simp only [List.length_nil] at hcopy
        omega
      · omega
    rw [bytesAt_of_append hbehind hhigh]
    refine seLengthSid_write buffer revision subAuthorityCount (body ++ after) ?_
    simp only [List.length_cons] at hcopy
    omega
  constructor
  · intro h
    rcases h with ⟨buffer', _, hin, rfl, hsz⟩
    rw [hsize hin] at hsz
    exact ⟨hsz, hin⟩
  · intro h
    exact ⟨_, inside_of_append hsid hulong, h.2, rfl, by rw [hsize h.2]; exact h.1⟩

/-- The size that is read for a property is the length of its encoding. -/
theorem fieldAt_of_encodes {pointerSize : UInt16} (hpointer : pointerSize.toNat < 2 ^ 15)
    {event : Event} {before bytes after : List UInt8} {kind : Kind}
    (hdata : event.mofData = before ++ (bytes ++ after)) (hbytes : Encodes pointerSize kind bytes)
    (buffer : SidBuffer) :
    FieldAt pointerSize event buffer before.length (kind.layout pointerSize) bytes.length := by
  have hlt : bytes.length < 2 ^ 31 := by
    have hsize := event.size_lt
    simp only [hdata, List.length_append] at hsize
    omega
  cases hbytes with
  | fixed hlength =>
    have hlayout : kind.layout pointerSize = .fixed (bytes.length : Int) := by
      cases kind <;> simp_all [Kind.layout, Kind.length]
    rw [hlayout]
    rfl
  | narrow hzero hlen => exact stringSizeAt_narrow hdata hzero hlen
  | wide hzero hlen => exact stringSizeAt_wide hdata hzero hlen
  | noSid => exact ⟨4, buffer, sidAt_noSid hdata _ buffer, rfl⟩
  | sid hheader hulong hnonzero hcount hbody =>
    rcases (@sidAt_iff _ hpointer _ _ [] _ _ _ _ _ hdata hheader hulong hnonzero hbody buffer
      _).mpr ⟨rfl, Or.inl rfl⟩ with ⟨buffer', hsid⟩
    rw [List.length_nil, Int.natCast_zero, Int.add_zero] at hsid
    refine ⟨_, buffer', hsid, ?_⟩
    show _ = int32 (0 + _)
    rw [Int.zero_add, int32_eq (by omega) (by omega)]

/-- The values of a kind with a length all have it. -/
theorem Encodes.length_eq {pointerSize : UInt16} {kind : Kind} {bytes : List UInt8} {c : Nat}
    (h : Encodes pointerSize kind bytes) (hc : kind.length pointerSize = some c) :
    bytes.length = c := by
  cases h with
  | fixed hlength =>
    rw [hc] at hlength
    exact (Option.some.inj hlength).symm
  | _ => cases hc

/-- No value has an empty encoding. -/
theorem Encodes.length_pos {pointerSize : UInt16} (hpointer : 0 < pointerSize.toNat) {kind : Kind}
    {bytes : List UInt8} (h : Encodes pointerSize kind bytes) : 0 < bytes.length := by
  cases h with
  | fixed hlength => cases kind <;> simp [Kind.length] at hlength <;> omega
  | narrow => simp
  | wide => simp
  | noSid => simp
  | sid =>
    rw [List.length_append, List.length_cons]
    omega

end KernelEventsTrace.EtwService
