import Mathlib.Data.Nat.ModEq
import Mathlib.Data.Nat.Prime.Basic
import KernelEventsTrace.Proofs.Etw.PropertyInfo

/-!
# `KernelEventsTrace.Proofs.Etw.ArraySize`: the size of an array property

The elements of an array stand one after the other in the payload, so the array is as long as the
elements together. `GetEventPropertyValue` counts the elements in a way of its own for each kind:

* the sizes of integers, booleans, characters and `SizeT` are multiplied with `MAX` once;
* those of `Port`, `IPAddr`, `IPAddrV4`, `IPAddrV6` and `Guid` are multiplied with it twice, and a
  GUID in 8-bit integers and a pointer not at all;
* the loop over the strings of an array measures the first one every time;
* the loop over the SIDs of an array moves on, but copies as many bytes for each as for the first.

`getEventPropertyValue_array_iff` says for every kind and number of elements when the size is
right.
-/

set_option autoImplicit false

namespace KernelEventsTrace.EtwService

/-! ### Specification -/

/-- `GetEventPropertyValue` finds `total` as the size of the `i`-th property, at `offset`, and
`GetPropertyInfo` goes on behind it. -/
structure SizeRight (host : WmiHost) (pointerSize : UInt16) (p : Property) (event : Event)
    (i : Nat) (offset total : Nat) : Prop where
  value : getEventPropertyValue host pointerSize p event (host.stack i) offset = .ok total
  next : ∀ (t : PropertyTable) (propertyName : WString) (cell : Option Nat)
    (cells : List (Option Nat)) (dataSize : Int),
      t.entry cell = .ok p → total ≠ 0 → getPropertyName p ≠ propertyName →
        propertyLoop host pointerSize t propertyName event i (cell :: cells) offset dataSize =
          propertyLoop host pointerSize t propertyName event (i + 1) cells
            (offset + total : Nat) total

/-- For every SID of the elements, `SECURITY_MAX_SID_SIZE` bytes follow its header in the payload,
where `after` stands behind the elements. -/
def CopiesInside (pointerSize : UInt16) (after : List UInt8) : List (List UInt8) → Prop
  | [] => True
  | bytes :: elements =>
    (littleEndian (bytes.take 4) ≠ 0 →
      2 * pointerSize.toNat + SECURITY_MAX_SID_SIZE ≤
        (bytes ++ (elements.flatten ++ after)).length) ∧
      CopiesInside pointerSize after elements

/-- The sizes of the elements are added up as they should. -/
def SizesAdded (host : WmiHost) (pointerSize : UInt16) (elements : List (List UInt8))
    (after : List UInt8) : Kind → Prop
  | .int8 | .int16 | .int32 | .int64 | .boolean | .char16 | .sizeT => True
  | .port | .ipAddr | .guid | .uint8Guid | .string _ => elements.length = 1
  | .ipAddrV6 => elements.length = 1 ∧ host.ipv6Missing = false
  | .pointer => elements.length = 1 ∨ pointerSize.toNat = 0
  | .sid => CopiesInside pointerSize after elements.tail

/-! ### Sizes that the description gives -/

/-- One of `n` and `n - 1` is odd, so a power of two divides the other one, which is too small. -/
theorem eq_one_of_two_pow_dvd {m n : Nat} (hn : 1 ≤ n) (hlt : n < 2 ^ m)
    (hdvd : 2 ^ m ∣ n * (n - 1)) : n = 1 := by
  rcases Nat.even_or_odd n with heven | hodd
  · have hpred : Odd (n - 1) := Nat.Even.sub_odd hn heven odd_one
    have hcop : Nat.Coprime (2 ^ m) (n - 1) :=
      Nat.Coprime.pow_left m (Nat.coprime_two_left.mpr hpred)
    have hle := Nat.le_of_dvd hn (hcop.dvd_of_dvd_mul_right hdvd)
    omega
  · have hcop : Nat.Coprime (2 ^ m) n := Nat.Coprime.pow_left m (Nat.coprime_two_left.mpr hodd)
    have hzero := Nat.eq_zero_of_dvd_of_lt (hcop.dvd_of_dvd_mul_left hdvd) (by omega)
    omega

/-- The product with the count squared is the product with the count only if that is 1. -/
theorem elementsSize_eq_iff {k n : Nat} (hn : 1 ≤ n) (hlt : 2 ^ k * n < 2 ^ 31) :
    elementsSize (2 ^ k) n = (2 ^ k * n : Nat) ↔ n = 1 := by
  constructor
  · intro h
    have hone : EtwService.int32 ((2 ^ k : Nat) * n) = (2 ^ k * n : Nat) := by
      rw [← Int.natCast_mul]
      exact int32_eq (by omega) (by omega)
    -- The code keeps the product modulo `2 ^ 32`.
    have hmod : 2 ^ k * n ≡ 2 ^ k * n * n [MOD 2 ^ 32] := by
      rw [elementsSize, hone, EtwService.int32, ← Int.natCast_mul] at h
      have hbmod := congrArg (· % ((2 ^ 32 : Nat) : Int)) h
      simp only [Int.bmod_emod, ← Int.natCast_mod] at hbmod
      exact (Int.ofNat.inj hbmod).symm
    have hdvd : 2 ^ 32 ∣ 2 ^ k * n * n - 2 ^ k * n :=
      (Nat.modEq_iff_dvd' (Nat.le_mul_of_pos_right _ hn)).mp hmod
    have hk : k ≤ 32 := by
      by_contra hk
      have := Nat.pow_le_pow_right (show 0 < 2 by omega) (show 31 ≤ k by omega)
      have := Nat.le_mul_of_pos_right (2 ^ k) hn
      omega
    have hsplit : 2 ^ 32 = 2 ^ k * 2 ^ (32 - k) := by
      rw [← Nat.pow_add, Nat.add_sub_cancel' hk]
    have hproduct : 2 ^ k * n * n - 2 ^ k * n = 2 ^ k * (n * (n - 1)) := by
      rw [Nat.mul_assoc, ← Nat.mul_sub, Nat.mul_sub n n 1, Nat.mul_one]
    rw [hsplit, hproduct] at hdvd
    have hsmall : n < 2 ^ (32 - k) := by
      have hlt : 2 ^ k * n < 2 ^ k * 2 ^ (32 - k) := by omega
      exact Nat.lt_of_mul_lt_mul_left hlt
    exact eq_one_of_two_pow_dvd hn hsmall
      (Nat.dvd_of_mul_dvd_mul_left (Nat.two_pow_pos k) hdvd)
  · intro h
    rw [h, elementsSize_one (by rw [h, Nat.mul_one] at hlt; exact hlt), Nat.mul_one]

/-- Elements of `c` bytes, counted once. The code knows the count as a `ULONG`. -/
theorem countedOnce {c n total : Nat} (htotal : total = c * n) (hlt : total < 2 ^ 31) :
    (total : Int) = EtwService.int32 ((c : Int) * (n % 2 ^ 32 : Nat)) := by
  rw [htotal] at hlt ⊢
  rw [← Int.natCast_mul]
  by_cases hzero : c = 0
  · rw [hzero, Nat.zero_mul, Nat.zero_mul]
    rfl
  · -- There are no more elements than bytes.
    have := Nat.le_mul_of_pos_left n (Nat.pos_of_ne_zero hzero)
    rw [Nat.mod_eq_of_lt (by omega)]
    exact (int32_eq (by omega) (by omega)).symm

/-- Elements of a power of two of bytes, counted twice. -/
theorem countedTwice_iff {k n total : Nat} (hn : 1 ≤ n) (htotal : total = 2 ^ k * n)
    (hlt : total < 2 ^ 31) : (total : Int) = elementsSize (2 ^ k) (n % 2 ^ 32) ↔ n = 1 := by
  have := Nat.le_mul_of_pos_left n (Nat.two_pow_pos k)
  rw [Nat.mod_eq_of_lt (by omega), htotal]
  exact eq_comm.trans (elementsSize_eq_iff hn (htotal ▸ hlt))

/-- Elements of one length. -/
theorem length_flatten_of_fixed {elements : List (List UInt8)} {c : Nat}
    (h : ∀ bytes ∈ elements, bytes.length = c) :
    elements.flatten.length = c * elements.length := by
  induction elements with
  | nil => rfl
  | cons bytes elements ih =>
    have hfirst := h bytes (by simp)
    have hrest := ih fun b hb => h b (List.mem_cons_of_mem _ hb)
    rw [List.flatten_cons, List.length_append, hfirst, hrest, List.length_cons, Nat.mul_succ]
    omega

/-- A value of a kind without a fixed length takes a byte. -/
theorem Encodes.length_pos_of_none {pointerSize : UInt16} {kind : Kind} {bytes : List UInt8}
    (h : Encodes pointerSize kind bytes) (hkind : kind.length pointerSize = none) :
    0 < bytes.length := by
  cases h with
  | fixed hlength =>
    rw [hkind] at hlength
    cases hlength
  | narrow => simp
  | wide => simp
  | noSid => simp
  | sid =>
    rw [List.length_append, List.length_cons]
    omega

/-! ### Strings -/

/-- The size that is measured at a string is unique. -/
theorem StringSizeAt.eq {event : Event} {isWideString : Bool} {offset size size' : Int}
    (h : StringSizeAt event isWideString offset size)
    (h' : StringSizeAt event isWideString offset size') : size = size' := by
  rw [← stringSize_eq_ok_iff] at h h'
  rw [h] at h'
  exact Except.ok.inj h'

/-- The size of an array of strings is that of the first string. -/
theorem fieldAt_strings_iff {pointerSize : UInt16} {event : Event} {isWideString : Bool}
    {before first after : List UInt8} {n : Nat}
    (hdata : event.mofData = before ++ (first ++ after))
    (hfirst : Encodes pointerSize (.string isWideString) first) (buffer : SidBuffer) (size : Int) :
    FieldAt pointerSize event buffer before.length (.string isWideString (n + 1)) size ↔
      size = first.length := by
  have hmeasured : StringSizeAt event isWideString before.length first.length := by
    cases hfirst with
    | narrow hzero hlen => exact stringSizeAt_narrow hdata hzero hlen
    | wide hzero hlen => exact stringSizeAt_wide hdata hzero hlen
    | fixed hlength => cases hlength
  constructor
  · intro h
    exact StringSizeAt.eq h hmeasured
  · intro h
    rw [h]
    exact hmeasured

/-! ### SIDs -/

/-- One SID of an array, behind the bytes `done` of the array. -/
theorem sidAt_encoded_iff {pointerSize : UInt16} (hpointer : pointerSize.toNat < 2 ^ 15)
    {event : Event} {before done bytes after : List UInt8}
    (hdata : event.mofData = before ++ (done ++ (bytes ++ after)))
    (hbytes : Encodes pointerSize .sid bytes) (buffer : SidBuffer) (size : Nat) :
    (∃ buffer', SidAt pointerSize event before.length (before.length + done.length) buffer size
        buffer') ↔
      size = bytes.length ∧
        (done = [] ∨ (littleEndian (bytes.take 4) ≠ 0 →
          2 * pointerSize.toNat + SECURITY_MAX_SID_SIZE ≤ (bytes ++ after).length)) := by
  cases hbytes with
  | fixed hlength => cases hlength
  | noSid =>
    have hpos : (before.length : Int) + done.length = (before ++ done).length := by
      rw [List.length_append]
      rfl
    have hdata' : event.mofData = (before ++ done) ++ ([0, 0, 0, 0] ++ after) := by
      rw [hdata, List.append_assoc]
    have hzero : littleEndian (([0, 0, 0, 0] : List UInt8).take 4) = 0 := by decide
    rw [hpos]
    constructor
    · intro h
      rcases h with ⟨buffer', _, h⟩
      rw [bytesAt_of_append hdata' (by simp), if_pos hzero] at h
      exact ⟨h.1, Or.inr fun hne => absurd hzero hne⟩
    · intro h
      rw [h.1]
      exact ⟨buffer, sidAt_noSid hdata' _ buffer⟩
  | @sid header body revision subAuthorityCount hheader hulong hnonzero hcount hbody =>
    rw [sidAt_iff hpointer hdata hheader hulong hnonzero hbody]
    have hne : littleEndian ((header ++ revision :: subAuthorityCount :: body).take 4) ≠ 0 := by
      rw [List.take_append_of_le_length hulong]
      exact hnonzero
    have hlen : (header ++ revision :: subAuthorityCount :: body ++ after).length =
        2 * pointerSize.toNat + (revision :: subAuthorityCount :: body ++ after).length := by
      rw [List.append_assoc, List.length_append, hheader]
    rw [hlen]
    simp only [hne, Nat.add_le_add_iff_left, ne_eq, not_false_eq_true, forall_const]

/-- The SIDs of an array behind the bytes `done` of the array. The induction is on the elements to
come. -/
theorem sidsAt_iff {pointerSize : UInt16} (hpointer : pointerSize.toNat < 2 ^ 15) {event : Event}
    {before after : List UInt8} (elements : List (List UInt8)) :
    ∀ (done : List UInt8) (buffer : SidBuffer) (size : Int),
      event.mofData = before ++ (done ++ (elements.flatten ++ after)) →
      (∀ bytes ∈ elements, Encodes pointerSize .sid bytes) →
        (SidsAt pointerSize event before.length elements.length done.length
            (before.length + done.length) buffer size ↔
          size = (done ++ elements.flatten).length ∧
            CopiesInside pointerSize after (if done = [] then elements.tail else elements)) := by
  induction elements with
  | nil =>
    intro done buffer size _ _
    simp [SidsAt, CopiesInside]
  | cons bytes elements ih =>
    intro done buffer size hdata helements
    have hbytes := helements bytes (by simp)
    have hdata' : event.mofData = before ++ (done ++ (bytes ++ (elements.flatten ++ after))) := by
      rw [hdata, List.flatten_cons, List.append_assoc bytes]
    have hrest : event.mofData = before ++ ((done ++ bytes) ++ (elements.flatten ++ after)) := by
      rw [hdata', List.append_assoc done]
    have hsize := event.size_lt
    rw [hdata', List.length_append, List.length_append, List.length_append] at hsize
    have hadd : int32 ((done.length : Int) + bytes.length) = (done ++ bytes).length := by
      rw [int32_eq (by omega) (by omega), List.length_append]
      rfl
    have hpos : (before.length : Int) + done.length + bytes.length =
        before.length + (done ++ bytes).length := by
      rw [List.length_append]
      omega
    have hne : bytes ≠ [] := List.length_pos_iff.mp (hbytes.length_pos_of_none rfl)
    have hcons : done ++ bytes ≠ [] := by simp [hne]
    have hone := sidAt_encoded_iff hpointer hdata' hbytes buffer
    have hmany := fun buffer' => ih (done ++ bytes) buffer' size hrest
      fun b hb => helements b (List.mem_cons_of_mem _ hb)
    simp only [if_neg hcons] at hmany
    -- The first SID has to be read, and the others behind it with the buffer that it leaves.
    have hstep : SidsAt pointerSize event before.length (bytes :: elements).length done.length
        (before.length + done.length) buffer size ↔
          (done = [] ∨ (littleEndian (bytes.take 4) ≠ 0 →
            2 * pointerSize.toNat + SECURITY_MAX_SID_SIZE ≤
              (bytes ++ (elements.flatten ++ after)).length)) ∧
          size = ((done ++ bytes) ++ elements.flatten).length ∧
            CopiesInside pointerSize after elements := by
      constructor
      · intro h
        rcases h with ⟨element, buffer', hsid, hsids⟩
        have hread := (hone element).mp ⟨buffer', hsid⟩
        rw [hread.1, hadd, hpos] at hsids
        exact ⟨hread.2, (hmany buffer').mp hsids⟩
      · intro h
        rcases (hone bytes.length).mpr ⟨rfl, h.1⟩ with ⟨buffer', hsid⟩
        refine ⟨bytes.length, buffer', hsid, ?_⟩
        rw [hadd, hpos]
        exact (hmany buffer').mpr h.2
    rw [hstep, List.append_assoc, ← List.flatten_cons]
    by_cases hdone : done = []
    · simp [hdone]
    · simp only [hdone, false_or, if_false, CopiesInside]
      exact and_left_comm

/-! ### Main result -/

/-- Elements of at least one byte. -/
theorem length_le_flatten {elements : List (List UInt8)}
    (h : ∀ bytes ∈ elements, 0 < bytes.length) : elements.length ≤ elements.flatten.length := by
  induction elements with
  | nil => exact le_rfl
  | cons bytes elements ih =>
    have hfirst := h bytes (by simp)
    have hrest := ih fun b hb => h b (List.mem_cons_of_mem _ hb)
    rw [List.flatten_cons, List.length_append, List.length_cons]
    omega

/-- Elements are together as long as the first one if there is no other. -/
theorem length_flatten_eq_first_iff {first : List UInt8} {elements : List (List UInt8)}
    (h : ∀ bytes ∈ elements, 0 < bytes.length) :
    (first :: elements).flatten.length = first.length ↔ (first :: elements).length = 1 := by
  have hle := length_le_flatten h
  rw [List.flatten_cons, List.length_append, List.length_cons]
  constructor
  · intro heq
    omega
  · intro hone
    rw [List.length_eq_zero_iff.mp (show elements.length = 0 by omega)]
    rfl

/-- The size of an array of `n` elements. The code knows `n` as an `ULONG`. -/
theorem fieldAt_array_iff (host : WmiHost) {pointerSize : UInt16}
    (hpointer : pointerSize.toNat < 2 ^ 15) {kind : Kind} {elements : List (List UInt8)}
    (hne : elements ≠ []) {event : Event} {before after : List UInt8}
    (hdata : event.mofData = before ++ (elements.flatten ++ after))
    (hencodes : ∀ bytes ∈ elements, Encodes pointerSize kind bytes) (buffer : SidBuffer) :
    FieldAt pointerSize event buffer before.length
        (kind.arrayLayout host pointerSize (elements.length % 2 ^ 32)) elements.flatten.length ↔
      SizesAdded host pointerSize elements after kind := by
  have hlt : elements.flatten.length < 2 ^ 31 := by
    have hsize := event.size_lt
    rw [hdata, List.length_append, List.length_append] at hsize
    omega
  have hn : 1 ≤ elements.length := List.length_pos_iff.mpr hne
  have htotal : ∀ c, kind.length pointerSize = some c →
      elements.flatten.length = c * elements.length :=
    fun c hc => length_flatten_of_fixed fun b hb => (hencodes b hb).length_eq hc
  cases kind with
  | pointer =>
    -- The size of one pointer.
    have htotal := htotal _ rfl
    simp only [Kind.arrayLayout, FieldAt, SizesAdded, htotal]
    rw [Int.natCast_inj]
    constructor
    · intro h
      by_cases hzero : pointerSize.toNat = 0
      · exact Or.inr hzero
      · have hmul : pointerSize.toNat * elements.length = pointerSize.toNat * 1 := by omega
        exact Or.inl (Nat.eq_of_mul_eq_mul_left (Nat.pos_of_ne_zero hzero) hmul)
    · intro h
      rcases h with hone | hzero
      · rw [hone, Nat.mul_one]
      · rw [hzero, Nat.zero_mul]
  | sizeT | int16 | char16 | int32 | boolean | int64 =>
    -- The count is multiplied once.
    exact iff_of_true (countedOnce (htotal _ rfl) hlt) trivial
  | int8 =>
    refine iff_of_true ?_ trivial
    show (elements.flatten.length : Int) = EtwService.int32 _
    rw [countedOnce (htotal _ rfl) hlt, Int.natCast_one, Int.one_mul]
  | uint8Guid =>
    -- The size of one GUID.
    have htotal := htotal _ rfl
    simp only [Kind.arrayLayout, FieldAt, SizesAdded]
    omega
  -- From here on it is multiplied twice.
  | port => exact @countedTwice_iff 1 _ _ hn (htotal _ rfl) hlt
  | ipAddr => exact @countedTwice_iff 2 _ _ hn (htotal _ rfl) hlt
  | guid => exact @countedTwice_iff 4 _ _ hn (htotal _ rfl) hlt
  | ipAddrV6 =>
    have htotal := htotal _ rfl
    simp only [Kind.arrayLayout, FieldAt, SizesAdded]
    cases host.ipv6Missing with
    | true =>
      -- Without `RtlIpv6AddressToStringW` the size is 0.
      simp only [if_true, Bool.true_eq_false, and_false, iff_false]
      omega
    | false =>
      simp only [Bool.false_eq_true, if_false, and_true]
      exact @countedTwice_iff 4 _ _ hn htotal hlt
  | string isWideString =>
    cases elements with
    | nil => exact absurd rfl hne
    | cons first elements =>
      have hpos := fun b hb => (hencodes b hb).length_pos_of_none rfl
      have hle := length_le_flatten hpos
      rw [List.length_cons] at hle ⊢
      rw [Nat.mod_eq_of_lt (by omega)]
      refine (fieldAt_strings_iff (by rw [hdata, List.flatten_cons, List.append_assoc])
        (hencodes first (by simp)) buffer _).trans ?_
      rw [Int.natCast_inj]
      exact length_flatten_eq_first_iff fun b hb => hpos b (List.mem_cons_of_mem _ hb)
  | sid =>
    have hle := length_le_flatten fun b hb => (hencodes b hb).length_pos_of_none rfl
    rw [Nat.mod_eq_of_lt (by omega)]
    have hsids := sidsAt_iff hpointer elements [] buffer elements.flatten.length hdata hencodes
    simp only [List.length_nil, List.nil_append, if_true, Int.natCast_zero, Int.add_zero,
      true_and] at hsids
    exact hsids

/-- The size of an array is the length of its elements together, and the next property is looked
for behind them, exactly if `SizesAdded` holds. -/
theorem getEventPropertyValue_array_iff (host : WmiHost) {pointerSize : UInt16}
    (hpointer : pointerSize.toNat < 2 ^ 15) {p : Property} {kind : Kind}
    (harray : p.dataType.isArray = true) (hkind : p.kind = some kind)
    {elements : List (List UInt8)} (hne : elements ≠ [])
    (hmax : p.qualifiers.max = some (elements.length : Int)) {event : Event}
    {before after : List UInt8} (hdata : event.mofData = before ++ (elements.flatten ++ after))
    (hencodes : ∀ bytes ∈ elements, Encodes pointerSize kind bytes) (i : Nat) :
    SizeRight host pointerSize p event i before.length elements.flatten.length ↔
      SizesAdded host pointerSize elements after kind := by
  have hsize : arraySize p = some (elements.length % 2 ^ 32) := by
    simp only [arraySize, harray, hmax, if_true, Option.map_some, Option.some.injEq]
    omega
  have hfield := fieldAt_array_iff host hpointer hne hdata hencodes (host.stack i)
  rw [← layout_of_elements host pointerSize hsize hkind, ← getEventPropertyValue_eq_ok_iff]
    at hfield
  constructor
  · intro h
    exact hfield.mp h.value
  · intro h
    have hvalue := hfield.mpr h
    refine ⟨hvalue, ?_⟩
    intro t propertyName cell cells dataSize hentry htotal hname
    rw [propertyLoop_cons hentry hvalue, if_neg (by omega), if_neg hname, int32_offset hdata,
      List.length_append]

/-! ### An array of ports and an array of SIDs -/

/-- An array of two ports. -/
def remotePorts : Property where
  name := wide "RemotePorts"
  dataType := ⟨.object, true⟩
  qualifiers :=
    { wmiDataId := some 1, description := none, pointer := false, pointerType := false,
      max := some 2, format := false, stringTermination := none, extension := some (wide "Port") }

/-- A payload with the ports 80 and 443. -/
def portsEvent : Event := ⟨[0, 80, 1, 187], by decide⟩

/-- The size of two ports is found to be 8 instead of 4. -/
theorem getEventPropertyValue_remotePorts :
    remotePorts.kind = some .port ∧ (∀ bytes ∈ [[0, 80], [1, 187]], Encodes 8 .port bytes) ∧
      portsEvent.mofData = [[0, 80], [1, 187]].flatten ∧
      getEventPropertyValue quietHost 8 remotePorts portsEvent (quietHost.stack 0) 0 = .ok 8 ∧
      ¬ SizeRight quietHost 8 remotePorts portsEvent 0 0 4 := by
  have hvalue : getEventPropertyValue quietHost 8 remotePorts portsEvent (quietHost.stack 0) 0 =
      .ok 8 := by rfl
  refine ⟨by decide, ?_, rfl, hvalue, ?_⟩
  · intro bytes hbytes
    rcases List.mem_pair.mp hbytes with rfl | rfl <;> exact .fixed rfl
  · intro h
    have := hvalue.symm.trans h.value
    cases this

/-- An array of two SIDs. -/
def userSids : Property where
  name := wide "UserSIDs"
  dataType := ⟨.object, true⟩
  qualifiers := { userSid.qualifiers with max := some 2 }

/-- The encodings of a SID and of no SID. -/
def sidEncodings : List (List UInt8) :=
  [[1, 0, 0, 0, 0, 0, 0, 0, 0, 0, 0, 0, 0, 0, 0, 0, 1, 1, 0, 0, 0, 0, 0, 5, 18, 0, 0, 0],
    [0, 0, 0, 0]]

/-- The payload of the example. -/
def sidsEvent : Event := ⟨sidEncodings.flatten, by decide⟩

/-- The size of an array with one SID is right. -/
theorem getEventPropertyValue_userSids : SizeRight quietHost 8 userSids sidsEvent 0 0 32 := by
  refine (@getEventPropertyValue_array_iff quietHost 8 (by decide) userSids .sid rfl (by decide)
    sidEncodings (by decide) rfl sidsEvent [] [] rfl ?_ 0).mpr ?_
  · intro bytes hbytes
    rcases List.mem_pair.mp hbytes with rfl | rfl
    · exact @Encodes.sid 8 [1, 0, 0, 0, 0, 0, 0, 0, 0, 0, 0, 0, 0, 0, 0, 0]
        [0, 0, 0, 0, 0, 5, 18, 0, 0, 0] 1 1 rfl (by decide) (by decide) (by decide) rfl
    · exact .noSid
  · -- The second element is no SID, so nothing is copied for it.
    exact ⟨fun hne => absurd (by decide) hne, trivial⟩

end KernelEventsTrace.EtwService
