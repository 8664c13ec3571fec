import KernelEventsTrace.Lib.FieldLayout
import KernelEventsTrace.Proofs.Etw.OffsetCache

/-!
# `KernelEventsTrace.Proofs.Etw.OffsetReuse`: when the offsets of one event serve the next

All constructors keep the offsets of the first event in a record and use them for the events that
follow. This is right for a class of events or not, depending on the order of its properties.
`EventMember.reuse_iff` says when, for every constructor and every class: if the record becomes
positioned at all, no property of varying size may stand in front of one that is looked up, and none
whose size is kept may vary itself.
-/

set_option autoImplicit false

namespace KernelEventsTrace.EtwService

open KernelEventsTrace.FieldLayout

/-! ### Specification -/

/-- A class of events, with its properties `ordered` by their ids `1, …, n`. -/
structure EventClass (pointerSize : UInt16) (pClass ordered : List Property) : Prop where
  perm : ordered.Perm pClass
  ids : ∀ (k : Nat) (p : Property), ordered[k]? = some p →
    p.qualifiers.wmiDataId = some ((k : Int) + 1)
  notArray : ∀ p ∈ pClass, p.dataType.isArray = false
  names : (pClass.map getPropertyName).Nodup
  kinds : ∀ p ∈ ordered, ∃ kind, p.kind = some kind
  /-- Any values of so many properties fit in a payload. -/
  few : ordered.length < 2 ^ 14

/-- The values of the property have one length only. -/
def Property.FixedSize (pointerSize : UInt16) (p : Property) : Prop :=
  ∃ kind c, p.kind = some kind ∧ kind.length pointerSize = some c

/-- A value of the property. -/
def ValueOf (pointerSize : UInt16) (p : Property) (bytes : List UInt8) : Prop :=
  ∃ kind, p.kind = some kind ∧ Encodes pointerSize kind bytes

namespace EventMember

/-- The constructor asks for properties of the class. -/
structure AsksFor (m : EventMember) (ordered : List Property) : Prop where
  found : ∀ lookup ∈ m.lookups, lookup.name ∈ ordered.map getPropertyName
  positioning : ∀ name, m.positioning = .behindTested name → name ∈ m.lookups.map Lookup.name

/-- The constructor uses the offsets again: always, or because the named property stands behind
the tested ones. -/
def Reuses (m : EventMember) (ordered : List Property) : Prop :=
  ∀ name, m.positioning = .behindTested name → ∀ lookup ∈ m.lookups, lookup.sizeUse = .tested →
    ∀ (j k : Nat) (p q : Property), ordered[j]? = some p → getPropertyName p = lookup.name →
      ordered[k]? = some q → getPropertyName q = name → j < k

/-- Nothing of varying size stands in front of a property that is looked up. -/
def FixedInFront (m : EventMember) (pointerSize : UInt16) (ordered : List Property) : Prop :=
  ∀ lookup ∈ m.lookups, ∀ (k : Nat) (p : Property), ordered[k]? = some p →
    getPropertyName p = lookup.name → ∀ q ∈ ordered.take k, q.FixedSize pointerSize

/-- A property whose size is kept has values of one size only. -/
def FixedSizes (m : EventMember) (pointerSize : UInt16) (ordered : List Property) : Prop :=
  ∀ lookup ∈ m.lookups, lookup.sizeUse ≠ .dropped → ∀ p ∈ ordered,
    getPropertyName p = lookup.name → p.FixedSize pointerSize

/-- The record has the offsets of the event, and the sizes that the constructor keeps. -/
def Fits (m : EventMember) (wec : WmiEventClass) (event : Event) (o : EventOffset) : Prop :=
  ∀ lookup ∈ m.lookups, ∃ info, wec.getPropertyInfo lookup.name event = .ok info ∧
    (o.fields lookup.name).offs = dword info.1 ∧
    (lookup.sizeUse ≠ .dropped → (o.fields lookup.name).size = dword info.2)

/-- After the earlier events, the constructor gets to the copies with a record that fits. -/
def DecodesAfter (m : EventMember) (wec : WmiEventClass) (earlier : List Event) (event : Event) :
    Prop :=
  ∃ o o', m.records wec {} earlier = .ok o ∧ m.locate wec event o = .ok (o', true) ∧
    m.Fits wec event o'

end EventMember

/-! ### Values -/

/-- Every kind has a value. -/
theorem Kind.exists_encodes (pointerSize : UInt16) (kind : Kind) :
    ∃ bytes, Encodes pointerSize kind bytes := by
  cases hlen : kind.length pointerSize with
  | some c => exact ⟨List.replicate c 0, .fixed (by rw [hlen, List.length_replicate])⟩
  | none =>
    cases kind with
    | sid => exact ⟨_, .noSid⟩
    | string isWideString =>
      cases isWideString with
      | false => exact ⟨_, @Encodes.narrow _ [] (by simp) (by simp)⟩
      | true => exact ⟨_, @Encodes.wide _ [] (by simp) (by simp)⟩
    | _ => cases hlen

/-- No value takes `2 ^ 17` bytes. -/
theorem Encodes.length_lt {pointerSize : UInt16} (hsize : pointerSize.toNat < 2 ^ 15) {kind : Kind}
    {bytes : List UInt8} (h : Encodes pointerSize kind bytes) : bytes.length < 2 ^ 17 := by
  cases h with
  | fixed hlength => cases kind <;> simp [Kind.length] at hlength <;> omega
  | narrow _ hlen =>
    rw [List.length_append, List.length_singleton]
    omega
  | wide _ hlen =>
    rw [List.length_append, length_encodeWide, List.length_cons, List.length_singleton]
    omega
  | noSid => simp
  | sid hheader _ _ hcount hbody =>
    have := UInt8.le_iff_toNat_le.mp hcount
    simp only [List.length_append, List.length_cons, hheader, hbody]
    have h15 : (15 : UInt8).toNat = 15 := rfl
    omega

/-- A kind has values of one length only exactly if it has a length. -/
theorem Kind.fixed_iff {pointerSize : UInt16} (hsize : 2 ≤ pointerSize.toNat) {kind : Kind} :
    (∃ c, kind.length pointerSize = some c) ↔ ∀ bytes bytes', Encodes pointerSize kind bytes →
      Encodes pointerSize kind bytes' → bytes.length = bytes'.length := by
  constructor
  · rintro ⟨c, hc⟩ bytes bytes' h h'
    rw [h.length_eq hc, h'.length_eq hc]
  · intro hall
    cases hlen : kind.length pointerSize with
    | some c => exact ⟨c, rfl⟩
    | none =>
      cases kind with
      | sid =>
        -- A SID is longer than the zero `ULONG`.
        have hsid : Encodes pointerSize .sid
            (List.replicate (2 * pointerSize.toNat) 1 ++ 0 :: 0 :: List.replicate 6 0) := by
          refine .sid (by simp) (by simp; omega) ?_ (by decide) (by simp)
          rw [List.take_replicate, Nat.min_eq_left (by omega)]
          decide
        have hsame := hall _ _ .noSid hsid
        simp only [List.length_append, List.length_replicate, List.length_cons,
          List.length_nil] at hsame
        omega
      | string isWideString =>
        cases isWideString with
        | false =>
          have hempty : Encodes pointerSize (.string false) _ :=
            @Encodes.narrow _ [] (by simp) (by simp)
          have hone : Encodes pointerSize (.string false) _ :=
            @Encodes.narrow _ [1] (by simp) (by simp)
          simpa using hall _ _ hempty hone
        | true =>
          have hempty : Encodes pointerSize (.string true) _ :=
            @Encodes.wide _ [] (by simp) (by simp)
          have hone : Encodes pointerSize (.string true) _ :=
            @Encodes.wide _ [1] (by simp) (by simp)
          simpa [encodeWide] using hall _ _ hempty hone
      | _ => cases hlen

/-- The values of a property have one length if its type fixes it. -/
theorem Property.fixedSize_iff {pointerSize : UInt16} (hsize : 2 ≤ pointerSize.toNat)
    {p : Property} (hkind : ∃ kind, p.kind = some kind) :
    p.FixedSize pointerSize ↔ ∀ bytes bytes', ValueOf pointerSize p bytes →
      ValueOf pointerSize p bytes' → bytes.length = bytes'.length := by
  obtain ⟨kind, hkind⟩ := hkind
  have hfixed : p.FixedSize pointerSize ↔ ∃ c, kind.length pointerSize = some c := by
    simp [Property.FixedSize, hkind]
  rw [hfixed, Kind.fixed_iff hsize]
  simp [ValueOf, hkind]

/-! ### What is looked up -/

namespace EventClass

variable {wec : WmiEventClass} {pClass ordered : List Property}

/-- A name is that of one property. -/
theorem index_inj {pointerSize : UInt16} (h : EventClass pointerSize pClass ordered) {j k : Nat}
    {p q : Property} (hj : ordered[j]? = some p) (hk : ordered[k]? = some q)
    (hname : getPropertyName p = getPropertyName q) : j = k := by
  have hnodup : (ordered.map getPropertyName).Nodup :=
    (h.perm.map getPropertyName).nodup_iff.mpr h.names
  have hlt : j < (ordered.map getPropertyName).length := by
    rw [List.length_map]
    exact (List.getElem?_eq_some_iff.mp hj).1
  have hsame : (ordered.map getPropertyName)[j]? = (ordered.map getPropertyName)[k]? := by
    rw [List.getElem?_map, List.getElem?_map, hj, hk]
    exact congrArg some hname
  exact (List.getElem?_inj hlt hnodup).mp hsame

/-- Every property has a value. -/
theorem values_exist {pointerSize : UInt16} (h : EventClass pointerSize pClass ordered) :
    ∀ p ∈ ordered, ∃ bytes, ValueOf pointerSize p bytes := by
  intro p hp
  obtain ⟨kind, hkind⟩ := h.kinds p hp
  obtain ⟨bytes, hbytes⟩ := kind.exists_encodes pointerSize
  exact ⟨bytes, kind, hkind, hbytes⟩

/-- Any values of the properties are the payload of an event. -/
theorem exists_event (hwec : Describes wec pClass)
    (h : EventClass wec.pointerSize pClass ordered) {encodings : List (List UInt8)}
    (hvalues : ValuesOf wec.pointerSize ordered encodings) :
    ∃ event : Event, event.mofData = encodings.flatten ∧
      HoldsValues wec.pointerSize ordered event := by
  have hlength : ∀ {ordered : List Property} {encodings : List (List UInt8)},
      ValuesOf wec.pointerSize ordered encodings →
        encodings.flatten.length ≤ ordered.length * 2 ^ 17 := by
    intro ordered encodings hvalues
    induction hvalues with
    | nil => exact Nat.zero_le _
    | cons hvalue _ ih =>
      obtain ⟨kind, -, hbytes⟩ := hvalue
      have := hbytes.length_lt hwec.pointerSize_lt
      rw [List.flatten_cons, List.length_append, List.length_cons]
      omega
  have hle := hlength hvalues
  have := h.few
  exact ⟨⟨encodings.flatten, by omega⟩, rfl, encodings, hvalues, rfl⟩

/-- `GetPropertyInfo` finds a property where its value starts. -/
theorem info (hwec : Describes wec pClass) (h : EventClass wec.pointerSize pClass ordered)
    {event : Event} {encodings : List (List UInt8)}
    (hvalues : ValuesOf wec.pointerSize ordered encodings)
    (hdata : event.mofData = encodings.flatten) {k : Nat} {p : Property}
    (hk : ordered[k]? = some p) :
    ∃ bytes, ValueOf wec.pointerSize p bytes ∧ encodings[k]? = some bytes ∧
      wec.getPropertyInfo (getPropertyName p) event =
        .ok (offset encodings k, bytes.length) := by
  obtain ⟨bytes, kind, hbytes, hkind, hencodes⟩ := hvalues.get hk
  refine ⟨bytes, ⟨kind, hkind, hencodes⟩, hbytes, ?_⟩
  rw [WmiEventClass.getPropertyInfo, hwec.eventClass]
  exact getPropertyInfo_encoded (hwec.calls _) (hwec.ipv6 _) hwec.pointerSize_pos
    hwec.pointerSize_lt ⟨h.perm, h.ids, h.notArray, h.names, hvalues⟩ hdata hk hbytes

/-- No value is empty, and an offset is a `DWORD`. -/
theorem offset_facts (hwec : Describes wec pClass) {event : Event}
    {encodings : List (List UInt8)} (hvalues : ValuesOf wec.pointerSize ordered encodings)
    (hdata : event.mofData = encodings.flatten) :
    (∀ bytes ∈ encodings, 0 < bytes.length) ∧
      ∀ k, (dword (offset encodings k)).toNat = offset encodings k := by
  constructor
  · intro bytes hmem
    obtain ⟨k, hk⟩ := List.mem_iff_getElem?.mp hmem
    have hlt := (List.getElem?_eq_some_iff.mp hk).1
    rw [← hvalues.length_eq] at hlt
    obtain ⟨bytes', kind, hbytes', -, hencodes⟩ := hvalues.get (List.getElem?_eq_getElem hlt)
    rw [hk] at hbytes'
    cases hbytes'
    exact hencodes.length_pos hwec.pointerSize_pos
  · intro k
    have hsize := event.size_lt
    have hle := offset_le encodings k
    rw [hdata] at hsize
    exact dword_toNat (by omega)

variable {m : EventMember}

/-- With a record that is not positioned, the constructor looks up everything in the event. -/
theorem locate (hwec : Describes wec pClass) (h : EventClass wec.pointerSize pClass ordered)
    (hm : m.AsksFor ordered) {event : Event} (hevent : HoldsValues wec.pointerSize ordered event)
    {o : EventOffset} (ho : o.isPositioned = false) :
    ∃ o', m.locate wec event o = .ok (o', true) ∧ m.Fits wec event o' ∧
      o'.isPositioned = m.positioned o' := by
  obtain ⟨encodings, hvalues, hdata⟩ := hevent
  -- Every property that is asked for is in the class, and a value has at least one byte.
  have hall : ∀ lookup ∈ m.lookups, ∃ info, 0 < info.2 ∧
      wec.getPropertyInfo lookup.name event = .ok info := by
    intro lookup hlookup
    obtain ⟨p, hp, hname⟩ := List.mem_map.mp (hm.found lookup hlookup)
    obtain ⟨k, hk⟩ := List.mem_iff_getElem?.mp hp
    obtain ⟨bytes, ⟨kind, -, hbytes⟩, -, hinfo⟩ := h.info hwec hvalues hdata hk
    have hpos := hbytes.length_pos hwec.pointerSize_pos
    rw [← hname]
    exact ⟨_, by simpa using hpos, hinfo⟩
  obtain ⟨o', hrun⟩ := (lookUpAll_total _ o).mpr fun lookup hlookup =>
    (hall lookup hlookup).imp fun _ hinfo => hinfo.2
  have hspec := (lookUpAll_spec _ m.names_nodup hrun).2.2.2
  -- So no tested size is 0.
  have hsizes : m.sizesFound o' = true := by
    rw [sizesFound_iff hrun]
    intro lookup hlookup _ hended
    obtain ⟨info, hpos, hinfo⟩ := hall lookup hlookup
    rw [getPropertyInfo_eq_ok_iff.mpr ⟨_, hended, rfl⟩] at hinfo
    rw [← Except.ok.inj hinfo] at hpos
    simp [Outcome.info] at hpos
  refine ⟨_, (locate_of_not_positioned ho hrun).trans (if_pos hsizes), ?_, rfl⟩
  intro lookup hlookup
  obtain ⟨info, hinfo, hfield⟩ := hspec lookup hlookup
  refine ⟨info, hinfo, ?_, fun hsize => ?_⟩
  · show (o'.fields lookup.name).offs = _
    rw [hfield]
    rfl
  · show (o'.fields lookup.name).size = _
    rw [hfield]
    simp [keptOf, hsize]

/-- A record that fits an event has the offset where the value starts. -/
theorem offs_toNat (hwec : Describes wec pClass) (h : EventClass wec.pointerSize pClass ordered)
    {event : Event} {encodings : List (List UInt8)}
    (hvalues : ValuesOf wec.pointerSize ordered encodings)
    (hdata : event.mofData = encodings.flatten) {o : EventOffset}
    (hfits : m.Fits wec event o) {lookup : Lookup} (hlookup : lookup ∈ m.lookups) {k : Nat}
    {p : Property} (hk : ordered[k]? = some p) (hname : getPropertyName p = lookup.name) :
    (o.fields lookup.name).offs.toNat = offset encodings k := by
  obtain ⟨info, hinfo, hoffs, -⟩ := hfits lookup hlookup
  obtain ⟨bytes, -, -, hinfo'⟩ := h.info hwec hvalues hdata hk
  rw [← hname, hinfo'] at hinfo
  cases hinfo
  rw [hoffs]
  exact (offset_facts hwec hvalues hdata).2 k

/-- The comparison of the offsets in one event decides about the order of the properties. -/
theorem positioned_iff (hwec : Describes wec pClass)
    (h : EventClass wec.pointerSize pClass ordered) (hm : m.AsksFor ordered) {event : Event}
    (hevent : HoldsValues wec.pointerSize ordered event) {o : EventOffset}
    (hfits : m.Fits wec event o) : m.positioned o = true ↔ m.Reuses ordered := by
  obtain ⟨encodings, hvalues, hdata⟩ := hevent
  unfold EventMember.positioned EventMember.Reuses
  cases hpos : m.positioning with
  | always => exact iff_of_true rfl (by simp)
  | behindTested name =>
    obtain ⟨last, hlast, hlastName⟩ := List.mem_map.mp (hm.positioning name hpos)
    obtain ⟨hbytes, -⟩ := offset_facts hwec hvalues hdata
    have hlt : ∀ (i : Nat) (p : Property), ordered[i]? = some p → i < encodings.length := by
      intro i p hi
      rw [← hvalues.length_eq]
      exact (List.getElem?_eq_some_iff.mp hi).1
    -- The offsets in the record are compared like the places in the class.
    have hcompare : ∀ lookup ∈ m.lookups, ∀ (j k : Nat) (p q : Property), ordered[j]? = some p →
        getPropertyName p = lookup.name → ordered[k]? = some q → getPropertyName q = name →
        ((o.fields lookup.name).offs < (o.fields name).offs ↔ j < k) := by
      intro lookup hlookup j k p q hj hp hk hq
      have hoffs := h.offs_toNat hwec hvalues hdata hfits hlookup hj hp
      have hoffs' := h.offs_toNat hwec hvalues hdata hfits hlast hk (hq.trans hlastName.symm)
      rw [hlastName] at hoffs'
      rw [UInt32.lt_iff_toNat_lt, hoffs, hoffs']
      exact offset_lt_iff hbytes (hlt j p hj) (hlt k q hk)
    obtain ⟨q, hq, hqname⟩ := List.mem_map.mp (hm.found last hlast)
    obtain ⟨k, hk⟩ := List.mem_iff_getElem?.mp hq
    simp only [List.all_eq_true, decide_eq_true_eq]
    constructor
    · intro hall name' hname' lookup hlookup htested j k p q hj hp hk hq
      cases hname'
      have := (hall lookup hlookup).resolve_left (fun hne => hne htested)
      exact (hcompare lookup hlookup j k p q hj hp hk hq).mp this
    · intro hall lookup hlookup
      by_cases htested : lookup.sizeUse = .tested
      · obtain ⟨p, hp, hpname⟩ := List.mem_map.mp (hm.found lookup hlookup)
        obtain ⟨j, hj⟩ := List.mem_iff_getElem?.mp hp
        have hjk := hall name rfl lookup hlookup htested j k p q hj hpname hk
          (hqname.trans hlastName)
        exact Or.inr ((hcompare lookup hlookup j k p q hj hpname hk
          (hqname.trans hlastName)).mpr hjk)
      · exact Or.inl htested

/-- If nothing of varying size stands in front, the offsets of one event are those of the next. So
are the sizes that do not vary. -/
theorem fits_next (hwec : Describes wec pClass) (hsize : 2 ≤ wec.pointerSize.toNat)
    (h : EventClass wec.pointerSize pClass ordered) (hm : m.AsksFor ordered)
    (hfront : m.FixedInFront wec.pointerSize ordered)
    (hfixed : m.FixedSizes wec.pointerSize ordered) {event event' : Event}
    (hevent : HoldsValues wec.pointerSize ordered event)
    (hevent' : HoldsValues wec.pointerSize ordered event') {o : EventOffset}
    (hfits : m.Fits wec event o) : m.Fits wec event' o := by
  obtain ⟨encodings, hvalues, hdata⟩ := hevent
  obtain ⟨encodings', hvalues', hdata'⟩ := hevent'
  intro lookup hlookup
  obtain ⟨p, hp, hname⟩ := List.mem_map.mp (hm.found lookup hlookup)
  obtain ⟨k, hk⟩ := List.mem_iff_getElem?.mp hp
  obtain ⟨info, hinfo, hoffs, hkept⟩ := hfits lookup hlookup
  obtain ⟨bytes, hvalue, -, hinfo₁⟩ := h.info hwec hvalues hdata hk
  obtain ⟨bytes', hvalue', -, hinfo₂⟩ := h.info hwec hvalues' hdata' hk
  rw [← hname, hinfo₁] at hinfo
  cases hinfo
  rw [hname] at hinfo₂
  refine ⟨_, hinfo₂, ?_, fun hdropped => ?_⟩
  · -- The pieces in front have the same lengths in both events.
    have hsame := (offset_eq_iff h.values_exist k).mpr (fun q hq =>
      (Property.fixedSize_iff hsize (h.kinds q (List.mem_of_mem_take hq))).mp
        (hfront lookup hlookup k p hk hname q hq)) _ _ hvalues hvalues'
    rw [hoffs, hsame]
  · -- So has the property itself, if its size is kept.
    have hlength := (Property.fixedSize_iff hsize (h.kinds p hp)).mp
      (hfixed lookup hlookup hdropped p hp hname) _ _ hvalue hvalue'
    rw [hkept hdropped, hlength]

/-! ### Runs -/

/-- Once the record is positioned, it fits every event of the class. -/
def Serves (wec : WmiEventClass) (ordered : List Property) (m : EventMember) (o : EventOffset) :
    Prop :=
  o.isPositioned = true → ∀ event, HoldsValues wec.pointerSize ordered event → m.Fits wec event o

section
variable (hwec : Describes wec pClass) (hsize : 2 ≤ wec.pointerSize.toNat)
  (h : EventClass wec.pointerSize pClass ordered) (hm : m.AsksFor ordered)
  (hfront : m.Reuses ordered →
    m.FixedInFront wec.pointerSize ordered ∧ m.FixedSizes wec.pointerSize ordered)

include hwec hsize h hm hfront

/-- The constructor gets to the copies with a record that fits, and leaves one for the next. -/
theorem Serves.locate {o : EventOffset} (ho : Serves wec ordered m o) {event : Event}
    (hevent : HoldsValues wec.pointerSize ordered event) :
    ∃ o', m.locate wec event o = .ok (o', true) ∧ m.Fits wec event o' ∧
      Serves wec ordered m o' := by
  cases hpos : o.isPositioned with
  | true => exact ⟨o, by simp [EventMember.locate, hpos], ho hpos event hevent, ho⟩
  | false =>
    obtain ⟨o', hlocate, hfits, hpositioned⟩ := h.locate hwec hm hevent hpos
    refine ⟨o', hlocate, hfits, fun hpos' event' hevent' => ?_⟩
    rw [hpositioned, h.positioned_iff hwec hm hevent hfits] at hpos'
    exact h.fits_next hwec hsize hm (hfront hpos').1 (hfront hpos').2 hevent hevent' hfits

/-- The record goes on serving while events are decoded. -/
theorem Serves.records (events : List Event) : ∀ {o : EventOffset}, Serves wec ordered m o →
    (∀ event ∈ events, HoldsValues wec.pointerSize ordered event) →
      ∃ o', m.records wec o events = .ok o' ∧ Serves wec ordered m o' := by
  induction events with
  | nil =>
    intro o ho _
    exact ⟨o, rfl, ho⟩
  | cons event events ih =>
    intro o ho hevents
    obtain ⟨o₁, hlocate, -, ho₁⟩ :=
      Serves.locate hwec hsize h hm hfront ho (hevents event List.mem_cons_self)
    obtain ⟨o', hrecords, ho'⟩ := ih ho₁ fun e he => hevents e (List.mem_cons_of_mem event he)
    exact ⟨o', by simp only [EventMember.records, hlocate, hrecords], ho'⟩

end

/-- A second event is decoded with the record that fits the first one. -/
theorem fits_of_decodes (hwec : Describes wec pClass)
    (h : EventClass wec.pointerSize pClass ordered) (hm : m.AsksFor ordered)
    (hreuses : m.Reuses ordered) {event event' : Event}
    (hevent : HoldsValues wec.pointerSize ordered event)
    (hdecodes : m.DecodesAfter wec [event] event') :
    ∃ o, m.Fits wec event o ∧ m.Fits wec event' o := by
  obtain ⟨o₁, hlocate, hfits, hpositioned⟩ := h.locate hwec hm hevent (o := {}) rfl
  have hpos : o₁.isPositioned = true :=
    hpositioned.trans ((h.positioned_iff hwec hm hevent hfits).mpr hreuses)
  obtain ⟨o, o', hrecords, hlocate', hfits'⟩ := hdecodes
  -- The record is that of the first event, and the constructor takes it as it is.
  simp only [EventMember.records, hlocate, Except.ok.injEq] at hrecords
  subst hrecords
  simp only [EventMember.locate, hpos, if_true, Except.ok.injEq, Prod.mk.injEq, and_true]
    at hlocate'
  subst hlocate'
  exact ⟨o₁, hfits, hfits'⟩

/-- Two events that are decoded with one record have everything at the same offsets. -/
theorem offset_eq_of_fits (hwec : Describes wec pClass)
    (h : EventClass wec.pointerSize pClass ordered) {event event' : Event}
    {encodings encodings' : List (List UInt8)}
    (hvalues : ValuesOf wec.pointerSize ordered encodings)
    (hdata : event.mofData = encodings.flatten)
    (hvalues' : ValuesOf wec.pointerSize ordered encodings')
    (hdata' : event'.mofData = encodings'.flatten) {o : EventOffset}
    (hfits : m.Fits wec event o) (hfits' : m.Fits wec event' o) {lookup : Lookup}
    (hlookup : lookup ∈ m.lookups) {k : Nat} {p : Property} (hk : ordered[k]? = some p)
    (hname : getPropertyName p = lookup.name) : offset encodings k = offset encodings' k := by
  rw [← h.offs_toNat hwec hvalues hdata hfits hlookup hk hname,
    ← h.offs_toNat hwec hvalues' hdata' hfits' hlookup hk hname]

/-- A record that fits an event has the size of the value, if it is kept. -/
theorem size_toNat (hwec : Describes wec pClass) (h : EventClass wec.pointerSize pClass ordered)
    {event : Event} {encodings : List (List UInt8)}
    (hvalues : ValuesOf wec.pointerSize ordered encodings)
    (hdata : event.mofData = encodings.flatten) {o : EventOffset} (hfits : m.Fits wec event o)
    {lookup : Lookup} (hlookup : lookup ∈ m.lookups) (hkept : lookup.sizeUse ≠ .dropped) {k : Nat}
    {p : Property} (hk : ordered[k]? = some p) (hname : getPropertyName p = lookup.name) :
    ∃ bytes, encodings[k]? = some bytes ∧ (o.fields lookup.name).size.toNat = bytes.length := by
  obtain ⟨info, hinfo, -, hsize⟩ := hfits lookup hlookup
  obtain ⟨bytes, ⟨kind, -, hencodes⟩, hbytes, hinfo'⟩ := h.info hwec hvalues hdata hk
  rw [← hname, hinfo'] at hinfo
  cases hinfo
  have hlt := hencodes.length_lt hwec.pointerSize_lt
  refine ⟨bytes, hbytes, ?_⟩
  rw [hsize hkept]
  exact dword_toNat (by omega)

end EventClass

/-! ### Main result -/

/-- A constructor decodes every event of every run over a class with the right offsets and sizes
exactly if it never takes them from an earlier event, or no property of varying size stands in front
of one that it looks up or has its size kept. -/
theorem EventMember.reuse_iff {m : EventMember} {wec : WmiEventClass}
    {pClass ordered : List Property} (hwec : Describes wec pClass)
    (hsize : 2 ≤ wec.pointerSize.toNat) (h : EventClass wec.pointerSize pClass ordered)
    (hm : m.AsksFor ordered) :
    (∀ (earlier : List Event) (event : Event),
      (∀ e ∈ earlier ++ [event], HoldsValues wec.pointerSize ordered e) →
        m.DecodesAfter wec earlier event) ↔
      (m.Reuses ordered →
        m.FixedInFront wec.pointerSize ordered ∧ m.FixedSizes wec.pointerSize ordered) := by
  constructor
  · intro hall hreuses
    constructor
    · intro lookup hlookup k p hk hname q hq
      have hkind := h.kinds q (List.mem_of_mem_take hq)
      rw [Property.fixedSize_iff hsize hkind]
      refine (offset_eq_iff h.values_exist k).mp (fun values values' hv hv' => ?_) q hq
      obtain ⟨event, hdata, hevent⟩ := h.exists_event hwec hv
      obtain ⟨event', hdata', hevent'⟩ := h.exists_event hwec hv'
      obtain ⟨o, hfits, hfits'⟩ := h.fits_of_decodes hwec hm hreuses hevent
        (hall [event] event' (by simp [hevent, hevent']))
      exact h.offset_eq_of_fits hwec hv hdata hv' hdata' hfits hfits' hlookup hk hname
    · intro lookup hlookup hkept p hp hname
      rw [Property.fixedSize_iff hsize (h.kinds p hp)]
      intro bytes bytes' hbytes hbytes'
      -- Two events that differ in the value of this property only.
      obtain ⟨k, hk⟩ := List.mem_iff_getElem?.mp hp
      obtain ⟨values, hv, hget⟩ := exists_values_at h.values_exist hk hbytes
      obtain ⟨values', hv', hget'⟩ := exists_values_at h.values_exist hk hbytes'
      obtain ⟨event, hdata, hevent⟩ := h.exists_event hwec hv
      obtain ⟨event', hdata', hevent'⟩ := h.exists_event hwec hv'
      obtain ⟨o, hfits, hfits'⟩ := h.fits_of_decodes hwec hm hreuses hevent
        (hall [event] event' (by simp [hevent, hevent']))
      obtain ⟨b, hb, hlen⟩ := h.size_toNat hwec hv hdata hfits hlookup hkept hk hname
      obtain ⟨b', hb', hlen'⟩ := h.size_toNat hwec hv' hdata' hfits' hlookup hkept hk hname
      rw [hget] at hb
      rw [hget'] at hb'
      obtain rfl := Option.some.inj hb
      obtain rfl := Option.some.inj hb'
      exact hlen.symm.trans hlen'
  · intro hfront earlier event hevents
    have hfresh : EventClass.Serves wec ordered m {} := fun hpos => by cases hpos
    obtain ⟨o, hrecords, ho⟩ := EventClass.Serves.records hwec hsize h hm hfront earlier hfresh
      fun e he => hevents e (List.mem_append_left _ he)
    obtain ⟨o', hlocate, hfits, -⟩ := EventClass.Serves.locate hwec hsize h hm hfront ho
      (hevents event (List.mem_append_right _ (List.mem_singleton.mpr rfl)))
    exact ⟨o, o', hrecords, hlocate, hfits⟩

/-- `FileIo_Name`. -/
def nameWmi : WmiEventClass := ⟨fun _ => quietHost, 8, some [fileObject, fileName]⟩

/-- An event for a file name. -/
def nameEvent (chars : WString) (h : chars.length < 100) : Event where
  mofData := [1, 0, 0, 0, 0, 0, 0, 0] ++ (encodeWide chars ++ [0, 0])
  size_lt := by
    simp only [List.length_append, length_encodeWide, List.length_cons, List.length_nil]
    omega

/-- The class of Name events has two properties. -/
theorem eventClass_name : EventClass 8 [fileObject, fileName] [fileObject, fileName] where
  perm := .refl _
  ids := by
    intro k p hk
    rcases k with _ | _ | k
    all_goals cases hk
    all_goals rfl
  notArray := by decide
  names := by decide
  kinds := by
    intro p hp
    rcases List.mem_pair.mp hp with rfl | rfl
    · exact ⟨.pointer, rfl⟩
    · exact ⟨.string true, rfl⟩
  few := by decide

/-- A payload with any name of up to 99 characters. -/
theorem holdsValues_name {chars : WString} (h : chars.length < 100) (hzero : 0 ∉ chars) :
    HoldsValues 8 [fileObject, fileName] (nameEvent chars h) := by
  refine ⟨[[1, 0, 0, 0, 0, 0, 0, 0], encodeWide chars ++ [0, 0]], ?_, ?_⟩
  · exact .cons ⟨.pointer, rfl, .fixed rfl⟩
      (.cons ⟨.string true, rfl, .wide hzero (by omega)⟩ .nil)
  · simp [nameEvent]

/-- `FileIo_Name` has the string at its end: the second event is decoded with the record of the
first one. -/
theorem EventMember.decodes_fileIoName :
    fileIoNameEventMember.DecodesAfter nameWmi [nameEvent [65] (by decide)]
      (nameEvent [65, 66, 67] (by decide)) := by
  have hwec : Describes nameWmi [fileObject, fileName] :=
    ⟨rfl, fun _ _ => rfl, fun _ => rfl, by decide, by decide⟩
  have hasks : fileIoNameEventMember.AsksFor [fileObject, fileName] := by
    refine ⟨by decide, fun name hname => ?_⟩
    cases hname
    decide
  have hobject : fileObject.FixedSize 8 := ⟨.pointer, 8, rfl, rfl⟩
  refine (EventMember.reuse_iff hwec (by decide) eventClass_name hasks).mpr
    (fun _ => ⟨?_, ?_⟩) _ _ ?_
  · -- In front of the string stands a pointer, and in front of the pointer nothing.
    intro lookup _ k p hk _ q hq
    rcases k with _ | _ | k
    · cases hq
    · rw [List.mem_singleton.mp hq]
      exact hobject
    · cases hk
  · -- Of the string only the offset is kept.
    intro lookup hlookup hkept p hp hname
    rcases List.mem_pair.mp hlookup with rfl | rfl
    · rcases List.mem_pair.mp hp with rfl | rfl
      · exact hobject
      · exact absurd hname (by decide)
    · exact absurd rfl hkept
  · intro e he
    rcases List.mem_pair.mp he with rfl | rfl
    · exact holdsValues_name (by decide) (by decide)
    · exact holdsValues_name (by decide) (by decide)

end KernelEventsTrace.EtwService
