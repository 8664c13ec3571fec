import KernelEventsTrace.Proofs.Etw.MissingProperty
import KernelEventsTrace.Proofs.Etw.PropertyInfo

/-!
# `KernelEventsTrace.Proofs.Etw.OffsetCache`: offsets that are used again

`FileIoCreateEventMember` takes the offsets of an earlier event, once the record says that they are
positioned. The string `OpenPath` has another length in every event, so this is right only if no
property follows it. `openPath_last` says that the comparison of the offsets makes sure of that,
whatever the order of the properties is.

`fileIoCreate_transparent` is the result: in a run over events of the class, every event is decoded
with the shared record as it would be with a fresh one.
-/

set_option autoImplicit false

namespace KernelEventsTrace.EtwService

/-! ### Specification -/

/-- The properties of `FileIo_Create`, `ordered` by their ids `1, …, 7`: the string `OpenPath` and
six others of fixed size. -/
structure CreateClass (pointerSize : UInt16) (pClass ordered : List Property) : Prop where
  perm : ordered.Perm pClass
  ids : ∀ (k : Nat) (p : Property), ordered[k]? = some p →
    p.qualifiers.wmiDataId = some ((k : Int) + 1)
  notArray : ∀ p ∈ pClass, p.dataType.isArray = false
  names : (ordered.map getPropertyName).Perm (fileIoCreateEventMember.lookups.map Lookup.name)
  fixed : ∀ p ∈ ordered, getPropertyName p ≠ wide "OpenPath" →
    ∃ kind c, p.kind = some kind ∧ kind.length pointerSize = some c
  openPath : ∀ p ∈ ordered, getPropertyName p = wide "OpenPath" →
    ∃ isWideString, p.kind = some (.string isWideString)

/-- The encodings are values of the properties. -/
def ValuesOf (pointerSize : UInt16) (ordered : List Property) (encodings : List (List UInt8)) :
    Prop :=
  List.Forall₂ (fun p bytes => ∃ kind, p.kind = some kind ∧ Encodes pointerSize kind bytes)
    ordered encodings

/-- The payload of the event holds values of the properties. -/
def HoldsValues (pointerSize : UInt16) (ordered : List Property) (event : Event) : Prop :=
  ∃ encodings, ValuesOf pointerSize ordered encodings ∧ event.mofData = encodings.flatten

/-- No property follows `OpenPath`. -/
def OpenPathLast (ordered : List Property) : Prop :=
  (ordered.map getPropertyName).getLast? = some (wide "OpenPath")

/-- WMI answers about the class, and no call fails. -/
structure Describes (wec : WmiEventClass) (pClass : List Property) : Prop where
  eventClass : wec.eventClass = some pClass
  calls : ∀ propertyName call, (wec.host propertyName).fails call = false
  ipv6 : ∀ propertyName, (wec.host propertyName).ipv6Missing = false
  /-- `sizeof(PVOID)`. -/
  pointerSize_pos : 0 < wec.pointerSize.toNat
  pointerSize_lt : wec.pointerSize.toNat < 2 ^ 15

/-- The decoded fields of a Create event. -/
def FileIoCreateEventMember.decode (wec : WmiEventClass) (event : Event) (o : EventOffset) :
    Except EventFault FileIoCreateEventMember :=
  (FileIoCreateEventMember.construct wec event o).map Prod.fst

/-- The record has what `GetPropertyInfo` returns for the event. -/
def FitsEvent (wec : WmiEventClass) (event : Event) (o : EventOffset) : Prop :=
  ∀ lookup ∈ fileIoCreateEventMember.lookups, ∃ info,
    wec.getPropertyInfo lookup.name event = .ok info ∧
      (o.fields lookup.name).offs = dword info.1 ∧
      (lookup.sizeUse = .tested → (o.fields lookup.name).size = dword info.2)

/-! ### Values of the properties -/

/-- A number of 32 bits stays one in a `DWORD`. -/
theorem dword_toNat {n : Nat} (h : n < 2 ^ 32) : (dword n).toNat = n := by
  simp only [dword, UInt32.toNat_ofNat']
  omega

/-- The encodings before a position grow with it. -/
theorem length_flatten_take_mono (l : List (List UInt8)) {j k : Nat} (h : j ≤ k) :
    (l.take j).flatten.length ≤ (l.take k).flatten.length := by
  have hsplit : l.take k = l.take j ++ (l.drop j).take (k - j) := by
    rw [← List.take_add, Nat.add_sub_cancel' h]
  rw [hsplit, List.flatten_append, List.length_append]
  exact Nat.le_add_right _ _

/-- The value of the property at a position. -/
theorem ValuesOf.get {pointerSize : UInt16} {ordered : List Property}
    {encodings : List (List UInt8)} (h : ValuesOf pointerSize ordered encodings) :
    ∀ {k : Nat} {p : Property}, ordered[k]? = some p →
      ∃ bytes kind, encodings[k]? = some bytes ∧ p.kind = some kind ∧
        Encodes pointerSize kind bytes := by
  induction h with
  | nil =>
    intro k p hk
    cases hk
  | @cons q bytes ordered encodings hvalue hvalues ih =>
    intro k p hk
    cases k with
    | zero =>
      rcases hvalue with ⟨kind, hkind, hbytes⟩
      cases hk
      exact ⟨bytes, kind, rfl, hkind, hbytes⟩
    | succ k => exact ih hk

/-- Two values of a property of fixed size have the same length. -/
theorem length_eq_of_fixed {pointerSize : UInt16} {p : Property} {kind kind' : Kind}
    {bytes bytes' : List UInt8}
    (hfixed : ∃ kind c, p.kind = some kind ∧ kind.length pointerSize = some c)
    (hkind : p.kind = some kind) (hbytes : Encodes pointerSize kind bytes)
    (hkind' : p.kind = some kind') (hbytes' : Encodes pointerSize kind' bytes') :
    bytes.length = bytes'.length := by
  rcases hfixed with ⟨fixedKind, c, hp, hc⟩
  rw [hp] at hkind hkind'
  cases hkind
  cases hkind'
  rw [hbytes.length_eq hc, hbytes'.length_eq hc]

/-- As long as no string comes, the values in two events have the same lengths. -/
theorem length_take_eq {pointerSize : UInt16} {ordered : List Property}
    {encodings : List (List UInt8)} (h : ValuesOf pointerSize ordered encodings) :
    ∀ {encodings' : List (List UInt8)}, ValuesOf pointerSize ordered encodings' →
      (∀ p ∈ ordered, getPropertyName p ≠ wide "OpenPath" →
        ∃ kind c, p.kind = some kind ∧ kind.length pointerSize = some c) →
      ∀ k, (∀ p ∈ ordered.take k, getPropertyName p ≠ wide "OpenPath") →
        (encodings.take k).flatten.length = (encodings'.take k).flatten.length := by
  induction h with
  | nil =>
    intro encodings' h' _ k _
    cases h'
    rfl
  | @cons p bytes ordered encodings hvalue hvalues ih =>
    intro encodings' h' hfixed k hk
    cases h' with
    | @cons _ bytes' _ encodings' hvalue' hvalues' =>
      cases k with
      | zero => rfl
      | succ k =>
        rcases hvalue with ⟨kind, hkind, hbytes⟩
        rcases hvalue' with ⟨kind', hkind', hbytes'⟩
        have hfirst := length_eq_of_fixed (hfixed p (by simp) (hk p (by simp))) hkind hbytes
          hkind' hbytes'
        have hrest := ih hvalues' (fun q hq => hfixed q (List.mem_cons_of_mem _ hq)) k
          fun q hq => hk q (List.mem_cons_of_mem _ hq)
        simp only [List.take_succ_cons, List.flatten_cons, List.length_append, hfirst, hrest]

/-! ### What is looked up -/

section
variable {wec : WmiEventClass} {pClass ordered : List Property}

/-- The properties have the names that the constructor asks for, each once. -/
theorem CreateClass.names_nodup (hclass : CreateClass wec.pointerSize pClass ordered) :
    (ordered.map getPropertyName).Nodup :=
  hclass.names.nodup_iff.mpr fileIoCreateEventMember.names_nodup

/-- A property is determined by its name. -/
theorem CreateClass.index_inj (hclass : CreateClass wec.pointerSize pClass ordered) {j k : Nat}
    {p q : Property} (hj : ordered[j]? = some p) (hk : ordered[k]? = some q)
    (hname : getPropertyName p = getPropertyName q) : j = k := by
  have hlt : j < (ordered.map getPropertyName).length := by
    rw [List.length_map]
    exact (List.getElem?_eq_some_iff.mp hj).1
  have hsame : (ordered.map getPropertyName)[j]? = (ordered.map getPropertyName)[k]? := by
    rw [List.getElem?_map, List.getElem?_map, hj, hk]
    exact congrArg some hname
  exact (List.getElem?_inj hlt hclass.names_nodup).mp hsame

/-- The values of the class, one after the other, are an encoded payload. -/
theorem CreateClass.encoded (hclass : CreateClass wec.pointerSize pClass ordered)
    {encodings : List (List UInt8)} (hvalues : ValuesOf wec.pointerSize ordered encodings) :
    EncodedClass wec.pointerSize pClass ordered encodings where
  perm := hclass.perm
  ids := hclass.ids
  notArray := hclass.notArray
  names := (hclass.perm.map getPropertyName).nodup_iff.mp hclass.names_nodup
  values := hvalues

/-- Every property that the constructor asks for is found. -/
theorem CreateClass.lookUp (hwec : Describes wec pClass)
    (hclass : CreateClass wec.pointerSize pClass ordered) {event : Event}
    {encodings : List (List UInt8)} (hvalues : ValuesOf wec.pointerSize ordered encodings)
    (hdata : event.mofData = encodings.flatten) {lookup : Lookup}
    (hlookup : lookup ∈ fileIoCreateEventMember.lookups) :
    ∃ k p bytes kind, ordered[k]? = some p ∧ getPropertyName p = lookup.name ∧
      p.kind = some kind ∧ Encodes wec.pointerSize kind bytes ∧ encodings[k]? = some bytes ∧
      wec.getPropertyInfo lookup.name event =
        .ok ((encodings.take k).flatten.length, bytes.length) := by
  have hname : lookup.name ∈ ordered.map getPropertyName :=
    hclass.names.mem_iff.mpr (List.mem_map_of_mem hlookup)
  rcases List.mem_map.mp hname with ⟨p, hp, hpname⟩
  rcases List.mem_iff_getElem?.mp hp with ⟨k, hk⟩
  rcases hvalues.get hk with ⟨bytes, kind, hbytes, hkind, hencodes⟩
  refine ⟨k, p, bytes, kind, hk, hpname, hkind, hencodes, hbytes, ?_⟩
  rw [WmiEventClass.getPropertyInfo, hwec.eventClass, ← hpname]
  exact getPropertyInfo_encoded (hwec.calls _) (hwec.ipv6 _) hwec.pointerSize_pos
    hwec.pointerSize_lt (hclass.encoded hvalues) hdata hk hbytes

/-- The constructor locates the properties of the event. -/
theorem CreateClass.locate (hwec : Describes wec pClass)
    (hclass : CreateClass wec.pointerSize pClass ordered) {event : Event}
    (hevent : HoldsValues wec.pointerSize ordered event) {o : EventOffset}
    (ho : o.isPositioned = false) :
    ∃ o', fileIoCreateEventMember.locate wec event o = .ok (o', true) ∧
      FitsEvent wec event o' ∧
      o'.isPositioned = fileIoCreateEventMember.positioned o' := by
  rcases hevent with ⟨encodings, hvalues, hdata⟩
  have hall : ∀ lookup ∈ fileIoCreateEventMember.lookups, ∃ info,
      wec.getPropertyInfo lookup.name event = .ok info := by
    intro lookup hlookup
    rcases hclass.lookUp hwec hvalues hdata hlookup with ⟨k, p, bytes, kind, _, _, _, _, _, hinfo⟩
    exact ⟨_, hinfo⟩
  rcases (lookUpAll_total _ o).mpr hall with ⟨o', hrun⟩
  have hspec := lookUpAll_spec _ fileIoCreateEventMember.names_nodup hrun
  have hsizes : fileIoCreateEventMember.sizesFound o' = true := by
    rw [sizesFound_iff hrun]
    intro lookup hlookup _ hended
    rcases hclass.lookUp hwec hvalues hdata hlookup with
      ⟨k, p, bytes, kind, _, _, _, hencodes, _, hinfo⟩
    rw [getPropertyInfo_eq_ok_iff.mpr ⟨_, hended, rfl⟩] at hinfo
    have hpos := hencodes.length_pos hwec.pointerSize_pos
    have hzero := congrArg Prod.snd (Except.ok.inj hinfo)
    simp only [Outcome.info] at hzero
    omega
  refine ⟨_, (locate_of_not_positioned ho hrun).trans (if_pos hsizes), ?_, rfl⟩
  intro lookup hlookup
  rcases hspec.2.2.2 lookup hlookup with ⟨info, hinfo, hfield⟩
  refine ⟨info, hinfo, ?_, ?_⟩
  · show (o'.fields lookup.name).offs = _
    rw [hfield]
    rfl
  · intro htested
    show (o'.fields lookup.name).size = _
    rw [hfield]
    simp [keptOf, htested]

/-- If all other properties stand before it, `OpenPath` is the last one. -/
theorem CreateClass.openPathLast (hclass : CreateClass wec.pointerSize pClass ordered) {j : Nat}
    {q : Property} (hj : ordered[j]? = some q) (hq : getPropertyName q = wide "OpenPath")
    (hbefore : ∀ k p, ordered[k]? = some p → getPropertyName p ≠ wide "OpenPath" → k < j) :
    OpenPathLast ordered := by
  have hlength : j + 1 = ordered.length := by
    have hjlt := (List.getElem?_eq_some_iff.mp hj).1
    by_contra hne
    -- The next property would be another `OpenPath`, or stand before this one.
    have hlt : j + 1 < ordered.length := by omega
    have hnext := List.getElem?_eq_getElem hlt
    by_cases hname : getPropertyName ordered[j + 1] = wide "OpenPath"
    · have := hclass.index_inj hj hnext (hq.trans hname.symm)
      omega
    · have := hbefore (j + 1) _ hnext hname
      omega
  rw [OpenPathLast, List.getLast?_eq_getElem?, List.length_map, ← hlength, Nat.add_sub_cancel,
    List.getElem?_map, hj]
  exact congrArg some hq

/-- Every lookup but the one of `OpenPath` is compared with it. -/
theorem sizeUse_tested {lookup : Lookup} (h : lookup ∈ fileIoCreateEventMember.lookups)
    (hname : lookup.name ≠ wide "OpenPath") : lookup.sizeUse = .tested := by
  have hall : ∀ lookup ∈ fileIoCreateEventMember.lookups,
      lookup.name ≠ wide "OpenPath" → lookup.sizeUse = .tested := by decide
  exact hall lookup h hname

/-- Positioned offsets are used again only if no property follows `OpenPath`. -/
theorem openPath_last (hwec : Describes wec pClass)
    (hclass : CreateClass wec.pointerSize pClass ordered) {event : Event}
    (hevent : HoldsValues wec.pointerSize ordered event) {o : EventOffset}
    (hfits : FitsEvent wec event o) (hpositioned : fileIoCreateEventMember.positioned o = true) :
    OpenPathLast ordered := by
  rcases hevent with ⟨encodings, hvalues, hdata⟩
  have hsize := event.size_lt
  rw [hdata] at hsize
  have hoffset : ∀ k, (encodings.take k).flatten.length < 2 ^ 31 := by
    intro k
    have hle := length_flatten_take_mono encodings (Nat.le_max_left k encodings.length)
    rw [List.take_of_length_le (Nat.le_max_right k encodings.length)] at hle
    omega
  have hopen : offsetOnly "OpenPath" ∈ fileIoCreateEventMember.lookups := by decide
  rcases hclass.lookUp hwec hvalues hdata hopen with ⟨j, q, _, _, hj, hq, _, _, _, hinfo⟩
  rcases hfits _ hopen with ⟨_, hinfo', hoffs, _⟩
  rw [hinfo] at hinfo'
  cases hinfo'
  -- Every other property has a smaller offset, so it stands before `OpenPath`.
  have hbefore : ∀ k p, ordered[k]? = some p → getPropertyName p ≠ wide "OpenPath" → k < j := by
    intro k p hk hp
    have hmem : getPropertyName p ∈ fileIoCreateEventMember.lookups.map Lookup.name :=
      hclass.names.mem_iff.mp (List.mem_map_of_mem (List.mem_of_getElem? hk))
    rcases List.mem_map.mp hmem with ⟨lookup, hlookup, hname⟩
    have htested : lookup.sizeUse = .tested :=
      sizeUse_tested hlookup fun heq => hp (hname.symm.trans heq)
    have hlt : (o.fields lookup.name).offs < (o.fields (wide "OpenPath")).offs := by
      have hall := List.all_eq_true.mp hpositioned lookup hlookup
      simpa [htested] using hall
    rcases hclass.lookUp hwec hvalues hdata hlookup with
      ⟨k', p', _, _, hk', hp', _, _, _, hinfo'⟩
    obtain rfl := hclass.index_inj hk' hk (hp'.trans hname)
    rcases hfits lookup hlookup with ⟨_, hinfo'', hoffs', _⟩
    rw [hinfo'] at hinfo''
    cases hinfo''
    rw [hoffs', show (o.fields (wide "OpenPath")).offs = _ from hoffs, UInt32.lt_iff_toNat_lt,
      dword_toNat (by have := hoffset k'; omega), dword_toNat (by have := hoffset j; omega)] at hlt
    by_contra hge
    have := length_flatten_take_mono encodings (Nat.le_of_not_lt hge)
    omega
  exact hclass.openPathLast hj hq hbefore

/-- If no property follows `OpenPath`, the offsets of one event are those of every other. -/
theorem OpenPathLast.fits (hlast : OpenPathLast ordered) (hwec : Describes wec pClass)
    (hclass : CreateClass wec.pointerSize pClass ordered) {event event' : Event}
    (hevent : HoldsValues wec.pointerSize ordered event)
    (hevent' : HoldsValues wec.pointerSize ordered event') {o : EventOffset}
    (hfits : FitsEvent wec event o) : FitsEvent wec event' o := by
  rcases hevent with ⟨encodings, hvalues, hdata⟩
  rcases hevent' with ⟨encodings', hvalues', hdata'⟩
  -- Names do not repeat, so `OpenPath` is not among those before the last one.
  have hfront : ∀ k, k < ordered.length →
      ∀ p ∈ ordered.take k, getPropertyName p ≠ wide "OpenPath" := by
    intro k hk p hp hname
    rcases List.mem_iff_getElem?.mp hp with ⟨i, hi⟩
    have hik : i < k := by
      have := (List.getElem?_eq_some_iff.mp hi).1
      rw [List.length_take] at this
      omega
    rw [List.getElem?_take_of_lt hik] at hi
    rw [OpenPathLast, List.getLast?_map, List.getLast?_eq_getElem?] at hlast
    rcases Option.map_eq_some_iff.mp hlast with ⟨q, hq, hqname⟩
    have := hclass.index_inj hi hq (hname.trans hqname.symm)
    omega
  intro lookup hlookup
  rcases hfits lookup hlookup with ⟨_, hinfo, hoffs, hsize⟩
  rcases hclass.lookUp hwec hvalues hdata hlookup with
    ⟨k, p, bytes, kind, hk, hp, hkind, hencodes, _, hinfo₁⟩
  rcases hclass.lookUp hwec hvalues' hdata' hlookup with
    ⟨k', p', bytes', kind', hk', hp', hkind', hencodes', _, hinfo₂⟩
  rw [hinfo] at hinfo₁
  cases hinfo₁
  have hklt := (List.getElem?_eq_some_iff.mp hk).1
  obtain rfl := hclass.index_inj hk' hk (hp'.trans hp.symm)
  rw [hk] at hk'
  cases hk'
  refine ⟨_, hinfo₂, ?_, ?_⟩
  · rw [hoffs, length_take_eq hvalues hvalues' hclass.fixed k' (hfront k' hklt)]
  · intro htested
    have hne : getPropertyName p ≠ wide "OpenPath" := by
      have hall : ∀ lookup ∈ fileIoCreateEventMember.lookups,
          lookup.sizeUse = .tested → lookup.name ≠ wide "OpenPath" := by decide
      rw [hp]
      exact hall lookup hlookup htested
    rw [hsize htested, length_eq_of_fixed
      (hclass.fixed p (List.mem_of_getElem? hk) hne) hkind hencodes hkind' hencodes']

/-! ### Decoding -/

/-- The fields depend on nothing else in the record. -/
theorem FitsEvent.read_eq {event : Event} {o o' : EventOffset} (h : FitsEvent wec event o)
    (h' : FitsEvent wec event o') :
    FileIoCreateEventMember.read event o = FileIoCreateEventMember.read event o' := by
  have htested : ∀ name : String, tested name ∈ fileIoCreateEventMember.lookups →
      o.fields (wide name) = o'.fields (wide name) := by
    intro name hmem
    rcases h _ hmem with ⟨info, hinfo, hoffs, hsize⟩
    rcases h' _ hmem with ⟨info', hinfo', hoffs', hsize'⟩
    rw [hinfo] at hinfo'
    cases hinfo'
    have hoffs : (o.fields (wide name)).offs = (o'.fields (wide name)).offs :=
      hoffs.trans hoffs'.symm
    have hsize : (o.fields (wide name)).size = (o'.fields (wide name)).size :=
      (hsize rfl).trans (hsize' rfl).symm
    cases hf : o.fields (wide name)
    cases hf' : o'.fields (wide name)
    rw [hf, hf'] at hoffs hsize
    cases hoffs
    cases hsize
    rfl
  have hopen : (o.fields (wide "OpenPath")).offs = (o'.fields (wide "OpenPath")).offs := by
    rcases h (offsetOnly "OpenPath") (by decide) with ⟨info, hinfo, hoffs, _⟩
    rcases h' (offsetOnly "OpenPath") (by decide) with ⟨info', hinfo', hoffs', _⟩
    rw [hinfo] at hinfo'
    cases hinfo'
    exact hoffs.trans hoffs'.symm
  unfold FileIoCreateEventMember.read
  rw [htested "IrpPtr" (by decide), htested "TTID" (by decide), htested "FileObject" (by decide),
    htested "CreateOptions" (by decide), htested "FileAttributes" (by decide),
    htested "ShareAccess" (by decide), hopen]

/-- What the shared record is good for: once it is positioned, it fits every event. -/
def SharedRecord (wec : WmiEventClass) (ordered : List Property) (o : EventOffset) : Prop :=
  o.isPositioned = true → OpenPathLast ordered ∧
    ∀ event, HoldsValues wec.pointerSize ordered event → FitsEvent wec event o

/-- The constructor reads the fields with a record that fits the event, and leaves a record for the
next one. -/
theorem SharedRecord.locate (hwec : Describes wec pClass)
    (hclass : CreateClass wec.pointerSize pClass ordered) {o : EventOffset}
    (ho : SharedRecord wec ordered o) {event : Event}
    (hevent : HoldsValues wec.pointerSize ordered event) :
    ∃ o', fileIoCreateEventMember.locate wec event o = .ok (o', true) ∧
      FitsEvent wec event o' ∧ SharedRecord wec ordered o' := by
  cases hpos : o.isPositioned with
  | true => exact ⟨o, by simp [EventMember.locate, hpos], (ho hpos).2 event hevent, ho⟩
  | false =>
    rcases hclass.locate hwec hevent hpos with ⟨o', hlocate, hfits, hpositioned⟩
    refine ⟨o', hlocate, hfits, ?_⟩
    intro hpos'
    have hlast := openPath_last hwec hclass hevent hfits (hpositioned.symm.trans hpos')
    exact ⟨hlast, fun event' hevent' => hlast.fits hwec hclass hevent hevent' hfits⟩

/-- Every event keeps the record. -/
theorem SharedRecord.records (hwec : Describes wec pClass)
    (hclass : CreateClass wec.pointerSize pClass ordered) (events : List Event) :
    ∀ {o : EventOffset}, SharedRecord wec ordered o →
      (∀ event ∈ events, HoldsValues wec.pointerSize ordered event) →
        ∃ o', fileIoCreateEventMember.records wec o events = .ok o' ∧
          SharedRecord wec ordered o' := by
  induction events with
  | nil =>
    intro o ho _
    exact ⟨o, rfl, ho⟩
  | cons event events ih =>
    intro o ho hevents
    rcases ho.locate hwec hclass (hevents event (by simp)) with ⟨o₁, hlocate, _, ho₁⟩
    rcases ih ho₁ fun e he => hevents e (List.mem_cons_of_mem _ he) with ⟨o', hrecords, ho'⟩
    exact ⟨o', by simp only [EventMember.records, hlocate, hrecords], ho'⟩

/-- An event decoded with any record of a run is decoded as with a fresh one. -/
theorem SharedRecord.decode_eq (hwec : Describes wec pClass)
    (hclass : CreateClass wec.pointerSize pClass ordered) {o : EventOffset}
    (ho : SharedRecord wec ordered o) {event : Event}
    (hevent : HoldsValues wec.pointerSize ordered event) :
    FileIoCreateEventMember.decode wec event o =
      FileIoCreateEventMember.decode wec event {} := by
  have hfresh : SharedRecord wec ordered {} := fun h => by cases h
  rcases ho.locate hwec hclass hevent with ⟨o₁, hlocate₁, hfits₁, _⟩
  rcases hfresh.locate hwec hclass hevent with ⟨o₂, hlocate₂, hfits₂, _⟩
  simp only [FileIoCreateEventMember.decode, FileIoCreateEventMember.construct, hlocate₁, hlocate₂,
    hfits₁.read_eq hfits₂]
  cases FileIoCreateEventMember.read event o₂ <;> rfl

end

/-! ### Main result -/

/-- In a run over events of the class, every event is decoded with the shared record as with a
fresh one, and the record is positioned only if no property follows `OpenPath`. -/
theorem fileIoCreate_transparent {wec : WmiEventClass} {pClass ordered : List Property}
    (hwec : Describes wec pClass) (hclass : CreateClass wec.pointerSize pClass ordered)
    {earlier : List Event} {event : Event}
    (hevents : ∀ e ∈ earlier ++ [event], HoldsValues wec.pointerSize ordered e) :
    ∃ o, fileIoCreateEventMember.records wec {} earlier = .ok o ∧
      FileIoCreateEventMember.decode wec event o =
        FileIoCreateEventMember.decode wec event {} ∧
      (o.isPositioned = true → OpenPathLast ordered) := by
  have hfresh : SharedRecord wec ordered {} := fun h => by cases h
  rcases hfresh.records hwec hclass earlier fun e he => hevents e (List.mem_append_left _ he)
    with ⟨o, hrecords, ho⟩
  have hevent := hevents event (List.mem_append_right _ (List.mem_singleton.mpr rfl))
  exact ⟨o, hrecords, ho.decode_eq hwec hclass hevent, fun hpos => (ho hpos).1⟩

/-! ### Two events with paths of different lengths -/

/-- A property of four bytes of `FileIo_Create`. -/
def createProperty (name : String) (id : Int) : Property where
  name := wide name
  dataType := ⟨.uint32, false⟩
  qualifiers :=
    { wmiDataId := some id, description := none, pointer := false, pointerType := false,
      max := none, format := false, stringTermination := none, extension := none }

/-- `OpenPath`. -/
def openPath : Property where
  name := wide "OpenPath"
  dataType := ⟨.string, false⟩
  qualifiers := { fileName.qualifiers with wmiDataId := some 7 }

/-- The properties in the order of their ids. -/
def createOrdered : List Property :=
  [createProperty "IrpPtr" 1, createProperty "TTID" 2, createProperty "FileObject" 3,
    createProperty "CreateOptions" 4, createProperty "FileAttributes" 5,
    createProperty "ShareAccess" 6, openPath]

/-- WMI enumerates them the other way round. -/
def createWmi : WmiEventClass := ⟨fun _ => quietHost, 8, some createOrdered.reverse⟩

/-- The encodings of six numbers and a path. -/
def createEncodings (path : WString) : List (List UInt8) :=
  [[1, 0, 0, 0], [2, 0, 0, 0], [3, 0, 0, 0], [4, 0, 0, 0], [5, 0, 0, 0], [6, 0, 0, 0],
    encodeWide path ++ [0, 0]]

/-- An event for the path `"A"`. -/
def createEventA : Event := ⟨(createEncodings [65]).flatten, by decide⟩

/-- An event for the path `"ABC"`. -/
def createEventABC : Event := ⟨(createEncodings [65, 66, 67]).flatten, by decide⟩

/-- The properties of the example are those of the class. -/
theorem createClass_sample : CreateClass 8 createOrdered.reverse createOrdered where
  perm := (List.reverse_perm _).symm
  ids := by
    intro k p hk
    rcases k with _ | _ | _ | _ | _ | _ | _ | k
    all_goals cases hk
    all_goals rfl
  notArray := by decide
  names := by decide
  fixed := by
    intro p hp hname
    simp only [createOrdered, List.mem_cons, List.not_mem_nil, or_false] at hp
    rcases hp with rfl | rfl | rfl | rfl | rfl | rfl | rfl
    · exact ⟨.int32, 4, rfl, rfl⟩
    · exact ⟨.int32, 4, rfl, rfl⟩
    · exact ⟨.int32, 4, rfl, rfl⟩
    · exact ⟨.int32, 4, rfl, rfl⟩
    · exact ⟨.int32, 4, rfl, rfl⟩
    · exact ⟨.int32, 4, rfl, rfl⟩
    · exact absurd (by decide) hname
  openPath := by
    intro p hp hname
    simp only [createOrdered, List.mem_cons, List.not_mem_nil, or_false] at hp
    rcases hp with rfl | rfl | rfl | rfl | rfl | rfl | rfl
    all_goals first | exact ⟨true, rfl⟩ | exact absurd hname (by decide)

/-- A payload with any path. -/
theorem holdsValues_sample {path : WString} (hzero : 0 ∉ path) (hlen : path.length < 65535)
    {event : Event} (hdata : event.mofData = (createEncodings path).flatten) :
    HoldsValues 8 createOrdered event := by
  refine ⟨createEncodings path, ?_, hdata⟩
  exact .cons ⟨.int32, rfl, .fixed rfl⟩ (.cons ⟨.int32, rfl, .fixed rfl⟩
    (.cons ⟨.int32, rfl, .fixed rfl⟩ (.cons ⟨.int32, rfl, .fixed rfl⟩
      (.cons ⟨.int32, rfl, .fixed rfl⟩ (.cons ⟨.int32, rfl, .fixed rfl⟩
        (.cons ⟨.string true, rfl, .wide hzero hlen⟩ .nil))))))

/-- WMI describes the class of the example, and no call fails. -/
theorem describes_createWmi : Describes createWmi createOrdered.reverse where
  eventClass := rfl
  calls := fun _ _ => rfl
  ipv6 := fun _ => rfl
  pointerSize_pos := by decide
  pointerSize_lt := by decide

/-- A record from one path serves an event with a longer one. -/
theorem fileIoCreate_sample :
    ∃ o, fileIoCreateEventMember.records createWmi {} [createEventA] = .ok o ∧
      FileIoCreateEventMember.decode createWmi createEventABC o =
        FileIoCreateEventMember.decode createWmi createEventABC {} ∧
      (o.isPositioned = true → OpenPathLast createOrdered) := by
  have hclass : CreateClass createWmi.pointerSize createOrdered.reverse createOrdered :=
    createClass_sample
  have hevents : ∀ e ∈ [createEventA] ++ [createEventABC],
      HoldsValues createWmi.pointerSize createOrdered e := by
    intro e he
    rcases List.mem_pair.mp he with rfl | rfl
    · exact holdsValues_sample (by decide) (by decide) rfl
    · exact holdsValues_sample (by decide) (by decide) rfl
  exact fileIoCreate_transparent describes_createWmi hclass hevents

end KernelEventsTrace.EtwService
