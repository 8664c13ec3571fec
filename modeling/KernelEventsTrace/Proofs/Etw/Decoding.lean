import KernelEventsTrace.EtwService.KernelRecord
import KernelEventsTrace.Proofs.Etw.Attribution
import KernelEventsTrace.Proofs.Etw.OffsetReuse

/-!
# `KernelEventsTrace.Proofs.Etw.Decoding`: the values that the handlers get

A handler copies the values of the numbers from the offsets in its record, and makes strings from
pointers into the payload. `Format.Readable` says for which classes this is right: the numbers have
at most 8 bytes, and the record can be used for every event of the class. Each handler then gets
what the kernel has written, with the record of any run (`Serves`).

`Consumer.processEvents_eq`: over all runs of events, the service does with the payloads what it is
meant to do with their values.
-/

set_option autoImplicit false

namespace KernelEventsTrace.EtwService

open KernelEventsTrace.FieldLayout

/-! ### Specification -/

namespace Format

variable (f : Format) (host : Host) (k : Handled)

/-- The class that WMI describes. -/
def classOf : WmiEventClass := host.wmiEventClass k.guid (f.version k) k.type

/-- The values are those of the properties. -/
def Holds (values : List (List UInt8)) : Prop :=
  ValuesOf (f.classOf host k).pointerSize (f.ordered k) values

/-- The class of the events can be read: the constructor finds its properties in it, the numbers fit
into their fields, and the offsets of one event serve the next. -/
structure Readable : Prop where
  describes : Describes (f.classOf host k) (f.pClass k)
  pointerSize : 2 ≤ (f.classOf host k).pointerSize.toNat
  eventClass : EventClass (f.classOf host k).pointerSize (f.pClass k) (f.ordered k)
  asksFor : k.member.AsksFor (f.ordered k)
  front : k.member.Reuses (f.ordered k) →
    k.member.FixedInFront (f.classOf host k).pointerSize (f.ordered k)
  numbers : ∀ lookup ∈ k.member.lookups, lookup.sizeUse = .tested → ∀ p ∈ f.ordered k,
    getPropertyName p = lookup.name →
      ∃ kind c, p.kind = some kind ∧ kind.length (f.classOf host k).pointerSize = some c ∧ c ≤ 8
  texts : ∀ text ∈ k.texts,
    ∃ p ∈ f.ordered k, getPropertyName p = wide text.1 ∧ p.kind = some (.string text.2)

/-- The record has the offsets of the event, and the sizes that the constructor keeps. -/
def Fits (event : Event) (o : EventOffset) : Prop :=
  k.member.Fits (f.classOf host k) event o

/-- The record can be used for every event of the class, if it is used at all. -/
def Serves (o : EventOffset) : Prop :=
  EventClass.Serves (f.classOf host k) (f.ordered k) k.member o

end Format

/-- The values of a handled event are those of its class. -/
def KernelRecord.WellFormed (f : Format) (host : Host) (r : KernelRecord) : Prop :=
  ∀ k, r.handled host.kCurrentPid = some k → r.version = f.version k ∧ f.Holds host k r.values

/-! ### Values -/

namespace Format.Readable

variable {f : Format} {host : Host} {k : Handled} {values : List (List UInt8)} {event : Event}

/-- The value of a property is at the place of the property. -/
theorem bytesOf_eq (h : f.Readable host k) {i : Nat} {p : Property} {bytes : List UInt8}
    (hp : (f.ordered k)[i]? = some p) (hbytes : values[i]? = some bytes) :
    f.bytesOf k values (getPropertyName p) = bytes := by
  obtain ⟨hi, rfl⟩ := List.getElem?_eq_some_iff.mp hp
  have hfind : (f.ordered k).findIdx
      (fun q => getPropertyName q = getPropertyName (f.ordered k)[i]) = i := by
    refine (List.findIdx_eq hi).mpr ⟨by simp, fun j hj => ?_⟩
    rw [decide_eq_false_iff_not]
    intro hname
    have hsame := h.eventClass.index_inj (List.getElem?_eq_getElem (by omega)) hp hname
    omega
  unfold bytesOf
  rw [hfind, hbytes]
  rfl

/-- Where a property stands in the payload, and what is looked up for it. -/
theorem place (h : f.Readable host k) (hvalues : f.Holds host k values)
    (hdata : event.mofData = values.flatten) {p : Property} (hp : p ∈ f.ordered k) {kind : Kind}
    (hkind : p.kind = some kind) :
    ∃ i bytes, (f.ordered k)[i]? = some p ∧ Encodes (f.classOf host k).pointerSize kind bytes ∧
      f.bytesOf k values (getPropertyName p) = bytes ∧
      event.mofData = (values.take i).flatten ++ (bytes ++ (values.drop (i + 1)).flatten) ∧
      (f.classOf host k).getPropertyInfo (getPropertyName p) event =
        .ok (offset values i, bytes.length) := by
  obtain ⟨i, hi⟩ := List.mem_iff_getElem?.mp hp
  obtain ⟨bytes, ⟨kind', hkind', hencodes⟩, hbytes, hinfo⟩ :=
    h.eventClass.info h.describes hvalues hdata hi
  rw [hkind] at hkind'
  cases hkind'
  exact ⟨i, bytes, hi, hencodes, h.bytesOf_eq hi hbytes, hdata.trans (flatten_eq hbytes), hinfo⟩

/-- A number is copied from the place where it stands. -/
theorem copyField_eq (h : f.Readable host k) (hvalues : f.Holds host k values)
    (hdata : event.mofData = values.flatten) {o : EventOffset} (hfits : f.Fits host k event o)
    (name : String) (hlookup : tested name ∈ k.member.lookups) :
    copyField event (o.fields (wide name)) = .ok (f.number k values name) := by
  obtain ⟨p, hp, hname⟩ := List.mem_map.mp (h.asksFor.found _ hlookup)
  change getPropertyName p = wide name at hname
  obtain ⟨kind, c, hkind, hlength, hc⟩ := h.numbers _ hlookup rfl p hp hname
  obtain ⟨i, bytes, hi, hencodes, hbytes, hsplit, hinfo⟩ := h.place hvalues hdata hp hkind
  have hlen := hencodes.length_eq hlength
  -- The record has the offset and the size.
  have hoffs := h.eventClass.offs_toNat h.describes hvalues hdata hfits hlookup hi hname
  obtain ⟨info, hinfo', -, hsize⟩ := hfits _ hlookup
  change (o.fields (wide name)).offs.toNat = _ at hoffs
  change (f.classOf host k).getPropertyInfo (wide name) event = .ok info at hinfo'
  rw [hname] at hinfo hbytes
  rw [hinfo] at hinfo'
  cases hinfo'
  have hsize' : (o.fields (wide name)).size.toNat = bytes.length := by
    have hdword := hsize (by simp [tested])
    change (o.fields (wide name)).size = _ at hdword
    rw [hdword]
    exact dword_toNat (by omega)
  have hsmall : ¬ 8 < (o.fields (wide name)).size := by
    rw [UInt32.lt_iff_toNat_lt, hsize', hlen]
    exact Nat.not_lt.mpr hc
  have hcopy : event.copyMemory (offset values i) bytes.length = .ok bytes := by
    refine copyMemory_eq_ok_iff.mpr ⟨inside_of_append hsplit (Nat.le_refl _), ?_⟩
    have hat := bytesAt_of_append hsplit (Nat.le_refl bytes.length)
    rw [List.take_length] at hat
    exact hat.symm
  unfold copyField Format.number
  rw [if_neg hsmall, hoffs, hsize', hcopy, hbytes]

/-- A wide string is made from its place. -/
theorem wideStringAt_eq (h : f.Readable host k) (hvalues : f.Holds host k values)
    (hdata : event.mofData = values.flatten) {o : EventOffset} (hfits : f.Fits host k event o)
    (name : String) (hlookup : offsetOnly name ∈ k.member.lookups)
    (htext : (name, true) ∈ k.texts) :
    wideStringAt event (some (o.fields (wide name)).offs) = .ok (f.text k values name) := by
  obtain ⟨p, hp, hname, hkind⟩ := h.texts _ htext
  obtain ⟨i, bytes, hi, hencodes, hbytes, hsplit, -⟩ := h.place hvalues hdata hp hkind
  have hoffs := h.eventClass.offs_toNat h.describes hvalues hdata hfits hlookup hi hname
  change (o.fields (wide name)).offs.toNat = _ at hoffs
  rw [hname] at hbytes
  cases hencodes with
  | fixed hlength => cases hlength
  | @wide chars hzero hlen =>
    have hfrom : wchars (event.bytesFrom (offset values i)) =
        chars ++ 0 :: wchars (values.drop (i + 1)).flatten := by
      have hrest := bytesFrom_of_append hsplit
      show wchars (event.bytesFrom ((values.take i).flatten.length : Nat)) = _
      rw [hrest, List.append_assoc, wchars_encodeWide]
      rfl
    have hwcslen : wcslen event (offset values i) = .ok chars.length := by
      unfold wcslen
      rw [hfrom]
      exact scanLength_append _ hzero
    have htake : f.text k values name = chars := by
      unfold Format.text
      rw [hbytes, wchars_encodeWide]
      exact List.dropLast_concat
    unfold wideStringAt
    simp only [hoffs, hwcslen, hfrom, htake, List.take_left]

/-- A pointer to a string is found. -/
theorem lookUpPointer_ok (h : f.Readable host k) (hvalues : f.Holds host k values)
    (hdata : event.mofData = values.flatten) (name : String) {isWideString : Bool}
    (htext : (name, isWideString) ∈ k.texts) :
    ∃ offs, lookUpPointer (f.classOf host k) event (wide name) = .ok offs ∧
      (isWideString = false → ∃ chars, narrowStringAt event (some offs) = .ok chars) := by
  obtain ⟨p, hp, hname, hkind⟩ := h.texts _ htext
  obtain ⟨i, bytes, hi, hencodes, hbytes, hsplit, hinfo⟩ := h.place hvalues hdata hp hkind
  rw [hname] at hinfo
  refine ⟨offset values i, ?_, fun hnarrow => ?_⟩
  · unfold lookUpPointer
    simp only [hinfo]
  · -- A narrow string ends inside of the payload.
    cases hnarrow
    cases hencodes with
    | fixed hlength => cases hlength
    | @narrow chars hzero hlen =>
      have hstrlen : strlen event (offset values i) = .ok chars.length := by
        have hrest := bytesFrom_of_append hsplit
        show scanLength (event.bytesFrom ((values.take i).flatten.length : Nat)) = _
        rw [hrest, List.append_assoc]
        exact scanLength_append _ hzero
      refine ⟨(event.bytesFrom (offset values i)).take chars.length, ?_⟩
      unfold narrowStringAt
      simp only [hstrlen]

/-- The sizes that are kept are those of numbers. -/
theorem fixedSizes (h : f.Readable host k) :
    k.member.FixedSizes (f.classOf host k).pointerSize (f.ordered k) := by
  have hnumbers : ∀ lookup ∈ k.member.lookups, lookup.sizeUse ≠ .dropped →
      lookup.sizeUse = .tested := by
    cases k <;> decide
  intro lookup hlookup hkept p hp hname
  obtain ⟨kind, c, hkind, hlength, -⟩ :=
    h.numbers lookup hlookup (hnumbers lookup hlookup hkept) p hp hname
  exact ⟨kind, c, hkind, hlength⟩

/-- What a constructor does with a record that serves. -/
theorem locate (h : f.Readable host k) (hvalues : f.Holds host k values)
    (hdata : event.mofData = values.flatten) {o : EventOffset} (ho : f.Serves host k o) :
    ∃ o', k.member.locate (f.classOf host k) event o = .ok (o', true) ∧
      f.Fits host k event o' ∧ f.Serves host k o' :=
  EventClass.Serves.locate h.describes h.pointerSize h.eventClass h.asksFor
    (fun hreuses => ⟨h.front hreuses, h.fixedSizes⟩) ho ⟨values, hvalues, hdata⟩

/-! ### Constructors -/

/-- The fields of a Create event are the values of its properties. -/
theorem construct_create (h : f.Readable host .fileIoCreate)
    (hvalues : f.Holds host .fileIoCreate values) (hdata : event.mofData = values.flatten)
    {o : EventOffset} (ho : f.Serves host .fileIoCreate o) :
    ∃ o', FileIoCreateEventMember.construct (f.classOf host .fileIoCreate) event o =
        .ok (⟨f.number .fileIoCreate values "IrpPtr", f.number .fileIoCreate values "TTID",
          f.number .fileIoCreate values "FileObject", f.number .fileIoCreate values "CreateOptions",
          f.number .fileIoCreate values "FileAttributes",
          f.number .fileIoCreate values "ShareAccess", some (o'.fields (wide "OpenPath")).offs⟩,
          o') ∧
      wideStringAt event (some (o'.fields (wide "OpenPath")).offs) =
        .ok (f.text .fileIoCreate values "OpenPath") ∧ f.Serves host .fileIoCreate o' := by
  obtain ⟨o', hlocate, hfits, ho'⟩ := h.locate hvalues hdata ho
  have hcopy := h.copyField_eq hvalues hdata hfits
  change fileIoCreateEventMember.locate (f.classOf host .fileIoCreate) event o = _ at hlocate
  refine ⟨o', ?_, h.wideStringAt_eq hvalues hdata hfits "OpenPath" (by decide) (by decide), ho'⟩
  unfold FileIoCreateEventMember.construct FileIoCreateEventMember.read
  simp only [hlocate, hcopy "IrpPtr" (by decide), hcopy "TTID" (by decide),
    hcopy "FileObject" (by decide), hcopy "CreateOptions" (by decide),
    hcopy "FileAttributes" (by decide), hcopy "ShareAccess" (by decide)]
  rfl

/-- The fields of a Write event are the values of its properties. -/
theorem construct_write (h : f.Readable host .fileIoWrite)
    (hvalues : f.Holds host .fileIoWrite values) (hdata : event.mofData = values.flatten)
    {o : EventOffset} (ho : f.Serves host .fileIoWrite o) :
    ∃ o', FileIoReadWriteEventMember.construct (f.classOf host .fileIoWrite) event o =
        .ok (⟨f.number .fileIoWrite values "Offset", f.number .fileIoWrite values "IrpPtr",
          f.number .fileIoWrite values "TTID", f.number .fileIoWrite values "FileObject",
          f.number .fileIoWrite values "FileKey", f.number .fileIoWrite values "IoSize",
          f.number .fileIoWrite values "IoFlags"⟩, o') ∧ f.Serves host .fileIoWrite o' := by
  obtain ⟨o', hlocate, hfits, ho'⟩ := h.locate hvalues hdata ho
  have hcopy := h.copyField_eq hvalues hdata hfits
  change fileIoReadWriteEventMember.locate (f.classOf host .fileIoWrite) event o = _ at hlocate
  refine ⟨o', ?_, ho'⟩
  unfold FileIoReadWriteEventMember.construct FileIoReadWriteEventMember.read
  simp only [hlocate, hcopy "Offset" (by decide), hcopy "IrpPtr" (by decide),
    hcopy "TTID" (by decide), hcopy "FileObject" (by decide), hcopy "FileKey" (by decide),
    hcopy "IoSize" (by decide), hcopy "IoFlags" (by decide)]
  rfl

/-- The fields of a Close event are the values of its properties. -/
theorem construct_close (h : f.Readable host .fileIoClose)
    (hvalues : f.Holds host .fileIoClose values) (hdata : event.mofData = values.flatten)
    {o : EventOffset} (ho : f.Serves host .fileIoClose o) :
    ∃ o', FileIoSimpleOpEventMember.construct (f.classOf host .fileIoClose) event o =
        .ok (⟨f.number .fileIoClose values "IrpPtr", f.number .fileIoClose values "TTID",
          f.number .fileIoClose values "FileObject", f.number .fileIoClose values "FileKey"⟩,
          o') ∧ f.Serves host .fileIoClose o' := by
  obtain ⟨o', hlocate, hfits, ho'⟩ := h.locate hvalues hdata ho
  have hcopy := h.copyField_eq hvalues hdata hfits
  change fileIoSimpleOpEventMember.locate (f.classOf host .fileIoClose) event o = _ at hlocate
  refine ⟨o', ?_, ho'⟩
  unfold FileIoSimpleOpEventMember.construct FileIoSimpleOpEventMember.read
  simp only [hlocate, hcopy "IrpPtr" (by decide), hcopy "TTID" (by decide),
    hcopy "FileObject" (by decide), hcopy "FileKey" (by decide)]
  rfl

/-- Start and End events have the same constructor. -/
theorem construct_process (h : f.Readable host k)
    (hmember : k.member = processTypeGroup1EventMember)
    (htexts : k.texts = [("ImageFileName", false), ("CommandLine", true)])
    (hvalues : f.Holds host k values) (hdata : event.mofData = values.flatten) {o : EventOffset}
    (ho : f.Serves host k o) :
    ∃ o' image commandLine, ProcessTypeGroup1EventMember.construct (f.classOf host k) event o =
        .ok (⟨f.number k values "UniqueProcessKey", f.number k values "ProcessId",
          f.number k values "ParentId", f.number k values "SessionId",
          f.number k values "ExitStatus", f.number k values "DirectoryTableBase", some image,
          some commandLine⟩, o') ∧
      (∃ chars, narrowStringAt event (some image) = .ok chars) ∧ f.Serves host k o' := by
  obtain ⟨o', hlocate, hfits, ho'⟩ := h.locate hvalues hdata ho
  have hcopy := h.copyField_eq hvalues hdata hfits
  rw [hmember] at hlocate hcopy
  obtain ⟨image, himage, hchars⟩ :=
    h.lookUpPointer_ok hvalues hdata "ImageFileName" (by rw [htexts]; exact List.mem_cons_self)
  have htext : ("CommandLine", true) ∈ k.texts := by
    rw [htexts]
    exact List.mem_cons_of_mem _ List.mem_cons_self
  obtain ⟨commandLine, hcommand, -⟩ := h.lookUpPointer_ok hvalues hdata "CommandLine" htext
  refine ⟨o', image, commandLine, ?_, hchars rfl, ho'⟩
  unfold ProcessTypeGroup1EventMember.construct ProcessTypeGroup1EventMember.read
  simp only [hlocate, hcopy "UniqueProcessKey" (by decide), hcopy "ProcessId" (by decide),
    hcopy "ParentId" (by decide), hcopy "SessionId" (by decide), hcopy "ExitStatus" (by decide),
    hcopy "DirectoryTableBase" (by decide), himage, hcommand]
  rfl

end Format.Readable

/-! ### Dispatch -/

namespace KernelRecord

variable {kCurrentPid : UInt64} {r : KernelRecord} {k : Handled}

/-- What the filter drops: the events of the idle process, and those of the service itself. -/
theorem overallEventFilter_iff {issuingPid : UInt64} :
    overallEventFilter kCurrentPid issuingPid = false ↔
      issuingPid = 0 ∨ issuingPid = kCurrentPid := by
  unfold overallEventFilter
  by_cases h : issuingPid = 0 ∨ issuingPid = kCurrentPid
  · simp [h]
  · simp [h]

/-- A handled event passes the filter, and has the GUID and the type. -/
theorem of_handled (h : r.handled kCurrentPid = some k) :
    overallEventFilter kCurrentPid r.event.getProcessId = true ∧ r.guid = k.guid ∧
      r.type = k.type := by
  unfold handled at h
  by_cases hfilter : r.event.getProcessId = 0 ∨ r.event.getProcessId = kCurrentPid
  · rw [if_pos hfilter] at h
    cases h
  · rw [if_neg hfilter] at h
    have hk := List.find?_some h
    simp only [decide_eq_true_eq] at hk
    refine ⟨?_, hk.1.symm, hk.2.symm⟩
    rw [← Bool.not_eq_false, overallEventFilter_iff]
    exact hfilter

/-- An event that is not handled does not pass the filter, or has no type of its GUID. -/
theorem of_not_handled (h : r.handled kCurrentPid = none) :
    overallEventFilter kCurrentPid r.event.getProcessId = false ∨
      ∀ k : Handled, ¬ (r.guid = k.guid ∧ r.type = k.type) := by
  unfold handled at h
  by_cases hfilter : r.event.getProcessId = 0 ∨ r.event.getProcessId = kCurrentPid
  · exact .inl (overallEventFilter_iff.mpr hfilter)
  · rw [if_neg hfilter] at h
    refine .inr fun k hk => ?_
    have hmem : k ∈ Handled.all := by cases k <;> decide
    have hno := List.find?_eq_none.mp h k hmem
    simp only [decide_eq_true_eq] at hno
    exact hno ⟨hk.1.symm, hk.2.symm⟩

end KernelRecord

namespace Consumer

variable {f : Format} {host : Host} {c : Consumer} {r : KernelRecord} {k : Handled}

/-- The event is dropped, by one test or another. -/
theorem processEvent_of_not_handled (h : r.handled host.kCurrentPid = none) (answers : Answers) :
    c.processEvent host answers r.event = .ok (c, none) := by
  unfold processEvent
  by_cases hskip : r.event.guid = .eventTrace ∨ r.event.type = EVENT_TRACE_TYPE_INFO
  · rw [if_pos hskip]
  · rw [if_neg hskip]
    rcases KernelRecord.of_not_handled h with hfilter | hno
    · rw [if_pos hfilter]
    · split
      · rfl
      · cases hguid : r.event.guid with
        | fileIo =>
          have hcreate : r.event.type ≠ kCreate := fun ht => hno .fileIoCreate ⟨hguid, ht⟩
          have hwrite : r.event.type ≠ kWrite := fun ht => hno .fileIoWrite ⟨hguid, ht⟩
          have hclose : r.event.type ≠ kClose := fun ht => hno .fileIoClose ⟨hguid, ht⟩
          simp only [processFileIoEvent, if_neg hcreate, if_neg hwrite, if_neg hclose]
        | process =>
          have hstart : r.event.type ≠ kProcessStart := fun ht => hno .processStart ⟨hguid, ht⟩
          have hend : r.event.type ≠ kProcessEnd := fun ht => hno .processEnd ⟨hguid, ht⟩
          simp only [processProcessEvent, if_neg hstart, if_neg hend]
        | _ => rfl

/-- A handled event is passed to the handler of its GUID. -/
theorem processEvent_of_handled (h : r.handled host.kCurrentPid = some k) (answers : Answers) :
    c.processEvent host answers r.event =
      if k.guid = .fileIo then c.processFileIoEvent host answers r.event
      else c.processProcessEvent host answers r.event := by
  obtain ⟨hfilter, hguid, htype⟩ := KernelRecord.of_handled h
  change r.event.guid = k.guid at hguid
  change r.event.type = k.type at htype
  have hskip : ¬ (r.event.guid = .eventTrace ∨ r.event.type = EVENT_TRACE_TYPE_INFO) := by
    rw [hguid, htype]
    cases k <;> decide
  unfold processEvent
  rw [if_neg hskip, if_neg (by rw [hfilter]; simp), hguid]
  cases k <;> rfl

/-! ### Steps -/

section
variable {event : EventTrace} {answers : Answers}

/-- A Create event gets to its branch. -/
theorem processFileIoEvent_create (h : event.type = kCreate) :
    c.processFileIoEvent host answers event = c.onCreate host answers event := if_pos h

/-- A Write event gets to its branch. -/
theorem processFileIoEvent_write (h : event.type = kWrite) :
    c.processFileIoEvent host answers event = c.onWrite host event := by
  unfold processFileIoEvent
  rw [h]
  rfl

/-- A Close event gets to its branch. -/
theorem processFileIoEvent_close (h : event.type = kClose) :
    c.processFileIoEvent host answers event = c.onClose host event := by
  unfold processFileIoEvent
  rw [h]
  rfl

/-- A Start event gets to its branch. -/
theorem processProcessEvent_start (h : event.type = kProcessStart) :
    c.processProcessEvent host answers event = c.onStart host answers event := if_pos h

/-- An End event gets to its branch. -/
theorem processProcessEvent_end (h : event.type = kProcessEnd) :
    c.processProcessEvent host answers event = c.onEnd host answers event := by
  unfold processProcessEvent
  rw [h]
  rfl

end

/-- The record of a type of events. -/
def offset (c : Consumer) : Handled → EventOffset
  | .fileIoCreate => c.fileIoCreateOffset
  | .fileIoWrite => c.fileIoWriteOffset
  | .fileIoClose => c.fileIoCloseOffset
  | .processStart => c.processStartOffset
  | .processEnd => c.processEndOffset

/-- The maps of the service. -/
def tables (c : Consumer) : Tables := ⟨c.maps, c.processes⟩

/-- Every record serves, if its class can be read. -/
def Ready (f : Format) (host : Host) (c : Consumer) : Prop :=
  ∀ k, f.Readable host k → f.Serves host k (c.offset k)

/-- At the start no offset is stored. -/
theorem ready_initial : Ready f host initial := by
  intro k _ hpos
  cases k <;> cases hpos

/-- One record was changed. -/
theorem Ready.update {c' : Consumer} (hc : c.Ready f host) {o : EventOffset}
    (ho : f.Serves host k o) (hoffset : c'.offset = Function.update c.offset k o) :
    c'.Ready f host := by
  intro j hj
  rw [hoffset]
  by_cases hjk : j = k
  · subst hjk
    rw [Function.update_self]
    exact ho
  · rw [Function.update_of_ne hjk]
    exact hc j hj

/-- The service does with the payload what it is meant to do with the values, and leaves a record
that serves. -/
theorem Ready.handle (hc : c.Ready f host) (hk : r.handled host.kCurrentPid = some k)
    (hf : f.Readable host k) (hr : r.WellFormed f host) :
    ∃ c' o', c.processEvent host r.answers r.event =
        .ok (c', (c.tables.step host r.answers (r.meaning host.kCurrentPid f)).2) ∧
      c'.tables = (c.tables.step host r.answers (r.meaning host.kCurrentPid f)).1 ∧
      f.Serves host k o' ∧ c'.offset = Function.update c.offset k o' := by
  obtain ⟨-, hguid, htype⟩ := KernelRecord.of_handled hk
  obtain ⟨hversion, hvalues⟩ := hr k hk
  -- The header names the class that the values were written by.
  have hclass : host.classOf r.event = f.classOf host k := by
    unfold Host.classOf Format.classOf
    rw [← hguid, ← htype, ← hversion]
    rfl
  change r.event.type = k.type at htype
  have ho := hc k hf
  have hmeaning : r.meaning host.kCurrentPid f = r.content f k := by
    unfold KernelRecord.meaning
    rw [hk]
  rw [processEvent_of_handled hk, hmeaning]
  have hdata : r.event.payload.mofData = r.values.flatten := rfl
  -- In each case the constructor decodes the values, so the handler goes on as the plain one does.
  cases k with
  | fileIoCreate =>
    have ho : f.Serves host .fileIoCreate c.fileIoCreateOffset := ho
    obtain ⟨o', hconstruct, htext, ho'⟩ := hf.construct_create hvalues hdata ho
    refine ⟨{ c with
      maps := (c.tables.step host r.answers (r.content f .fileIoCreate)).1.maps
      processes := (c.tables.step host r.answers (r.content f .fileIoCreate)).1.processes
      fileIoCreateOffset := o' }, o', ?_, rfl, ho', by funext j; cases j <;> rfl⟩
    rw [if_pos (by decide), processFileIoEvent_create htype]
    simp only [onCreate, hclass, hconstruct, htext, bind, Except.bind, pure, Except.pure]
    rfl
  | fileIoWrite =>
    have ho : f.Serves host .fileIoWrite c.fileIoWriteOffset := ho
    obtain ⟨o', hconstruct, ho'⟩ := hf.construct_write hvalues hdata ho
    refine ⟨{ c with
      maps := (c.tables.step host r.answers (r.content f .fileIoWrite)).1.maps
      fileIoWriteOffset := o' }, o', ?_, rfl, ho', by funext j; cases j <;> rfl⟩
    rw [if_pos (by decide), processFileIoEvent_write htype]
    simp only [onWrite, hclass, hconstruct, bind, Except.bind, pure, Except.pure]
    rfl
  | fileIoClose =>
    have ho : f.Serves host .fileIoClose c.fileIoCloseOffset := ho
    obtain ⟨o', hconstruct, ho'⟩ := hf.construct_close hvalues hdata ho
    refine ⟨{ c with
      maps := (c.tables.step host r.answers (r.content f .fileIoClose)).1.maps
      fileIoCloseOffset := o' }, o', ?_, rfl, ho', by funext j; cases j <;> rfl⟩
    rw [if_pos (by decide), processFileIoEvent_close htype]
    simp only [onClose, hclass, hconstruct, bind, Except.bind, pure, Except.pure]
    rfl
  | processStart =>
    have ho : f.Serves host .processStart c.processStartOffset := ho
    -- The image name ends, so the string that is made of it is no fault.
    obtain ⟨o', image, commandLine, hconstruct, ⟨chars, hchars⟩, ho'⟩ :=
      hf.construct_process rfl rfl hvalues hdata ho
    refine ⟨{ c with
      processes := (c.tables.step host r.answers (r.content f .processStart)).1.processes
      processStartOffset := o' }, o', ?_, rfl, ho', by funext j; cases j <;> rfl⟩
    rw [if_neg (by decide), processProcessEvent_start htype]
    simp only [onStart, hclass, hconstruct, hchars, bind, Except.bind, pure, Except.pure]
    rfl
  | processEnd =>
    have ho : f.Serves host .processEnd c.processEndOffset := ho
    obtain ⟨o', image, commandLine, hconstruct, -, ho'⟩ :=
      hf.construct_process rfl rfl hvalues hdata ho
    refine ⟨{ c with
      processes := (c.tables.step host r.answers (r.content f .processEnd)).1.processes
      processEndOffset := o' }, o', ?_, rfl, ho', by funext j; cases j <;> rfl⟩
    rw [if_neg (by decide), processProcessEvent_end htype]
    simp only [onEnd, hclass, hconstruct, bind, Except.bind, pure, Except.pure]
    rfl

/-- The step lemma. -/
theorem Ready.processEvent (hc : c.Ready f host)
    (hf : ∀ k, r.handled host.kCurrentPid = some k → f.Readable host k)
    (hr : r.WellFormed f host) :
    ∃ c', c.processEvent host r.answers r.event =
        .ok (c', (c.tables.step host r.answers (r.meaning host.kCurrentPid f)).2) ∧
      c'.tables = (c.tables.step host r.answers (r.meaning host.kCurrentPid f)).1 ∧
      c'.Ready f host := by
  cases hk : r.handled host.kCurrentPid with
  | none =>
    have hmeaning : r.meaning host.kCurrentPid f = .unused := by
      unfold KernelRecord.meaning
      rw [hk]
    rw [hmeaning]
    exact ⟨c, processEvent_of_not_handled hk r.answers, rfl, hc⟩
  | some k =>
    obtain ⟨c', o', hevent, htables, ho', hoffset⟩ := hc.handle hk (hf k hk) hr
    exact ⟨c', hevent, htables, hc.update ho' hoffset⟩

/-! ### Runs -/

/-- The run, from tables that are anything. The induction is on the events. -/
theorem Ready.processEvents (records : List KernelRecord) {c : Consumer} (hc : c.Ready f host)
    (hf : ∀ r ∈ records, ∀ k, r.handled host.kCurrentPid = some k → f.Readable host k)
    (hr : ∀ r ∈ records, r.WellFormed f host) :
    ∃ c', processEvents host (records.map KernelRecord.arrival) c =
        .ok (c', (c.tables.run host (records.map fun r =>
          (r.answers, r.meaning host.kCurrentPid f))).2) ∧
      c'.tables = (c.tables.run host (records.map fun r =>
        (r.answers, r.meaning host.kCurrentPid f))).1 := by
  induction records generalizing c with
  | nil => exact ⟨c, rfl, rfl⟩
  | cons r records ih =>
    obtain ⟨c₁, hevent, htables, hc₁⟩ :=
      hc.processEvent (hf r List.mem_cons_self) (hr r List.mem_cons_self)
    obtain ⟨c', hrun, htables'⟩ := ih hc₁ (fun r' h => hf r' (List.mem_cons_of_mem r h))
      (fun r' h => hr r' (List.mem_cons_of_mem r h))
    rw [htables] at hrun htables'
    refine ⟨c', ?_, htables'⟩
    simp only [List.map_cons, KernelRecord.arrival, Consumer.processEvents, hevent, bind,
      Except.bind] at hrun ⊢
    rw [hrun]
    rfl

/-- What the service does with the payloads of a run is what it is meant to do with the values that
the kernel has written. -/
theorem processEvents_eq (f : Format) (host : Host) (records : List KernelRecord)
    (hf : ∀ r ∈ records, ∀ k, r.handled host.kCurrentPid = some k → f.Readable host k)
    (hr : ∀ r ∈ records, r.WellFormed f host) :
    ∃ c, processEvents host (records.map KernelRecord.arrival) initial =
        .ok (c, (Tables.initial.run host (records.map fun r =>
          (r.answers, r.meaning host.kCurrentPid f))).2) ∧
      c.tables = (Tables.initial.run host (records.map fun r =>
        (r.answers, r.meaning host.kCurrentPid f))).1 :=
  ready_initial.processEvents records hf hr

end Consumer

/-! ### A file that is opened and written -/

/-- A class of 64-bit events without arrays, by the names and types of its properties. The flag is
the `Pointer` qualifier. -/
def describeClass (l : List (String × CimType × Bool)) : List Property :=
  l.mapIdx fun k (name, cimType, pointer) =>
    { name := wide name, dataType := ⟨cimType, false⟩,
      qualifiers := ⟨some ((k : Int) + 1), none, pointer, false, none, true, none, none⟩ }

/-- A class that is described like this can be read, if only its last property is of varying
size. -/
theorem Format.readable_of_describeClass {f : Format} {host : Host} {k : Handled}
    {l : List (String × CimType × Bool)}
    (hwec : f.classOf host k = ⟨fun _ => quietHost, 8, some (describeClass l)⟩)
    (hclass : f.pClass k = describeClass l) (hordered : f.ordered k = describeClass l)
    (hnames : ((describeClass l).map getPropertyName).Nodup)
    (hkinds : ∀ p ∈ describeClass l, p.kind.isSome) (hfew : (describeClass l).length < 2 ^ 14)
    (hasks : k.member.AsksFor (describeClass l))
    (hfixed : ∀ p ∈ (describeClass l).dropLast, (p.kind.bind (Kind.length 8)).isSome)
    (hnumbers : ∀ lookup ∈ k.member.lookups, lookup.sizeUse = .tested → ∀ p ∈ describeClass l,
      getPropertyName p = lookup.name → (p.kind.bind (Kind.length 8)).getD 9 ≤ 8)
    (htexts : ∀ text ∈ k.texts, ∃ p ∈ describeClass l,
      getPropertyName p = wide text.1 ∧ p.kind = some (.string text.2)) :
    f.Readable host k where
  describes := by
    rw [hwec, hclass]
    exact ⟨rfl, fun _ _ => rfl, fun _ => rfl, show 0 < (8 : UInt16).toNat by decide,
      show (8 : UInt16).toNat < 2 ^ 15 by decide⟩
  pointerSize := by
    rw [hwec]
    show 2 ≤ (8 : UInt16).toNat
    decide
  eventClass := by
    rw [hwec, hclass, hordered]
    refine ⟨.refl _, fun i p hi => ?_, fun p hp => ?_, hnames, fun p hp => ?_, hfew⟩
    · unfold describeClass at hi
      rw [List.getElem?_mapIdx, Option.map_eq_some_iff] at hi
      obtain ⟨entry, -, rfl⟩ := hi
      rfl
    · obtain ⟨i, hi, rfl⟩ := List.mem_mapIdx.mp hp
      rfl
    · exact Option.isSome_iff_exists.mp (hkinds p hp)
  asksFor := hordered ▸ hasks
  front := by
    rw [hwec, hordered]
    intro _ lookup _ i p hi _ q hq
    -- What stands in front of a property is not the last one.
    have hlt := (List.getElem?_eq_some_iff.mp hi).1
    have hfront : (describeClass l).take i <+: (describeClass l).dropLast := by
      rw [List.dropLast_eq_take]
      exact List.take_prefix_take_left (by omega)
    obtain ⟨c, hc⟩ := Option.isSome_iff_exists.mp (hfixed q (hfront.subset hq))
    obtain ⟨kind, hkind, hlength⟩ := Option.bind_eq_some_iff.mp hc
    exact ⟨kind, c, hkind, hlength⟩
  numbers := by
    rw [hwec, hordered]
    intro lookup hlookup htested p hp hname
    have hle := hnumbers lookup hlookup htested p hp hname
    cases hc : p.kind.bind (Kind.length 8) with
    | none => simp [hc] at hle
    | some c =>
      obtain ⟨kind, hkind, hlength⟩ := Option.bind_eq_some_iff.mp hc
      exact ⟨kind, c, hkind, hlength, by simpa [hc] using hle⟩
  texts := hordered ▸ htexts

/-- The class of Create events. -/
def fileIoCreateClass : List Property :=
  describeClass [("IrpPtr", .uint32, true), ("TTID", .uint32, false), ("FileObject", .uint32, true),
    ("CreateOptions", .uint32, false), ("FileAttributes", .uint32, false),
    ("ShareAccess", .uint32, false), ("OpenPath", .string, false)]

/-- The class of Write events. -/
def fileIoWriteClass : List Property :=
  describeClass [("Offset", .uint64, false), ("IrpPtr", .uint32, true), ("TTID", .uint32, false),
    ("FileObject", .uint32, true), ("FileKey", .uint32, true), ("IoSize", .uint32, false),
    ("IoFlags", .uint32, false)]

/-- The two classes, and none of processes. -/
def fileIoClasses : Handled → List Property
  | .fileIoCreate => fileIoCreateClass
  | .fileIoWrite => fileIoWriteClass
  | _ => []

/-- All classes of the example are described so. -/
def fileIoFormat : Format := ⟨fun _ => 2, fileIoClasses, fileIoClasses⟩

/-- The service has the PID 500. -/
def fileIoHost : Host where
  locale := .asciiOnly
  kCurrentPid := 500
  wmiEventClass := fun _ _ type => ⟨fun _ => quietHost, 8,
    some (if type = kCreate then fileIoCreateClass else fileIoWriteClass)⟩

/-- No process can be opened. Every file is on the drive `C:`. -/
def driveAnswers : Answers where
  owners := fun _ => none
  files := ⟨fun _ => some (wide "\\\\?\\C:\\NapierOne-tiny\\a")⟩
  dirExist := fun _ => false

/-- An address, or a number of 64 bits. -/
def bytes8 (n : UInt8) : List UInt8 := n :: List.replicate 7 0

/-- A value of four bytes. -/
def bytes4 (n : UInt8) : List UInt8 := n :: List.replicate 3 0

/-- Process 7 opens file object 8. -/
def openRecord : KernelRecord where
  guid := .fileIo
  version := 2
  type := kCreate
  processId := 7
  timeStamp := 10000
  values := [bytes8 1, bytes4 2, bytes8 8, bytes4 0, bytes4 0, bytes4 0,
    encodeWide (wide "\\Device\\D\\NapierOne-tiny\\a") ++ [0, 0]]
  size_lt := by decide
  answers := driveAnswers

/-- It writes 64 bytes to it. -/
def writeRecord : KernelRecord where
  guid := .fileIo
  version := 2
  type := kWrite
  processId := 7
  timeStamp := 20000
  values := [bytes8 0, bytes8 1, bytes4 2, bytes8 8, bytes8 9, bytes4 64, bytes4 0]
  size_lt := by decide
  answers := driveAnswers

/-- The class of Create events has the properties that the constructor asks for. -/
theorem readable_fileIoCreate : fileIoFormat.Readable fileIoHost .fileIoCreate := by
  refine Format.readable_of_describeClass rfl rfl rfl (by decide) (by decide) (by decide) ⟨?_, ?_⟩
    (by decide) (by decide) (by decide)
  · decide
  · intro name hname
    cases hname
    decide

/-- The class of Write events has the properties that the constructor asks for. -/
theorem readable_fileIoWrite : fileIoFormat.Readable fileIoHost .fileIoWrite := by
  refine Format.readable_of_describeClass rfl rfl rfl (by decide) (by decide) (by decide) ⟨?_, ?_⟩
    (by decide) (by decide) (by decide)
  · decide
  · intro name hname
    cases hname

/-- The first event is handled. -/
theorem openRecord_handled : openRecord.handled 500 = some .fileIoCreate := by decide

/-- The second event is handled. -/
theorem writeRecord_handled : writeRecord.handled 500 = some .fileIoWrite := by decide

/-- The write is printed with the path of the file object. -/
theorem Consumer.processEvents_openWrite :
    ∃ c, Consumer.processEvents fileIoHost [openRecord.arrival, writeRecord.arrival] .initial =
      .ok (c, [.file (.create 7 (wide "c:\\napierone-tiny\\a") 8 0),
        .file (.write 7 (wide "c:\\napierone-tiny\\a") ⟨8, 9, 0, 64⟩)]) := by
  have hreports : (Tables.initial.run fileIoHost ([openRecord, writeRecord].map fun r =>
      (r.answers, r.meaning fileIoHost.kCurrentPid fileIoFormat))).2 =
        [.file (.create 7 (wide "c:\\napierone-tiny\\a") 8 0),
          .file (.write 7 (wide "c:\\napierone-tiny\\a") ⟨8, 9, 0, 64⟩)] := by decide
  have hrun := Consumer.processEvents_eq fileIoFormat fileIoHost [openRecord, writeRecord] ?_ ?_
  · obtain ⟨c, hc, -⟩ := hrun
    rw [hreports] at hc
    exact ⟨c, hc⟩
  · intro r hr k hk
    rcases List.mem_pair.mp hr with rfl | rfl
    · cases openRecord_handled.symm.trans hk
      exact readable_fileIoCreate
    · cases writeRecord_handled.symm.trans hk
      exact readable_fileIoWrite
  · intro r hr k hk
    rcases List.mem_pair.mp hr with rfl | rfl
    · cases openRecord_handled.symm.trans hk
      exact ⟨rfl, .cons ⟨.pointer, rfl, .fixed rfl⟩ (.cons ⟨.int32, rfl, .fixed rfl⟩
        (.cons ⟨.pointer, rfl, .fixed rfl⟩ (.cons ⟨.int32, rfl, .fixed rfl⟩
          (.cons ⟨.int32, rfl, .fixed rfl⟩ (.cons ⟨.int32, rfl, .fixed rfl⟩
            (.cons ⟨.string true, rfl, .wide (by decide) (by decide)⟩ .nil))))))⟩
    · cases writeRecord_handled.symm.trans hk
      exact ⟨rfl, .cons ⟨.int64, rfl, .fixed rfl⟩ (.cons ⟨.pointer, rfl, .fixed rfl⟩
        (.cons ⟨.int32, rfl, .fixed rfl⟩ (.cons ⟨.pointer, rfl, .fixed rfl⟩
          (.cons ⟨.pointer, rfl, .fixed rfl⟩ (.cons ⟨.int32, rfl, .fixed rfl⟩
            (.cons ⟨.int32, rfl, .fixed rfl⟩ .nil))))))⟩

end KernelEventsTrace.EtwService
