import Mathlib.Data.List.Basic
import Mathlib.Data.List.Count
import KernelEventsTrace.Proofs.Etw.PayloadBounds

/-!
# `KernelEventsTrace.Proofs.Etw.Initialised`: when only written entries are used

`GetPropertyList` takes two tables from `malloc`. It fills the property list in the order of WMI
and the index in the order of the ids. `GetPropertyInfo` then walks over as many index cells as
there are properties, also if fewer properties carry an id, and `FreePropertyList` releases every
element, also if a failing call has ended the filling early.

* `Usage` records what a call of `GetPropertyInfo` wrote to the property list and what it
  released.
* `getPropertyInfoUsage_info`: the recorded call is `GetPropertyInfo`.
* `getPropertyInfo_initialised_iff`: only written entries are used, and each is released once,
  exactly in the cases of `InitialisedOnly`.
-/

set_option autoImplicit false

namespace KernelEventsTrace.EtwService

/-! ### Specification -/

/-- The ids that the properties of a class carry. -/
def wmiDataIds (pClass : List Property) : List Int :=
  pClass.filterMap (·.qualifiers.wmiDataId)

/-- The properties that carry an id are numbered from 1 on. -/
def NumberedIds (pClass : List Property) : Prop :=
  (wmiDataIds pClass).Perm
    ((List.range (wmiDataIds pClass).length).map fun j : Nat => (j : Int) + 1)

/-- The ids can be compared with `1, …, n`. -/
instance (pClass : List Property) : Decidable (NumberedIds pClass) :=
  inferInstanceAs (Decidable (List.Perm _ _))

/-- The properties that carry an id, in the order of the ids. -/
def orderedProperties (pClass : List Property) : List Property :=
  (List.range (wmiDataIds pClass).length).filterMap (propertyAt pClass)

/-- What is written of the elements, the first one being the `i`-th of the property list. -/
def writtenElements : Nat → List PropertyList → List Resource
  | _, [] => []
  | i, p :: ps =>
    (if p.name.isSome then [.name i] else []) ++
      (if p.qualifiers.isSome then [.qualifiers i] else []) ++ writtenElements (i + 1) ps

/-- A call of `GetPropertyInfo` by its result, the names and qualifier sets that it wrote to the
property list, and those that it released. -/
structure Usage where
  info : Int × Int
  written : List Resource
  released : List Resource
  deriving Repr, DecidableEq

/-- `FreePropertyList` at the end of a call. -/
def releaseTable (t : PropertyTable) (info : Int × Int) : Except Fault Usage :=
  match freeElements 0 t.properties with
  | .ok released => .ok ⟨info, writtenElements 0 t.properties, released⟩
  | .error fault => .error fault

/-- The walk over the property table and its release, with the record. -/
def walkUsage (host : WmiHost) (pointerSize : UInt16) (t : PropertyTable)
    (propertyName : WString) (event : Event) : Except Fault Usage :=
  match propertyLoop host pointerSize t propertyName event 0 t.index 0 0 with
  | .ok info => releaseTable t info
  | .error fault => .error fault

/-- `GetPropertyInfo` with the record. -/
def getPropertyInfoUsage (host : WmiHost) (pointerSize : UInt16) (pClass : List Property)
    (propertyName : WString) (event : Event) : Except Fault Usage :=
  let t := PropertyTable.malloc pClass.length
  if host.fails .getNames ∨ host.fails .mallocProperties then .ok ⟨(-1, 0), [], []⟩
  else if host.fails .mallocIndex then releaseTable t (-1, 0)
  else match writeProperties host.fails 0 pClass t with
    | .ok (t, true) => walkUsage host pointerSize t propertyName event
    | .ok (t, false) => releaseTable t (-1, 0)
    | .error fault => .error fault

/-- No unwritten entry is used, and if the call ends, what was written is released once and
nothing else is. -/
def UsesWritten (result : Except Fault Usage) : Prop :=
  result ≠ .error .unwritten ∧
    ∀ usage, result = .ok usage →
      ∀ r, usage.released.count r = if r ∈ usage.written then 1 else 0

/-- The calls for the property `i`. -/
def propertyCalls (i : Nat) (p : Property) : List WmiCall :=
  [.safeArrayGetElement i, .getPropertyQualifierSet i, .getWmiDataId i] ++
    if p.qualifiers.wmiDataId.isSome then [.getDataType i] else []

/-- The calls of the loop of `GetPropertyList` from the property `i` on. -/
def loopCalls : Nat → List Property → List WmiCall
  | _, [] => []
  | i, p :: ps => propertyCalls i p ++ loopCalls (i + 1) ps

/-- The first call of `GetPropertyList` that fails. -/
def firstFailure (fails : WmiCall → Bool) (pClass : List Property) : Option WmiCall :=
  (WmiCall.getNames :: .mallocProperties :: .mallocIndex :: loopCalls 0 pClass).find? fails

/-- The failure of a call finds the property list of `n` elements without names and qualifier
sets to come: there is no list yet, it is empty, or only the last data type is missing. -/
def FailsHarmlessly (n : Nat) : WmiCall → Prop
  | .getNames | .mallocProperties => True
  | .mallocIndex => n = 0
  | .safeArrayGetElement _ | .getPropertyQualifierSet _ => False
  | .getWmiDataId i | .getDataType i => i + 1 = n

/-- The walk over the properties `ps`, the first one at `offset` and the `i`-th of all, ends at
one of them: at one whose size cannot be read, one of size 0 or the named one. -/
def WalkEnds (host : WmiHost) (pointerSize : UInt16) (propertyName : WString) (event : Event) :
    Nat → List Property → Int → Prop
  | _, [], _ => False
  | i, p :: ps, offset =>
    ∀ size, FieldAt pointerSize event (host.stack i) offset (layout host pointerSize p) size →
      size = 0 ∨ getPropertyName p = propertyName ∨
        WalkEnds host pointerSize propertyName event (i + 1) ps (int32 (offset + size))

/-- All calls succeed, and all properties carry an id or the walk ends at one that does, or the
first call that fails does no harm. -/
def InitialisedOnly (host : WmiHost) (pointerSize : UInt16) (pClass : List Property)
    (propertyName : WString) (event : Event) : Prop :=
  match firstFailure host.fails pClass with
  | some call => FailsHarmlessly pClass.length call
  | none =>
    (wmiDataIds pClass).length = pClass.length ∨
      WalkEnds host pointerSize propertyName event 0 (orderedProperties pClass) 0

/-! ### The release -/

/-- An element with a name and a qualifier set. -/
def PropertyList.complete (p : PropertyList) : Bool := p.name.isSome && p.qualifiers.isSome

/-- `FreePropertyList` releases the elements in order, if all of them were written. -/
theorem freeElements_eq (ps : List PropertyList) :
    ∀ i, freeElements i ps =
      if ps.all PropertyList.complete then .ok (writtenElements i ps)
      else .error .unwritten := by
  induction ps with
  | nil =>
    intro i
    rfl
  | cons p ps ih =>
    intro i
    rcases p with ⟨name, dataType, qualifiers⟩
    cases name with
    | none => rfl
    | some name =>
      cases qualifiers with
      | none => rfl
      | some qualifiers =>
        simp only [freeElements, ih (i + 1), writtenElements, List.all_cons,
          PropertyList.complete, Option.isSome_some, Bool.and_self, Bool.true_and]
        split_ifs <;> rfl

/-- The element of a resource. -/
def Resource.element : Resource → Nat
  | .name i | .qualifiers i => i

/-- The elements are numbered from the first one on. -/
theorem le_element_of_mem (ps : List PropertyList) :
    ∀ i, ∀ r ∈ writtenElements i ps, i ≤ r.element := by
  induction ps with
  | nil =>
    intro i r hr
    cases hr
  | cons p ps ih =>
    intro i r hr
    rcases List.mem_append.mp hr with hr | hr
    · -- A resource of the element `i` itself.
      rcases List.mem_append.mp hr with hr | hr
      · split at hr <;> simp_all [Resource.element]
      · split at hr <;> simp_all [Resource.element]
    · have := ih (i + 1) r hr
      omega

/-- No element is listed twice. -/
theorem nodup_writtenElements (ps : List PropertyList) : ∀ i, (writtenElements i ps).Nodup := by
  induction ps with
  | nil =>
    intro i
    exact List.nodup_nil
  | cons p ps ih =>
    intro i
    have hrest : ∀ r ∈ writtenElements (i + 1) ps, r.element ≠ i := by
      intro r hr
      have := le_element_of_mem ps (i + 1) r hr
      omega
    have hname : Resource.name i ∉ writtenElements (i + 1) ps := fun h => hrest _ h rfl
    have hqualifiers : Resource.qualifiers i ∉ writtenElements (i + 1) ps := fun h => hrest _ h rfl
    simp only [writtenElements]
    split_ifs <;> simp [hname, hqualifiers, ih (i + 1)]

/-- The list is released without a fault if all of its entries were written. -/
theorem usesWritten_releaseTable_iff {t : PropertyTable} {info : Int × Int} :
    UsesWritten (releaseTable t info) ↔ t.properties.all PropertyList.complete = true := by
  simp only [releaseTable, freeElements_eq]
  by_cases h : t.properties.all PropertyList.complete = true
  · rw [if_pos h]
    refine iff_of_true ⟨by simp, ?_⟩ h
    intro usage husage r
    cases husage
    exact (nodup_writtenElements t.properties 0).count
  · rw [if_neg h]
    exact iff_of_false (fun huses => huses.1 rfl) h

/-- The release without the record. -/
theorem releaseTable_info (t : PropertyTable) (info : Int × Int) :
    (releaseTable t info).map Usage.info = (freePropertyList t).map fun _ => info := by
  simp only [releaseTable, freeElements_eq, freePropertyList]
  by_cases h : t.properties.all PropertyList.complete = true
  · have h' : (t.properties.all fun p => p.name.isSome && p.qualifiers.isSome) = true := h
    rw [if_pos h, if_pos h']
    rfl
  · have h' : ¬ (t.properties.all fun p => p.name.isSome && p.qualifiers.isSome) = true := h
    rw [if_neg h, if_neg h']
    rfl

/-- The recorded call is `GetPropertyInfo`. -/
theorem getPropertyInfoUsage_info (host : WmiHost) (pointerSize : UInt16)
    (pClass : List Property) (propertyName : WString) (event : Event) :
    (getPropertyInfoUsage host pointerSize pClass propertyName event).map Usage.info =
      getPropertyInfo host pointerSize (some pClass) propertyName event := by
  simp only [getPropertyInfoUsage, getPropertyInfo, getPropertyList]
  split_ifs with halloc hindex
  · rfl
  · rw [releaseTable_info, cleanup]
    cases freePropertyList (PropertyTable.malloc pClass.length) <;> rfl
  · cases writeProperties host.fails 0 pClass (PropertyTable.malloc pClass.length) with
    | error fault => rfl
    | ok result =>
      rcases result with ⟨t, filled⟩
      cases filled with
      | false =>
        dsimp only
        rw [releaseTable_info, cleanup]
        cases freePropertyList t <;> rfl
      | true =>
        simp only [walkUsage, walkTable]
        cases propertyLoop host pointerSize t propertyName event 0 t.index 0 0 with
        | error fault => rfl
        | ok info =>
          simp only [releaseTable_info]
          cases freePropertyList t <;> rfl

/-! ### A failing call -/

/-- A table with an element to come, that is not complete yet. -/
theorem all_complete_iff {done : List Property} {row : PropertyList} {m : Nat} :
    (done.map written ++ row :: List.replicate m ⟨none, none, none⟩).all PropertyList.complete =
        true ↔ row.complete = true ∧ m = 0 := by
  cases m <;> simp [PropertyList.complete, written, List.replicate_succ]

/-- The iteration whose first failing call is `call`. -/
theorem writeProperty_failing {fails : WmiCall → Bool} {done : List Property} {m : Nat}
    {t : PropertyTable} {p : Property} {call : WmiCall} (h : Written done (m + 1) t)
    (hids : IdsInRange (done.length + (m + 1)) [p])
    (hcall : (propertyCalls done.length p).find? fails = some call) :
    ∃ t', writeProperty fails done.length p t = .ok (t', false) ∧
      (t'.properties.all PropertyList.complete = true ↔
        FailsHarmlessly (done.length + (m + 1)) call) := by
  have hprops := h.properties_succ
  have hlast : m = 0 ↔ done.length + 1 = done.length + (m + 1) := by omega
  simp only [propertyCalls, List.find?_append, List.find?_cons] at hcall
  by_cases helement : fails (.safeArrayGetElement done.length) = true
  · -- Neither the name nor the qualifier set is written.
    have hcall : WmiCall.safeArrayGetElement done.length = call := by
      simpa [helement] using hcall
    refine ⟨t, by simp [writeProperty, helement], ?_⟩
    rw [hprops, all_complete_iff, ← hcall]
    simp [PropertyList.complete, FailsHarmlessly]
  by_cases hset : fails (.getPropertyQualifierSet done.length) = true
  · have hcall : WmiCall.getPropertyQualifierSet done.length = call := by
      simpa [helement, hset] using hcall
    refine ⟨t.modify done.length fun e => { e with name := some p.name },
      by simp [writeProperty, helement, hset], ?_⟩
    -- The name is written, the qualifier set is not.
    simp only [PropertyTable.modify, hprops, modify_next]
    rw [all_complete_iff, ← hcall]
    simp [PropertyList.complete, FailsHarmlessly]
  -- From here on the element is complete, so only the elements behind it matter.
  have hcomplete : ∀ dataType,
      (done.map written ++ (⟨some p.name, dataType, some p.qualifiers⟩ : PropertyList) ::
          List.replicate m ⟨none, none, none⟩).all PropertyList.complete = true ↔
        done.length + 1 = done.length + (m + 1) := by
    intro dataType
    rw [all_complete_iff, ← hlast]
    simp [PropertyList.complete]
  by_cases hget : fails (.getWmiDataId done.length) = true
  · have hcall : WmiCall.getWmiDataId done.length = call := by
      simpa [helement, hset, hget] using hcall
    refine ⟨{ t with properties := done.map written ++
      ⟨some p.name, none, some p.qualifiers⟩ :: List.replicate m ⟨none, none, none⟩ }, ?_, ?_⟩
    · simp [writeProperty, writeIndex, PropertyTable.modify, helement, hset, hget, hprops,
        modify_next]
    · rw [← hcall]
      exact hcomplete none
  · -- What is left is the data type, of a property with an id.
    cases hid : p.qualifiers.wmiDataId with
    | none => simp [helement, hset, hget, hid] at hcall
    | some id =>
      have htype : fails (.getDataType done.length) = true := by
        by_contra hn
        simp [helement, hset, hget, hid, hn] at hcall
      have hcall : WmiCall.getDataType done.length = call := by
        simpa [helement, hset, hget, hid, htype] using hcall
      have hrange : 0 ≤ id - 1 ∧ id - 1 < t.index.length := by
        have := hids p (List.mem_singleton.mpr rfl) id hid
        have := h.length_index
        omega
      refine ⟨⟨done.map written ++
        ⟨some p.name, none, some p.qualifiers⟩ :: List.replicate m ⟨none, none, none⟩,
        t.index.set (id - 1).toNat (some done.length)⟩, ?_, ?_⟩
      · simp only [writeProperty, writeIndex, writeDataType, PropertyTable.modify, helement, hset,
          hget, hid, htype, hprops, modify_next, Bool.false_eq_true, if_false, if_true,
          if_pos hrange]
      · rw [← hcall]
        exact hcomplete none

/-- An iteration without a failing call. -/
theorem writeProperty_quiet {fails : WmiCall → Bool} {i : Nat} {p : Property}
    (hcalls : (propertyCalls i p).find? fails = none) (t : PropertyTable) :
    writeProperty fails i p t = writeProperty (fun _ => false) i p t := by
  have hquiet : ∀ call ∈ propertyCalls i p, fails call = false := by
    intro call hcall
    simpa using List.find?_eq_none.mp hcalls call hcall
  have helement := hquiet (.safeArrayGetElement i) (by simp [propertyCalls])
  have hset := hquiet (.getPropertyQualifierSet i) (by simp [propertyCalls])
  have hget := hquiet (.getWmiDataId i) (by simp [propertyCalls])
  simp only [writeProperty, writeIndex, helement, hset, hget, Bool.false_eq_true, if_false]
  cases hid : p.qualifiers.wmiDataId with
  | none => rfl
  | some id =>
    have htype := hquiet (.getDataType i) (by simp [propertyCalls, hid])
    simp only [writeDataType, htype]

/-- The loop up to the first failing call, or to its end. -/
theorem writeProperties_failing {fails : WmiCall → Bool} (ps : List Property) :
    ∀ (done : List Property) (t : PropertyTable), Written done ps.length t →
      IdsInRange (done.length + ps.length) ps →
      (∀ call, (loopCalls done.length ps).find? fails = some call →
        ∃ t', writeProperties fails done.length ps t = .ok (t', false) ∧
          (t'.properties.all PropertyList.complete = true ↔
            FailsHarmlessly (done.length + ps.length) call)) ∧
      ((loopCalls done.length ps).find? fails = none →
        ∃ t', writeProperties fails done.length ps t = .ok (t', true) ∧
          Written (done ++ ps) 0 t') := by
  induction ps with
  | nil =>
    intro done t h _
    constructor
    · intro call hcall
      cases hcall
    · intro _
      exact ⟨t, rfl, by simpa using h⟩
  | cons p ps ih =>
    intro done t h hids
    have hids := idsInRange_cons.mp hids
    simp only [loopCalls, List.find?_append]
    cases hfirst : (propertyCalls done.length p).find? fails with
    | some first =>
      -- The loop ends in this iteration.
      rcases writeProperty_failing h hids.1 hfirst with ⟨t', hrun, hiff⟩
      constructor
      · intro call hcall
        have hcall : first = call := by simpa using hcall
        refine ⟨t', by simp only [writeProperties, hrun], ?_⟩
        rw [← hcall]
        exact hiff
      · intro hnone
        simp at hnone
    | none =>
      -- No call of this iteration fails.
      rcases (writeProperty_spec p h).1 hids.1 with ⟨t', hrun, hw⟩
      have hlen : (done ++ [p]).length + ps.length = done.length + (p :: ps).length := by
        rw [List.length_append, List.length_singleton, List.length_cons]
        omega
      have hrest := ih (done ++ [p]) t' hw (by rw [hlen]; exact hids.2)
      rw [hlen, List.append_assoc, List.singleton_append, List.length_append,
        List.length_singleton] at hrest
      have hloop : writeProperties fails done.length (p :: ps) t =
          writeProperties fails (done.length + 1) ps t' := by
        simp only [writeProperties, writeProperty_quiet hfirst, hrun]
      rw [hloop]
      simpa using hrest

/-! ### The walk over the index -/

/-- The length of a text is not read off allocated memory. -/
theorem scanLength_ne_unwritten {α : Type} [DecidableEq α] [Zero α] (l : List α) :
    scanLength l ≠ .error .unwritten := by
  induction l with
  | nil => simp [scanLength]
  | cons c cs ih =>
    simp only [scanLength]
    split_ifs
    · simp
    · cases hscan : scanLength cs with
      | ok n => simp
      | error fault =>
        rw [hscan] at ih
        exact ih

/-- Nor are the bytes of the payload. -/
theorem copyMemory_ne_unwritten (event : Event) (pos : Int) (n : Nat) :
    event.copyMemory pos n ≠ .error .unwritten := by
  unfold Event.copyMemory
  split_ifs <;> simp

/-- Nor is the size of an array of strings. -/
theorem stringLoop_ne_unwritten (isWideString : Bool) (event : Event) (offset : Int) (n : Nat)
    (dataSize : Int) : stringLoop isWideString event offset n dataSize ≠ .error .unwritten := by
  cases n with
  | zero => simp [stringLoop]
  | succ n =>
    rw [stringLoop_succ]
    cases isWideString with
    | false =>
      simp only [stringSize, strlen, Bool.false_eq_true, if_false]
      have hscan := scanLength_ne_unwritten (event.bytesFrom offset)
      cases h : scanLength (event.bytesFrom offset) with
      | ok n => simp
      | error fault => simpa [h] using hscan
    | true =>
      simp only [stringSize, wcslen, if_true]
      have hscan := scanLength_ne_unwritten (wchars (event.bytesFrom offset))
      cases h : scanLength (wchars (event.bytesFrom offset)) with
      | ok n => simp
      | error fault => simpa [h] using hscan

/-- Nor is the size of one SID. -/
theorem sidElement_ne_unwritten (pointerSize : UInt16) (event : Event) (offset pos : Int)
    (buffer : SidBuffer) :
    sidElement pointerSize event offset pos buffer ≠ .error .unwritten := by
  unfold sidElement
  have hulong := copyMemory_ne_unwritten event pos 4
  cases h : event.copyMemory pos 4 with
  | error fault => simpa [h] using hulong
  | ok temp =>
    dsimp only
    split_ifs
    · have hcopy := copyMemory_ne_unwritten event (pos + bytesToSid pointerSize)
        (copyLength event offset (bytesToSid pointerSize))
      cases h : event.copyMemory (pos + bytesToSid pointerSize)
        (copyLength event offset (bytesToSid pointerSize)) with
      | error fault => simpa [h] using hcopy
      | ok bytes => simp
    · simp

/-- Nor is the size of an array of SIDs. -/
theorem sidLoop_ne_unwritten (pointerSize : UInt16) (event : Event) (offset : Int) (n : Nat) :
    ∀ (dataSize pos : Int) (buffer : SidBuffer),
      sidLoop pointerSize event offset n dataSize pos buffer ≠ .error .unwritten := by
  induction n with
  | zero =>
    intro dataSize pos buffer
    simp [sidLoop]
  | succ n ih =>
    intro dataSize pos buffer
    simp only [sidLoop]
    have helement := sidElement_ne_unwritten pointerSize event offset pos buffer
    cases h : sidElement pointerSize event offset pos buffer with
    | error fault => simpa [h] using helement
    | ok element => exact ih _ _ _

/-- The size of a property is computed without the tables. -/
theorem getEventPropertyValue_ne_unwritten (host : WmiHost) (pointerSize : UInt16) (p : Property)
    (event : Event) (buffer : SidBuffer) (offset : Int) :
    getEventPropertyValue host pointerSize p event buffer offset ≠ .error .unwritten := by
  unfold getEventPropertyValue
  split_ifs
  · simp
  cases arraySize p with
  | none => simp
  | some n =>
    dsimp only
    unfold typeValue
    cases p.dataType.cimType with
    | string =>
      simp only [stringValue]
      split_ifs
      · exact stringLoop_ne_unwritten _ _ _ _ _
      · simp
    | object =>
      cases p.qualifiers.extension with
      | none => simp
      | some extension =>
        simp only [objectValue]
        split_ifs <;> first | exact sidLoop_ne_unwritten _ _ _ _ _ _ _ | simp
    | sint8 | uint8 =>
      dsimp only
      split_ifs <;> simp
    | _ => simp

/-- The walk over cells that lead to `ps`, followed by `k` cells that were not written. -/
theorem propertyLoop_ne_unwritten_iff {host : WmiHost} {pointerSize : UInt16} {t : PropertyTable}
    {propertyName : WString} {event : Event} {k : Nat} (ps : List Property) :
    ∀ {cells : List (Option Nat)} {i : Nat} {offset dataSize : Int},
      cells.map t.entry = ps.map .ok ++ List.replicate k (.error .unwritten) →
      (propertyLoop host pointerSize t propertyName event i cells offset dataSize ≠
          .error .unwritten ↔
        k = 0 ∨ WalkEnds host pointerSize propertyName event i ps offset) := by
  induction ps with
  | nil =>
    intro cells i offset dataSize hcells
    cases k with
    | zero =>
      have hnil : cells = [] := by simpa using hcells
      rw [hnil]
      simp [propertyLoop]
    | succ k =>
      cases cells with
      | nil => simp [List.replicate_succ] at hcells
      | cons cell cells =>
        -- The next cell was not written.
        have hentry : t.entry cell = .error .unwritten := (List.cons.inj hcells).1
        simp [propertyLoop, hentry, WalkEnds]
  | cons p ps ih =>
    intro cells i offset dataSize hcells
    cases cells with
    | nil => simp at hcells
    | cons cell cells =>
      have hentry : t.entry cell = .ok p := (List.cons.inj hcells).1
      have hrest : cells.map t.entry = ps.map .ok ++ List.replicate k (.error .unwritten) :=
        (List.cons.inj hcells).2
      have hquiet := getEventPropertyValue_ne_unwritten host pointerSize p event (host.stack i)
        offset
      cases hvalue : getEventPropertyValue host pointerSize p event (host.stack i) offset with
      | error fault =>
        -- The walk ends at a size that cannot be read.
        have hends : WalkEnds host pointerSize propertyName event i (p :: ps) offset := by
          intro size hfield
          rw [← getEventPropertyValue_eq_ok_iff, hvalue] at hfield
          cases hfield
        rw [hvalue] at hquiet
        have hloop : propertyLoop host pointerSize t propertyName event i (cell :: cells) offset
            dataSize = .error fault := by
          simp only [propertyLoop, hentry, hvalue]
        rw [hloop]
        exact iff_of_true (by simpa using hquiet) (Or.inr hends)
      | ok size =>
        have hends : WalkEnds host pointerSize propertyName event i (p :: ps) offset ↔
            size = 0 ∨ getPropertyName p = propertyName ∨
              WalkEnds host pointerSize propertyName event (i + 1) ps (int32 (offset + size)) := by
          simp only [WalkEnds, ← getEventPropertyValue_eq_ok_iff, hvalue, Except.ok.injEq,
            forall_eq']
        rw [propertyLoop_cons hentry hvalue, hends]
        by_cases hzero : size = 0
        · simp [hzero]
        · by_cases hname : getPropertyName p = propertyName
          · simp [hzero, hname]
          · rw [if_neg hzero, if_neg hname, ih hrest]
            simp [hzero, hname]

/-! ### Numbered ids -/

/-- The numbered ids are those from 1 to their number. -/
theorem mem_wmiDataIds_iff {pClass : List Property} (hids : NumberedIds pClass) {id : Int} :
    id ∈ wmiDataIds pClass ↔ 1 ≤ id ∧ id ≤ (wmiDataIds pClass).length := by
  rw [hids.mem_iff]
  simp only [List.mem_map, List.mem_range]
  constructor
  · intro h
    rcases h with ⟨j, hj, rfl⟩
    omega
  · intro h
    exact ⟨(id - 1).toNat, by omega, by omega⟩

/-- No more properties carry an id than there are. -/
theorem length_wmiDataIds_le (pClass : List Property) :
    (wmiDataIds pClass).length ≤ pClass.length :=
  List.length_filterMap_le _ _

/-- Numbered ids are inside of the index. -/
theorem NumberedIds.idsInRange {pClass : List Property} (hids : NumberedIds pClass) :
    IdsInRange pClass.length pClass := by
  intro p hp id hid
  have hmem : id ∈ wmiDataIds pClass := List.mem_filterMap.mpr ⟨p, hp, hid⟩
  have := (mem_wmiDataIds_iff hids).mp hmem
  have := length_wmiDataIds_le pClass
  omega

/-- Exactly the first cells lead to a property. -/
theorem propertyAt_isSome_iff {pClass : List Property} (hids : NumberedIds pClass) (j : Nat) :
    (propertyAt pClass j).isSome = true ↔ j < (wmiDataIds pClass).length := by
  have hmem : (propertyAt pClass j).isSome = true ↔ ((j : Int) + 1) ∈ wmiDataIds pClass := by
    simp [propertyAt, wmiDataIds, List.find?_isSome]
  rw [hmem, mem_wmiDataIds_iff hids]
  omega

/-- The cells lead to the ordered properties, and behind them to nothing. -/
theorem map_propertyAt_range {pClass : List Property} (hids : NumberedIds pClass) :
    (List.range pClass.length).map (propertyAt pClass) =
      (orderedProperties pClass).map some ++
        List.replicate (pClass.length - (wmiDataIds pClass).length) none := by
  have hsplit : List.range pClass.length = List.range (wmiDataIds pClass).length ++
      (List.range (pClass.length - (wmiDataIds pClass).length)).map
        ((wmiDataIds pClass).length + ·) := by
    rw [← List.range_add, Nat.add_sub_cancel' (length_wmiDataIds_le pClass)]
  rw [hsplit, List.map_append]
  congr 1
  · -- Each of these cells leads to a property, so `filterMap` drops none.
    have hsome : ∀ l : List Nat, (∀ j ∈ l, (propertyAt pClass j).isSome = true) →
        l.map (propertyAt pClass) = (l.filterMap (propertyAt pClass)).map some := by
      intro l
      induction l with
      | nil =>
        intro _
        rfl
      | cons j l ih =>
        intro h
        rcases Option.isSome_iff_exists.mp (h j (by simp)) with ⟨p, hp⟩
        rw [List.map_cons, List.filterMap_cons_some hp, List.map_cons, hp,
          ih fun k hk => h k (List.mem_cons_of_mem _ hk)]
    exact hsome _ fun j hj => (propertyAt_isSome_iff hids j).mpr (List.mem_range.mp hj)
  · rw [List.map_map, List.eq_replicate_iff]
    refine ⟨by simp, ?_⟩
    intro entry hentry
    rcases List.mem_map.mp hentry with ⟨j, _, rfl⟩
    have hnone := propertyAt_isSome_iff hids ((wmiDataIds pClass).length + j)
    simp only [Function.comp_apply]
    cases h : propertyAt pClass ((wmiDataIds pClass).length + j) with
    | none => rfl
    | some p =>
      rw [h] at hnone
      have := hnone.mp rfl
      omega

/-! ### Main result -/

/-- A full table is released without a fault, so only the walk decides. -/
theorem usesWritten_walkUsage_iff {host : WmiHost} {pointerSize : UInt16} {t : PropertyTable}
    {propertyName : WString} {event : Event}
    (hcomplete : t.properties.all PropertyList.complete = true) :
    UsesWritten (walkUsage host pointerSize t propertyName event) ↔
      propertyLoop host pointerSize t propertyName event 0 t.index 0 0 ≠ .error .unwritten := by
  unfold walkUsage
  cases propertyLoop host pointerSize t propertyName event 0 t.index 0 0 with
  | ok info => exact iff_of_true (usesWritten_releaseTable_iff.mpr hcomplete) (by simp)
  | error fault => simp [UsesWritten]

/-- A call that gets no list uses none. -/
theorem usesWritten_no_list {info : Int × Int} : UsesWritten (.ok ⟨info, [], []⟩) := by
  refine ⟨by simp, ?_⟩
  intro usage husage r
  cases husage
  rfl

/-- `GetPropertyInfo` uses only entries of the tables that were written, and what was written is
released once, exactly in the cases of `InitialisedOnly`. -/
theorem getPropertyInfo_initialised_iff (host : WmiHost) (pointerSize : UInt16)
    {pClass : List Property} (hids : NumberedIds pClass) (propertyName : WString)
    (event : Event) :
    UsesWritten (getPropertyInfoUsage host pointerSize pClass propertyName event) ↔
      InitialisedOnly host pointerSize pClass propertyName event := by
  simp only [getPropertyInfoUsage, InitialisedOnly, firstFailure, List.find?_cons]
  by_cases hnames : host.fails .getNames = true
  · simp only [hnames, true_or, if_true]
    exact iff_of_true usesWritten_no_list trivial
  by_cases hproperties : host.fails .mallocProperties = true
  · simp only [hnames, hproperties, or_true, if_true]
    exact iff_of_true usesWritten_no_list trivial
  by_cases hindex : host.fails .mallocIndex = true
  · -- The property list is there, and nothing in it is written.
    simp only [hnames, hproperties, hindex, or_self, Bool.false_eq_true, if_false, if_true]
    rw [usesWritten_releaseTable_iff]
    simp [PropertyTable.malloc, PropertyList.complete, FailsHarmlessly]
  -- From here on the loop runs, and its first failing call decides.
  simp only [hnames, hproperties, hindex, or_self, Bool.false_eq_true, if_false]
  have hloop := @writeProperties_failing host.fails pClass [] _ (written_malloc pClass)
    (by simpa using hids.idsInRange)
  simp only [List.length_nil, Nat.zero_add, List.nil_append] at hloop
  cases hcalls : (loopCalls 0 pClass).find? host.fails with
  | some call =>
    rcases hloop.1 call hcalls with ⟨t, hrun, hiff⟩
    rw [hrun]
    exact usesWritten_releaseTable_iff.trans hiff
  | none =>
    rcases hloop.2 hcalls with ⟨t, hrun, hw⟩
    rw [hrun]
    have hcomplete : t.properties.all PropertyList.complete = true := by
      have hprops : t.properties = pClass.map written := by simpa using hw.properties
      simp [hprops, written, PropertyList.complete]
    have hcells : t.index.map t.entry = (orderedProperties pClass).map .ok ++
        List.replicate (pClass.length - (wmiDataIds pClass).length) (.error .unwritten) := by
      rw [hw.entries, map_propertyAt_range hids, List.map_append, List.map_map,
        List.map_replicate]
      rfl
    -- No call has failed, so every element is complete, and only the walk decides.
    refine (usesWritten_walkUsage_iff hcomplete).trans ?_
    rw [propertyLoop_ne_unwritten_iff _ hcells]
    have := length_wmiDataIds_le pClass
    have hall : pClass.length - (wmiDataIds pClass).length = 0 ↔
        (wmiDataIds pClass).length = pClass.length := by omega
    rw [hall]

/-! ### A class with a property without id -/

/-- A property without a `WmiDataId`. -/
def reserved : Property where
  name := wide "Reserved"
  dataType := ⟨.uint32, false⟩
  qualifiers :=
    { wmiDataId := none, description := none, pointer := false, pointerType := false, max := none,
      format := false, stringTermination := none, extension := none }

/-- The walk for a name that the class does not have goes on to a cell that was not written. -/
theorem getPropertyInfo_reserved :
    NumberedIds [fileObject, reserved] ∧
      ¬ UsesWritten (getPropertyInfoUsage quietHost 8 [fileObject, reserved] (wide "Missing")
        terminatedEvent) := by
  refine ⟨by decide, ?_⟩
  intro h
  exact h.1 rfl

/-- The walk for a name that the class has ends before it. -/
theorem getPropertyInfo_fileObject :
    UsesWritten (getPropertyInfoUsage quietHost 8 [fileObject, reserved] (wide "FileObject")
      terminatedEvent) := by
  refine (getPropertyInfo_initialised_iff quietHost 8 (by decide) _ _).mpr (Or.inr ?_)
  intro size _
  exact Or.inr (Or.inl (by decide))

end KernelEventsTrace.EtwService
