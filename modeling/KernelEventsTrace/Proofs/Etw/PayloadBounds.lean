import KernelEventsTrace.Proofs.Etw.PropertyTable
import KernelEventsTrace.Proofs.Etw.FieldSize

/-!
# `KernelEventsTrace.Proofs.Etw.PayloadBounds`: when `GetPropertyInfo` stays in the payload

Only the copy of a SID is limited by `MofLength`. The scan of a string ends at a zero wherever it
is, the `ULONG` of a SID is read without a check, and the sizes of the description are added up
without looking at the payload. `getPropertyInfo_bounds_iff` says for every class and payload when
this does no harm. The condition follows the walk: `FieldsInside` asks of every property up to the
named one that the payload holds what its size is read from, and of the named one that it ends in
the payload.
-/

set_option autoImplicit false

namespace KernelEventsTrace.EtwService

/-! ### Specification -/

/-- The call reads only the payload, and a property that it finds lies in the payload. -/
def BoundsSafe (event : Event) (result : Except Fault (Int × Int)) : Prop :=
  ∃ offset size, result = .ok (offset, size) ∧
    (0 ≤ offset → size ≠ 0 → offset + size ≤ event.getMofLength)

/-- The properties `ps` in the order of their ids, the first one at `offset` and the `i`-th of all.
The walk ends at a property of size 0 and at the named one. -/
def FieldsInside (host : WmiHost) (pointerSize : UInt16) (propertyName : WString) (event : Event) :
    Nat → List (Option Property) → Int → Prop
  | _, [], _ => True
  | _, none :: _, _ => False
  | i, some p :: ps, offset =>
    ∃ size, FieldAt pointerSize event (host.stack i) offset (layout host pointerSize p) size ∧
      (size ≠ 0 →
        if getPropertyName p = propertyName then 0 ≤ offset → offset + size ≤ event.getMofLength
        else FieldsInside host pointerSize propertyName event (i + 1) ps (int32 (offset + size)))

/-! ### The walk -/

/-- A result is safe if its range ends in the payload. -/
theorem boundsSafe_ok_iff {event : Event} {offset size : Int} :
    BoundsSafe event (.ok (offset, size)) ↔
      (0 ≤ offset → size ≠ 0 → offset + size ≤ event.getMofLength) := by
  constructor
  · intro h
    rcases h with ⟨offset', size', heq, hbound⟩
    cases heq
    exact hbound
  · intro h
    exact ⟨offset, size, rfl, h⟩

/-- A fault is not safe. -/
theorem not_boundsSafe_error {event : Event} {fault : Fault} :
    ¬ BoundsSafe event (.error fault) := by
  intro h
  rcases h with ⟨_, _, heq, _⟩
  cases heq

/-- A property that is not found has the offset `-1`. -/
theorem boundsSafe_not_found (event : Event) (size : Int) : BoundsSafe event (.ok (-1, size)) := by
  rw [boundsSafe_ok_iff]
  omega

/-- The walk is safe if all fields that it looks at are inside. -/
theorem boundsSafe_propertyLoop_iff {host : WmiHost} {pointerSize : UInt16} {t : PropertyTable}
    {propertyName : WString} {event : Event} {cells : List (Option Nat)} :
    ∀ {ps : List (Option Property)} {i : Nat} {offset dataSize : Int},
      cells.map t.entry = ps.map readEntry →
      (BoundsSafe event
          (propertyLoop host pointerSize t propertyName event i cells offset dataSize) ↔
        FieldsInside host pointerSize propertyName event i ps offset) := by
  induction cells with
  | nil =>
    intro ps i offset dataSize hcells
    have hps : ps = [] := by simpa using hcells.symm
    rw [hps]
    exact iff_of_true (boundsSafe_not_found event dataSize) trivial
  | cons cell cells ih =>
    intro ps i offset dataSize hcells
    cases ps with
    | nil => simp at hcells
    | cons entry ps =>
      have hentry : t.entry cell = readEntry entry := (List.cons.inj hcells).1
      have hrest : cells.map t.entry = ps.map readEntry := (List.cons.inj hcells).2
      cases entry with
      | none =>
        -- The cell was never written.
        simp only [propertyLoop, hentry, readEntry]
        exact iff_of_false not_boundsSafe_error id
      | some p =>
        cases hvalue : getEventPropertyValue host pointerSize p event (host.stack i) offset with
        | error fault =>
          -- The size cannot be found: there is no field for it.
          have hnone :
              ¬ FieldsInside host pointerSize propertyName event i (some p :: ps) offset := by
            intro h
            rcases h with ⟨size, hfield, _⟩
            rw [← getEventPropertyValue_eq_ok_iff, hvalue] at hfield
            cases hfield
          simp only [propertyLoop, hentry, readEntry, hvalue]
          exact iff_of_false not_boundsSafe_error hnone
        | ok size =>
          -- The field is unique, so the condition is about this size.
          have hfield : FieldsInside host pointerSize propertyName event i (some p :: ps) offset ↔
              (size ≠ 0 →
                if getPropertyName p = propertyName then
                  0 ≤ offset → offset + size ≤ event.getMofLength
                else FieldsInside host pointerSize propertyName event (i + 1) ps
                  (int32 (offset + size))) := by
            simp only [FieldsInside, ← getEventPropertyValue_eq_ok_iff, hvalue, Except.ok.injEq,
              exists_eq_left']
          rw [hfield, propertyLoop_cons hentry hvalue]
          by_cases hzero : size = 0
          · rw [if_pos hzero]
            exact iff_of_true (boundsSafe_not_found event size) fun hne => absurd hzero hne
          · rw [if_neg hzero]
            by_cases hname : getPropertyName p = propertyName
            · rw [if_pos hname, if_pos hname, boundsSafe_ok_iff]
              simp [hzero]
            · rw [if_neg hname, if_neg hname, ih hrest]
              simp [hzero]

/-! ### Main result -/

/-- `GetPropertyInfo` reads only the payload and finds a property only inside it, exactly if the
ids of the class name index cells and the fields of the walk are inside. -/
theorem getPropertyInfo_bounds_iff {host : WmiHost} (hcalls : ∀ call, host.fails call = false)
    (pointerSize : UInt16) (pClass : List Property) (propertyName : WString) (event : Event) :
    BoundsSafe event (getPropertyInfo host pointerSize (some pClass) propertyName event) ↔
      IdsInRange pClass.length pClass ∧
        FieldsInside host pointerSize propertyName event 0
          ((List.range pClass.length).map (propertyAt pClass)) 0 := by
  by_cases hids : IdsInRange pClass.length pClass
  · rcases getPropertyInfo_walk hcalls hids with ⟨t, hentries, hwalk⟩
    rw [hwalk, boundsSafe_propertyLoop_iff hentries]
    simp only [hids, true_and]
  · rw [getPropertyInfo_outsideTable hcalls hids]
    exact iff_of_false not_boundsSafe_error fun h => hids h.1

/-! ### A class with a pointer and a wide string -/

/-- The property `FileObject`. -/
def fileObject : Property where
  name := wide "FileObject"
  dataType := ⟨.uint32, false⟩
  qualifiers :=
    { wmiDataId := some 1, description := none, pointer := true, pointerType := false, max := none,
      format := false, stringTermination := none, extension := none }

/-- The property `FileName`. -/
def fileName : Property where
  name := wide "FileName"
  dataType := ⟨.string, false⟩
  qualifiers :=
    { wmiDataId := some 2, description := none, pointer := false, pointerType := false, max := none,
      format := true, stringTermination := some (wide "NullTerminated"), extension := none }

/-- No call fails. -/
def quietHost : WmiHost := ⟨fun _ => false, false, fun _ _ => 0⟩

/-- A payload with the file name `"A"`. -/
def terminatedEvent : Event := ⟨[1, 2, 3, 4, 5, 6, 7, 8, 65, 0, 0, 0], by decide⟩

/-- The payload without the terminator of the file name. -/
def unterminatedEvent : Event := ⟨[1, 2, 3, 4, 5, 6, 7, 8, 65, 0], by decide⟩

/-- The name of the example ends in the payload. -/
theorem fileName_bounds :
    BoundsSafe terminatedEvent
      (getPropertyInfo quietHost 8 (some [fileName, fileObject]) (wide "FileName")
        terminatedEvent) := by
  refine (getPropertyInfo_bounds_iff (fun _ => rfl) 8 _ _ _).mpr ⟨?_, ?_⟩
  · simp [IdsInRange, fileName, fileObject]
  · show FieldsInside quietHost 8 (wide "FileName") terminatedEvent 0
      [some fileObject, some fileName] 0
    refine ⟨8, rfl, fun _ => ?_⟩
    rw [if_neg (by decide)]
    refine ⟨4, ⟨1, ⟨[65], [], rfl, by decide, rfl⟩, rfl⟩, fun _ => ?_⟩
    rw [if_pos (by decide)]
    decide

/-- The scan for the terminator leaves the payload. -/
theorem fileName_unterminated :
    ¬ BoundsSafe unterminatedEvent
      (getPropertyInfo quietHost 8 (some [fileName, fileObject]) (wide "FileName")
        unterminatedEvent) := by
  have hscan : getPropertyInfo quietHost 8 (some [fileName, fileObject]) (wide "FileName")
      unterminatedEvent = .error .outsidePayload := by rfl
  rw [hscan]
  exact not_boundsSafe_error

end KernelEventsTrace.EtwService
