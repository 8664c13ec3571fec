import Mathlib.Data.List.Basic
import KernelEventsTrace.EtwService.WmiEventClass

/-!
# `KernelEventsTrace.Proofs.Etw.PropertyTable`: the table that `GetPropertyList` fills

WMI enumerates the properties in an order of its own. `GetPropertyList` stores them in that
order, and the index cell `j` leads to the property that carries the `WmiDataId` `j + 1`.
`getPropertyList_spec` says so for a class whose ids all name cells, and that the table is
released without a fault. An id out of range is written outside the table. So a call of
`GetPropertyInfo` is a walk over the properties in the order of their ids (`getPropertyInfo_walk`).
-/

set_option autoImplicit false

namespace KernelEventsTrace.EtwService

/-! ### Specification -/

/-- Every `WmiDataId` names one of the `n` index cells. -/
def IdsInRange (n : Nat) (ps : List Property) : Prop :=
  ∀ p ∈ ps, ∀ id, p.qualifiers.wmiDataId = some id → 1 ≤ id ∧ id ≤ n

/-- The property that carries the `WmiDataId` `j + 1`, the last one if there are several. -/
def propertyAt (pClass : List Property) (j : Nat) : Option Property :=
  pClass.reverse.find? fun p => p.qualifiers.wmiDataId = some ((j : Int) + 1)

/-- What an index cell leads to, as a read of the table. -/
def readEntry : Option Property → Except Fault Property
  | some p => .ok p
  | none => .error .unwritten

/-- The table element of a property. Without `WmiDataId` the data type is not written. -/
def written (p : Property) : PropertyList :=
  ⟨some p.name, p.qualifiers.wmiDataId.map fun _ => p.dataType, some p.qualifiers⟩

/-- The table after the iterations for the properties `done`, with `m` more to come. -/
structure Written (done : List Property) (m : Nat) (t : PropertyTable) : Prop where
  properties : t.properties = done.map written ++ List.replicate m ⟨none, none, none⟩
  length_index : t.index.length = done.length + m
  lt_length : ∀ j i : Nat, t.index[j]? = some (some i) → i < done.length
  cells : ∀ (j : Nat) cell, t.index[j]? = some cell → cell.bind (done[·]?) = propertyAt done j

/-! ### One property -/

/-- One more property. -/
theorem propertyAt_snoc (ps : List Property) (p : Property) (j : Nat) :
    propertyAt (ps ++ [p]) j =
      if p.qualifiers.wmiDataId = some ((j : Int) + 1) then some p else propertyAt ps j := by
  unfold propertyAt
  rw [List.reverse_append, List.reverse_singleton, List.singleton_append, List.find?_cons]
  by_cases h : p.qualifiers.wmiDataId = some ((j : Int) + 1) <;> simp [h]

/-- The property at a position has the id of that position. -/
theorem propertyAt_id {pClass : List Property} {j : Nat} {p : Property}
    (h : propertyAt pClass j = some p) : p.qualifiers.wmiDataId = some ((j : Int) + 1) := by
  simpa using List.find?_some h

/-- An element between two parts of a list is changed. -/
theorem modify_length {α : Type} (f : α → α) (l l' : List α) (a : α) :
    (l ++ a :: l').modify l.length f = l ++ f a :: l' := by
  induction l with
  | nil => rfl
  | cons b l ih =>
    show b :: (l ++ a :: l').modify l.length f = _
    rw [ih]
    rfl

/-- In a new table nothing was written. -/
theorem written_malloc (pClass : List Property) :
    Written [] pClass.length (PropertyTable.malloc pClass.length) where
  properties := rfl
  length_index := by simp [PropertyTable.malloc]
  lt_length := by
    intro j i h
    simp [PropertyTable.malloc, List.getElem?_replicate] at h
  cells := by
    intro j cell h
    simp only [PropertyTable.malloc, List.getElem?_replicate] at h
    split at h
    · cases h
      rfl
    · cases h

/-- A property without `WmiDataId` gets no index cell. -/
theorem Written.skip {done : List Property} {m : Nat} {t : PropertyTable} {p : Property}
    (h : Written done (m + 1) t) (hid : p.qualifiers.wmiDataId = none) :
    Written (done ++ [p]) m
      { t with properties := (done ++ [p]).map written ++ List.replicate m ⟨none, none, none⟩ }
    where
  properties := rfl
  length_index := by
    have := h.length_index
    simp only [List.length_append, List.length_singleton]
    omega
  lt_length := by
    intro j i hj
    have := h.lt_length j i hj
    simp only [List.length_append, List.length_singleton]
    omega
  cells := by
    intro j cell hj
    rw [propertyAt_snoc, hid, if_neg (by simp), ← h.cells j cell hj]
    cases cell with
    | none => rfl
    | some i => exact List.getElem?_append_left (h.lt_length j i hj)

/-- A property with the `WmiDataId` `k + 1` takes over the cell `k`. -/
theorem Written.place {done : List Property} {m k : Nat} {t : PropertyTable} {p : Property}
    (h : Written done (m + 1) t) (hid : p.qualifiers.wmiDataId = some ((k : Int) + 1)) :
    Written (done ++ [p]) m
      { index := t.index.set k (some done.length),
        properties := (done ++ [p]).map written ++ List.replicate m ⟨none, none, none⟩ } where
  properties := rfl
  length_index := by
    have := h.length_index
    simp only [List.length_append, List.length_singleton, List.length_set]
    omega
  lt_length := by
    intro j i hj
    simp only [List.getElem?_set] at hj
    simp only [List.length_append, List.length_singleton]
    split at hj
    · -- The new cell leads to the property that comes next.
      split at hj
      · cases hj
        omega
      · cases hj
    · have := h.lt_length j i hj
      omega
  cells := by
    intro j cell hj
    rw [propertyAt_snoc, hid]
    by_cases hk : k = j
    · -- The cell that was written leads to the new property.
      subst hk
      rw [if_pos rfl]
      have hlt := (List.getElem?_eq_some_iff.mp hj).1
      rw [List.getElem?_set_self (by simpa using hlt)] at hj
      cases hj
      show (done ++ [p])[done.length]? = some p
      simp
    · rw [List.getElem?_set_ne hk] at hj
      rw [if_neg (by simp; omega), ← h.cells j cell hj]
      cases cell with
      | none => rfl
      | some i => exact List.getElem?_append_left (h.lt_length j i hj)

/-- The elements behind the written ones. -/
theorem Written.properties_succ {done : List Property} {m : Nat} {t : PropertyTable}
    (h : Written done (m + 1) t) : t.properties =
      done.map written ++ ⟨none, none, none⟩ :: List.replicate m ⟨none, none, none⟩ := by
  rw [h.properties, List.replicate_succ]

/-- An iteration changes the first of them. -/
theorem modify_next (done : List Property) (m : Nat) (f : PropertyList → PropertyList)
    (e : PropertyList) :
    (done.map written ++ e :: List.replicate m ⟨none, none, none⟩).modify done.length f =
      done.map written ++ f e :: List.replicate m ⟨none, none, none⟩ := by
  simpa using modify_length f (done.map written) (List.replicate m ⟨none, none, none⟩) e

/-- One iteration without a failing call. -/
theorem writeProperty_spec {done : List Property} {m : Nat} {t : PropertyTable} (p : Property)
    (h : Written done (m + 1) t) :
    (IdsInRange (done.length + (m + 1)) [p] →
      ∃ t', writeProperty (fun _ => false) done.length p t = .ok (t', true) ∧
        Written (done ++ [p]) m t') ∧
    (¬ IdsInRange (done.length + (m + 1)) [p] →
      writeProperty (fun _ => false) done.length p t = .error .outsideTable) := by
  have hprops := h.properties_succ
  have hlen := h.length_index
  cases hid : p.qualifiers.wmiDataId with
  | none =>
    -- Without an id there is nothing to be out of range.
    have hrange : IdsInRange (done.length + (m + 1)) [p] := by
      intro q hq id hqid
      rw [List.mem_singleton.mp hq, hid] at hqid
      cases hqid
    refine ⟨fun _ => ⟨_, ?_, h.skip hid⟩, fun hn => absurd hrange hn⟩
    simp [writeProperty, writeIndex, PropertyTable.modify, hid, hprops, modify_next, written]
  | some id =>
    have hiff : IdsInRange (done.length + (m + 1)) [p] ↔ 0 ≤ id - 1 ∧ id - 1 < t.index.length := by
      rw [hlen]
      constructor
      · intro hr
        have := hr p (List.mem_singleton.mpr rfl) id hid
        omega
      · intro hr q hq id' hqid
        rw [List.mem_singleton.mp hq, hid] at hqid
        cases hqid
        omega
    constructor
    · intro hr
      have hr := hiff.mp hr
      have hk : p.qualifiers.wmiDataId = some (((id - 1).toNat : Int) + 1) := by
        rw [hid]
        congr 1
        omega
      refine ⟨_, ?_, h.place hk⟩
      simp only [writeProperty, writeIndex, writeDataType, PropertyTable.modify, hid, hprops,
        modify_next, Bool.false_eq_true, if_false, if_pos hr]
      simp [written, hid]
    · intro hr
      have hr : ¬ (0 ≤ id - 1 ∧ id - 1 < t.index.length) := fun hc => hr (hiff.mpr hc)
      simp only [writeProperty, writeIndex, PropertyTable.modify, hid, Bool.false_eq_true, if_false]
      exact if_neg hr

/-! ### All properties -/

/-- The ids of a class are in range one by one. -/
theorem idsInRange_cons {n : Nat} {p : Property} {ps : List Property} :
    IdsInRange n (p :: ps) ↔ IdsInRange n [p] ∧ IdsInRange n ps := by
  simp [IdsInRange]

/-- The loop without a failing call. -/
theorem writeProperties_spec (ps : List Property) :
    ∀ (done : List Property) (t : PropertyTable), Written done ps.length t →
      (IdsInRange (done.length + ps.length) ps →
        ∃ t', writeProperties (fun _ => false) done.length ps t = .ok (t', true) ∧
          Written (done ++ ps) 0 t') ∧
      (¬ IdsInRange (done.length + ps.length) ps →
        writeProperties (fun _ => false) done.length ps t = .error .outsideTable) := by
  induction ps with
  | nil =>
    intro done t h
    constructor
    · intro _
      exact ⟨t, rfl, by simpa using h⟩
    · intro hn
      exact absurd (by simp [IdsInRange]) hn
  | cons p ps ih =>
    intro done t h
    have hstep := writeProperty_spec p h
    rw [idsInRange_cons]
    by_cases hp : IdsInRange (done.length + (p :: ps).length) [p]
    · -- The iteration goes well, and the rest of the loop decides.
      rcases hstep.1 hp with ⟨t', hrun, hw⟩
      have hrest := ih (done ++ [p]) t' hw
      have hlen : (done ++ [p]).length + ps.length = done.length + (p :: ps).length := by
        rw [List.length_append, List.length_singleton, List.length_cons]
        omega
      rw [hlen, List.append_assoc, List.singleton_append, List.length_append,
        List.length_singleton] at hrest
      have hloop : writeProperties (fun _ => false) done.length (p :: ps) t =
          writeProperties (fun _ => false) (done.length + 1) ps t' := by
        simp only [writeProperties, hrun]
      rw [hloop]
      exact ⟨fun hr => hrest.1 hr.2, fun hn => hrest.2 fun hr => hn ⟨hp, hr⟩⟩
    · have hloop : writeProperties (fun _ => false) done.length (p :: ps) t =
          .error .outsideTable := by
        simp only [writeProperties, hstep.2 hp]
      exact ⟨fun hr => absurd hr.1 hp, fun _ => hloop⟩

/-- The entry that an index cell of a full table leads to. -/
theorem Written.entry {pClass : List Property} {t : PropertyTable} (h : Written pClass 0 t)
    {j : Nat} {cell : Option Nat} (hj : t.index[j]? = some cell) :
    t.entry cell = readEntry (propertyAt pClass j) := by
  have hprops : t.properties = pClass.map written := by simpa using h.properties
  have hcell := h.cells j cell hj
  unfold PropertyTable.entry
  rw [hprops]
  cases cell with
  | none =>
    -- No property has this id.
    have hcell : propertyAt pClass j = none := hcell.symm
    rw [hcell]
    rfl
  | some i =>
    have hi := h.lt_length j i hj
    have hcell : propertyAt pClass j = some pClass[i] := by
      rw [← hcell]
      exact List.getElem?_eq_getElem hi
    have hid := propertyAt_id hcell
    have hslot : (some i).bind ((pClass.map written)[·]?) = some (written pClass[i]) := by
      simp [List.getElem?_eq_getElem hi]
    rw [hcell, hslot]
    simp [written, hid, readEntry]

/-- The index cells of a full table lead to the properties in the order of their ids. -/
theorem Written.entries {pClass : List Property} {t : PropertyTable} (h : Written pClass 0 t) :
    t.index.map t.entry = ((List.range pClass.length).map (propertyAt pClass)).map readEntry := by
  apply List.ext_getElem
  · simpa using h.length_index
  · intro j hj hj'
    have hlt : j < t.index.length := by simpa using hj
    simp only [List.getElem_map, List.getElem_range]
    exact h.entry (List.getElem?_eq_getElem hlt)

/-- `GetPropertyList` without a failing call: the index cells lead to the properties in the order
of their ids, and the table can be released. -/
theorem getPropertyList_spec {pClass : List Property} (hids : IdsInRange pClass.length pClass) :
    ∃ t, getPropertyList (fun _ => false) pClass = .ok (some t) ∧
      freePropertyList t = .ok () ∧
      t.index.map t.entry = ((List.range pClass.length).map (propertyAt pClass)).map readEntry := by
  rcases (writeProperties_spec pClass [] _ (written_malloc pClass)).1 (by simpa using hids)
    with ⟨t, hrun, hw⟩
  have hw : Written pClass 0 t := hw
  refine ⟨t, ?_, ?_, hw.entries⟩
  · have hrun : writeProperties (fun _ => false) 0 pClass (PropertyTable.malloc pClass.length) =
        .ok (t, true) := hrun
    simp [getPropertyList, hrun]
  · have hprops : t.properties = pClass.map written := by simpa using hw.properties
    simp [freePropertyList, hprops, written]

/-- A `WmiDataId` out of range is written outside the table. -/
theorem getPropertyList_outsideTable {pClass : List Property}
    (hids : ¬ IdsInRange pClass.length pClass) :
    getPropertyList (fun _ => false) pClass = .error .outsideTable := by
  have hrun : writeProperties (fun _ => false) 0 pClass (PropertyTable.malloc pClass.length) =
      .error .outsideTable :=
    (writeProperties_spec pClass [] _ (written_malloc pClass)).2 (by simpa using hids)
  simp [getPropertyList, hrun]

/-! ### The walk over the table -/

/-- One property of the walk, by its size. -/
theorem propertyLoop_cons {host : WmiHost} {pointerSize : UInt16} {t : PropertyTable}
    {propertyName : WString} {event : Event} {i : Nat} {cell : Option Nat}
    {cells : List (Option Nat)} {offset dataSize size : Int} {p : Property}
    (hentry : t.entry cell = .ok p)
    (hvalue : getEventPropertyValue host pointerSize p event (host.stack i) offset = .ok size) :
    propertyLoop host pointerSize t propertyName event i (cell :: cells) offset dataSize =
      if size = 0 then .ok (-1, size)
      else if getPropertyName p = propertyName then .ok (offset, size)
      else propertyLoop host pointerSize t propertyName event (i + 1) cells
        (int32 (offset + size)) size := by
  simp only [propertyLoop, hentry, hvalue]

/-- The table is released without a fault, so only the walk decides. -/
theorem walkTable_eq {host : WmiHost} {pointerSize : UInt16} {t : PropertyTable}
    {propertyName : WString} {event : Event} (hfree : freePropertyList t = .ok ()) :
    walkTable host pointerSize t propertyName event =
      propertyLoop host pointerSize t propertyName event 0 t.index 0 0 := by
  simp only [walkTable, hfree]
  cases propertyLoop host pointerSize t propertyName event 0 t.index 0 0 <;> rfl

/-- `GetPropertyInfo` without a failing call walks the properties in the order of their ids. -/
theorem getPropertyInfo_walk {host : WmiHost} (hcalls : ∀ call, host.fails call = false)
    {pClass : List Property} (hids : IdsInRange pClass.length pClass) :
    ∃ t : PropertyTable,
      t.index.map t.entry = ((List.range pClass.length).map (propertyAt pClass)).map readEntry ∧
      ∀ pointerSize propertyName event,
        getPropertyInfo host pointerSize (some pClass) propertyName event =
          propertyLoop host pointerSize t propertyName event 0 t.index 0 0 := by
  have hfails : host.fails = fun _ => false := funext hcalls
  rcases getPropertyList_spec hids with ⟨t, hlist, hfree, hentries⟩
  refine ⟨t, hentries, ?_⟩
  intro pointerSize propertyName event
  simp only [getPropertyInfo, hfails, hlist, walkTable_eq hfree]

/-- An id out of range makes a write outside of the index. -/
theorem getPropertyInfo_outsideTable {host : WmiHost} (hcalls : ∀ call, host.fails call = false)
    {pClass : List Property} (hids : ¬ IdsInRange pClass.length pClass) (pointerSize : UInt16)
    (propertyName : WString) (event : Event) :
    getPropertyInfo host pointerSize (some pClass) propertyName event = .error .outsideTable := by
  have hfails : host.fails = fun _ => false := funext hcalls
  simp only [getPropertyInfo, hfails, getPropertyList_outsideTable hids]

end KernelEventsTrace.EtwService
