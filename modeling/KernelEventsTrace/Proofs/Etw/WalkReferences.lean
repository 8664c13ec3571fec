import Mathlib.Tactic.Abel
import KernelEventsTrace.EtwService.WmiReferences
import KernelEventsTrace.Proofs.Etw.Initialised

/-!
# `KernelEventsTrace.Proofs.Etw.WalkReferences`: what the walk over the properties leaves behind

`ends_walkProperties`: the program with references gives what `getPropertyInfo` gives, releases
nothing twice, and leaves `walkLost` behind. `GetPropertyList` holds what it has written to the
table (`tableRefs`), whatever call fails.
-/

set_option autoImplicit false

namespace KernelEventsTrace.EtwService

open Holding (acquire)

/-! ### References -/

/-- What is released was held. -/
theorem ends_release {p q : Multiset WmiReference} {r : WmiReference} (h : p = r ::ₘ q) :
    Ends p (release r) (.ok ()) q :=
  Ends.release _ h

/-- What a pointer holds. -/
def pointee : Option WmiReference → Multiset WmiReference
  | none => 0
  | some r => {r}

/-- What a pointer refers to is released. -/
theorem ends_releaseIf (pointer : Option WmiReference) (q : Multiset WmiReference) :
    Ends (pointee pointer + q) (releaseIf pointer) (.ok ()) q := by
  cases pointer with
  | none => exact (Ends.pure q ()).of_eq (zero_add q) rfl
  | some r => exact ends_release (Multiset.singleton_add r q)

/-- A step of the walk that holds nothing. -/
theorem ends_walkStep {α : Type} (x : Except Fault α) (p : Multiset WmiReference) :
    Ends p (walkStep x) (x.mapError .walk) p :=
  Ends.lift rfl p

/-! ### The elements of the table -/

/-- The names and qualifier sets of some elements. -/
def elementRefs (i : Nat) (ps : List PropertyList) : Multiset WmiReference :=
  (writtenElements i ps).map WmiReference.element

/-- What the table holds. -/
def tableRefs (t : PropertyTable) : Multiset WmiReference := elementRefs 0 t.properties

/-- The elements of two parts of the table. -/
theorem elementRefs_append (i : Nat) (ps ps' : List PropertyList) :
    elementRefs i (ps ++ ps') = elementRefs i ps + elementRefs (i + ps.length) ps' := by
  induction ps generalizing i with
  | nil => simp [elementRefs, writtenElements]
  | cons p ps ih =>
    have hrest := ih (i + 1)
    rw [Nat.add_right_comm, Nat.add_assoc] at hrest
    simp only [elementRefs, writtenElements, List.cons_append, List.map_append, List.length_cons,
      ← Multiset.coe_add, add_assoc] at hrest ⊢
    rw [hrest]

/-- Elements that were not written hold nothing. -/
theorem elementRefs_blank (i n : Nat) :
    elementRefs i (List.replicate n ⟨none, none, none⟩) = 0 := by
  induction n generalizing i with
  | zero => rfl
  | succ n ih =>
    have hrest := ih (i + 1)
    rw [List.replicate_succ]
    exact hrest

/-- The elements behind `pre` are not written yet. -/
theorem tableRefs_eq {t : PropertyTable} {pre : List PropertyList} {e : PropertyList} {m : Nat}
    (h : t.properties = pre ++ e :: List.replicate m ⟨none, none, none⟩) :
    tableRefs t = elementRefs 0 pre + elementRefs pre.length [e] := by
  unfold tableRefs
  rw [h, elementRefs_append, Nat.zero_add, ← List.singleton_append, elementRefs_append,
    elementRefs_blank, add_zero]

/-- A write to the first of them. -/
theorem modify_eq {t : PropertyTable} {pre : List PropertyList} {e : PropertyList} {m : Nat}
    (h : t.properties = pre ++ e :: List.replicate m ⟨none, none, none⟩)
    (f : PropertyList → PropertyList) :
    (t.modify pre.length f).properties = pre ++ f e :: List.replicate m ⟨none, none, none⟩ := by
  show t.properties.modify pre.length f = _
  rw [h, modify_length]

/-! ### `FreePropertyList` -/

/-- `FreePropertyList` gives back what the elements hold, or finds one that was not written. -/
theorem ends_releaseElements (i : Nat) (ps : List PropertyList) (q : Multiset WmiReference) :
    Ends (elementRefs i ps + q) (releaseElements i ps)
      (((freeElements i ps).map fun _ => ()).mapError .walk) q := by
  induction ps generalizing i with
  | nil => exact (Ends.pure q ()).of_eq (zero_add q) rfl
  | cons p ps ih =>
    rcases p with ⟨name, dataType, qualifiers⟩
    cases name with
    | none => exact Ends.throw _ _ _
    | some name =>
      cases qualifiers with
      | none => exact Ends.throw _ _ _
      | some qualifiers =>
        have hrefs : elementRefs i (⟨some name, dataType, some qualifiers⟩ :: ps) + q =
            .element (.name i) ::ₘ .element (.qualifiers i) ::ₘ (elementRefs (i + 1) ps + q) := by
          rw [← Multiset.cons_add, ← Multiset.cons_add]
          rfl
        have hfree : ((freeElements i (⟨some name, dataType, some qualifiers⟩ :: ps)).map
            fun _ => ()) = (freeElements (i + 1) ps).map fun _ => () := by
          rw [freeElements]
          cases freeElements (i + 1) ps <;> rfl
        rw [hfree]
        exact Ends.bind (ends_release hrefs) (Ends.bind (ends_release rfl) (ih (i + 1)))

/-- `FreePropertyList` goes through the elements in order. -/
theorem freePropertyList_eq (t : PropertyTable) :
    freePropertyList t = (freeElements 0 t.properties).map fun _ => () := by
  rw [freeElements_eq]
  unfold freePropertyList
  by_cases h : t.properties.all PropertyList.complete = true
  · rw [if_pos h, if_pos (show (t.properties.all fun p => p.name.isSome && p.qualifiers.isSome) = _
      from h)]
    rfl
  · rw [if_neg h,
      if_neg (show ¬ (t.properties.all fun p => p.name.isSome && p.qualifiers.isSome) = _ from h)]
    rfl

/-- The list, its index and what the elements hold are given back. -/
theorem ends_releasePropertyList (t : PropertyTable) (pIndex : Option WmiReference)
    (q : Multiset WmiReference) :
    Ends (tableRefs t + .propertyList ::ₘ (pointee pIndex + q)) (releasePropertyList t pIndex)
      ((freePropertyList t).mapError .walk) q := by
  have helements :=
    ends_releaseElements 0 t.properties (.propertyList ::ₘ (pointee pIndex + q))
  rw [← freePropertyList_eq] at helements
  cases h : freePropertyList t with
  | error fault =>
    rw [h] at helements
    exact Ends.bind_error helements q
  | ok u =>
    rw [h] at helements
    exact Ends.bind helements (Ends.bind (ends_release rfl) (ends_releaseIf pIndex q))

/-! ### `GetPropertyList` -/

/-- What the table of a result holds. A fault leaves nothing to say. -/
def resultRefs : Except Fault (PropertyTable × Bool) → Multiset WmiReference
  | .ok (t, _) => tableRefs t
  | .error _ => 0

section
variable {fails : WmiCall → Bool} {p : Property} {t : PropertyTable} {pre : List PropertyList}
  {e : PropertyList} {m : Nat}

/-- What is written of the one element. -/
theorem elementRefs_of_eq {e' : PropertyList} (hname : e'.name = e.name)
    (hqualifiers : e'.qualifiers = e.qualifiers) (i : Nat) :
    elementRefs i [e'] = elementRefs i [e] := by
  simp only [elementRefs, writtenElements, hname, hqualifiers]

/-- The index and the data type are no references. -/
theorem writeIndex_properties
    (h : t.properties = pre ++ e :: List.replicate m ⟨none, none, none⟩)
    {r : PropertyTable × Bool} (hr : writeIndex fails pre.length p t = .ok r) :
    tableRefs r.1 = tableRefs t ∧
      ∃ e', r.1.properties = pre ++ e' :: List.replicate m ⟨none, none, none⟩ := by
  unfold writeIndex at hr
  split at hr
  · cases hr
    exact ⟨rfl, e, h⟩
  · cases hid : p.qualifiers.wmiDataId with
    | none =>
      rw [hid] at hr
      cases hr
      exact ⟨rfl, e, h⟩
    | some id =>
      simp only [hid] at hr
      split at hr
      · obtain rfl := Except.ok.inj hr
        unfold writeDataType
        split
        · exact ⟨rfl, e, h⟩
        · -- Only the data type of the element changes.
          have hmodify := modify_eq
            (t := ⟨t.properties, t.index.set (id - 1).toNat (some pre.length)⟩) h
            fun e => { e with dataType := some p.dataType }
          refine ⟨?_, _, hmodify⟩
          rw [tableRefs_eq hmodify, tableRefs_eq h]
          exact congrArg _ (elementRefs_of_eq (e := e) rfl rfl _)
      · cases hr

/-- The elements behind the one of the iteration stay as they are. -/
theorem writeProperty_properties
    (h : t.properties = pre ++ ⟨none, none, none⟩ :: List.replicate m ⟨none, none, none⟩)
    {r : PropertyTable × Bool} (hr : writeProperty fails pre.length p t = .ok r) :
    ∃ e', r.1.properties = pre ++ e' :: List.replicate m ⟨none, none, none⟩ := by
  unfold writeProperty at hr
  split at hr
  · cases hr
    exact ⟨_, h⟩
  · have hname := modify_eq h fun e => { e with name := some p.name }
    dsimp only at hr
    split at hr
    · cases hr
      exact ⟨_, hname⟩
    · have hset := modify_eq hname fun e => { e with qualifiers := some p.qualifiers }
      exact (writeIndex_properties hset hr).2

/-- Behind the name: the qualifier set is taken, then the index cell is written. -/
theorem ends_takeQualifiers (fails : WmiCall → Bool) (p : Property) {name : Option WString}
    (h : t.properties = pre ++ ⟨name, none, none⟩ :: List.replicate m ⟨none, none, none⟩) :
    Ends (tableRefs t)
      (do
        acquire (.element (.qualifiers pre.length))
        walkStep (writeIndex fails pre.length p (t.modify pre.length fun e =>
          { e with qualifiers := some p.qualifiers })))
      ((writeIndex fails pre.length p (t.modify pre.length fun e =>
        { e with qualifiers := some p.qualifiers })).mapError .walk)
      (resultRefs (writeIndex fails pre.length p (t.modify pre.length fun e =>
        { e with qualifiers := some p.qualifiers }))) := by
  have hset := modify_eq h fun e => { e with qualifiers := some p.qualifiers }
  -- The element holds one reference more, and the others are where they were.
  have hrefs : tableRefs (t.modify pre.length fun e => { e with qualifiers := some p.qualifiers }) =
      .element (.qualifiers pre.length) ::ₘ tableRefs t := by
    rw [tableRefs_eq hset, tableRefs_eq h, ← Multiset.add_cons]
    refine congrArg _ ?_
    cases name with
    | none => rfl
    | some name => exact Multiset.cons_swap _ _ 0
  generalize (t.modify pre.length fun e => { e with qualifiers := some p.qualifiers }) = t' at *
  refine Ends.bind (Ends.acquire _ _) ?_
  rw [← hrefs]
  have hindex := ends_walkStep (writeIndex fails pre.length p t') (tableRefs t')
  cases hw : writeIndex fails pre.length p t' with
  | error fault => exact (hw ▸ hindex).of_error
  | ok r => exact (hw ▸ hindex).of_eq rfl (writeIndex_properties hset hw).1.symm

/-- An iteration holds what it has written. -/
theorem ends_takeProperty (fails : WmiCall → Bool) (p : Property)
    (h : t.properties = pre ++ ⟨none, none, none⟩ :: List.replicate m ⟨none, none, none⟩) :
    Ends (tableRefs t) (takeProperty fails pre.length p t)
      ((writeProperty fails pre.length p t).mapError .walk)
      (resultRefs (writeProperty fails pre.length p t)) := by
  unfold takeProperty writeProperty
  by_cases helement : fails (.safeArrayGetElement pre.length) = true
  · rw [if_pos helement, if_pos helement]
    exact Ends.pure _ _
  · rw [if_neg helement, if_neg helement]
    have hname := modify_eq h fun e => { e with name := some p.name }
    have hrefs : tableRefs (t.modify pre.length fun e => { e with name := some p.name }) =
        .element (.name pre.length) ::ₘ tableRefs t := by
      rw [tableRefs_eq hname, tableRefs_eq h, ← Multiset.add_cons]
      rfl
    refine Ends.bind (Ends.acquire _ _) ?_
    rw [← hrefs]
    dsimp only
    by_cases hset : fails (.getPropertyQualifierSet pre.length) = true
    · rw [if_pos hset, if_pos hset]
      exact Ends.pure _ _
    · rw [if_neg hset, if_neg hset]
      exact ends_takeQualifiers fails p hname

/-- The induction is on the properties to come, whose elements are not written yet. -/
theorem ends_takeProperties (fails : WmiCall → Bool) (ps : List Property)
    (h : t.properties = pre ++ List.replicate ps.length ⟨none, none, none⟩) :
    Ends (tableRefs t) (takeProperties fails pre.length ps t)
      ((writeProperties fails pre.length ps t).mapError .walk)
      (resultRefs (writeProperties fails pre.length ps t)) := by
  induction ps generalizing pre t with
  | nil => exact Ends.pure _ _
  | cons p ps ih =>
    rw [List.length_cons, List.replicate_succ] at h
    -- The first of the properties to come is taken. The others follow if nothing fails.
    have hproperty := ends_takeProperty fails p h
    rw [takeProperties, writeProperties]
    cases hw : writeProperty fails pre.length p t with
    | error fault => exact Ends.bind_error (hw ▸ hproperty) _
    | ok r =>
      obtain ⟨t', succeeded⟩ := r
      obtain ⟨e, he⟩ := writeProperty_properties h hw
      rw [hw] at hproperty
      refine Ends.bind hproperty ?_
      cases succeeded with
      | false => exact Ends.pure _ _
      | true =>
        have hnext : t'.properties =
            (pre ++ [e]) ++ List.replicate ps.length ⟨none, none, none⟩ := by simpa using he
        have hrest := ih hnext
        rw [List.length_append, List.length_singleton] at hrest
        exact hrest

end

/-- What `GetPropertyList` leaves to its caller. -/
def listRefs : Except Fault (Option PropertyTable) → Multiset WmiReference
  | .ok (some t) => tableRefs t + .propertyList ::ₘ {.propertyIndex}
  | _ => 0

/-- A list that could not be filled is given back at once. -/
theorem ends_cleanup (t : PropertyTable) (pIndex : Option WmiReference) :
    Ends (tableRefs t + .propertyList ::ₘ (pointee pIndex))
      (do
        releasePropertyList t pIndex
        return none)
      ((cleanup t).mapError .walk) (listRefs (cleanup t)) := by
  have hrelease := ends_releasePropertyList t pIndex 0
  rw [add_zero] at hrelease
  unfold cleanup
  cases h : freePropertyList t with
  | error fault => exact Ends.bind_error (h ▸ hrelease) 0
  | ok u => exact Ends.bind (h ▸ hrelease) (Ends.pure 0 none)

/-- A new table holds nothing. -/
theorem tableRefs_malloc (n : Nat) : tableRefs (PropertyTable.malloc n) = 0 :=
  elementRefs_blank 0 n

/-- `GetPropertyList` holds what it returns, and nothing more. -/
theorem ends_takePropertyList (fails : WmiCall → Bool) (pClass : List Property) :
    Ends 0 (takePropertyList fails pClass) ((getPropertyList fails pClass).mapError .walk)
      (listRefs (getPropertyList fails pClass)) := by
  unfold takePropertyList getPropertyList
  by_cases hnames : fails .getNames = true
  · rw [if_pos hnames, if_pos (.inl hnames)]
    exact Ends.pure 0 none
  · rw [if_neg hnames]
    refine Ends.bind (Ends.acquire _ _) ?_
    by_cases hlist : fails .mallocProperties = true
    · rw [if_pos hlist, if_pos (.inr hlist)]
      exact Ends.bind (ends_release rfl) (Ends.pure 0 none)
    · rw [if_neg hlist, if_neg (not_or.mpr ⟨hnames, hlist⟩)]
      refine Ends.bind (Ends.acquire _ _) ?_
      have hmalloc := tableRefs_malloc pClass.length
      have hrelease : ∀ q : Multiset WmiReference,
          .propertyList ::ₘ .names ::ₘ q = .names ::ₘ .propertyList ::ₘ q :=
        fun q => Multiset.cons_swap _ _ q
      by_cases hindex : fails .mallocIndex = true
      · rw [if_pos hindex, if_pos hindex]
        refine Ends.bind (ends_release (hrelease 0)) ?_
        refine (ends_cleanup (PropertyTable.malloc pClass.length) none).of_eq ?_ rfl
        rw [hmalloc, zero_add]
        rfl
      · rw [if_neg hindex, if_neg hindex]
        refine Ends.bind (Ends.acquire _ _) ?_
        -- The three parts of the list are there before the loop, and it leaves them alone.
        have htake : Ends (.propertyIndex ::ₘ .propertyList ::ₘ .names ::ₘ 0)
            (takeProperties fails 0 pClass (PropertyTable.malloc pClass.length))
            ((writeProperties fails 0 pClass (PropertyTable.malloc pClass.length)).mapError .walk)
            (resultRefs (writeProperties fails 0 pClass (PropertyTable.malloc pClass.length)) +
              (.propertyIndex ::ₘ .propertyList ::ₘ .names ::ₘ 0)) := by
          have hblank : (PropertyTable.malloc pClass.length).properties =
              [] ++ List.replicate pClass.length ⟨none, none, none⟩ := rfl
          refine ((ends_takeProperties fails pClass hblank).frame _).of_eq ?_ rfl
          rw [hmalloc, zero_add]
        cases hw : writeProperties fails 0 pClass (PropertyTable.malloc pClass.length) with
        | error fault => exact Ends.bind_error (hw ▸ htake) _
        | ok r =>
          obtain ⟨t, succeeded⟩ := r
          rw [hw] at htake
          refine Ends.bind htake (Ends.bind (ends_release (q := tableRefs t +
            .propertyList ::ₘ {.propertyIndex}) ?_) ?_)
          · simp only [resultRefs, ← Multiset.singleton_add, add_zero]
            abel
          · cases succeeded with
            | true => exact Ends.pure _ _
            | false => exact ends_cleanup t (some .propertyIndex)

/-! ### The walk -/

section
variable (host : WmiHost) (pointerSize : UInt16) (q : Multiset WmiReference)

/-- A variant is cleared behind its use. -/
theorem ends_readVariant (r : WmiReference) (value : Option WString) :
    Ends q (readVariant r value) (.ok ()) q := by
  cases value with
  | none => exact Ends.pure q ()
  | some value => exact Ends.bind (Ends.acquire q r) (ends_release rfl)

/-- The name of a property is copied out of its variant. -/
theorem ends_readName (i : Nat) (p : Property) :
    Ends q (readName i p) (.ok (getPropertyName p)) q :=
  Ends.bind (ends_readVariant q _ _) (Ends.pure q _)

/-- What the read of the `Extension` of a property of the type `CIM_OBJECT` leaves. -/
def extensionRefs (i : Nat) (extension : Option WString) : Multiset WmiReference :=
  if ∃ e ∈ extension, returnsEarly host e then {.extension i} else 0

/-- The text of the extension is kept where the walk returns early. -/
theorem ends_readExtension (i : Nat) (extension : Option WString) :
    Ends q (readExtension host i extension) (.ok ()) (extensionRefs host i extension + q) := by
  cases extension with
  | none => exact (Ends.pure q ()).of_eq rfl (by simp [extensionRefs])
  | some e =>
    refine Ends.bind (Ends.acquire q _) ?_
    by_cases h : returnsEarly host e = true
    · rw [if_pos h]
      exact (Ends.pure _ ()).of_eq rfl (by simp [extensionRefs, h])
    · rw [if_neg h]
      exact (ends_release rfl).of_eq rfl (by simp [extensionRefs, h])

/-- What the read of a value leaves. -/
def valueRefs (i : Nat) (p : Property) : Multiset WmiReference :=
  if p.KeepsExtension host then {.extension i} else 0

/-- The variants of a size that is read off the qualifiers. -/
theorem ends_readVariants {i : Nat} {p : Property}
    (hpointer : ¬ (p.qualifiers.pointer = true ∨ p.qualifiers.pointerType = true))
    (hsize : (arraySize p).isSome) :
    Ends q (readVariants host i p) (.ok ()) (valueRefs host i p + q) := by
  have hkeeps : p.KeepsExtension host ↔ p.dataType.cimType = .object ∧
      ∃ e ∈ p.qualifiers.extension, returnsEarly host e = true := by
    simp only [not_or, Bool.not_eq_true] at hpointer
    simp [Property.KeepsExtension, hpointer, hsize]
  unfold readVariants valueRefs
  cases htype : p.dataType.cimType with
  | object =>
    refine (ends_readExtension host q i _).of_eq rfl ?_
    simp [extensionRefs, hkeeps, htype]
  | string | sint8 | uint8 =>
    rw [if_neg (by simp [hkeeps, htype]), zero_add]
    exact ends_readVariant q _ _
  | _ =>
    rw [if_neg (by simp [hkeeps, htype]), zero_add]
    exact Ends.pure q ()

/-- `GetEventPropertyValue` holds nothing but the text of an extension. -/
theorem ends_readValue (i : Nat) (p : Property) (event : Event) (offset : Int) :
    Ends q (readValue host pointerSize i p event offset)
      ((getEventPropertyValue host pointerSize p event (host.stack i) offset).mapError .walk)
      (valueRefs host i p + q) := by
  unfold readValue getEventPropertyValue
  by_cases hpointer : p.qualifiers.pointer = true ∨ p.qualifiers.pointerType = true
  · have hnot : ¬ p.KeepsExtension host := by
      rintro ⟨hp, hpt, -⟩
      rw [hp, hpt] at hpointer
      simp at hpointer
    rw [if_pos hpointer, if_pos hpointer, valueRefs, if_neg hnot, zero_add]
    exact Ends.pure q _
  · rw [if_neg hpointer, if_neg hpointer]
    cases hsize : arraySize p with
    | none =>
      have hnot : ¬ p.KeepsExtension host := by simp [Property.KeepsExtension, hsize]
      rw [valueRefs, if_neg hnot, zero_add]
      exact Ends.pure q _
    | some n =>
      exact Ends.bind (ends_readVariants host q hpointer (by rw [hsize]; rfl)) (ends_walkStep _ _)

/-- The branch that keeps its `Extension` returns with the size 0. -/
theorem getEventPropertyValue_of_keeps {p : Property} (h : p.KeepsExtension host) (event : Event)
    (buffer : SidBuffer) (offset : Int) :
    getEventPropertyValue host pointerSize p event buffer offset = .ok 0 := by
  obtain ⟨hp, hpt, hsize, htype, extension, hextension, hreturns⟩ := h
  obtain ⟨n, hn⟩ := Option.isSome_iff_exists.mp hsize
  simp only [returnsEarly, decide_eq_true_eq] at hreturns
  obtain ⟨hmissing, hv6⟩ := hreturns
  -- The names of the branches in front are other ones.
  have hother : ∀ name : WString, WString.icmpEq name (wide "IPAddrV6") = false →
      WString.icmpEq name extension = false := by
    intro name hname
    simp only [WString.icmpEq, beq_iff_eq, beq_eq_false_iff_ne] at hname hv6 ⊢
    rwa [← hv6]
  unfold getEventPropertyValue typeValue
  simp only [hp, hpt, hn, htype, Option.mem_def.mp hextension]
  simp [objectValue, hother (wide "SizeT") (by decide), hother (wide "Port") (by decide),
    hother (wide "IPAddr") (by decide), hother (wide "IPAddrV4") (by decide), hv6, hmissing]

/-- What is left where the walk stops. -/
def stopRefs : Option (Nat × Property) → Multiset WmiReference
  | none => 0
  | some (i, p) => valueRefs host i p

/-- The walk goes on only behind values that leave nothing. -/
theorem ends_walkLoop (t : PropertyTable) (propertyName : WString) (event : Event) (i : Nat)
    (cells : List (Option Nat)) (offset dataSize : Int) :
    Ends q (walkLoop host pointerSize t propertyName event i cells offset dataSize)
      ((propertyLoop host pointerSize t propertyName event i cells offset dataSize).mapError .walk)
      (stopRefs host (stopsAt host pointerSize t propertyName event i cells offset) + q) := by
  induction cells generalizing i offset dataSize with
  | nil => exact (Ends.pure q _).of_eq rfl (zero_add q).symm
  | cons cell cells ih =>
    rw [walkLoop, propertyLoop, stopsAt]
    have hentry := ends_walkStep (t.entry cell) q
    cases he : t.entry cell with
    | error fault => exact Ends.bind_error (he ▸ hentry) _
    | ok p =>
      rw [he] at hentry
      refine Ends.bind hentry (Ends.bind (ends_readName q i p) ?_)
      -- An entry is read, its name and its value. The size decides whether the walk goes on.
      have hvalue := ends_readValue host pointerSize q i p event offset
      dsimp only
      cases hv : getEventPropertyValue host pointerSize p event (host.stack i) offset with
      | error fault => exact Ends.bind_error (hv ▸ hvalue) _
      | ok size =>
        rw [hv] at hvalue
        refine Ends.bind hvalue ?_
        dsimp only
        by_cases hzero : size = 0
        · rw [if_pos hzero, if_pos hzero, if_pos (.inl hzero)]
          exact Ends.pure _ _
        · by_cases hname : getPropertyName p = propertyName
          · rw [if_neg hzero, if_neg hzero, if_pos hname, if_pos hname, if_pos (.inr hname)]
            exact Ends.pure _ _
          · -- A property that keeps its text has no size, so the walk would have ended.
            have hnot : ¬ p.KeepsExtension host := by
              intro hkeeps
              rw [getEventPropertyValue_of_keeps host pointerSize hkeeps] at hv
              exact hzero (Except.ok.inj hv).symm
            rw [if_neg hzero, if_neg hzero, if_neg hname, if_neg hname,
              if_neg (not_or.mpr ⟨hzero, hname⟩), valueRefs, if_neg hnot, zero_add]
            exact ih (i + 1) _ size

/-- The program with references gives what `GetPropertyInfo` gives for the class. -/
theorem ends_walkProperties (propertyName : WString) (event : Event) (pClass : List Property) :
    Ends q (walkProperties host pointerSize propertyName event pClass)
      ((getPropertyInfo host pointerSize (some pClass) propertyName event).mapError .walk)
      (walkLost host pointerSize propertyName event pClass + q) := by
  have hlist := ((ends_takePropertyList host.fails pClass).frame q).of_eq (zero_add q).symm rfl
  unfold walkProperties getPropertyInfo walkLost
  dsimp only
  cases hl : getPropertyList host.fails pClass with
  | error fault => exact Ends.bind_error (hl ▸ hlist) _
  | ok o =>
    rw [hl] at hlist
    refine Ends.bind hlist ?_
    cases o with
    | none => exact Ends.pure _ _
    | some t =>
      unfold walkTable
      have hloop := ends_walkLoop host pointerSize (listRefs (.ok (some t)) + q) t propertyName
        event 0 t.index 0 0
      dsimp only
      cases hp : propertyLoop host pointerSize t propertyName event 0 t.index 0 0 with
      | error fault => exact Ends.bind_error (hp ▸ hloop) _
      | ok info =>
        rw [hp] at hloop
        refine Ends.bind hloop ?_
        -- The table is released, and what the loop has left stays.
        have hrelease : Ends
            (stopRefs host (stopsAt host pointerSize t propertyName event 0 t.index 0) +
              (listRefs (.ok (some t)) + q))
            (releasePropertyList t (some .propertyIndex)) ((freePropertyList t).mapError .walk)
            (stopRefs host (stopsAt host pointerSize t propertyName event 0 t.index 0) + q) := by
          refine ((ends_releasePropertyList t (some .propertyIndex) 0).frame _).of_eq ?_
            (zero_add _)
          simp only [listRefs, pointee, add_zero]
          abel
        cases hf : freePropertyList t with
        | error fault => exact Ends.bind_error (hf ▸ hrelease) _
        | ok u =>
          refine Ends.bind (hf ▸ hrelease) ((Ends.pure _ info).of_eq rfl ?_)
          cases stopsAt host pointerSize t propertyName event 0 t.index 0 <;> rfl

end

end KernelEventsTrace.EtwService
