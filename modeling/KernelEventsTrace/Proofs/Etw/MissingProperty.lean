import KernelEventsTrace.EtwService.EventMember
import KernelEventsTrace.Proofs.Etw.PayloadBounds

/-!
# `KernelEventsTrace.Proofs.Etw.MissingProperty`: when a missing property is noticed

`GetPropertyInfo` keeps the size of the property that it visited last in its result. It is 0 if the
walk ends at a property without a size, but not if the walk passes all properties of the class. The
constructors of the event members test only sizes, and of a string property not even that.

* `getPropertyInfo_eq_ok_iff`: every result of `GetPropertyInfo` is that of an `Outcome`.
* `sizesFound_iff`: which records a constructor accepts.
* `missingProperty_iff`: a missing property is noticed exactly if no walk passes all properties,
  and by a constructor exactly in the cases of `NoticesMissing`.
-/

set_option autoImplicit false

namespace KernelEventsTrace.EtwService

/-! ### Specification -/

/-- How the search for a property can end. -/
inductive Outcome where
  | found (offset size : Int)
  /-- Without a size: at a property of size 0, or with no property to look at. -/
  | ended
  /-- Behind the last property, which has the size `size`. -/
  | passed (size : Int)
  deriving Repr, DecidableEq

/-- The result of `GetPropertyInfo`. -/
def Outcome.info : Outcome → Int × Int
  | .found offset size => (offset, size)
  | .ended => (-1, 0)
  | .passed size => (-1, size)

/-- The walk over properties in the order of their ids, the first one at `offset` and the `i`-th
of all, where the one before has the size `dataSize`. -/
def WalkResult (host : WmiHost) (pointerSize : UInt16) (propertyName : WString) (event : Event) :
    Nat → List (Option Property) → Int → Int → Outcome → Prop
  | _, [], _, dataSize, outcome =>
    outcome = if dataSize = 0 then .ended else .passed dataSize
  | _, none :: _, _, _, _ => False
  | i, some p :: ps, offset, _, outcome =>
    ∃ size, FieldAt pointerSize event (host.stack i) offset (layout host pointerSize p) size ∧
      if size = 0 then outcome = .ended
      else if getPropertyName p = propertyName then outcome = .found offset size
      else WalkResult host pointerSize propertyName event (i + 1) ps (int32 (offset + size)) size
        outcome

/-- The search for a property in a class. Without a class or a property list there is nothing to
look at. -/
def SearchResult (wec : WmiEventClass) (propertyName : WString) (event : Event)
    (outcome : Outcome) : Prop :=
  match wec.eventClass with
  | none => outcome = .ended
  | some pClass =>
    match getPropertyList (wec.host propertyName).fails pClass with
    | .error _ => False
    | .ok none => outcome = .ended
    | .ok (some _) =>
      WalkResult (wec.host propertyName) wec.pointerSize propertyName event 0
        ((List.range pClass.length).map (propertyAt pClass)) 0 0 outcome

/-- `offset` is the offset of the named property. -/
def IsOffsetOf (wec : WmiEventClass) (propertyName : WString) (event : Event) (offset : Int) :
    Prop :=
  ∃ size, SearchResult wec propertyName event (.found offset size)

/-- The size is 0 if the property is not found. -/
def SizeTellsMissing (wec : WmiEventClass) (propertyName : WString) (event : Event) : Prop :=
  ∀ offset size, wec.getPropertyInfo propertyName event = .ok (offset, size) →
    ¬ (∃ offset, IsOffsetOf wec propertyName event offset) → size = 0

/-- The walk for the property passes all properties of a class. -/
def PassesAll (wec : WmiEventClass) (propertyName : WString) (event : Event) : Prop :=
  ∃ size, SearchResult wec propertyName event (.passed size)

/-- A constructor that locates the properties anew sets one of the flags only if every offset that
it keeps is that of its property. -/
def FlagsTellMissing (m : EventMember) (wec : WmiEventClass) (event : Event) : Prop :=
  ∀ o o' goesOn, o.isPositioned = false → m.locate wec event o = .ok (o', goesOn) →
    (o'.isSuccessful = true ∨ o'.isPositioned = true) →
      ∀ lookup ∈ m.lookups, ∃ offset, IsOffsetOf wec lookup.name event offset ∧
        (o'.fields lookup.name).offs = dword offset

/-- All properties are found, or a search reads outside the payload or the tables, or the search
for a property whose size is tested ends without one. -/
def NoticesMissing (m : EventMember) (wec : WmiEventClass) (event : Event) : Prop :=
  (∀ lookup ∈ m.lookups, ∃ offset, IsOffsetOf wec lookup.name event offset) ∨
    (∃ lookup ∈ m.lookups, ∀ outcome, ¬ SearchResult wec lookup.name event outcome) ∨
    ∃ lookup ∈ m.lookups, lookup.sizeUse = .tested ∧ SearchResult wec lookup.name event .ended

/-! ### The walk -/

/-- A field has one size. -/
theorem FieldAt.eq {host : WmiHost} {pointerSize : UInt16} {p : Property} {event : Event}
    {buffer : SidBuffer} {offset size size' : Int}
    (h : FieldAt pointerSize event buffer offset (layout host pointerSize p) size)
    (h' : FieldAt pointerSize event buffer offset (layout host pointerSize p) size') :
    size = size' := by
  rw [← getEventPropertyValue_eq_ok_iff] at h h'
  rw [h] at h'
  exact Except.ok.inj h'

/-- The walk over the table returns what `WalkResult` says about the properties. -/
theorem propertyLoop_eq_ok_iff {host : WmiHost} {pointerSize : UInt16} {t : PropertyTable}
    {propertyName : WString} {event : Event} {cells : List (Option Nat)} :
    ∀ {ps : List (Option Property)} {i : Nat} {offset dataSize : Int} {info : Int × Int},
      cells.map t.entry = ps.map readEntry →
      (propertyLoop host pointerSize t propertyName event i cells offset dataSize = .ok info ↔
        ∃ outcome, WalkResult host pointerSize propertyName event i ps offset dataSize outcome ∧
          info = outcome.info) := by
  induction cells with
  | nil =>
    intro ps i offset dataSize info hcells
    -- The walk is over, and the size of the last property is kept.
    have hps : ps = [] := by simpa using hcells.symm
    rw [hps]
    simp only [propertyLoop, WalkResult, exists_eq_left, Except.ok.injEq]
    by_cases hzero : dataSize = 0
    · rw [if_pos hzero, hzero]
      exact eq_comm
    · rw [if_neg hzero]
      exact eq_comm
  | cons cell cells ih =>
    intro ps i offset dataSize info hcells
    cases ps with
    | nil => simp at hcells
    | cons entry ps =>
      have hentry : t.entry cell = readEntry entry := (List.cons.inj hcells).1
      have hrest : cells.map t.entry = ps.map readEntry := (List.cons.inj hcells).2
      cases entry with
      | none => simp [propertyLoop, hentry, readEntry, WalkResult]
      | some p =>
        cases hvalue : getEventPropertyValue host pointerSize p event (host.stack i) offset with
        | error fault =>
          -- There is no size, so neither side has a result.
          simp [propertyLoop, hentry, readEntry, hvalue, WalkResult,
            ← getEventPropertyValue_eq_ok_iff]
        | ok size =>
          rw [propertyLoop_cons hentry hvalue]
          simp only [WalkResult, ← getEventPropertyValue_eq_ok_iff, hvalue, Except.ok.injEq,
            exists_eq_left']
          -- The branches of the walk and of its specification are the same.
          split_ifs with hzero hname
          · rw [hzero]
            simp [Outcome.info, eq_comm]
          · simp [Outcome.info, eq_comm]
          · exact ih hrest

/-- A walk has one outcome. -/
theorem WalkResult.unique {host : WmiHost} {pointerSize : UInt16} {propertyName : WString}
    {event : Event} {ps : List (Option Property)} :
    ∀ {i : Nat} {offset dataSize : Int} {outcome outcome' : Outcome},
      WalkResult host pointerSize propertyName event i ps offset dataSize outcome →
      WalkResult host pointerSize propertyName event i ps offset dataSize outcome' →
        outcome = outcome' := by
  induction ps with
  | nil =>
    intro i offset dataSize outcome outcome' h h'
    exact h.trans h'.symm
  | cons entry ps ih =>
    intro i offset dataSize outcome outcome' h h'
    cases entry with
    | none => exact h.elim
    | some p =>
      rcases h with ⟨size, hfield, h⟩
      rcases h' with ⟨size', hfield', h'⟩
      -- The sizes are equal, so the walks take the same branch.
      rw [← hfield.eq hfield'] at h'
      split_ifs at h h' with hzero hname
      · exact h.trans h'.symm
      · exact h.trans h'.symm
      · exact ih h h'

/-! ### The search -/

/-- An iteration that succeeds is one without a failing call. -/
theorem writeProperty_of_ok {fails : WmiCall → Bool} {i : Nat} {p : Property}
    {t t' : PropertyTable} (h : writeProperty fails i p t = .ok (t', true)) :
    writeProperty (fun _ => false) i p t = .ok (t', true) := by
  simp only [writeProperty, writeIndex, writeDataType, Bool.false_eq_true, if_false] at h ⊢
  -- A call that fails ends the iteration without success.
  by_cases helement : fails (.safeArrayGetElement i) = true
  · simp [helement] at h
  by_cases hset : fails (.getPropertyQualifierSet i) = true
  · simp [helement, hset] at h
  by_cases hget : fails (.getWmiDataId i) = true
  · simp [helement, hset, hget] at h
  simp only [helement, hset, hget, Bool.false_eq_true, if_false] at h
  cases hid : p.qualifiers.wmiDataId with
  | none => simpa only [hid] using h
  | some id =>
    -- The data type is read for a property with an id only.
    simp only [hid] at h ⊢
    by_cases htype : fails (.getDataType i) = true
    · simp only [htype, if_true] at h
      split_ifs at h
      all_goals cases h
    · simpa only [htype, Bool.false_eq_true, if_false] using h

/-- The loop that succeeds is one without a failing call. -/
theorem writeProperties_of_ok {fails : WmiCall → Bool} (ps : List Property) :
    ∀ {i : Nat} {t t' : PropertyTable}, writeProperties fails i ps t = .ok (t', true) →
      writeProperties (fun _ => false) i ps t = .ok (t', true) := by
  induction ps with
  | nil =>
    intro i t t' h
    exact h
  | cons p ps ih =>
    intro i t t' h
    simp only [writeProperties] at h ⊢
    cases hwrite : writeProperty fails i p t with
    | error fault => simp [hwrite] at h
    | ok result =>
      rcases result with ⟨u, filled⟩
      cases filled with
      | false => simp [hwrite] at h
      | true =>
        rw [hwrite] at h
        rw [writeProperty_of_ok hwrite]
        exact ih h

/-- A property list is complete, so it leads to the properties in the order of their ids. -/
theorem getPropertyList_of_ok {fails : WmiCall → Bool} {pClass : List Property}
    {t : PropertyTable} (h : getPropertyList fails pClass = .ok (some t)) :
    freePropertyList t = .ok () ∧
      t.index.map t.entry = ((List.range pClass.length).map (propertyAt pClass)).map readEntry := by
  -- No call has failed, so the table is the one without failing calls.
  have hquiet : getPropertyList (fun _ => false) pClass = .ok (some t) := by
    have hcleanup : ∀ u, cleanup u ≠ .ok (some t) := by
      intro u
      unfold cleanup
      cases freePropertyList u <;> simp
    simp only [getPropertyList] at h
    split_ifs at h
    · cases h
    · exact absurd h (hcleanup _)
    cases hrun : writeProperties fails 0 pClass (PropertyTable.malloc pClass.length) with
    | error fault => simp [hrun] at h
    | ok result =>
      rcases result with ⟨u, filled⟩
      rw [hrun] at h
      cases filled with
      | false => exact absurd h (hcleanup u)
      | true => simpa [getPropertyList, writeProperties_of_ok pClass hrun] using h
  by_cases hids : IdsInRange pClass.length pClass
  · rcases getPropertyList_spec hids with ⟨u, hlist, hfree, hentries⟩
    rw [hquiet] at hlist
    cases hlist
    exact ⟨hfree, hentries⟩
  · -- An id outside the table is a fault.
    rw [getPropertyList_outsideTable hids] at hquiet
    cases hquiet

/-- Every result of `GetPropertyInfo` is that of the search. -/
theorem getPropertyInfo_eq_ok_iff {wec : WmiEventClass} {propertyName : WString} {event : Event}
    {info : Int × Int} :
    wec.getPropertyInfo propertyName event = .ok info ↔
      ∃ outcome, SearchResult wec propertyName event outcome ∧ info = outcome.info := by
  simp only [WmiEventClass.getPropertyInfo, getPropertyInfo, SearchResult]
  cases wec.eventClass with
  | none => simp [Outcome.info, eq_comm]
  | some pClass =>
    dsimp only
    cases hlist : getPropertyList (wec.host propertyName).fails pClass with
    | error fault => simp
    | ok list =>
      cases list with
      | none => simp [Outcome.info, eq_comm]
      | some t =>
        have ht := getPropertyList_of_ok hlist
        dsimp only
        rw [walkTable_eq ht.1]
        exact propertyLoop_eq_ok_iff ht.2

/-- A search has no result, or there is nothing to look at, or it is a walk. -/
theorem searchResult_cases (wec : WmiEventClass) (propertyName : WString) (event : Event) :
    (∀ outcome, ¬ SearchResult wec propertyName event outcome) ∨
      (∀ outcome, SearchResult wec propertyName event outcome ↔ outcome = .ended) ∨
      ∃ ps, ∀ outcome, SearchResult wec propertyName event outcome ↔
        WalkResult (wec.host propertyName) wec.pointerSize propertyName event 0 ps 0 0 outcome := by
  unfold SearchResult
  cases wec.eventClass with
  | none => exact Or.inr (Or.inl fun _ => Iff.rfl)
  | some pClass =>
    dsimp only
    cases getPropertyList (wec.host propertyName).fails pClass with
    | error fault => exact Or.inl fun _ h => h
    | ok list =>
      cases list with
      | none => exact Or.inr (Or.inl fun _ => Iff.rfl)
      | some t => exact Or.inr (Or.inr ⟨_, fun _ => Iff.rfl⟩)

/-- A search has one outcome. -/
theorem SearchResult.unique {wec : WmiEventClass} {propertyName : WString} {event : Event}
    {outcome outcome' : Outcome} (h : SearchResult wec propertyName event outcome)
    (h' : SearchResult wec propertyName event outcome') : outcome = outcome' := by
  rcases searchResult_cases wec propertyName event with hnone | hended | ⟨ps, hwalk⟩
  · exact absurd h (hnone outcome)
  · exact ((hended outcome).mp h).trans ((hended outcome').mp h').symm
  · exact ((hwalk outcome).mp h).unique ((hwalk outcome').mp h')

/-! ### Sizes are `int`s -/

/-- A wrapped number is one of 32 bits. -/
theorem int32_range (n : Int) : -2 ^ 31 ≤ int32 n ∧ int32 n < 2 ^ 31 := by
  have hlow := @Int.le_bmod n (2 ^ 32) (by omega)
  have hhigh := @Int.bmod_lt n (2 ^ 32) (by omega)
  unfold int32
  omega

/-- A fixed size has 32 bits. -/
theorem layout_fixed_range {host : WmiHost} {pointerSize : UInt16} {p : Property} {size : Int}
    (h : layout host pointerSize p = .fixed size) : -2 ^ 31 ≤ size ∧ size < 2 ^ 31 := by
  have hpointer := pointerSize.toNat_lt
  have hobject : ∀ extension n, -2 ^ 31 ≤ objectSize host pointerSize extension n ∧
      objectSize host pointerSize extension n < 2 ^ 31 := by
    intro extension n
    unfold objectSize
    split_ifs <;> first | exact int32_range _ | omega
  unfold layout at h
  split_ifs at h
  · cases h
    omega
  · cases harray : arraySize p with
    | none =>
      simp only [harray] at h
      cases h
      omega
    | some n =>
      simp only [harray] at h
      unfold typeLayout at h
      cases htype : p.dataType.cimType with
      | string =>
        simp only [htype] at h
        split_ifs at h
        cases h
        omega
      | object =>
        simp only [htype] at h
        cases hext : p.qualifiers.extension with
        | none =>
          simp only [hext] at h
          cases h
          omega
        | some extension =>
          simp only [hext] at h
          split_ifs at h
          cases h
          exact hobject extension n
      | sint8 | uint8 =>
        simp only [htype] at h
        rw [← Layout.fixed.inj h]
        split_ifs
        · omega
        · exact int32_range _
      | real32 | real64 | datetime | reference =>
        simp only [htype] at h
        cases h
        omega
      | _ =>
        simp only [htype] at h
        rw [← Layout.fixed.inj h]
        exact int32_range _

/-- The size of an array of SIDs has 32 bits. -/
theorem sidsAt_range {pointerSize : UInt16} {event : Event} {offset size : Int} {n : Nat} :
    ∀ {dataSize pos : Int} {buffer : SidBuffer},
      SidsAt pointerSize event offset n dataSize pos buffer size →
        -2 ^ 31 ≤ dataSize ∧ dataSize < 2 ^ 31 → -2 ^ 31 ≤ size ∧ size < 2 ^ 31 := by
  induction n with
  | zero =>
    intro dataSize pos buffer h hrange
    rw [show size = dataSize from h]
    exact hrange
  | succ n ih =>
    intro dataSize pos buffer h _
    rcases h with ⟨element, buffer', _, h⟩
    exact ih h (int32_range _)

/-- The size of a field has 32 bits. -/
theorem fieldAt_range {host : WmiHost} {pointerSize : UInt16} {p : Property} {event : Event}
    {buffer : SidBuffer} {offset size : Int}
    (h : FieldAt pointerSize event buffer offset (layout host pointerSize p) size) :
    -2 ^ 31 ≤ size ∧ size < 2 ^ 31 := by
  cases hlayout : layout host pointerSize p with
  | fixed fixedSize =>
    rw [hlayout] at h
    rw [show size = fixedSize from h]
    exact layout_fixed_range hlayout
  | string isWideString n =>
    rw [hlayout] at h
    cases n with
    | zero =>
      simp only [FieldAt] at h
      omega
    | succ n =>
      rcases h with ⟨length, _, hsize⟩
      rw [hsize]
      split_ifs <;> omega
  | sid n =>
    rw [hlayout] at h
    simp only [FieldAt] at h
    exact sidsAt_range h (by omega)

/-- A 32-bit number becomes zero in a `DWORD` only if it is zero. -/
theorem dword_eq_zero_iff {n : Int} (hlow : -2 ^ 31 ≤ n) (hhigh : n < 2 ^ 31) :
    dword n = 0 ↔ n = 0 := by
  rw [← UInt32.toNat_inj]
  simp only [dword, UInt32.toNat_ofNat', UInt32.toNat_zero]
  omega

/-- A walk that finds its property, or passes all, has a size of 32 bits. -/
theorem WalkResult.size {host : WmiHost} {pointerSize : UInt16} {propertyName : WString}
    {event : Event} {ps : List (Option Property)} :
    ∀ {i : Nat} {offset dataSize : Int} {outcome : Outcome},
      WalkResult host pointerSize propertyName event i ps offset dataSize outcome →
      (-2 ^ 31 ≤ dataSize ∧ dataSize < 2 ^ 31) → outcome ≠ .ended →
        outcome.info.2 ≠ 0 ∧ -2 ^ 31 ≤ outcome.info.2 ∧ outcome.info.2 < 2 ^ 31 := by
  induction ps with
  | nil =>
    intro i offset dataSize outcome h hrange hne
    simp only [WalkResult] at h
    -- Behind the last property its size is kept, which is not 0.
    split_ifs at h with hzero
    · exact absurd h hne
    · rw [h]
      exact ⟨hzero, hrange⟩
  | cons entry ps ih =>
    intro i offset dataSize outcome h _ hne
    cases entry with
    | none => exact h.elim
    | some p =>
      rcases h with ⟨size, hfield, h⟩
      have hrange := fieldAt_range hfield
      split_ifs at h with hzero hname
      · exact absurd h hne
      · rw [h]
        exact ⟨hzero, hrange⟩
      · exact ih h hrange hne

/-- A size is kept as 0 only if the search ends without one. -/
theorem SearchResult.dword_size {wec : WmiEventClass} {propertyName : WString} {event : Event}
    {outcome : Outcome} (h : SearchResult wec propertyName event outcome)
    (hne : outcome ≠ .ended) : outcome.info.2 ≠ 0 ∧ dword outcome.info.2 ≠ 0 := by
  have hsize : outcome.info.2 ≠ 0 ∧ -2 ^ 31 ≤ outcome.info.2 ∧ outcome.info.2 < 2 ^ 31 := by
    rcases searchResult_cases wec propertyName event with hnone | hended | ⟨ps, hwalk⟩
    · exact absurd h (hnone outcome)
    · exact absurd ((hended outcome).mp h) hne
    · exact ((hwalk outcome).mp h).size (by omega) hne
  refine ⟨hsize.1, ?_⟩
  rw [ne_eq, dword_eq_zero_iff hsize.2.1 hsize.2.2]
  exact hsize.1

/-! ### The constructors -/

/-- What is kept of a property, by the result of its search. -/
def keptOf (lookup : Lookup) (old : FieldOffset) (info : Int × Int) : FieldOffset :=
  ⟨dword info.1, if lookup.sizeUse = .dropped then old.size else dword info.2⟩

/-- The record after the calls, as long as each comes to a result. -/
theorem lookUpAll_spec {wec : WmiEventClass} {event : Event} (lookups : List Lookup) :
    ∀ {o o' : EventOffset}, (lookups.map Lookup.name).Nodup →
      lookUpAll wec event lookups o = .ok o' →
        o'.isPositioned = o.isPositioned ∧ o'.isSuccessful = o.isSuccessful ∧
        (∀ name, name ∉ lookups.map Lookup.name → o'.fields name = o.fields name) ∧
        ∀ lookup ∈ lookups, ∃ info, wec.getPropertyInfo lookup.name event = .ok info ∧
          o'.fields lookup.name = keptOf lookup (o.fields lookup.name) info := by
  induction lookups with
  | nil =>
    intro o o' _ h
    cases h
    exact ⟨rfl, rfl, fun _ _ => rfl, fun _ h => by cases h⟩
  | cons first lookups ih =>
    intro o o' hnodup h
    have hnodup := List.nodup_cons.mp hnodup
    simp only [lookUpAll] at h
    cases hinfo : wec.getPropertyInfo first.name event with
    | error fault => simp [hinfo] at h
    | ok info =>
      simp only [hinfo] at h
      rcases ih hnodup.2 h with ⟨hpos, hsucc, hother, hkept⟩
      refine ⟨hpos, hsucc, ?_, ?_⟩
      · intro name hname
        have hname := not_or.mp fun h => hname (List.mem_cons.mpr h)
        rw [hother name hname.2]
        exact Function.update_of_ne hname.1 _ _
      · intro lookup hlookup
        rcases List.mem_cons.mp hlookup with rfl | hlookup
        · -- Later calls are for other names.
          refine ⟨info, hinfo, ?_⟩
          rw [hother _ hnodup.1]
          exact Function.update_self _ _ _
        · rcases hkept lookup hlookup with ⟨info', hinfo', hfield⟩
          have hne : lookup.name ≠ first.name := by
            intro heq
            exact hnodup.1 (heq ▸ List.mem_map_of_mem hlookup)
          refine ⟨info', hinfo', ?_⟩
          rw [hfield]
          simp only [EventOffset.store, Function.update_of_ne hne]

/-- All look-ups return if each of them does. -/
theorem lookUpAll_total {wec : WmiEventClass} {event : Event} (lookups : List Lookup) :
    ∀ o : EventOffset, (∃ o', lookUpAll wec event lookups o = .ok o') ↔
      ∀ lookup ∈ lookups, ∃ info, wec.getPropertyInfo lookup.name event = .ok info := by
  induction lookups with
  | nil =>
    intro o
    simp [lookUpAll]
  | cons first lookups ih =>
    intro o
    simp only [lookUpAll, List.forall_mem_cons]
    cases hinfo : wec.getPropertyInfo first.name event with
    | error fault => simp
    | ok info => simp [ih]

/-- A constructor that locates the properties, by the sizes that it finds. -/
theorem locate_of_not_positioned {m : EventMember} {wec : WmiEventClass} {event : Event}
    {o o' : EventOffset} (ho : o.isPositioned = false)
    (hrun : lookUpAll wec event m.lookups o = .ok o') :
    m.locate wec event o =
      if m.sizesFound o' then
        .ok ({ o' with isSuccessful := true, isPositioned := m.positioned o' }, true)
      else .ok ({ o' with isSuccessful := false }, false) := by
  simp only [EventMember.locate, ho, hrun, Bool.false_eq_true, if_false]

/-- The sizes are accepted exactly if every search for a tested one comes to a size. -/
theorem sizesFound_iff {m : EventMember} {wec : WmiEventClass} {event : Event}
    {o o' : EventOffset} (hrun : lookUpAll wec event m.lookups o = .ok o') :
    m.sizesFound o' = true ↔
      ∀ lookup ∈ m.lookups, lookup.sizeUse = .tested →
        ¬ SearchResult wec lookup.name event .ended := by
  have hspec := (lookUpAll_spec m.lookups m.names_nodup hrun).2.2.2
  simp only [EventMember.sizesFound, List.all_eq_true, decide_eq_true_eq]
  constructor
  · intro h lookup hlookup htested hended
    rcases hspec lookup hlookup with ⟨info, hinfo, hfield⟩
    -- The search gives the size 0, which the constructor rejects.
    have hended := getPropertyInfo_eq_ok_iff.mpr ⟨_, hended, rfl⟩
    rw [hinfo] at hended
    cases hended
    rcases h lookup hlookup with hne | hne
    · exact hne htested
    · rw [hfield] at hne
      exact hne (by simp [keptOf, htested]; rfl)
  · intro h lookup hlookup
    by_cases htested : lookup.sizeUse = .tested
    · right
      rcases hspec lookup hlookup with ⟨info, hinfo, hfield⟩
      rcases getPropertyInfo_eq_ok_iff.mp hinfo with ⟨outcome, hresult, rfl⟩
      have hne : outcome ≠ .ended := by
        intro heq
        exact h lookup hlookup htested (heq ▸ hresult)
      rw [hfield]
      simpa [keptOf, htested] using (hresult.dword_size hne).2
    · exact Or.inl htested

/-! ### Main result -/

/-- The size tells of a missing property unless the walk passes them all. -/
theorem sizeTellsMissing_iff {wec : WmiEventClass} {propertyName : WString} {event : Event} :
    SizeTellsMissing wec propertyName event ↔ ¬ PassesAll wec propertyName event := by
  constructor
  · intro h hpasses
    rcases hpasses with ⟨size, hresult⟩
    have hzero := h (-1) size (getPropertyInfo_eq_ok_iff.mpr ⟨_, hresult, rfl⟩) ?_
    · exact (hresult.dword_size (by simp)).1 hzero
    · intro hfound
      rcases hfound with ⟨_, _, hfound⟩
      cases hresult.unique hfound
  · intro h offset size hinfo hmissing
    rcases getPropertyInfo_eq_ok_iff.mp hinfo with ⟨outcome, hresult, heq⟩
    cases outcome with
    | found offset' size' => exact absurd ⟨offset', size', hresult⟩ hmissing
    | ended =>
      cases heq
      rfl
    | passed size' => exact absurd ⟨size', hresult⟩ h

/-- The flags tell of a missing property if a constructor notices it. -/
theorem flagsTellMissing_iff (m : EventMember) (wec : WmiEventClass) (event : Event) :
    FlagsTellMissing m wec event ↔ NoticesMissing m wec event := by
  constructor
  · intro h
    -- Unless it is one of the other two cases, every search has a result that is accepted.
    by_cases hfault : ∃ lookup ∈ m.lookups, ∀ outcome, ¬ SearchResult wec lookup.name event outcome
    · exact Or.inr (Or.inl hfault)
    by_cases hended : ∃ lookup ∈ m.lookups, lookup.sizeUse = .tested ∧
        SearchResult wec lookup.name event .ended
    · exact Or.inr (Or.inr hended)
    -- The constructor accepts the record, so by the assumption all properties are found.
    left
    have hall : ∀ lookup ∈ m.lookups, ∃ info,
        wec.getPropertyInfo lookup.name event = .ok info := by
      intro lookup hlookup
      by_contra hnone
      apply hfault
      refine ⟨lookup, hlookup, ?_⟩
      intro outcome hresult
      exact hnone ⟨_, getPropertyInfo_eq_ok_iff.mpr ⟨outcome, hresult, rfl⟩⟩
    rcases (lookUpAll_total m.lookups {}).mpr hall with ⟨o', hrun⟩
    have hsizes : m.sizesFound o' = true := by
      rw [sizesFound_iff hrun]
      intro lookup hlookup htested hresult
      exact hended ⟨lookup, hlookup, htested, hresult⟩
    have hlocate := locate_of_not_positioned rfl hrun
    rw [if_pos hsizes] at hlocate
    intro lookup hlookup
    rcases h _ _ _ rfl hlocate (Or.inl rfl) lookup hlookup with ⟨offset, hoffset, _⟩
    exact ⟨offset, hoffset⟩
  · intro h o o' goesOn ho hlocate hflag
    have hrun : ∃ o₁, lookUpAll wec event m.lookups o = .ok o₁ := by
      cases hrun : lookUpAll wec event m.lookups o with
      | ok o₁ => exact ⟨o₁, rfl⟩
      | error fault => simp [EventMember.locate, ho, hrun] at hlocate
    rcases hrun with ⟨o₁, hrun⟩
    have hspec := lookUpAll_spec m.lookups m.names_nodup hrun
    rw [locate_of_not_positioned ho hrun] at hlocate
    by_cases hsizes : m.sizesFound o₁ = true
    · rw [if_pos hsizes] at hlocate
      cases hlocate
      -- The other cases contradict the run and its acceptance.
      have hfound : ∀ lookup ∈ m.lookups, ∃ offset, IsOffsetOf wec lookup.name event offset := by
        rcases h with hfound | hfault | hended
        · exact hfound
        · rcases hfault with ⟨lookup, hlookup, hnone⟩
          rcases hspec.2.2.2 lookup hlookup with ⟨info, hinfo, _⟩
          rcases getPropertyInfo_eq_ok_iff.mp hinfo with ⟨outcome, hresult, _⟩
          exact absurd hresult (hnone outcome)
        · rcases hended with ⟨lookup, hlookup, htested, hresult⟩
          exact absurd hresult ((sizesFound_iff hrun).mp hsizes lookup hlookup htested)
      intro lookup hlookup
      rcases hfound lookup hlookup with ⟨offset, size, hresult⟩
      refine ⟨offset, ⟨size, hresult⟩, ?_⟩
      rcases hspec.2.2.2 lookup hlookup with ⟨info, hinfo, hfield⟩
      rw [getPropertyInfo_eq_ok_iff.mpr ⟨_, hresult, rfl⟩] at hinfo
      cases hinfo
      show (o₁.fields lookup.name).offs = _
      rw [hfield]
      rfl
    · -- The constructor gives up: neither flag is set.
      rw [if_neg hsizes] at hlocate
      cases hlocate
      rcases hflag with hflag | hflag
      · cases hflag
      · rw [show o₁.isPositioned = o.isPositioned from hspec.1, ho] at hflag
        cases hflag

/-- `GetPropertyInfo` tells by the size that a property is missing exactly if no walk for it passes
all properties, and a constructor tells it by its flags exactly in the cases of
`NoticesMissing`. -/
theorem missingProperty_iff (wec : WmiEventClass) (event : Event) :
    (∀ propertyName,
      SizeTellsMissing wec propertyName event ↔ ¬ PassesAll wec propertyName event) ∧
    ∀ m : EventMember, FlagsTellMissing m wec event ↔ NoticesMissing m wec event :=
  ⟨fun _ => sizeTellsMissing_iff, fun m => flagsTellMissing_iff m wec event⟩

/-- A class that describes only the file object. -/
def fileObjectClass : WmiEventClass := ⟨fun _ => quietHost, 8, some [fileObject]⟩

/-- The file name is missing in the class, but its size is that of the file object, and the
constructor of the name events takes its offset `-1` for that of the last property. -/
theorem fileObjectClass_fileName :
    ¬ SizeTellsMissing fileObjectClass (wide "FileName") terminatedEvent ∧
      ¬ FlagsTellMissing fileIoNameEventMember fileObjectClass terminatedEvent := by
  have hpasses : SearchResult fileObjectClass (wide "FileName") terminatedEvent (.passed 8) := by
    show WalkResult quietHost 8 (wide "FileName") terminatedEvent 0 [some fileObject] 0 0 _
    refine ⟨8, rfl, ?_⟩
    rw [if_neg (by decide), if_neg (by decide)]
    rfl
  have hfound : SearchResult fileObjectClass (wide "FileObject") terminatedEvent (.found 0 8) := by
    show WalkResult quietHost 8 (wide "FileObject") terminatedEvent 0 [some fileObject] 0 0 _
    refine ⟨8, rfl, ?_⟩
    rw [if_neg (by decide), if_pos (by decide)]
  rw [sizeTellsMissing_iff, flagsTellMissing_iff]
  refine ⟨fun h => h ⟨8, hpasses⟩, ?_⟩
  intro h
  rcases h with hfound | hfault | hended
  · rcases hfound (offsetOnly "FileName") (by decide) with ⟨_, _, hresult⟩
    cases hpasses.unique hresult
  · rcases hfault with ⟨lookup, hlookup, hnone⟩
    rcases List.mem_pair.mp hlookup with rfl | rfl
    · exact hnone _ hfound
    · exact hnone _ hpasses
  · rcases hended with ⟨lookup, hlookup, htested, hresult⟩
    rcases List.mem_pair.mp hlookup with rfl | rfl
    · cases hfound.unique hresult
    · cases htested

end KernelEventsTrace.EtwService
