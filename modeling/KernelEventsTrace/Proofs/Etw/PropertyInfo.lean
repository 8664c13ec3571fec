import Mathlib.Data.List.Nodup
import KernelEventsTrace.Proofs.Etw.PayloadBounds
import KernelEventsTrace.Proofs.Etw.Encoding

/-!
# `KernelEventsTrace.Proofs.Etw.PropertyInfo`: every property of an encoded payload is found

A payload is the concatenation of the encoded values of a class, in the order of the `WmiDataId`
qualifiers. `getPropertyInfo_encoded` says that `GetPropertyInfo` finds every property of the class
where its encoding stands, with the length of the encoding. The walk keeps `tempOffset` equal to
the length of the encodings that it has passed (`propertyLoop_encoded`).
-/

set_option autoImplicit false

namespace KernelEventsTrace.EtwService

/-! ### Specification -/

/-- The `encodings` are values of the properties of the class, `ordered` by their ids `1, …, n`. -/
structure EncodedClass (pointerSize : UInt16) (pClass ordered : List Property)
    (encodings : List (List UInt8)) : Prop where
  perm : ordered.Perm pClass
  ids : ∀ (k : Nat) (p : Property), ordered[k]? = some p →
    p.qualifiers.wmiDataId = some ((k : Int) + 1)
  notArray : ∀ p ∈ pClass, p.dataType.isArray = false
  names : (pClass.map getPropertyName).Nodup
  values : List.Forall₂ (fun p bytes => ∃ kind, p.kind = some kind ∧ Encodes pointerSize kind bytes)
    ordered encodings

/-! ### The order of the ids -/

/-- The ids of the class are inside of the index. -/
theorem EncodedClass.idsInRange {pointerSize : UInt16} {pClass ordered : List Property}
    {encodings : List (List UInt8)} (h : EncodedClass pointerSize pClass ordered encodings) :
    IdsInRange pClass.length pClass := by
  intro p hp id hid
  rcases List.mem_iff_getElem?.mp (h.perm.mem_iff.mpr hp) with ⟨k, hk⟩
  have hlt : k < ordered.length := (List.getElem?_eq_some_iff.mp hk).1
  have hlen := h.perm.length_eq
  rw [h.ids k p hk] at hid
  cases hid
  omega

/-- The index cell `k` leads to the `k`-th property in the order of the ids. -/
theorem EncodedClass.propertyAt_eq {pointerSize : UInt16} {pClass ordered : List Property}
    {encodings : List (List UInt8)} (h : EncodedClass pointerSize pClass ordered encodings)
    {k : Nat} (hk : k < ordered.length) : propertyAt pClass k = some ordered[k] := by
  have hid := h.ids k ordered[k] (List.getElem?_eq_getElem hk)
  have hmem : ordered[k] ∈ pClass := h.perm.mem_iff.mp (List.getElem_mem hk)
  cases hfind : propertyAt pClass k with
  | none =>
    have hnone := List.find?_eq_none.mp hfind ordered[k] (List.mem_reverse.mpr hmem)
    exact absurd (by simpa using hid) hnone
  | some q =>
    -- The ids of `ordered` are distinct, so `q` is the property in question.
    have hq : q ∈ pClass := List.mem_reverse.mp (List.mem_of_find?_eq_some hfind)
    rcases List.mem_iff_getElem?.mp (h.perm.mem_iff.mpr hq) with ⟨j, hj⟩
    have hidq := h.ids j q hj
    rw [propertyAt_id hfind] at hidq
    have hjk : j = k := by
      injection hidq with heq
      omega
    rw [hjk, List.getElem?_eq_getElem hk] at hj
    exact hj.symm

/-- The index has the properties in their order. -/
theorem EncodedClass.entries {pointerSize : UInt16} {pClass ordered : List Property}
    {encodings : List (List UInt8)} (h : EncodedClass pointerSize pClass ordered encodings) :
    (List.range pClass.length).map (propertyAt pClass) = ordered.map some := by
  apply List.ext_getElem
  · simp [h.perm.length_eq]
  · intro k hk hk'
    have hlt : k < ordered.length := by simpa using hk'
    simp only [List.getElem_map, List.getElem_range]
    exact h.propertyAt_eq hlt

/-! ### The walk -/

/-- An offset in the payload is an `int`. -/
theorem int32_offset {event : Event} {before bytes after : List UInt8}
    (hdata : event.mofData = before ++ (bytes ++ after)) :
    int32 ((before.length : Int) + bytes.length) = (before ++ bytes).length := by
  have hsize := event.size_lt
  rw [hdata, List.length_append, List.length_append] at hsize
  rw [int32_eq (by omega) (by omega), List.length_append]
  rfl

/-- The walk over properties whose encodings stand in the payload behind `before`. -/
theorem propertyLoop_encoded {host : WmiHost} (hipv6 : host.ipv6Missing = false)
    {pointerSize : UInt16} (hpos : 0 < pointerSize.toNat) (hsmall : pointerSize.toNat < 2 ^ 15)
    {t : PropertyTable} {event : Event} {ordered : List Property} {encodings : List (List UInt8)}
    (hvalues : List.Forall₂
      (fun p bytes => ∃ kind, p.kind = some kind ∧ Encodes pointerSize kind bytes)
      ordered encodings) :
    ∀ (cells : List (Option Nat)) (before : List UInt8) (i : Nat) (dataSize : Int) (k : Nat)
      (p : Property) (bytes : List UInt8),
      cells.map t.entry = ordered.map .ok →
      event.mofData = before ++ encodings.flatten →
      (∀ q ∈ ordered, q.dataType.isArray = false) →
      (ordered.map getPropertyName).Nodup →
      ordered[k]? = some p → encodings[k]? = some bytes →
        propertyLoop host pointerSize t (getPropertyName p) event i cells before.length dataSize =
          .ok ((before.length + (encodings.take k).flatten.length : Nat), bytes.length) := by
  induction hvalues with
  | nil =>
    intro cells before i dataSize k p bytes _ _ _ _ hp
    cases hp
  | @cons q bytes' ordered encodings hvalue hvalues ih =>
    intro cells before i dataSize k p bytes hcells hdata harray hnames hp hbytes
    cases cells with
    | nil => simp at hcells
    | cons cell cells =>
      have hentry : t.entry cell = .ok q := (List.cons.inj hcells).1
      have hrest : cells.map t.entry = ordered.map .ok := (List.cons.inj hcells).2
      rcases hvalue with ⟨kind, hkind, hencodes⟩
      have hfield := fieldAt_of_encodes hsmall hdata hencodes (host.stack i)
      rw [← layout_of_kind hipv6 pointerSize (harray q (by simp)) hkind,
        ← getEventPropertyValue_eq_ok_iff] at hfield
      have hlength := hencodes.length_pos hpos
      rw [propertyLoop_cons hentry hfield, if_neg (by omega)]
      have hnodup := List.nodup_cons.mp hnames
      cases k with
      | zero =>
        cases hp
        cases hbytes
        rw [if_pos rfl]
        simp
      | succ k =>
        -- The first property has another name. The walk goes on behind its encoding.
        have hp : ordered[k]? = some p := hp
        have hbytes : encodings[k]? = some bytes := hbytes
        have hne : getPropertyName q ≠ getPropertyName p := by
          intro heq
          apply hnodup.1
          rw [heq]
          exact List.mem_map_of_mem (List.mem_of_getElem? hp)
        have hdata' : event.mofData = (before ++ bytes') ++ encodings.flatten := by
          rw [hdata, List.flatten_cons, List.append_assoc]
        rw [if_neg hne, int32_offset hdata,
          ih cells (before ++ bytes') (i + 1) bytes'.length k p bytes hrest hdata'
            (fun r hr => harray r (List.mem_cons_of_mem _ hr)) hnodup.2 hp hbytes]
        simp only [List.take_succ_cons, List.flatten_cons, List.length_append, Nat.add_assoc]

/-! ### Main result -/

/-- `GetPropertyInfo` finds the `k`-th property behind the encodings of the ones before it, with
the length of its own encoding. -/
theorem getPropertyInfo_encoded {host : WmiHost} (hcalls : ∀ call, host.fails call = false)
    (hipv6 : host.ipv6Missing = false) {pointerSize : UInt16} (hpos : 0 < pointerSize.toNat)
    (hsmall : pointerSize.toNat < 2 ^ 15) {pClass ordered : List Property}
    {encodings : List (List UInt8)} (h : EncodedClass pointerSize pClass ordered encodings)
    {event : Event} (hdata : event.mofData = encodings.flatten) {k : Nat} {p : Property}
    {bytes : List UInt8} (hp : ordered[k]? = some p) (hbytes : encodings[k]? = some bytes) :
    getPropertyInfo host pointerSize (some pClass) (getPropertyName p) event =
      .ok ((encodings.take k).flatten.length, bytes.length) := by
  rcases getPropertyInfo_walk hcalls h.idsInRange with ⟨t, hentries, hwalk⟩
  have hcells : t.index.map t.entry = ordered.map .ok := by
    rw [hentries, h.entries, List.map_map]
    rfl
  have hnames : (ordered.map getPropertyName).Nodup :=
    (h.perm.map getPropertyName).nodup_iff.mpr h.names
  have harray : ∀ q ∈ ordered, q.dataType.isArray = false := by
    intro q hq
    exact h.notArray q (h.perm.mem_iff.mp hq)
  have hloop := propertyLoop_encoded hipv6 hpos hsmall h.values t.index [] 0 0 k p bytes hcells
    hdata harray hnames hp hbytes
  rw [hwalk]
  simpa using hloop

/-- The property `UserSID`. -/
def userSid : Property where
  name := wide "UserSID"
  dataType := ⟨.object, false⟩
  qualifiers :=
    { wmiDataId := some 3, description := none, pointer := false, pointerType := false, max := none,
      format := false, stringTermination := none, extension := some (wide "Sid") }

/-- The encodings of a pointer, of the wide string `"A"` and of a SID. -/
def sampleEncodings : List (List UInt8) :=
  [[1, 2, 3, 4, 5, 6, 7, 8], [65, 0, 0, 0],
    [1, 0, 0, 0, 0, 0, 0, 0, 0, 0, 0, 0, 0, 0, 0, 0, 1, 1, 0, 0, 0, 0, 0, 5, 18, 0, 0, 0]]

/-- The payload of the example. -/
def sampleEvent : Event := ⟨sampleEncodings.flatten, by decide⟩

/-- The payload has the three values of its class. -/
theorem sample_encodedClass :
    EncodedClass 8 [userSid, fileName, fileObject] [fileObject, fileName, userSid]
      sampleEncodings where
  perm := by decide
  ids := by
    intro k p hk
    match k with
    | 0 | 1 | 2 =>
      cases hk
      rfl
    | k + 3 => cases hk
  notArray := by decide
  names := by decide
  values := by
    refine .cons ⟨.pointer, rfl, .fixed rfl⟩ (.cons ⟨.string true, rfl, ?_⟩
      (.cons ⟨.sid, rfl, ?_⟩ .nil))
    · exact @Encodes.wide 8 [65] (by decide) (by decide)
    · exact @Encodes.sid 8 [1, 0, 0, 0, 0, 0, 0, 0, 0, 0, 0, 0, 0, 0, 0, 0]
        [0, 0, 0, 0, 0, 5, 18, 0, 0, 0] 1 1 rfl (by decide) (by decide) (by decide) rfl

/-- The SID stands behind the object and the name. -/
theorem getPropertyInfo_userSid :
    getPropertyInfo quietHost 8 (some [userSid, fileName, fileObject]) (wide "UserSID")
      sampleEvent = .ok (12, 28) :=
  getPropertyInfo_encoded (fun _ => rfl) rfl (by decide) (by decide) sample_encodedClass rfl
    (k := 2) (p := userSid) rfl rfl

end KernelEventsTrace.EtwService
