import KernelEventsTrace.EtwService.WmiEventClass
import KernelEventsTrace.Lib.References

/-!
# `KernelEventsTrace.EtwService.WmiReferences`: what `GetPropertyInfo` holds of WMI

A COM object that was handed out, allocated memory, or a variant with something to free is a
`WmiReference`. The programs of this module are the functions of `WmiEventClass` again, with the
references that they take and release. A program lifts the function where it holds nothing of its
own.

A COM call that fails leaves its out parameters as they were.
-/

set_option autoImplicit false

namespace KernelEventsTrace.EtwService

open Holding (acquire)

/-- What can be held. The numbers are those of the classes in their enumeration, and of the index
cells in the walk. -/
inductive WmiReference where
  | categoryEnum
  | categoryClass (i : Nat)
  | categoryQualifiers (i : Nat)
  | guid (i : Nat)
  | className
  | eventEnum
  | eventClass (i : Nat)
  | eventQualifiers (i : Nat)
  | eventTypes (i : Nat)
  /-- `p_names`. -/
  | names
  /-- `*p_p_properties`. -/
  | propertyList
  /-- `*p_p_property_index`. -/
  | propertyIndex
  | element (r : Resource)
  | description (i : Nat)
  | stringTermination (i : Nat)
  | extension (i : Nat)
  deriving Repr, DecidableEq

/-- What can go wrong with a reference. -/
inductive LookupFault where
  /-- A call through a null pointer. -/
  | nullPointer
  /-- A release of what is not held. -/
  | notHeld
  /-- A fault in the walk over the properties. -/
  | walk (fault : Fault)
  deriving Repr, DecidableEq

/-- A part of `GetPropertyInfo`. -/
abbrev WmiProgram := Holding WmiReference LookupFault

/-- `Release`, or the call that frees. -/
def release (r : WmiReference) : WmiProgram Unit := Holding.release .notHeld r

/-- `if (p) p->Release()`. -/
def releaseIf : Option WmiReference → WmiProgram Unit
  | none => pure ()
  | some r => release r

/-- A part of the walk that holds nothing. -/
def walkStep {α : Type} (x : Except Fault α) : WmiProgram α := Holding.lift (x.mapError .walk)

/-! ### `GetPropertyList` -/

/-- The release of the elements from `i` on. -/
def releaseElements : Nat → List PropertyList → WmiProgram Unit
  | _, [] => pure ()
  | i, p :: ps =>
    match p.name, p.qualifiers with
    | some _, some _ => do
      release (.element (.name i))
      release (.element (.qualifiers i))
      releaseElements (i + 1) ps
    | _, _ => throw (.walk .unwritten)

/-- `FreePropertyList`. The index can be null. -/
def releasePropertyList (t : PropertyTable) (pIndex : Option WmiReference) : WmiProgram Unit := do
  releaseElements 0 t.properties
  release .propertyList
  releaseIf pIndex

/-- One iteration of the loop of `GetPropertyList`. -/
def takeProperty (fails : WmiCall → Bool) (i : Nat) (p : Property) (t : PropertyTable) :
    WmiProgram (PropertyTable × Bool) :=
  if fails (.safeArrayGetElement i) then return (t, false)
  else do
    acquire (.element (.name i))
    let t := t.modify i fun e => { e with name := some p.name }
    if fails (.getPropertyQualifierSet i) then return (t, false)
    else do
      acquire (.element (.qualifiers i))
      walkStep (writeIndex fails i p (t.modify i fun e =>
        { e with qualifiers := some p.qualifiers }))

/-- The loop from the property `i` on. -/
def takeProperties (fails : WmiCall → Bool) :
    Nat → List Property → PropertyTable → WmiProgram (PropertyTable × Bool)
  | _, [], t => return (t, true)
  | i, p :: ps, t => do
    let (t, succeeded) ← takeProperty fails i p t
    if succeeded then takeProperties fails (i + 1) ps t else return (t, false)

/-- `GetPropertyList`. -/
def takePropertyList (fails : WmiCall → Bool) (pClass : List Property) :
    WmiProgram (Option PropertyTable) :=
  let t := PropertyTable.malloc pClass.length
  if fails .getNames then return none
  else do
    acquire .names
    if fails .mallocProperties then do
      release .names
      return none
    else do
      acquire .propertyList
      if fails .mallocIndex then do
        release .names
        releasePropertyList t none
        return none
      else do
        acquire .propertyIndex
        let (t, succeeded) ← takeProperties fails 0 pClass t
        release .names
        if succeeded then return some t
        else do
          releasePropertyList t (some .propertyIndex)
          return none

/-! ### The walk -/

section
variable (host : WmiHost) (pointerSize : UInt16)

/-- A variant that is cleared behind its only use. -/
def readVariant (r : WmiReference) : Option WString → WmiProgram Unit
  | none => pure ()
  | some _ => do
    acquire r
    release r

/-- `GetPropertyName`. -/
def readName (i : Nat) (p : Property) : WmiProgram WString := do
  readVariant (.description i) p.qualifiers.description
  return getPropertyName p

/-- The system cannot print an IPv6 address. The branch for these then returns. -/
def returnsEarly (extension : WString) : Bool :=
  host.ipv6Missing ∧ WString.icmpEq (wide "IPAddrV6") extension

/-- The variant of `Extension`, in the branch for `CIM_OBJECT`. -/
def readExtension (i : Nat) : Option WString → WmiProgram Unit
  | none => pure ()
  | some extension => do
    acquire (.extension i)
    if returnsEarly host extension then pure () else release (.extension i)

/-- The variants that the `switch` over the data type reads. -/
def readVariants (i : Nat) (p : Property) : WmiProgram Unit :=
  match p.dataType.cimType with
  | .string => readVariant (.stringTermination i) p.qualifiers.stringTermination
  | .sint8 | .uint8 => readVariant (.extension i) p.qualifiers.extension
  | .object => readExtension host i p.qualifiers.extension
  | _ => pure ()

/-- `GetEventPropertyValue` for the cell `i`. -/
def readValue (i : Nat) (p : Property) (event : Event) (offset : Int) : WmiProgram Int :=
  if p.qualifiers.pointer ∨ p.qualifiers.pointerType then return pointerSize.toNat
  else match arraySize p with
    | none => return 0
    | some n => do
      readVariants host i p
      walkStep (typeValue host pointerSize p event (host.stack i) offset n)

variable (t : PropertyTable) (propertyName : WString) (event : Event)

/-- The loop of `GetPropertyInfo` from the cell `i` on. -/
def walkLoop : Nat → List (Option Nat) → Int → Int → WmiProgram (Int × Int)
  | _, [], _, dataSize => return (-1, dataSize)
  | i, cell :: cells, tempOffset, _ => do
    let p ← walkStep (t.entry cell)
    let name ← readName i p
    let dataSize ← readValue host pointerSize i p event tempOffset
    if dataSize = 0 then return (-1, dataSize)
    else if name = propertyName then return (tempOffset, dataSize)
    else walkLoop (i + 1) cells (int32 (tempOffset + dataSize)) dataSize

/-- The properties of a class are listed, walked over and released. -/
def walkProperties (pClass : List Property) : WmiProgram (Int × Int) := do
  match ← takePropertyList host.fails pClass with
  | none => return (-1, 0)
  | some t => do
    let info ← walkLoop host pointerSize t propertyName event 0 t.index 0 0
    releasePropertyList t (some .propertyIndex)
    return info

/-! ### What is meant -/

/-- The property is an IPv6 address whose size is not found, and its `Extension` is kept. -/
def Property.KeepsExtension (p : Property) : Prop :=
  p.qualifiers.pointer = false ∧ p.qualifiers.pointerType = false ∧ (arraySize p).isSome ∧
    p.dataType.cimType = .object ∧ ∃ extension ∈ p.qualifiers.extension, returnsEarly host extension

/-- Whether the walk leaves the text of the extension behind. -/
instance : DecidablePred (Property.KeepsExtension host) :=
  fun _ => inferInstanceAs (Decidable (_ ∧ _ ∧ _ ∧ _ ∧ ∃ _ ∈ _, _))

/-- The cell at which the walk stops, with its property: one of size 0, or the named one. -/
def stopsAt : Nat → List (Option Nat) → Int → Option (Nat × Property)
  | _, [], _ => none
  | i, cell :: cells, offset =>
    match t.entry cell with
    | .error _ => none
    | .ok p =>
      match getEventPropertyValue host pointerSize p event (host.stack i) offset with
      | .error _ => none
      | .ok dataSize =>
        if dataSize = 0 ∨ getPropertyName p = propertyName then some (i, p)
        else stopsAt (i + 1) cells (int32 (offset + dataSize))

/-- What the walk leaves behind: the `Extension` of an IPv6 address at which it stops. -/
def walkLost (pClass : List Property) : Multiset WmiReference :=
  match getPropertyList host.fails pClass with
  | .ok (some t) =>
    match stopsAt host pointerSize t propertyName event 0 t.index 0 with
    | some (i, p) => if p.KeepsExtension host then {.extension i} else 0
    | none => 0
  | _ => 0

end

end KernelEventsTrace.EtwService
