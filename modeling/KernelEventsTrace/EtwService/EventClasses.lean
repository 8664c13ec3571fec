import KernelEventsTrace.EtwService.WmiReferences

/-!
# `KernelEventsTrace.EtwService.EventClasses`: how the class of an event is found

`GetEventCategoryClass` and `GetEventClass` of `etw/wmieventclass.cpp`, and `GetPropertyInfo` around
them. WMI is given by its answers during a call: the classes of an enumeration in their order, what
their qualifiers are, and which of the calls fail.

`InfoCall.eventClass` is what the two functions are meant to find. `InfoCall.lost` is what a call
leaves behind.
-/

set_option autoImplicit false

namespace KernelEventsTrace.EtwService

open Holding (acquire)

/-! ### The answers of WMI -/

/-- What `IEnumWbemClassObject::Next` gives, call after call. -/
structure Enumeration (α : Type) where
  classes : List α
  /-- Behind the last class `Next` fails. Otherwise it returns `WBEM_S_FALSE`. -/
  failed : Bool
  deriving Repr

/-- A qualifier that `IWbemQualifierSet::Get` is asked for. -/
inductive Answer (α : Type) where
  | value (a : α)
  /-- `WBEM_E_NOT_FOUND`. -/
  | notFound
  | failed
  deriving Repr, DecidableEq

/-- The `EventType` qualifier. -/
inductive EventType where
  | single (type : Int32)
  | array (types : List Int32)
  deriving Repr, DecidableEq

/-- The comparisons of an `int` with a `ULONG`. -/
def EventType.has (eventType : UInt32) : EventType → Bool
  | .single type => type.toUInt32 = eventType
  | .array types => types.any fun type => type.toUInt32 = eventType

/-- A class of the events of some types. -/
structure TypedClass where
  /-- `none` if `GetQualifierSet` fails, and within it `none` if `Get(L"EventType")` does. -/
  qualifiers : Option (Option EventType)
  properties : List Property
  deriving Repr

/-- What the qualifier set of a category says. -/
structure CategoryQualifiers where
  /-- `none` if `Get(L"Guid")` fails. -/
  guid : Option WString
  eventVersion : Answer Int32
  deriving Repr, DecidableEq

/-- A class of a category of events. -/
structure CategoryClass where
  /-- `none` if `GetQualifierSet` fails. -/
  qualifiers : Option CategoryQualifiers
  /-- `Get(L"__RELPATH")` succeeds. -/
  hasRelPath : Bool
  /-- The classes below it, or `none` if `CreateClassEnum` fails. -/
  subclasses : Option (Enumeration TypedClass)
  deriving Repr

/-! ### `GetEventCategoryClass` -/

/-- The comparisons with the GUID and the version of the event. -/
def isCategory (classGuid : WString) (version : UInt32) (guid : WString)
    (eventVersion : Answer Int32) : Bool :=
  if WString.icmpEq guid classGuid then
    match eventVersion with
    | .value eventVersion => version = eventVersion.toUInt32
    | .notFound => true
    | .failed => false
  else false

/-- The body of the loop, behind `GetQualifierSet`. The flag is whether it breaks. -/
def examineCategory (classGuid : WString) (version : UInt32) (i : Nat) :
    Option CategoryQualifiers → WmiProgram Bool
  | none => pure false
  | some qualifiers => do
    acquire (.categoryQualifiers i)
    match qualifiers.guid with
    | none => do
      release (.categoryQualifiers i)
      return false
    | some guid => do
      acquire (.guid i)
      if isCategory classGuid version guid qualifiers.eventVersion then return true
      else do
        release (.guid i)
        release (.categoryQualifiers i)
        return false

/-- The loop from the class `i` on. -/
def categoryLoop (classGuid : WString) (version : UInt32) (failed : Bool) :
    Nat → List CategoryClass → WmiProgram (Option (Nat × CategoryClass))
  | _, [] =>
    if failed then do
      release .categoryEnum
      return none
    -- `WBEM_S_FALSE` is no failure, so the body runs once more, with a null `p_class`.
    else throw .nullPointer
  | i, c :: classes => do
    acquire (.categoryClass i)
    if ← examineCategory classGuid version i c.qualifiers then
      release .categoryEnum
      release (.categoryQualifiers i)
      release (.guid i)
      return some (i, c)
    else
      release (.categoryClass i)
      categoryLoop classGuid version failed (i + 1) classes

/-- `GetEventCategoryClass`, with the answer to `CreateClassEnum`. -/
def getEventCategoryClass (answer : Option (Enumeration CategoryClass)) (classGuid : WString)
    (version : UInt32) : WmiProgram (Option (Nat × CategoryClass)) :=
  match answer with
  | none => pure none
  | some e => do
    acquire .categoryEnum
    categoryLoop classGuid version e.failed 0 e.classes

/-! ### `GetEventClass` -/

/-- The label `cleanup`. -/
def cleanupEventClass (pQualifiers : Option WmiReference) : WmiProgram Unit := do
  release .eventEnum
  releaseIf pQualifiers
  release .className

/-- `Get(L"EventType")`, the comparison and `VariantClear`. -/
def examineEventType (eventType : UInt32) (i : Nat) (types : EventType) : WmiProgram Bool :=
  match types with
  | .single _ => pure (types.has eventType)
  | .array _ => do
    acquire (.eventTypes i)
    let found := types.has eventType
    release (.eventTypes i)
    return found

/-- The loop from the class `i` on. `pQualifiers` points to the qualifiers of the class in front. -/
def eventLoop (eventType : UInt32) : Option WmiReference → Nat → List TypedClass →
    WmiProgram (Option (Nat × TypedClass))
  -- Both a failure and `S_FALSE` go to `cleanup`.
  | pQualifiers, _, [] => do
    cleanupEventClass pQualifiers
    return none
  | pQualifiers, i, c :: classes => do
    acquire (.eventClass i)
    match c.qualifiers with
    | none => do
      -- `p_qualifiers` still points to the set of the class in front.
      release (.eventClass i)
      cleanupEventClass pQualifiers
      return none
    | some answer => do
      -- `p_qualifiers` is overwritten, and what it pointed to is not released.
      acquire (.eventQualifiers i)
      match answer with
      | none => do
        release (.eventClass i)
        cleanupEventClass (some (.eventQualifiers i))
        return none
      | some types => do
        if ← examineEventType eventType i types then
          cleanupEventClass (some (.eventQualifiers i))
          return some (i, c)
        else
          release (.eventClass i)
          eventLoop eventType (some (.eventQualifiers i)) (i + 1) classes

/-- `GetEventClass`. -/
def getEventClass (category : CategoryClass) (eventType : UInt32) :
    WmiProgram (Option (Nat × TypedClass)) :=
  if category.hasRelPath then do
    acquire .className
    match category.subclasses with
    | none => do
      release .className
      return none
    | some e => do
      acquire .eventEnum
      eventLoop eventType none 0 e.classes
  else pure none

/-! ### `GetPropertyInfo` -/

/-- A call of `GetPropertyInfo`, with what WMI answers while it runs. -/
structure InfoCall where
  categories : Option (Enumeration CategoryClass)
  host : WmiHost
  classGuid : WString
  version : UInt32
  type : UInt32
  pointerSize : UInt16
  propertyName : WString
  event : Event

namespace InfoCall

variable (call : InfoCall)

/-- What the walk over the properties of a class is meant to give. -/
def walk (pClass : Option (List Property)) : Except LookupFault (Int × Int) :=
  (EtwService.getPropertyInfo call.host call.pointerSize pClass call.propertyName
    call.event).mapError .walk

/-- The branch `if (p_event_class)`. -/
def walkEventClass : Option (Nat × TypedClass) → WmiProgram (Int × Int)
  | none => return (-1, 0)
  | some (j, eventClass) => do
    let info ← walkProperties call.host call.pointerSize call.propertyName call.event
      eventClass.properties
    release (.eventClass j)
    return info

/-- `GetPropertyInfo`. -/
def getPropertyInfo : WmiProgram (Int × Int) := do
  match ← getEventCategoryClass call.categories call.classGuid call.version with
  | none => return (-1, 0)
  | some (i, category) => do
    let pEventClass ← getEventClass category call.type
    release (.categoryClass i)
    call.walkEventClass pEventClass

end InfoCall

/-! ### What is meant -/

/-- The version of an event is the one of the class, or the class has none. -/
def Answer.Admits (version : UInt32) : Answer Int32 → Prop
  | .value eventVersion => version = eventVersion.toUInt32
  | .notFound => True
  | .failed => False

/-- The version is compared. -/
instance (version : UInt32) : DecidablePred (Answer.Admits version)
  | .value eventVersion => inferInstanceAs (Decidable (version = eventVersion.toUInt32))
  | .notFound => .isTrue trivial
  | .failed => .isFalse id

/-- The class is the category of the events with this GUID and version. -/
def CategoryClass.IsFor (classGuid : WString) (version : UInt32) (c : CategoryClass) : Prop :=
  ∃ q ∈ c.qualifiers, ∃ guid ∈ q.guid,
    WString.icmpEq guid classGuid = true ∧ q.eventVersion.Admits version

/-- The GUID and the version are compared. -/
instance (classGuid : WString) (version : UInt32) :
    DecidablePred (CategoryClass.IsFor classGuid version) :=
  fun _ => inferInstanceAs (Decidable (∃ _ ∈ _, _))

namespace TypedClass

variable (eventType : UInt32)

/-- The class is for the events of this type. -/
def IsFor (c : TypedClass) : Prop :=
  ∃ answer ∈ c.qualifiers, ∃ types ∈ answer, types.has eventType = true

/-- The class has its types, and this is none of them. -/
def PassedOver (c : TypedClass) : Prop :=
  ∃ answer ∈ c.qualifiers, ∃ types ∈ answer, types.has eventType = false

/-- The type is looked for among those of the class. -/
instance : DecidablePred (IsFor eventType) := fun _ => inferInstanceAs (Decidable (∃ _ ∈ _, _))

/-- The types of the class are looked at. -/
instance : DecidablePred (PassedOver eventType) :=
  fun _ => inferInstanceAs (Decidable (∃ _ ∈ _, _))

/-- The first class that is not passed over, if it is for the events of this type. -/
def firstFor (classes : List TypedClass) : Option TypedClass :=
  (classes.find? fun t => ¬ t.PassedOver eventType).filter fun t => t.IsFor eventType

/-- The number of classes in front of it. -/
def passed (classes : List TypedClass) : Nat :=
  (classes.takeWhile fun t => t.PassedOver eventType).length

/-- The number of classes whose qualifiers are got: those in front of it, and its own. -/
def got (classes : List TypedClass) : Nat :=
  passed eventType classes +
    if (classes[passed eventType classes]?.bind qualifiers).isSome then 1 else 0

end TypedClass

namespace CategoryClass

variable (eventType : UInt32) (c : CategoryClass)

/-- The classes below, as far as they can be enumerated. -/
def typedClasses : List TypedClass :=
  if c.hasRelPath then (c.subclasses.map Enumeration.classes).getD [] else []

/-- The sets of qualifiers that are not released when a class below is looked for: all but the last
one that was got. -/
def lost : Multiset WmiReference :=
  (List.range (TypedClass.got eventType c.typedClasses - 1)).map WmiReference.eventQualifiers

end CategoryClass

namespace InfoCall

variable (call : InfoCall)

/-- The class of the category of the event. -/
def category : Option CategoryClass :=
  call.categories.bind fun e =>
    e.classes.find? fun c => c.IsFor call.classGuid call.version

/-- The class of the event, by its properties. -/
def eventClass : Option (List Property) :=
  (call.category.bind fun c => TypedClass.firstFor call.type c.typedClasses).map
    TypedClass.properties

/-- WMI gives all categories, and the one of the event is not among them. -/
def Unknown : Prop :=
  ∃ e ∈ call.categories, e.failed = false ∧
    ∀ c ∈ e.classes, ¬ c.IsFor call.classGuid call.version

/-- The categories are looked at. -/
instance : Decidable call.Unknown := inferInstanceAs (Decidable (∃ _ ∈ _, _))

/-- What the call returns. -/
def info : Except LookupFault (Int × Int) :=
  if call.Unknown then .error .nullPointer else call.walk call.eventClass

/-- What the call leaves behind: what the look-ups do, and what the walk does. -/
def lost : Multiset WmiReference :=
  (call.category.map fun c => c.lost call.type).getD 0 +
    (call.eventClass.map
      (walkLost call.host call.pointerSize call.propertyName call.event)).getD 0

end InfoCall

end KernelEventsTrace.EtwService
