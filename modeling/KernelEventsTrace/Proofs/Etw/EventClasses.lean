import KernelEventsTrace.EtwService.EventClasses
import KernelEventsTrace.Proofs.Etw.WalkReferences

/-!
# `KernelEventsTrace.Proofs.Etw.EventClasses`: the classes that the look-ups find and leave behind

Both look-ups are loops over an enumeration. An induction over the classes that are left says what a
loop returns and which references it holds (`Ends`).

* The loop over the categories releases each class that it passes, so at the end it holds the one it
  has found, or nothing (`ends_getEventCategoryClass_of_some`, `_of_none`).
* The loop over the event classes overwrites `p_qualifiers` whenever a class gives its qualifiers,
  and only the last set is released. `lostFrom` counts the others.
* `getPropertyInfos_eq` puts the two in front of the walk over the properties, for any number of
  calls.
-/

set_option autoImplicit false

namespace KernelEventsTrace.EtwService

open Holding (acquire)
open TypedClass (firstFor passed got)

variable {classGuid : WString} {version eventType : UInt32}

/-! ### `GetEventCategoryClass` -/

/-- The tests of a category class are what it has to be for the event. -/
theorem isCategory_eq {c : CategoryClass} {q : CategoryQualifiers} {guid : WString}
    (hq : c.qualifiers = some q) (hguid : q.guid = some guid) :
    isCategory classGuid version guid q.eventVersion = decide (c.IsFor classGuid version) := by
  unfold isCategory
  cases hv : q.eventVersion <;> cases hi : WString.icmpEq guid classGuid <;>
    simp [CategoryClass.IsFor, Answer.Admits, hq, hguid, hv, hi]

/-- The qualifiers and the GUID of a class are only kept if it is the one. -/
theorem ends_examineCategory (classGuid : WString) (version : UInt32) (i : Nat) (c : CategoryClass)
    (p : Multiset WmiReference) :
    Ends p (examineCategory classGuid version i c.qualifiers)
      (.ok (decide (c.IsFor classGuid version)))
      (if c.IsFor classGuid version then .guid i ::ₘ .categoryQualifiers i ::ₘ p else p) := by
  cases hq : c.qualifiers with
  | none =>
    have hnot : ¬ c.IsFor classGuid version := by simp [CategoryClass.IsFor, hq]
    rw [if_neg hnot, decide_eq_false hnot]
    exact Ends.pure p false
  | some q =>
    refine Ends.bind (Ends.acquire _ _) ?_
    cases hguid : q.guid with
    | none =>
      have hnot : ¬ c.IsFor classGuid version := by simp [CategoryClass.IsFor, hq, hguid]
      rw [if_neg hnot, decide_eq_false hnot]
      exact Ends.bind (ends_release rfl) (Ends.pure p false)
    | some guid =>
      refine Ends.bind (Ends.acquire _ _) ?_
      rw [isCategory_eq hq hguid]
      by_cases h : c.IsFor classGuid version
      · rw [if_pos h, decide_eq_true h]
        exact Ends.pure _ true
      · rw [if_neg h, decide_eq_false h]
        exact Ends.bind (ends_release rfl) (Ends.bind (ends_release rfl) (Ends.pure p false))

section
variable {failed : Bool} {i : Nat} {c : CategoryClass} {classes : List CategoryClass}

/-- A class that is not the one is released. -/
theorem ends_categoryLoop_of_not {out : Except LookupFault (Option (Nat × CategoryClass))}
    {q : Multiset WmiReference} (h : ¬ c.IsFor classGuid version)
    (hrest : Ends {.categoryEnum} (categoryLoop classGuid version failed (i + 1) classes) out q) :
    Ends {.categoryEnum} (categoryLoop classGuid version failed i (c :: classes)) out q := by
  refine Ends.bind (Ends.acquire _ _) ?_
  have hexamine := ends_examineCategory classGuid version i c
    {.categoryClass i, .categoryEnum}
  rw [if_neg h, decide_eq_false h] at hexamine
  exact Ends.bind hexamine (Ends.bind (ends_release rfl) hrest)

/-- The class that is the one is all that is held in the end. -/
theorem ends_categoryLoop_of_isFor (h : c.IsFor classGuid version) :
    Ends {.categoryEnum} (categoryLoop classGuid version failed i (c :: classes))
      (.ok (some (i, c))) {.categoryClass i} := by
  refine Ends.bind (Ends.acquire _ _) ?_
  have hexamine := ends_examineCategory classGuid version i c
    {.categoryClass i, .categoryEnum}
  rw [if_pos h, decide_eq_true h] at hexamine
  refine Ends.bind hexamine ?_
  refine Ends.bind (ends_release (q := {.guid i, .categoryQualifiers i, .categoryClass i}) ?_) ?_
  · simp only [Multiset.insert_eq_cons, ← Multiset.singleton_add]
    abel
  · exact Ends.bind (ends_release (Multiset.cons_swap _ _ _))
      (Ends.bind (ends_release rfl) (Ends.pure _ _))

/-- The loop ends at the first class that is for the event, and has only that one. -/
theorem ends_categoryLoop_of_find (failed : Bool) (i : Nat)
    (h : classes.find? (CategoryClass.IsFor classGuid version) = some c) :
    ∃ j, Ends {.categoryEnum} (categoryLoop classGuid version failed i classes)
      (.ok (some (j, c))) {.categoryClass j} := by
  induction classes generalizing i with
  | nil => cases h
  | cons c' classes ih =>
    by_cases hc' : c'.IsFor classGuid version
    · rw [List.find?_cons, decide_eq_true hc'] at h
      obtain rfl := Option.some.inj h
      exact ⟨i, ends_categoryLoop_of_isFor hc'⟩
    · rw [List.find?_cons, decide_eq_false hc'] at h
      obtain ⟨j, hj⟩ := ih (i + 1) h
      exact ⟨j, ends_categoryLoop_of_not hc' hj⟩

/-- Without such a class, the loop ends where `Next` fails, or goes on with a null pointer. -/
theorem ends_categoryLoop_of_forall (failed : Bool) (i : Nat)
    (h : ∀ c ∈ classes, ¬ c.IsFor classGuid version) :
    Ends {.categoryEnum} (categoryLoop classGuid version failed i classes)
      (if failed then .ok none else .error .nullPointer) 0 := by
  induction classes generalizing i with
  | nil =>
    cases failed with
    | true => exact Ends.bind (ends_release rfl) (Ends.pure 0 none)
    | false => exact Ends.throw _ _ _
  | cons c classes ih =>
    exact ends_categoryLoop_of_not (h c List.mem_cons_self)
      (ih (i + 1) fun c' hc' => h c' (List.mem_cons_of_mem c hc'))

end

/-! ### `GetEventClass` -/

section
variable {types : EventType} {c : TypedClass} {classes : List TypedClass} {i : Nat}

/-- The variant with the types of a class is cleared. -/
theorem ends_examineEventType (eventType : UInt32) (i : Nat) (types : EventType)
    (p : Multiset WmiReference) :
    Ends p (examineEventType eventType i types) (.ok (types.has eventType)) p := by
  cases types with
  | single type => exact Ends.pure _ _
  | array types =>
    exact Ends.bind (Ends.acquire _ _) (Ends.bind (ends_release rfl) (Ends.pure _ _))

/-- What the loop holds, beside what is lost. -/
def loopRefs (pQualifiers : Option WmiReference) : Multiset WmiReference :=
  pointee pQualifiers + {.eventEnum, .className}

/-- At the end the last set of qualifiers is released, if there is one. -/
theorem ends_cleanupEventClass (pQualifiers : Option WmiReference) (p : Multiset WmiReference) :
    Ends (loopRefs pQualifiers + p) (cleanupEventClass pQualifiers) (.ok ()) p := by
  have hrefs : loopRefs pQualifiers + p =
      .eventEnum ::ₘ (pointee pQualifiers + .className ::ₘ p) := by
    simp only [loopRefs, Multiset.insert_eq_cons, ← Multiset.singleton_add]
    abel
  exact Ends.bind (ends_release hrefs) (Ends.bind (ends_releaseIf _ _) (ends_release rfl))

/-- A pointer that is overwritten is not looked at again. -/
theorem loopRefs_overwrite (pQualifiers : Option WmiReference) (r : WmiReference) :
    r ::ₘ loopRefs pQualifiers = loopRefs (some r) + pointee pQualifiers := by
  simp only [loopRefs, pointee, ← Multiset.singleton_add]
  abel

/-- A class with other types is passed over. -/
theorem firstFor_of_passedOver (h : c.PassedOver eventType) :
    firstFor eventType (c :: classes) = firstFor eventType classes := by
  simp [firstFor, h]

/-- At any other class the loop ends. -/
theorem firstFor_of_not_passedOver (h : ¬ c.PassedOver eventType) :
    firstFor eventType (c :: classes) = if c.IsFor eventType then some c else none := by
  simp [firstFor, h, Option.filter]

/-- A class that is passed over has given its qualifiers. -/
theorem got_of_passedOver (h : c.PassedOver eventType) :
    got eventType (c :: classes) = got eventType classes + 1 := by
  have hpassed : passed eventType (c :: classes) = passed eventType classes + 1 := by
    simp [passed, h]
  unfold got
  rw [hpassed, List.getElem?_cons_succ, Nat.add_right_comm]

/-- The class at which the loop ends may have given its qualifiers. -/
theorem got_of_not_passedOver (h : ¬ c.PassedOver eventType) :
    got eventType (c :: classes) = if c.qualifiers.isSome then 1 else 0 := by
  have hpassed : passed eventType (c :: classes) = 0 := by simp [passed, h]
  unfold got
  rw [hpassed, Nat.zero_add]
  rfl

/-- A class without qualifiers is not passed over. -/
theorem isSome_of_passedOver (h : c.PassedOver eventType) : c.qualifiers.isSome = true := by
  obtain ⟨answer, hq, -⟩ := h
  rw [Option.mem_def.mp hq]
  rfl

/-- What the loop leaves behind. -/
def lostFrom (eventType : UInt32) : Option WmiReference → Nat → List TypedClass →
    Multiset WmiReference
  | _, _, [] => 0
  | pQualifiers, i, c :: classes =>
    if c.qualifiers.isSome then
      pointee pQualifiers +
        if c.PassedOver eventType then
          lostFrom eventType (some (.eventQualifiers i)) (i + 1) classes
        else 0
    else 0

/-- What the loop has when it has found a class, or none. -/
def foundRefs (found : Option (Nat × TypedClass)) : Multiset WmiReference :=
  pointee (found.map fun f => .eventClass f.1)

/-- The loop at a class that ends it. -/
theorem ends_eventLoop_of_not_passedOver (h : ¬ c.PassedOver eventType)
    (pQualifiers : Option WmiReference) (i : Nat) :
    Ends (loopRefs pQualifiers) (eventLoop eventType pQualifiers i (c :: classes))
      (.ok (if c.IsFor eventType then some (i, c) else none))
      (foundRefs (if c.IsFor eventType then some (i, c) else none) +
        if c.qualifiers.isSome then pointee pQualifiers else 0) := by
  have hoverwrite := loopRefs_overwrite pQualifiers (.eventQualifiers i)
  rw [eventLoop]
  refine Ends.bind (Ends.acquire _ _) ?_
  cases hq : c.qualifiers with
  | none =>
    -- `GetQualifierSet` fails. The set of the iteration before is released, if there is one.
    have hnot : ¬ c.IsFor eventType := by simp [TypedClass.IsFor, hq]
    rw [if_neg hnot]
    refine Ends.bind (ends_release rfl) ?_
    have hcleanup := (ends_cleanupEventClass pQualifiers 0).of_eq (add_zero _).symm rfl
    exact Ends.bind hcleanup (Ends.pure 0 none)
  | some answer =>
    refine Ends.bind (Ends.acquire _ _) ?_
    cases answer with
    | none =>
      have hnot : ¬ c.IsFor eventType := by simp [TypedClass.IsFor, hq]
      rw [if_neg hnot]
      refine Ends.bind (ends_release (Multiset.cons_swap _ _ _)) ?_
      refine Ends.bind ((ends_cleanupEventClass _ (pointee pQualifiers)).of_eq hoverwrite rfl) ?_
      exact (Ends.pure _ _).of_eq rfl (zero_add _).symm
    | some types =>
      -- The class is found. The set that was overwritten is not released.
      have hhas : types.has eventType = true := by simpa [TypedClass.PassedOver, hq] using h
      have hfor : c.IsFor eventType := by simpa [TypedClass.IsFor, hq] using hhas
      have hexamine := ends_examineEventType eventType i types
        (.eventQualifiers i ::ₘ .eventClass i ::ₘ loopRefs pQualifiers)
      rw [hhas] at hexamine
      rw [if_pos hfor]
      refine Ends.bind hexamine ?_
      have hstart : .eventQualifiers i ::ₘ .eventClass i ::ₘ loopRefs pQualifiers =
          loopRefs (some (.eventQualifiers i)) + .eventClass i ::ₘ pointee pQualifiers := by
        rw [Multiset.cons_swap, hoverwrite, Multiset.add_cons]
      refine Ends.bind ((ends_cleanupEventClass _ _).of_eq hstart rfl) ?_
      exact (Ends.pure _ _).of_eq rfl (Multiset.singleton_add _ _).symm

/-- The loop at a class that is passed over. -/
theorem ends_eventLoop_of_passedOver {found : Option (Nat × TypedClass)}
    {q : Multiset WmiReference} (h : c.PassedOver eventType) (pQualifiers : Option WmiReference)
    (hrest : Ends (loopRefs (some (.eventQualifiers i)))
      (eventLoop eventType (some (.eventQualifiers i)) (i + 1) classes) (.ok found) q) :
    Ends (loopRefs pQualifiers) (eventLoop eventType pQualifiers i (c :: classes)) (.ok found)
      (q + pointee pQualifiers) := by
  obtain ⟨answer, hq, types, htypes, hhas⟩ := h
  rw [eventLoop]
  refine Ends.bind (Ends.acquire _ _) ?_
  rw [Option.mem_def.mp hq, Option.mem_def.mp htypes]
  refine Ends.bind (Ends.acquire _ _) ?_
  have hexamine := ends_examineEventType eventType i types
    (.eventQualifiers i ::ₘ .eventClass i ::ₘ loopRefs pQualifiers)
  rw [hhas] at hexamine
  refine Ends.bind hexamine (Ends.bind (ends_release (Multiset.cons_swap _ _ _)) ?_)
  exact (hrest.frame _).of_eq (loopRefs_overwrite _ _) rfl

/-- The loop has the class it has found, and the sets of qualifiers that were overwritten. -/
theorem ends_eventLoop (eventType : UInt32) (classes : List TypedClass)
    (pQualifiers : Option WmiReference) (i : Nat) :
    ∃ found, found.map Prod.snd = firstFor eventType classes ∧
      Ends (loopRefs pQualifiers) (eventLoop eventType pQualifiers i classes) (.ok found)
        (foundRefs found + lostFrom eventType pQualifiers i classes) := by
  induction classes generalizing pQualifiers i with
  | nil =>
    have hcleanup := (ends_cleanupEventClass pQualifiers 0).of_eq (add_zero _).symm rfl
    exact ⟨none, rfl, Ends.bind hcleanup (Ends.pure 0 none)⟩
  | cons c classes ih =>
    rw [lostFrom]
    by_cases h : c.PassedOver eventType
    · obtain ⟨found, hfound, hends⟩ := ih (some (.eventQualifiers i)) (i + 1)
      refine ⟨found, hfound.trans (firstFor_of_passedOver h).symm, ?_⟩
      rw [if_pos (isSome_of_passedOver h), if_pos h]
      refine (ends_eventLoop_of_passedOver h pQualifiers hends).of_eq rfl ?_
      rw [add_assoc, add_comm (lostFrom _ _ _ _)]
    · refine ⟨if c.IsFor eventType then some (i, c) else none, ?_, ?_⟩
      · rw [firstFor_of_not_passedOver h]
        by_cases hfor : c.IsFor eventType <;> simp [hfor]
      · rw [if_neg h, add_zero]
        exact ends_eventLoop_of_not_passedOver h pQualifiers i

/-- All sets of qualifiers but the last one that is got. -/
theorem lostFrom_eq (classes : List TypedClass) (pQualifiers : Option WmiReference) (i : Nat) :
    lostFrom eventType pQualifiers i classes =
      (if got eventType classes = 0 then 0 else pointee pQualifiers) +
        (List.range' i (got eventType classes - 1)).map WmiReference.eventQualifiers := by
  induction classes generalizing pQualifiers i with
  | nil => rfl
  | cons c classes ih =>
    rw [lostFrom]
    by_cases h : c.PassedOver eventType
    · rw [if_pos (isSome_of_passedOver h), if_pos h, ih, got_of_passedOver h,
        if_neg (Nat.succ_ne_zero _), Nat.add_sub_cancel]
      cases hgot : got eventType classes with
      | zero => rfl
      | succ n =>
        rw [if_neg (Nat.succ_ne_zero n), Nat.add_sub_cancel, List.range'_succ, List.map_cons,
          ← Multiset.cons_coe, ← Multiset.singleton_add]
        rfl
    · rw [if_neg h, got_of_not_passedOver h, add_zero]
      cases c.qualifiers.isSome with
      | true => exact (add_zero _).symm
      | false => rfl

end

/-- The look-up of a class below its category. -/
theorem ends_getEventClass (category : CategoryClass) (eventType : UInt32) :
    ∃ found, found.map Prod.snd = firstFor eventType category.typedClasses ∧
      Ends 0 (getEventClass category eventType) (.ok found)
        (foundRefs found + category.lost eventType) := by
  unfold getEventClass CategoryClass.lost CategoryClass.typedClasses
  cases category.hasRelPath with
  | false => exact ⟨none, rfl, Ends.pure 0 none⟩
  | true =>
    cases category.subclasses with
    | none =>
      refine ⟨none, rfl, Ends.bind (Ends.acquire _ _) ?_⟩
      exact Ends.bind (ends_release rfl) (Ends.pure 0 none)
    | some e =>
      obtain ⟨found, hfound, hends⟩ := ends_eventLoop eventType e.classes none 0
      refine ⟨found, hfound, ?_⟩
      rw [lostFrom_eq, pointee, ite_self, zero_add, ← List.range_eq_range'] at hends
      exact Ends.bind (Ends.acquire _ _) (Ends.bind (Ends.acquire _ _) hends)

/-! ### `GetPropertyInfo` -/

namespace InfoCall

variable {call : InfoCall}

/-- An event with a category is not unknown. -/
theorem not_unknown_of_category {c : CategoryClass} (h : call.category = some c) :
    ¬ call.Unknown := by
  obtain ⟨e, he, hfind⟩ := Option.bind_eq_some_iff.mp h
  rintro ⟨e', he', -, hnone⟩
  obtain rfl := Option.some.inj (he.symm.trans he')
  have hfor : decide (c.IsFor call.classGuid call.version) = true :=
    List.find?_some (p := fun c => decide (CategoryClass.IsFor call.classGuid call.version c)) hfind
  exact hnone c (List.mem_of_find?_eq_some hfind) (of_decide_eq_true hfor)

/-- The category is found, and held. -/
theorem ends_getEventCategoryClass_of_some {c : CategoryClass} (h : call.category = some c) :
    ∃ i, Ends 0 (getEventCategoryClass call.categories call.classGuid call.version)
      (.ok (some (i, c))) {.categoryClass i} := by
  obtain ⟨e, he, hfind⟩ := Option.bind_eq_some_iff.mp h
  obtain ⟨i, hi⟩ := ends_categoryLoop_of_find e.failed 0 hfind
  rw [he]
  exact ⟨i, Ends.bind (Ends.acquire _ _) hi⟩

/-- Without a category nothing is held. -/
theorem ends_getEventCategoryClass_of_none (h : call.category = none) :
    Ends 0 (getEventCategoryClass call.categories call.classGuid call.version)
      (if call.Unknown then .error .nullPointer else .ok none) 0 := by
  cases he : call.categories with
  | none =>
    have hknown : ¬ call.Unknown := by simp [Unknown, he]
    rw [if_neg hknown]
    exact Ends.pure 0 none
  | some e =>
    have hnone : ∀ c ∈ e.classes, ¬ c.IsFor call.classGuid call.version := by
      simpa [category, he] using h
    have hloop := ends_categoryLoop_of_forall e.failed 0 hnone
    have hunknown : call.Unknown ↔ e.failed = false := by
      simpa [Unknown, he] using fun _ => hnone
    refine Ends.bind (Ends.acquire _ _) ?_
    cases hf : e.failed with
    | true =>
      rw [if_neg (by simp [hunknown, hf])]
      rw [hf] at hloop
      exact hloop
    | false =>
      rw [if_pos (hunknown.mpr hf)]
      rw [hf] at hloop
      exact hloop

/-- The walk over the class, which is released at the end. -/
theorem ends_walkEventClass (call : InfoCall) (found : Option (Nat × TypedClass))
    (p : Multiset WmiReference) :
    Ends (foundRefs found + p) (call.walkEventClass found)
      (call.walk ((found.map Prod.snd).map TypedClass.properties))
      (p + (((found.map Prod.snd).map TypedClass.properties).map
        (walkLost call.host call.pointerSize call.propertyName call.event)).getD 0) := by
  cases found with
  | none => exact (Ends.pure p _).of_eq (zero_add p) (add_zero p).symm
  | some f =>
    have hwalk := ends_walkProperties call.host call.pointerSize
      (foundRefs (some f) + p) call.propertyName call.event f.2.properties
    show Ends _ _ (call.walk (some f.2.properties))
      (p + walkLost call.host call.pointerSize call.propertyName call.event f.2.properties)
    change Ends _ _ (call.walk (some f.2.properties)) _ at hwalk
    cases hw : call.walk (some f.2.properties) with
    | error fault => exact Ends.bind_error (hw ▸ hwalk) _
    | ok info =>
      refine Ends.bind (hw ▸ hwalk) (Ends.bind (ends_release ?_) (Ends.pure _ info))
      show _ + ({.eventClass f.1} + p) = _
      rw [← Multiset.singleton_add]
      abel

/-- What a call returns and leaves behind. -/
theorem ends_getPropertyInfo (call : InfoCall) :
    Ends 0 call.getPropertyInfo call.info call.lost := by
  unfold getPropertyInfo info lost eventClass
  cases h : call.category with
  | none =>
    have hcategory := ends_getEventCategoryClass_of_none h
    by_cases hunknown : call.Unknown
    · rw [if_pos hunknown] at hcategory ⊢
      exact Ends.bind_error hcategory 0
    · rw [if_neg hunknown] at hcategory ⊢
      exact Ends.bind hcategory (Ends.pure 0 _)
  | some c =>
    obtain ⟨i, hcategory⟩ := ends_getEventCategoryClass_of_some h
    obtain ⟨found, hfound, hclass⟩ := ends_getEventClass c call.type
    rw [if_neg (not_unknown_of_category h)]
    have hrelease : foundRefs found + c.lost call.type + {.categoryClass i} =
        .categoryClass i ::ₘ (foundRefs found + c.lost call.type) := by
      rw [add_comm, Multiset.singleton_add]
    have hwalk := ends_walkEventClass call found (c.lost call.type)
    rw [hfound] at hwalk
    refine Ends.bind hcategory (Ends.bind ((hclass.frame _).of_eq (zero_add _).symm rfl) ?_)
    exact Ends.bind (ends_release hrelease) hwalk

/-- What a sequence of calls returns and leaves behind. -/
theorem getPropertyInfos_eq (calls : List InfoCall) (held : Multiset WmiReference) :
    calls.mapM getPropertyInfo held =
      (calls.mapM info).map fun infos => (infos, (calls.map lost).sum + held) := by
  have h := Ends.mapM ends_getPropertyInfo calls held
  rw [zero_add] at h
  exact h

end InfoCall

end KernelEventsTrace.EtwService
