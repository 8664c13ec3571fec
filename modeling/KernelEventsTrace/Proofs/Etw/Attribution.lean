import Mathlib.Data.List.Induction
import KernelEventsTrace.EtwService.FileIo

/-!
# `KernelEventsTrace.Proofs.Etw.Attribution`: which path an event is reported with

A Write or Close event is reported with the path of the last Create event of its file object
that was not dropped. No event removes an object from the map. So if the most recent Create
event of a reused object was dropped, the path of an earlier lifetime is still there.

`attributed_iff` says for every sequence of events when each report carries the path of the
most recent Create event. Both directions rest on one step lemma (`objMap_process`): only a
Create event that is not dropped changes the map. So the map holds the path of the most recent
Create event that was kept (`objMap_eq_lastKept`).
-/

set_option autoImplicit false

namespace KernelEventsTrace.EtwService

/-! ### Specification -/

/-- The event is a Create event of the file object. -/
def FileIoEvent.Creates (o : UInt64) : FileIoEvent → Prop
  | .create _ e => e.fileObject = o
  | _ => False

/-- Whether an event creates the object. -/
instance (o : UInt64) : DecidablePred (FileIoEvent.Creates o)
  | .create _ e => inferInstanceAs (Decidable (e.fileObject = o))
  | .write _ _ => .isFalse id
  | .close _ _ => .isFalse id
  | .ignored _ => .isFalse id

/-- The event looks up the path of the file object. -/
def FileIoEvent.Reads (o : UInt64) : FileIoEvent → Prop
  | .write processId e => processId.toUInt32 ≠ 4 ∧ e.fileObject = o
  | .close _ e => e.fileObject = o
  | _ => False

/-- The path that the most recent Create event of the file object carries. -/
def lastCreate (os : Os) (o : UInt64) (events : List FileIoEvent) : Option WString :=
  events.foldl (fun last event =>
    match event with
    | .create _ e => if e.fileObject = o then some (os.getWin32Path e.openPath) else last
    | _ => last) none

/-- The path of the most recent Create event of the file object that was not dropped. -/
def lastKept (os : Os) (o : UInt64) (events : List FileIoEvent) : Option WString :=
  events.foldl (fun last event =>
    match event with
    | .create _ e =>
      if e.fileObject = o ∧ isDropped os e = false then some (os.getWin32Path e.openPath) else last
    | _ => last) none

/-- The file object and the path of a Write or Close report. -/
def Report.attribution : Report → Option (UInt64 × WString)
  | .create _ _ _ _ => none
  | .write _ filePath fields => some (fields.fileObject, filePath)
  | .close _ filePath fields => some (fields.fileObject, filePath)

/-- Every Write or Close report with a nonempty path carries the path of the most recent Create
event of its file object. -/
def Attributed (os : Os) (events : List FileIoEvent) : Prop :=
  ∀ pre event post, events = pre ++ event :: post →
    ∀ o path,
      (processFileIoEvent os (processFileIoEvents os Maps.initial pre) event).2.bind
        Report.attribution = some (o, path) →
      path ≠ [] → lastCreate os o pre = some path

/-- A dropped Create event does no harm: if an event looks its file object up before another
Create event of the object, no earlier Create event of the object was kept, or the last one that
was carries the empty path or the dropped one. Object 0 is never mapped. -/
def DropsHarmless (os : Os) (events : List FileIoEvent) : Prop :=
  ∀ pre processId e mid event post,
    events = pre ++ .create processId e :: (mid ++ event :: post) → isDropped os e = true →
    e.fileObject ≠ 0 → (∀ c ∈ mid, ¬ c.Creates e.fileObject) → event.Reads e.fileObject →
    ∀ path, lastKept os e.fileObject pre = some path →
      path = [] ∨ path = os.getWin32Path e.openPath

/-! ### One event -/

/-- With the entry of object 0 in place, a lookup changes nothing. -/
theorem getPathByObject_eq {m : FileNameObjMap} (h : m 0 = some []) (o : UInt64) :
    m.getPathByObject o = ((m o).getD [], m) := by
  unfold FileNameObjMap.getPathByObject
  cases hm : m o with
  | some path => rfl
  | none =>
    show m.index 0 = _
    unfold FileNameObjMap.index
    rw [h]
    rfl

/-- The map after an event: a Create event that is not dropped sets the path of its object. -/
def objMapAfter (os : Os) (m : FileNameObjMap) : FileIoEvent → FileNameObjMap
  | .create _ e =>
    if isDropped os e then m else m.mapObjectWithPath e.fileObject (os.getWin32Path e.openPath)
  | _ => m

/-- What one event does to the map of objects. -/
theorem objMap_process {os : Os} {m : Maps} (h : m.fileNameObjMap 0 = some [])
    (event : FileIoEvent) :
    (processFileIoEvent os m event).1.fileNameObjMap = objMapAfter os m.fileNameObjMap event := by
  cases event with
  | create processId e =>
    show (processCreate os m processId e).1.fileNameObjMap = _
    simp only [processCreate, objMapAfter]
    split <;> rfl
  | write processId e =>
    show (processWrite m processId e).1.fileNameObjMap = m.fileNameObjMap
    unfold processWrite
    by_cases hpid : processId.toUInt32 = 4
    · simp [hpid]
    · simp [hpid, getPathByObject_eq h]
  | close processId e =>
    show (processClose m processId e).1.fileNameObjMap = m.fileNameObjMap
    unfold processClose
    simp [getPathByObject_eq h]
  | ignored type => rfl

/-- The entry of object 0 stays. -/
theorem objMapAfter_zero {os : Os} {m : FileNameObjMap} (h : m 0 = some []) (event : FileIoEvent) :
    objMapAfter os m event 0 = some [] := by
  cases event with
  | create processId e =>
    simp only [objMapAfter, FileNameObjMap.mapObjectWithPath]
    by_cases hd : isDropped os e = true
    · rw [if_pos hd]
      exact h
    · by_cases ho : e.fileObject = 0
      · rw [if_neg hd, if_pos ho]
        exact h
      · rw [if_neg hd, if_neg ho, Function.update_of_ne fun heq => ho heq.symm]
        exact h
  | write processId e => exact h
  | close processId e => exact h
  | ignored type => exact h

/-- The path of an object changes only by a Create event of the object. -/
theorem objMapAfter_of_not_creates {os : Os} (m : FileNameObjMap) {event : FileIoEvent}
    {o : UInt64} (h : ¬ event.Creates o) : objMapAfter os m event o = m o := by
  cases event with
  | create processId e =>
    simp only [objMapAfter, FileNameObjMap.mapObjectWithPath]
    have hne : o ≠ e.fileObject := fun heq => h heq.symm
    split
    · rfl
    · split
      · rfl
      · exact Function.update_of_ne hne _ _
  | write processId e => rfl
  | close processId e => rfl
  | ignored type => rfl

/-- What a lookup of the object `o'` reports, if it is reported with the nonempty `path`. -/
theorem reported_iff {m : FileNameObjMap} {o o' : UInt64} {path : WString} (hpath : path ≠ []) :
    (if ((m o').getD []).isEmpty then none else some (o', (m o').getD [])) = some (o, path) ↔
      o' = o ∧ m o = some path := by
  cases hm : m o' with
  | none =>
    simp only [Option.getD_none, List.isEmpty_nil, if_true, reduceCtorEq, false_iff, not_and]
    rintro rfl hsome
    rw [hm] at hsome
    cases hsome
  | some p =>
    simp only [Option.getD_some, List.isEmpty_iff]
    constructor
    · intro h
      split at h
      · cases h
      · cases h
        exact ⟨rfl, hm⟩
    · rintro ⟨rfl, hsome⟩
      rw [hm] at hsome
      cases hsome
      rw [if_neg hpath]

/-- An event that looks an object up is reported with the path that the object has. -/
theorem attribution_iff {os : Os} {m : Maps} (h : m.fileNameObjMap 0 = some [])
    {event : FileIoEvent} {o : UInt64} {path : WString} (hpath : path ≠ []) :
    (processFileIoEvent os m event).2.bind Report.attribution = some (o, path) ↔
      event.Reads o ∧ m.fileNameObjMap o = some path := by
  have hbind : ∀ (b : Bool) (r : Report), (if b then none else some r).bind Report.attribution =
      if b then none else r.attribution := by
    intro b r
    cases b <;> rfl
  cases event with
  | create processId e =>
    show (processCreate os m processId e).2.bind Report.attribution = _ ↔ False ∧ _
    simp only [processCreate, false_and, iff_false]
    split <;> simp [Report.attribution]
  | write processId e =>
    show (processWrite m processId e).2.bind Report.attribution = _ ↔
      (processId.toUInt32 ≠ 4 ∧ e.fileObject = o) ∧ _
    unfold processWrite
    by_cases hpid : processId.toUInt32 = 4
    · -- The report of process 4 has no path.
      simp only [hpid, if_true, ne_eq, not_true_eq_false, false_and, iff_false]
      intro hr
      cases hr
      exact hpath rfl
    · simp only [hpid, if_false, getPathByObject_eq h, hbind, Report.attribution, ne_eq,
        not_false_eq_true, true_and]
      exact reported_iff hpath
  | close processId e =>
    show (processClose m processId e).2.bind Report.attribution = _ ↔ e.fileObject = o ∧ _
    unfold processClose
    simp only [getPathByObject_eq h, hbind, Report.attribution]
    exact reported_iff hpath
  | ignored type =>
    show (none : Option Report).bind Report.attribution = _ ↔ False ∧ _
    simp

/-! ### A sequence of events -/

section
variable (os : Os)

/-- A run in two parts. -/
theorem processFileIoEvents_append (m : Maps) (events events' : List FileIoEvent) :
    processFileIoEvents os m (events ++ events') =
      processFileIoEvents os (processFileIoEvents os m events) events' := by
  unfold processFileIoEvents
  rw [List.foldl_append]

/-- One more event. -/
theorem processFileIoEvents_snoc (m : Maps) (events : List FileIoEvent) (event : FileIoEvent) :
    processFileIoEvents os m (events ++ [event]) =
      (processFileIoEvent os (processFileIoEvents os m events) event).1 := by
  rw [processFileIoEvents_append]
  rfl

/-- The entry of object 0 is there after every sequence of events. -/
theorem objMap_zero (events : List FileIoEvent) :
    (processFileIoEvents os Maps.initial events).fileNameObjMap 0 = some [] := by
  induction events using List.reverseRecOn with
  | nil => rfl
  | append_singleton events event ih =>
    rw [processFileIoEvents_snoc, objMap_process ih]
    exact objMapAfter_zero ih event

/-- The map after one more event. -/
theorem objMap_snoc (events : List FileIoEvent) (event : FileIoEvent) :
    (processFileIoEvents os Maps.initial (events ++ [event])).fileNameObjMap =
      objMapAfter os (processFileIoEvents os Maps.initial events).fileNameObjMap event := by
  rw [processFileIoEvents_snoc, objMap_process (objMap_zero os events)]

/-- Events that do not create the object keep its path. -/
theorem objMap_append {events mid : List FileIoEvent} {o : UInt64}
    (h : ∀ c ∈ mid, ¬ c.Creates o) :
    (processFileIoEvents os Maps.initial (events ++ mid)).fileNameObjMap o =
      (processFileIoEvents os Maps.initial events).fileNameObjMap o := by
  induction mid using List.reverseRecOn with
  | nil => rw [List.append_nil]
  | append_singleton mid c ih =>
    have hc : ¬ c.Creates o := h c (by simp)
    rw [← List.append_assoc, objMap_snoc, objMapAfter_of_not_creates _ hc]
    exact ih fun c' hc' => h c' (List.mem_append_left _ hc')

/-- The most recent Create event that was kept, after one more event. -/
theorem lastKept_snoc (o : UInt64) (events : List FileIoEvent) (event : FileIoEvent) :
    lastKept os o (events ++ [event]) =
      match event with
      | .create _ e =>
        if e.fileObject = o ∧ isDropped os e = false then some (os.getWin32Path e.openPath)
        else lastKept os o events
      | _ => lastKept os o events := by
  unfold lastKept
  rw [List.foldl_append]
  cases event <;> rfl

/-- The map holds the path of the most recent Create event that was kept. -/
theorem objMap_eq_lastKept (events : List FileIoEvent) {o : UInt64} (ho : o ≠ 0) :
    (processFileIoEvents os Maps.initial events).fileNameObjMap o = lastKept os o events := by
  induction events using List.reverseRecOn with
  | nil =>
    show FileNameObjMap.initial o = none
    exact Function.update_of_ne ho _ _
  | append_singleton events event ih =>
    rw [objMap_snoc, lastKept_snoc]
    cases event with
    | create processId e =>
      by_cases heq : e.fileObject = o
      · simp only [objMapAfter, FileNameObjMap.mapObjectWithPath]
        cases hd : isDropped os e with
        | true => simpa using ih
        | false => simp [heq, ho]
      · have hc : ¬ (FileIoEvent.create processId e).Creates o := heq
        rw [objMapAfter_of_not_creates _ hc, ih]
        simp only [heq, false_and, if_false]
    | write processId e => exact ih
    | close processId e => exact ih
    | ignored type => exact ih

/-- The most recent Create event after one more event. -/
theorem lastCreate_snoc (o : UInt64) (events : List FileIoEvent) (event : FileIoEvent) :
    lastCreate os o (events ++ [event]) =
      match event with
      | .create _ e =>
        if e.fileObject = o then some (os.getWin32Path e.openPath) else lastCreate os o events
      | _ => lastCreate os o events := by
  unfold lastCreate
  rw [List.foldl_append]
  cases event <;> rfl

/-- Another event leaves the most recent Create event of the object. -/
theorem lastCreate_snoc_of_not_creates {o : UInt64} (events : List FileIoEvent)
    {event : FileIoEvent} (h : ¬ event.Creates o) :
    lastCreate os o (events ++ [event]) = lastCreate os o events := by
  rw [lastCreate_snoc]
  cases event with
  | create processId e => exact if_neg h
  | write processId e => rfl
  | close processId e => rfl
  | ignored type => rfl

/-- Events that do not create the object do not change what has created it. -/
theorem lastCreate_append {o : UInt64} {events mid : List FileIoEvent}
    (h : ∀ c ∈ mid, ¬ c.Creates o) :
    lastCreate os o (events ++ mid) = lastCreate os o events := by
  induction mid using List.reverseRecOn with
  | nil => rw [List.append_nil]
  | append_singleton mid c ih =>
    have hc : ¬ c.Creates o := h c (by simp)
    rw [← List.append_assoc, lastCreate_snoc_of_not_creates os _ hc]
    exact ih fun c' hc' => h c' (List.mem_append_left _ hc')

/-- A nonempty path of an object is that of its most recent Create event, or that event was
dropped and the path was there before. The induction is on the events, from the end. -/
theorem lastCreate_or_dropped (events : List FileIoEvent) {o : UInt64} {path : WString}
    (hpath : path ≠ [])
    (hm : (processFileIoEvents os Maps.initial events).fileNameObjMap o = some path) :
    lastCreate os o events = some path ∨
      ∃ pre processId e mid, events = pre ++ .create processId e :: mid ∧ e.fileObject = o ∧
        isDropped os e = true ∧ (∀ c ∈ mid, ¬ c.Creates o) ∧
        (processFileIoEvents os Maps.initial pre).fileNameObjMap o = some path ∧
        lastCreate os o events = some (os.getWin32Path e.openPath) := by
  induction events using List.reverseRecOn with
  | nil =>
    -- At the start only object 0 has a path, the empty one.
    exfalso
    change FileNameObjMap.initial o = some path at hm
    unfold FileNameObjMap.initial at hm
    by_cases ho : o = 0
    · subst ho
      rw [Function.update_self] at hm
      exact hpath (Option.some.inj hm).symm
    · rw [Function.update_of_ne ho] at hm
      cases hm
  | append_singleton events event ih =>
    by_cases hc : event.Creates o
    · cases event with
      | create processId e =>
        obtain rfl : e.fileObject = o := hc
        have hlast : lastCreate os e.fileObject (events ++ [.create processId e]) =
            some (os.getWin32Path e.openPath) := by
          rw [lastCreate_snoc]
          exact if_pos rfl
        rw [objMap_snoc] at hm
        simp only [objMapAfter] at hm
        by_cases hd : isDropped os e = true
        · rw [if_pos hd] at hm
          right
          exact ⟨events, processId, e, [], rfl, rfl, hd, by simp, hm, hlast⟩
        · left
          rw [if_neg hd] at hm
          unfold FileNameObjMap.mapObjectWithPath at hm
          by_cases ho : e.fileObject = 0
          · rw [if_pos ho, ho, objMap_zero] at hm
            exact absurd (Option.some.inj hm).symm hpath
          · rw [if_neg ho, Function.update_self] at hm
            rw [hlast, hm]
      | write processId e => exact hc.elim
      | close processId e => exact hc.elim
      | ignored type => exact hc.elim
    · rw [objMap_snoc, objMapAfter_of_not_creates _ hc] at hm
      rw [lastCreate_snoc_of_not_creates os _ hc]
      rcases ih hm with hlast | ⟨pre, processId, e, mid, rfl, ho, hd, hmid, hpre, hlast⟩
      · exact Or.inl hlast
      · right
        refine ⟨pre, processId, e, mid ++ [event], by simp, ho, hd, ?_, hpre, hlast⟩
        intro c hcm
        rcases List.mem_append.mp hcm with hcm | hcm
        · exact hmid c hcm
        · rw [List.mem_singleton.mp hcm]
          exact hc

/-- Every report carries the path of the most recent Create event of its file object if and only
if no dropped Create event does harm. -/
theorem attributed_iff (events : List FileIoEvent) :
    Attributed os events ↔ DropsHarmless os events := by
  constructor
  · intro h pre processId e mid event post hsplit hd ho hmid hreads path hm
    rw [← objMap_eq_lastKept os pre ho] at hm
    -- The path that `e` found is still there, and `e` is the most recent Create event.
    by_cases hpath : path = []
    · exact Or.inl hpath
    · right
      have hdrop : ∀ o, objMapAfter os
          (processFileIoEvents os Maps.initial pre).fileNameObjMap (.create processId e) o =
          (processFileIoEvents os Maps.initial pre).fileNameObjMap o := by
        intro o
        simp only [objMapAfter, if_pos hd]
      have hassoc : pre ++ .create processId e :: mid = (pre ++ [.create processId e]) ++ mid := by
        simp
      have hmap : (processFileIoEvents os Maps.initial
          (pre ++ .create processId e :: mid)).fileNameObjMap e.fileObject = some path := by
        rw [hassoc, objMap_append os hmid, objMap_snoc, hdrop, hm]
      have hsplit' : events = (pre ++ .create processId e :: mid) ++ event :: post := by
        rw [hsplit]
        simp
      have hlast := h _ event post hsplit' e.fileObject path
        ((attribution_iff (objMap_zero os _) hpath).mpr ⟨hreads, hmap⟩) hpath
      rw [hassoc, lastCreate_append os hmid, lastCreate_snoc] at hlast
      simp only [if_true, Option.some.injEq] at hlast
      exact hlast.symm
  · intro h pre event post hsplit o path hreport hpath
    obtain ⟨hreads, hm⟩ := (attribution_iff (objMap_zero os pre) hpath).mp hreport
    rcases lastCreate_or_dropped os pre hpath hm with
      hlast | ⟨pre', processId, e, mid, rfl, rfl, hd, hmid, hpre, hlast⟩
    · exact hlast
    · rw [hlast]
      have hsplit' : events = pre' ++ .create processId e :: (mid ++ event :: post) := by
        rw [hsplit]
        simp
      have ho : e.fileObject ≠ 0 := by
        intro ho
        rw [ho, objMap_zero] at hpre
        exact hpath (Option.some.inj hpre).symm
      rw [objMap_eq_lastKept os pre' ho] at hpre
      rcases h pre' processId e mid event post hsplit' hd ho hmid hreads path hpre with
        hnil | hsame
      · exact absurd hnil hpath
      · rw [hsame]

end

/-- Paths convert to themselves, and no directory exists. -/
def plainOs : Os where
  getWin32PathCaseSensitive := id
  toLower := id
  dirExist := fun _ => false

/-- File object 8 is opened on a watched path, closed, and reused for a path that is dropped. A
write to it is reported with the first path. -/
theorem not_attributed_reuse :
    isDropped plainOs ⟨8, 0, wide "other"⟩ = true ∧
      ¬ Attributed plainOs
        [.create 100 ⟨8, 0, wide "NapierOne-tiny/a"⟩, .close 100 ⟨8, 1⟩,
          .create 100 ⟨8, 0, wide "other"⟩, .write 100 ⟨8, 2, 0, 64⟩] := by
  refine ⟨by decide, ?_⟩
  intro h
  have hlast := h
    [.create 100 ⟨8, 0, wide "NapierOne-tiny/a"⟩, .close 100 ⟨8, 1⟩,
      .create 100 ⟨8, 0, wide "other"⟩]
    (.write 100 ⟨8, 2, 0, 64⟩) [] rfl 8 (wide "NapierOne-tiny/a") (by decide) (by decide)
  exact absurd hlast (by decide)

end KernelEventsTrace.EtwService
