import KernelEventsTrace.Proofs.Map.Refinement
import KernelEventsTrace.Driver.Function.SelfDefense

/-!
# `KernelEventsTrace.Proofs.SelfDefense.ProcessMap`: `kProcessMap` is a `Map`

The model of the callbacks takes the content of `kProcessMap` as a function. In the driver it is
a `Map` of process identifiers, the red-black tree of `std/map`. `execAll_processMap` says that
the driver cannot tell the two apart: every sequence of the calls it makes on a new `Map` succeeds
with the answers that the function gives.
-/

set_option autoImplicit false

namespace KernelEventsTrace.Driver.SelfDefense

open KernelEventsTrace.OrdMap (StrictWeak FMap KeyClass)
open KernelEventsTrace.Driver.Std (Op Result Heap Map Spec.exec Spec.execAll)

/-- PIDs are ordered as numbers. -/
instance : StrictWeak pidLess := inferInstanceAs (StrictWeak fun a b : Nat => decide (a < b))

/-! ### Calls on the process map -/

/-- A call of the driver on `kProcessMap`. -/
inductive ProcessMapCall where
  | find (pid : Pid)
  | insert (pid : Pid) (info : ProcessInfo)
  | erase (pid : Pid)
  deriving Repr, DecidableEq

/-- The call on a `Map`. -/
def ProcessMapCall.op : ProcessMapCall → Op Pid ProcessInfo
  | .find pid => .find pid
  | .insert pid info => .insert pid info
  | .erase pid => .erase pid

/-- The call on a function. -/
def ProcessMap.exec (m : ProcessMap) : ProcessMapCall → Result Pid ProcessInfo × ProcessMap
  | .find pid => (.iterator ((m pid).map fun info => (pid, info)), m)
  | .insert pid info =>
    (.inserted (some (pid, (m pid).getD info)) (m pid).isNone, m.insert pid info)
  | .erase pid => (.number (if (m pid).isSome then 1 else 0), m.erase pid)

/-- A sequence of calls, with the answers in order. -/
def ProcessMap.execAll (m : ProcessMap) :
    List ProcessMapCall → List (Result Pid ProcessInfo) × ProcessMap
  | [] => ([], m)
  | call :: calls =>
    let (r, m) := m.exec call
    let (rs, m) := ProcessMap.execAll m calls
    (r :: rs, m)

/-! ### The function and the finite map -/

/-- The finite map has the entries of the function. -/
def Represents (F : FMap pidLess ProcessInfo) (m : ProcessMap) : Prop :=
  ∀ pid, F.find pid = (m pid).map fun info => (pid, info)

/-- Process identifiers are equivalent only if they are equal. -/
theorem keyClass_eq_iff {a b : Pid} : KeyClass.mk pidLess a = KeyClass.mk pidLess b ↔ a = b := by
  rw [KeyClass.mk_eq_iff, OrdMap.Equiv, pidLess, pidLess]
  simp only [decide_eq_false_iff_not, not_lt]
  exact ⟨fun h => Nat.le_antisymm h.2 h.1, fun h => ⟨Nat.le_of_eq h.symm, Nat.le_of_eq h⟩⟩

/-- The empty map has no entry. -/
theorem represents_empty : Represents FMap.empty fun _ => none := by
  intro pid
  rfl

/-- One process has another entry, or none. -/
theorem Represents.update {F : FMap pidLess ProcessInfo} {m : ProcessMap} (h : Represents F m)
    (pid : Pid) (it : Option ProcessInfo) {e : Option (Pid × ProcessInfo)}
    (he : e = it.map fun info => (pid, info))
    (hkey : ∀ x, e = some x → OrdMap.Equiv pidLess x.1 pid) :
    Represents (F.update pid e hkey) (Function.update m pid it) := by
  intro p
  by_cases hp : p = pid
  · subst hp
    rw [Function.update_self, ← he]
    exact FMap.get_update_self _ rfl
  · rw [Function.update_of_ne hp]
    show FMap.get _ (KeyClass.mk pidLess p) = _
    rw [FMap.get_update_of_ne _ (fun heq => hp (keyClass_eq_iff.mp heq))]
    exact h p

/-- `Insert` keeps the entry that is there, in both. -/
theorem Represents.insert {F : FMap pidLess ProcessInfo} {m : ProcessMap} (h : Represents F m)
    (pid : Pid) (info : ProcessInfo) : Represents (F.insert pid info) (m.insert pid info) := by
  have hpid := h pid
  unfold FMap.insert ProcessMap.insert
  cases hm : m pid with
  | some it =>
    -- Neither map replaces an entry.
    simp only [hm, Option.map_some] at hpid
    simp only [hpid]
    exact h
  | none =>
    simp only [hm, Option.map_none] at hpid
    simp only [hpid]
    exact h.update pid (some info) rfl _

/-- `Erase` takes the entry away, in both. -/
theorem Represents.erase {F : FMap pidLess ProcessInfo} {m : ProcessMap} (h : Represents F m)
    (pid : Pid) : Represents (F.erase pid) (m.erase pid) :=
  h.update pid none rfl _

/-- A call on the finite map does what it does on the function. -/
theorem Represents.exec {F : FMap pidLess ProcessInfo} {m : ProcessMap} (h : Represents F m)
    (call : ProcessMapCall) :
    (Spec.exec F call.op).1 = (m.exec call).1 ∧
      Represents (Spec.exec F call.op).2 (m.exec call).2 := by
  cases call with
  | find pid =>
    refine ⟨?_, h⟩
    show Result.iterator (F.find pid) = _
    rw [h pid]
    rfl
  | insert pid info =>
    have hpid := h pid
    have hinsert := h.insert pid info
    simp only [ProcessMapCall.op, Spec.exec, ProcessMap.exec]
    cases hm : m pid with
    | some it =>
      simp only [hm, Option.map_some] at hpid
      simp only [FMap.insert, hpid] at hinsert
      simp only [hpid]
      exact ⟨rfl, hinsert⟩
    | none =>
      simp only [hm, Option.map_none] at hpid
      simp only [hpid]
      exact ⟨rfl, hinsert⟩
  | erase pid =>
    refine ⟨?_, h.erase pid⟩
    show Result.number (if (F.find pid).isSome then 1 else 0) = _
    rw [h pid, Option.isSome_map]
    rfl

/-- The answers of a sequence of calls agree. -/
theorem Represents.execAll (calls : List ProcessMapCall) :
    ∀ {F : FMap pidLess ProcessInfo} {m : ProcessMap}, Represents F m →
      (Spec.execAll F (calls.map ProcessMapCall.op)).1 = (m.execAll calls).1 := by
  induction calls with
  | nil =>
    intro F m _
    rfl
  | cons call calls ih =>
    intro F m h
    have hcall := h.exec call
    simp only [List.map_cons, Spec.execAll, ProcessMap.execAll]
    rw [hcall.1, ih hcall.2]

/-! ### Main result -/

/-- The calls of the driver on a new `Map` give the answers of the function that has no entry. -/
theorem execAll_processMap (heap : Heap Pid ProcessInfo) (calls : List ProcessMapCall) :
    ∃ m', (Map.construct heap : Map Pid ProcessInfo).execAll pidLess
        (calls.map ProcessMapCall.op) =
      .ok ((ProcessMap.execAll (fun _ => none) calls).1, m') := by
  rcases Map.execAll_spec (calls.map ProcessMapCall.op) (Map.construct_spec pidLess heap)
    OrdMap.Holds.nil with ⟨m', _, hrun, _, _⟩
  refine ⟨m', ?_⟩
  rw [hrun, represents_empty.execAll calls]

end KernelEventsTrace.Driver.SelfDefense
