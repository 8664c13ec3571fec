import KernelEventsTrace.Driver.Template.Lifecycle

/-!
# `KernelEventsTrace.Proofs.MiniFs.Lifecycle`: callbacks while the driver comes and goes

`life_iff` says for all answers of the system when the life of the driver is in order.

* No callback misses what it uses, at any point where the system can call it, if and only if
  `DriverEntry` succeeds, or neither a callback of the self-defense was registered nor the port
  created. A failed `DriverEntry` takes none of them out, and the image of the driver is gone after
  it.
* No function of the system is called with what is not there, if and only if `DriverEntry` and
  `ObRegisterCallbacks` succeed, or `DriverEntry` fails and does not get as far as to create the
  port. The handle of the callbacks is given back without a look at whether there is one. The port
  is created even if the filter was not registered.
* `kComPort` is never deleted. The other objects are, if `DriverEntry` succeeds.

The first part is about every order in which the statements and the calls of the callbacks can
happen. `Disciplined` reduces it to the statements alone, and these can be gone through.
-/

set_option autoImplicit false

namespace KernelEventsTrace.Driver.Lifecycle

open KernelEventsTrace (CallbackSystem)
open KernelEventsTrace.CallbackSystem (Config reachable_call)

/-! ### Specification -/

/-- Whatever runs while the driver is there, or after that, finds what it uses. -/
def CallbacksSafe (o : Outcomes) : Prop :=
  ∀ cfg : Config System Statement Callback, driver.Reachable System.initial (life o) cfg →
    ∀ c, 0 < cfg.running c → cfg.state.uses c = true

/-- The statements of a program are called with what is there. -/
def allValid : System → List Statement → Bool
  | _, [] => true
  | s, op :: rest => s.valid op && allValid (s.exec op) rest

/-- The state at the end. -/
def final (o : Outcomes) : System := (life o).foldl System.exec System.initial

/-- The port is created. -/
def Outcomes.portCreated (o : Outcomes) : Bool :=
  o.fltBuildDefaultSecurityDescriptor && o.fltCreateCommunicationPort

/-- Nothing is registered that a failed `DriverEntry` leaves behind. -/
def Outcomes.noCallbacks (o : Outcomes) : Prop :=
  o.psSetCreateProcessNotifyRoutineEx = false ∧ o.obRegisterCallbacks = false ∧
    o.portCreated = false

/-- The answers are looked at. -/
instance (o : Outcomes) : Decidable o.noCallbacks := inferInstanceAs (Decidable (_ ∧ _))

/-! ### The statements alone -/

/-- The statements of the driver, without any callback between them, keep the discipline. -/
theorem life_disciplined (o : Outcomes) (h : o.entrySucceeds = true ∨ o.noCallbacks) :
    driver.Disciplined System.initial (life o) := by
  obtain ⟨process, handle, register, start, build, create⟩ := o
  revert process handle register start build create
  decide +kernel

/-- For which answers no later call gets something that is missing. -/
theorem life_allValid_iff (o : Outcomes) : allValid System.initial (life o) = true ↔
    o.entrySucceeds = true ∧ o.obRegisterCallbacks = true ∨
      o.entrySucceeds = false ∧ o.fltBuildDefaultSecurityDescriptor = false := by
  obtain ⟨process, handle, register, start, build, create⟩ := o
  revert process handle register start build create
  decide +kernel

/-- What is left at the end, for all answers. -/
theorem final_globals (o : Outcomes) (g : Global) :
    (final o).globals g = .live ↔ g = .kComPort ∨ o.entrySucceeds = false := by
  obtain ⟨process, handle, register, start, build, create⟩ := o
  revert process handle register start build create
  cases g <;> decide +kernel

/-- After a failed `DriverEntry` the callbacks that were registered still are. -/
theorem final_registered (o : Outcomes) (h : o.entrySucceeds = false) :
    (final o).registered .processNotifyCallback = o.psSetCreateProcessNotifyRoutineEx ∧
      (final o).registered .preObCallback = o.obRegisterCallbacks ∧
      (final o).registered .connectHandler = o.portCreated := by
  obtain ⟨process, handle, register, start, build, create⟩ := o
  revert process handle register start build create
  decide +kernel

/-- The image is gone at the end. -/
theorem final_uses (o : Outcomes) (c : Callback) : (final o).uses c = false := by
  have hloaded : (final o).loaded = false := by
    unfold final life
    rw [List.foldl_append]
    rfl
  cases c <;> simp [System.uses, hloaded]

/-! ### The result -/

/-- A callback that is registered at the end has no code. -/
theorem not_callbacksSafe {o : Outcomes} {c : Callback} (hc : (final o).registered c = true) :
    ¬ CallbacksSafe o := by
  intro h
  obtain ⟨cfg, hcfg, hstate, hrunning⟩ : ∃ cfg : Config System Statement Callback,
      driver.Reachable System.initial (life o) cfg ∧ cfg.state = final o ∧ 0 < cfg.running c :=
    reachable_call hc
  have huses := h cfg hcfg c hrunning
  have hgone : cfg.state.uses c = false := by
    rw [hstate]
    exact final_uses o c
  rw [hgone] at huses
  cases huses

/-- The callbacks are safe if what they use outlives them, and they are waited for. -/
theorem callbacksSafe_iff (o : Outcomes) :
    CallbacksSafe o ↔ o.entrySucceeds = true ∨ o.noCallbacks := by
  constructor
  · intro h
    by_contra hnot
    obtain ⟨hentry, hsome⟩ := not_or.mp hnot
    obtain ⟨hprocess, hhandle, hport⟩ := final_registered o (Bool.not_eq_true _ ▸ hentry)
    cases hp : o.psSetCreateProcessNotifyRoutineEx with
    | true => exact not_callbacksSafe (hprocess.trans hp) h
    | false =>
      cases hh : o.obRegisterCallbacks with
      | true => exact not_callbacksSafe (hhandle.trans hh) h
      | false =>
        cases hc : o.portCreated with
        | true => exact not_callbacksSafe (hport.trans hc) h
        | false => exact hsome ⟨hp, hh, hc⟩
  · intro h cfg hcfg c hc
    exact (life_disciplined o h).uses hcfg hc

/-- When the callbacks of the driver are safe, when the functions of the system are called with what
is there, and what is left at the end. -/
theorem life_iff (o : Outcomes) :
    (CallbacksSafe o ↔ o.entrySucceeds = true ∨ o.noCallbacks) ∧
      (allValid System.initial (life o) = true ↔
        o.entrySucceeds = true ∧ o.obRegisterCallbacks = true ∨
          o.entrySucceeds = false ∧ o.fltBuildDefaultSecurityDescriptor = false) ∧
      ∀ g, (final o).globals g = .live ↔ g = .kComPort ∨ o.entrySucceeds = false :=
  ⟨callbacksSafe_iff o, life_allValid_iff o, final_globals o⟩

end KernelEventsTrace.Driver.Lifecycle
