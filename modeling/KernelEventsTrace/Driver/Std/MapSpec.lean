import KernelEventsTrace.Driver.Std.MapRun
import KernelEventsTrace.Lib.OrdMap

/-!
# `KernelEventsTrace.Driver.Std.MapSpec`: what `Map` is for

The abstract meaning of the member functions: a finite map from the classes of equivalent
keys to entries. `Spec.exec` is one call and `Spec.execAll` a sequence of calls. Nothing here
is taken from the code of `Map`.
-/

set_option autoImplicit false

namespace KernelEventsTrace.Driver.Std.Spec

open KernelEventsTrace.OrdMap (StrictWeak FMap)

variable {K V : Type} {compare : K → K → Bool} [StrictWeak compare] [Inhabited V]

/-- The number of entries of a key. -/
noncomputable def occurrences (F : FMap compare V) (key : K) : Nat :=
  if (F.find key).isSome then 1 else 0

/-- The value of a key. -/
noncomputable def valueAt (F : FMap compare V) (key : K) : V :=
  match F.find key with
  | some e => e.2
  | none => default

/-- A call on the finite map. An absent key of `index` and `assign` is first inserted with the
default value. -/
noncomputable def exec (F : FMap compare V) : Op K V → Result K V × FMap compare V
  | .insert key val =>
    match F.find key with
    | some e => (.inserted (some e) false, F)
    | none => (.inserted (some (key, val)) true, F.insert key val)
  | .index key => (.value (valueAt (F.insert key default) key), F.insert key default)
  | .assign key val => (.done, (F.insert key default).set key val)
  | .erase key => (.number (occurrences F key), F.erase key)
  | .find key => (.iterator (F.find key), F)
  | .count key => (.number (occurrences F key), F)
  | .size => (.number F.size, F)
  | .clear => (.done, FMap.empty)

/-- A sequence of calls, with the results in order. -/
noncomputable def execAll (F : FMap compare V) :
    List (Op K V) → List (Result K V) × FMap compare V
  | [] => ([], F)
  | op :: ops =>
    let (r, F) := exec F op
    let (rs, F) := execAll F ops
    (r :: rs, F)

end KernelEventsTrace.Driver.Std.Spec
