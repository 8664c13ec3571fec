import KernelEventsTrace.EtwService.WString

/-!
# `KernelEventsTrace.EtwService.Ulti`: the string functions of `ulti/support.cpp`

`ToLower` sets the locale to `en_US.utf8` and then asks the C library about every character.
`Locale` holds the answers. For the letters and the other characters of ASCII they are known.
-/

set_option autoImplicit false

namespace KernelEventsTrace.EtwService

/-- The character functions of the C library in the locale `en_US.utf8`. -/
structure Locale where
  iswalpha : UInt16 → Bool
  towlower : UInt16 → UInt16
  /-- On ASCII they are those of the "C" locale. -/
  ascii : ∀ c : UInt16, c < 128 →
    (if iswalpha c then towlower c else c) = WString.lowerUnit c

/-- A locale that knows no letters but those of ASCII. -/
def Locale.asciiOnly : Locale where
  iswalpha c := (65 ≤ c ∧ c ≤ 90) ∨ (97 ≤ c ∧ c ≤ 122)
  towlower := WString.lowerUnit
  ascii c _ := by
    unfold WString.lowerUnit
    split <;> simp_all

namespace Ulti

/-- `ulti::ToLower`. -/
def toLower (locale : Locale) (wstr : WString) : WString :=
  wstr.map fun c => if locale.iswalpha c then locale.towlower c else c

end Ulti

end KernelEventsTrace.EtwService
