/-!
# `KernelEventsTrace.EtwService.WString`: wide strings

`std::wstring` and `BSTR` as lists of code units, with the operations of the C library on them
that the service uses.
-/

set_option autoImplicit false

namespace KernelEventsTrace.EtwService

/-- `std::wstring`, by its code units. -/
abbrev WString := List UInt16

/-- A wide string literal. -/
def wide (s : String) : WString := s.toList.map fun c => UInt16.ofNat c.toNat

namespace WString

/-- `std::wstring::find`: the least position of the substring, or `none` for `npos`. -/
def find (s sub : WString) : Option Nat :=
  (List.range (s.length + 1)).find? fun i => sub.isPrefixOf (s.drop i)

/-- `s.find(sub) != npos`. -/
def contains (s sub : WString) : Bool := (s.find sub).isSome

/-- `s.find(c, pos)`, or `none` for `npos`. -/
def findChar (s : WString) (c : UInt16) (pos : Nat) : Option Nat :=
  (List.range s.length).find? fun i => pos ≤ i ∧ s[i]? = some c

/-- `s.find_last_of(c)`, or `none` for `npos`. -/
def findLast (s : WString) (c : UInt16) : Option Nat :=
  (List.range s.length).reverse.find? fun i => s[i]? = some c

/-- `s.substr(0, n)`, where `n` can be `npos`. -/
def upTo (s : WString) : Option Nat → WString
  | some n => s.take n
  | none => s

/-- The results of `std::getline` on a stream with this content, until it fails. What follows the
last delimiter is a result if it is not empty. -/
def getlines (delim : UInt16) : WString → List WString
  | [] => []
  | c :: s =>
    if c = delim then [] :: getlines delim s
    else
      match getlines delim s with
      | [] => [[c]]
      | line :: lines => (c :: line) :: lines

/-- `towlower` in the "C" locale. -/
def lowerUnit (c : UInt16) : UInt16 := if 65 ≤ c ∧ c ≤ 90 then c + 32 else c

/-- `_wcsicmp(a, b) == 0`. -/
def icmpEq (a b : WString) : Bool := a.map lowerUnit == b.map lowerUnit

end WString

end KernelEventsTrace.EtwService
