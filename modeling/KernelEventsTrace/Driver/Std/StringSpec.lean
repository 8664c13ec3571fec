import KernelEventsTrace.Driver.Std.StringObj
import KernelEventsTrace.Driver.Std.VectorSpec

/-!
# `KernelEventsTrace.Driver.Std.StringSpec`: what a string is for

The strings of a program as lists of characters. `stepTexts` is what the member functions are meant
to do with the characters, and `runTexts` a sequence of such calls. A text has no room and no
terminator, and is never out of memory.
-/

set_option autoImplicit false

namespace KernelEventsTrace.Driver.Std

variable {α : Type}

/-- The characters of a `UNICODE_STRING` in the type of the string, if it can be made from one. -/
def textOfUnicode {inst : Inhabited α} (T : ElementType α inst) (s : UnicodeString) :
    Option (List α) :=
  match T with
  | .wchar => some s.chars
  | .char => some (s.chars.map (·.toUInt8))
  | .other => none

variable [inst : Inhabited α] [DecidableEq α] (T : ElementType α inst)

/-- The texts after a call. A call that does not exist for this `T` changes nothing. -/
def stepTexts (ls : List (List α)) : StringOp α → List (List α)
  | .construct => ls ++ [[]]
  | .constructSize size => ls ++ [List.replicate size.toNat default]
  | .copyConstruct j => fromList ls j fun m => ls ++ [m]
  | .constructCstr cstr => ls ++ [StringObj.cstrContent cstr.chars]
  | .constructUnicode s => ls ++ (textOfUnicode T s.toUnicodeString).toList
  | .assign i j => fromList ls j fun m => onList ls i fun _ => m
  | .assignCstr i cstr => onList ls i fun _ => StringObj.cstrContent cstr.chars
  | .assignUnicode i s =>
    match T with
    | .wchar => onList ls i fun _ => (s.map (·.chars)).getD []
    | .char => ls
    | .other => ls
  | .reserve _ _ => ls
  | .resize i newSize val => onList ls i fun l => resizeTo l newSize.toNat val
  | .pushBack i ele => onList ls i fun l => l ++ [ele]
  | .pushBackElement i j k _ => fromList ls j fun m =>
    match m[k.toNat]? with
    | some c => onList ls i fun l => l ++ [c]
    | none => ls
  | .append i j => fromList ls j fun m => onList ls i fun l => l ++ m
  | .addAssign i j => fromList ls j fun m => onList ls i fun l => l ++ m
  | .plus i j => fromList ls j fun m => fromList ls i fun l => ls ++ [l ++ m]

end KernelEventsTrace.Driver.Std
