import KernelEventsTrace.Proofs.String.Content
import Mathlib.Data.List.Forall2

/-!
# `KernelEventsTrace.Proofs.String.Refinement`: a string is a text

`AllHave` relates the strings of a program with the texts of `StringSpec`. Every call keeps it if
its length can be counted, if the value of `Resize` makes no difference, if it is not the
constructor that reads bytes as characters, and if it is no `PushBack` that gives a full string one
of its own characters (`CallFits`). A terminator is not needed for any of this: a string that has
lost it still has its characters.

`stringsShow_iff`: the strings of a program show its texts at all times if and only if every call
fits.
-/

set_option autoImplicit false

namespace KernelEventsTrace.Driver.Std

open KernelEventsTrace (BufferFault Buffer Yields FineIff YieldsIff Faultless)

variable {α : Type}

/-! ### Specification -/

/-- The member functions that read characters show those of the text. -/
structure StringObj.ShowsText (s : StringObj α) (l : List α) : Prop where
  size : s.size = l.length
  index : ∀ i (hi : i < l.length), s.index i = .ok l[i]
  front : ∀ h : l ≠ [], s.front = .ok (l.head h)
  back : ∀ h : l ≠ [], s.back = .ok (l.getLast h)

namespace StringObj

/-- A string shows one text. -/
theorem ShowsText.unique {s : StringObj α} {l m : List α} (hl : s.ShowsText l)
    (hm : s.ShowsText m) : l = m := by
  have hlen : l.length = m.length := hl.size.symm.trans hm.size
  refine List.ext_getElem hlen fun i hi hi' => ?_
  have heq := (hl.index i hi).symm.trans (hm.index i hi')
  exact Except.ok.inj heq

/-- The string at an index shows the text there. -/
theorem showsText_getElem? {ss : List (StringObj α)} {ls : List (List α)}
    (h : List.Forall₂ ShowsText ss ls) {i : Nat} {s : StringObj α}
    {l : List α} (hs : ss[i]? = some s) (hl : ls[i]? = some l) : s.ShowsText l := by
  obtain ⟨hi, rfl⟩ := List.getElem?_eq_some_iff.mp hs
  obtain ⟨hi', rfl⟩ := List.getElem?_eq_some_iff.mp hl
  exact h.get hi hi'

section
variable [Inhabited α] {pool : Pool} {s : StringObj α} {l : List α}

/-- The size is the length of the text. -/
theorem Has.size_eq (h : s.Has pool l) : s.size = l.length := by
  rw [← h.content, h.length_content]

/-- `operator[]` reads the character of the text. -/
theorem Has.index_eq (h : s.Has pool l) {i : Nat} (hi : i < l.length) : s.index i = .ok l[i] := by
  have hpre : l <+: s.elements.cells := by
    rw [← h.content]
    exact List.take_prefix _ _
  exact Buffer.read_initial hpre hi

/-- A string that has a text shows it. -/
theorem Has.showsText (h : s.Has pool l) : s.ShowsText l := by
  have hspace := h.space_lt
  have hsize := h.size
  have hlen := h.size_eq
  refine ⟨hlen, fun i hi => h.index_eq hi, fun hne => ?_, fun hne => ?_⟩
  · rw [List.head_eq_getElem]
    exact h.index_eq (List.length_pos_iff.mpr hne)
  · -- The index does not wrap around.
    have hpos := List.length_pos_iff.mpr hne
    have hlast : sizeT (s.size + (2 ^ 64 - 1)) = l.length - 1 := by
      unfold sizeT
      omega
    rw [List.getLast_eq_getElem]
    unfold back
    rw [hlast]
    exact h.index_eq (by omega)

/-! ### Calls with a condition -/

/-- What `Resize` asks for. Its value makes no difference, and the size can be counted. -/
def ResizeFits (pool : Pool) (s : StringObj α) (n : Nat) (val : α) : Prop :=
  n ≤ s.size ∨ (ReserveKeeps s n ∧
    (val = default ∨ (s.space < n ∧ pool.limit < n + 1)))

/-- `Resize` cuts characters off, or adds zeros whatever value it is given. -/
theorem Shape.yieldsIff_resize (h : s.Shape pool) (n : UInt64) (val : α) :
    YieldsIff (Has pool (resizeTo s.content n.toNat val))
      (fun s' => s'.ShowsText (resizeTo s.content n.toNat val)) (ResizeFits pool s n.toNat val)
      (s.resize pool n.toNat val) := by
  have hsize := h.size
  have hlen := h.length_content
  by_cases hn : ReserveKeeps s n.toNat
  · by_cases hmemory : s.space < n.toNat ∧ pool.limit < n.toNat + 1
    · refine .of_yields (.inr ⟨hn, .inr hmemory⟩) ?_
      unfold resize
      rw [reserve_noMemory hmemory.1 hmemory.2 (hn hmemory.1)]
      trivial
    · have hroom : s.space < n.toNat → n.toNat + 1 ≤ pool.limit := by omega
      obtain ⟨s', hs', -, -⟩ := h.bounded.resize_ok hroom val
      have hhas := ((h.yields_resized hn val).value hs').1
      refine .of_ok hs' (fun hc => ?_) fun hshows => ?_
      · -- The texts for the two values are the same.
        have heq : resizeTo s.content n.toNat val = resizeTo s.content n.toNat default := by
          refine resizeTo_eq_iff.mpr ?_
          rcases hc with hle | ⟨-, rfl | hno⟩
          · exact .inl (by omega)
          · exact .inr rfl
          · exact absurd hno hmemory
        rw [heq]
        exact hhas
      · rcases resizeTo_eq_iff.mp (hshows.unique hhas.showsText) with hle | rfl
        · exact .inl (by omega)
        · exact .inr ⟨hn, .inl rfl⟩
  · refine .of_fault (fun hc => ?_) ?_
    · rcases hc with hle | hc
      · exact hn fun hlt => by omega
      · exact hn hc.1
    · unfold resize
      rw [reserve_max hn]
      rfl

/-- `Reserve` keeps the text. -/
theorem Shape.yieldsIff_reserve (h : s.Shape pool) (n : UInt64) :
    YieldsIff (Has pool s.content) (fun s' => s'.ShowsText s.content) (ReserveKeeps s n.toNat)
      (s.reserve pool n.toNat) := by
  by_cases hn : ReserveKeeps s n.toNat
  · exact .of_yields hn ((h.yields_reserved hn).mono fun s' hs' => hs'.1)
  · exact .of_fault hn (reserve_max hn)

/-- The constructor for a size makes a text of zeros. -/
theorem yieldsIff_constructZeros (n : UInt64) :
    YieldsIff (Has pool (List.replicate n.toNat default))
      (fun s' => s'.ShowsText (List.replicate n.toNat (default : α))) (n.toNat + 1 < 2 ^ 64)
      (constructSize pool n.toNat) := by
  by_cases hn : n.toNat + 1 < 2 ^ 64
  · exact .of_yields hn (yields_constructZeros hn)
  · refine .of_fault hn ?_
    have hlt := n.toNat_lt
    rw [show n.toNat = 2 ^ 64 - 1 by omega]
    unfold constructSize
    rw [allocate_max]
    rfl

/-- The constructor from a C string takes the characters up to the first zero. -/
theorem yieldsIff_ofCstr [DecidableEq α] (cstr : List α) :
    YieldsIff (Has pool (cstrContent cstr)) (fun s' => s'.ShowsText (cstrContent cstr))
      ((cstrContent cstr).length < 2 ^ 31) (constructCstr pool cstr) := by
  by_cases hn : (cstrContent cstr).length < 2 ^ 31
  · exact .of_yields hn (yields_ofCstr hn)
  · refine .of_fault hn ?_
    unfold constructCstr
    exact if_neg hn

end

/-- The constructor from `UNICODE_STRING`, for the types that have one. -/
theorem yieldsIff_ofUnicode {inst : Inhabited α} (T : ElementType α inst) {pool : Pool}
    (str : UnicodeOperand) {x : Except BufferFault (StringObj α)}
    (hx : constructUnicode T pool str.toUnicodeString = some x) :
    ∃ l, textOfUnicode T str.toUnicodeString = some l ∧
      YieldsIff (Has pool l) (fun s' => s'.ShowsText l)
        (UnicodeKeeps T pool str.toUnicodeString) x := by
  have hfits := str.fits
  have hmax := str.maximumLength_lt
  cases T with
  | other => cases hx
  | wchar =>
    have hsize : str.length / 2 = str.chars.length := Nat.mul_div_cancel_left _ (by decide)
    cases hx
    exact ⟨_, rfl, .of_yields trivial (yields_ofChars (by omega) (by omega))⟩
  | char =>
    refine ⟨_, rfl, ?_⟩
    rcases Nat.lt_or_ge pool.limit (str.chars.length + 1) with hlim | hlim
    · rw [constructChar_noMemory hlim (by omega)] at hx
      cases hx
      exact .of_yields (.inr hlim) trivial
    · by_cases hnil : str.chars = []
      · rw [constructChar_nil hnil (by omega)] at hx
        cases hx
        refine .of_yields (.inl hnil) ⟨⟨Nat.le_refl 0, .inr ⟨rfl, rfl, ?_⟩⟩, ?_⟩
        · show 0 + 1 ≤ pool.limit
          omega
        · rw [hnil]
          rfl
      · rw [constructChar_fault hnil hlim] at hx
        cases hx
        refine .of_fault (fun hc => ?_) rfl
        rcases hc with hc | hc
        · exact hnil hc
        · omega

end StringObj
/-! ### Programs -/

open StringObj

/-- A call that does not change a text. -/
theorem onList_id (ls : List (List α)) (i : Nat) : onList ls i (fun l => l) = ls := by
  unfold onList
  cases hl : ls[i]? with
  | none => rfl
  | some l =>
    obtain ⟨hi, rfl⟩ := List.getElem?_eq_some_iff.mp hl
    exact List.set_getElem_self hi

section
variable [Inhabited α] (pool : Pool)

/-- The strings have the right shape, and the characters of the texts. -/
structure AllHave (ls : List (List α)) (ss : List (StringObj α)) : Prop where
  shape : ∀ s ∈ ss, s.Shape pool
  content : ss.map StringObj.content = ls

variable {pool} {ss : List (StringObj α)} {ls : List (List α)}

/-- The text at an index is the content of the string there. -/
theorem AllHave.getElem? (h : AllHave pool ls ss) (i : Nat) :
    ls[i]? = ss[i]?.map StringObj.content := by
  rw [← h.content, List.getElem?_map]

/-- One more string, with its text. -/
theorem AllHave.append (h : AllHave pool ls ss) {s : StringObj α} {l : List α}
    (hs : s.Has pool l) : AllHave pool (ls ++ [l]) (ss ++ [s]) := by
  refine ⟨fun t ht => ?_, ?_⟩
  · rcases List.mem_append.mp ht with ht | ht
    · exact h.shape t ht
    · rw [List.mem_singleton.mp ht]
      exact hs.toShape
  · rw [List.map_append, h.content, ← hs.content]
    rfl

/-- One string is replaced, with its text. -/
theorem AllHave.set (h : AllHave pool ls ss) (i : Nat) {s : StringObj α} {l : List α}
    (hs : s.Has pool l) : AllHave pool (ls.set i l) (ss.set i s) := by
  refine ⟨fun t ht => ?_, ?_⟩
  · rcases List.mem_or_eq_of_mem_set ht with ht | rfl
    · exact h.shape t ht
    · exact hs.toShape
  · rw [List.map_set, h.content, hs.content]

/-- A constructor adds a text. -/
theorem AllHave.yields_newString (h : AllHave pool ls ss) {l : List α}
    {x : Except BufferFault (StringObj α)} (hx : Yields x (Has pool l)) :
    Yields (newString ss x) (AllHave pool (ls ++ [l])) :=
  hx.map fun _ hs => h.append hs

/-- A call by what it does to one text. -/
theorem AllHave.yields_atString (h : AllHave pool ls ss) {i : Nat}
    {f : StringObj α → Except BufferFault (List (StringObj α))} {g : List α → List (List α)}
    (hf : ∀ s, s.Shape pool → Yields (f s) (AllHave pool (g s.content))) :
    Yields (atString ss i f) (AllHave pool (fromList ls i g)) := by
  unfold atString fromList
  rw [h.getElem?]
  cases hs : ss[i]? with
  | none => exact h
  | some s => exact hf s (h.shape s (List.mem_of_getElem? hs))

/-- A call that changes one text. -/
theorem AllHave.yields_onString (h : AllHave pool ls ss) {i : Nat}
    {f : StringObj α → Except BufferFault (StringObj α)} {g : List α → List α}
    (hf : ∀ s, s.Shape pool → Yields (f s) (Has pool (g s.content))) :
    Yields (onString ss i f) (AllHave pool (onList ls i g)) :=
  h.yields_atString fun s hs => (hf s hs).map fun _ hs' => h.set i hs'

/-- A call with an operand, which may be the string itself. -/
theorem AllHave.yields_withArg (h : AllHave pool ls ss) {i j : Nat}
    {f : StringObj α → Arg α → Except BufferFault (List (StringObj α))}
    {g : List α → List α → List (List α)}
    (hf : ∀ s arg, s.Shape pool → arg.Shape pool →
      Yields (f s arg) (AllHave pool (g s.content (arg.get s).content))) :
    Yields (withArg ss i j fun arg => atString ss i fun s => f s arg)
      (AllHave pool (fromList ls j fun m => fromList ls i fun l => g l m)) := by
  unfold withArg
  by_cases hij : i = j
  · -- The operand is the string itself.
    subst hij
    rw [if_pos rfl]
    have hself := h.yields_atString (i := i) (f := fun s => f s .self) (g := fun l => g l l)
      fun s hs => hf s .self hs trivial
    have heq : (fromList ls i fun m => fromList ls i fun l => g l m) =
        fromList ls i fun l => g l l := by
      unfold fromList
      cases ls[i]? <;> rfl
    rw [heq]
    exact hself
  · rw [if_neg hij]
    exact h.yields_atString fun t ht => h.yields_atString fun s hs => hf s (.other t) hs ht

/-- A call that changes the string `i`, with an operand. -/
theorem AllHave.yields_onStringWith (h : AllHave pool ls ss) {i j : Nat}
    {f : StringObj α → Arg α → Except BufferFault (StringObj α)}
    {g : List α → List α → List α}
    (hf : ∀ s arg, s.Shape pool → arg.Shape pool →
      Yields (f s arg) (Has pool (g s.content (arg.get s).content))) :
    Yields (withArg ss i j fun arg => onString ss i fun s => f s arg)
      (AllHave pool (fromList ls j fun m => onList ls i fun l => g l m)) :=
  h.yields_withArg fun s arg hs ha => (hf s arg hs ha).map fun _ hs' => h.set i hs'

/-! Calls with a condition. -/

/-- A constructor, with the condition under which its string shows its text. -/
theorem AllHave.yieldsIff_newString (h : AllHave pool ls ss) {c : Prop} {l : List α}
    {x : Except BufferFault (StringObj α)}
    (hx : YieldsIff (Has pool l) (fun s => s.ShowsText l) c x) :
    YieldsIff (AllHave pool (ls ++ [l])) (fun ss' => List.Forall₂ ShowsText ss' (ls ++ [l])) c
      (newString ss x) := by
  refine hx.map (fun _ hs => h.append hs) fun s hall => ?_
  have hlen : ls.length = ss.length := by rw [← h.content, List.length_map]
  have hlast : (ls ++ [l])[ss.length]? = some l := by rw [← hlen, List.getElem?_concat_length]
  exact showsText_getElem? hall List.getElem?_concat_length hlast

/-- A call that changes one text, with a condition on its string. -/
theorem AllHave.yieldsIff_onString (h : AllHave pool ls ss) {i : Nat} {c : StringObj α → Prop}
    {f : StringObj α → Except BufferFault (StringObj α)} {g : List α → List α}
    (hf : ∀ s, s.Shape pool → YieldsIff (Has pool (g s.content))
      (fun s' => s'.ShowsText (g s.content)) (c s) (f s)) :
    YieldsIff (AllHave pool (onList ls i g))
      (fun ss' => List.Forall₂ ShowsText ss' (onList ls i g)) (KeepsAt ss i c)
      (onString ss i f) := by
  unfold onString atString onList KeepsAt
  rw [h.getElem?]
  cases hs : ss[i]? with
  | none => exact .of_yields (fun s hs' => by cases hs') h
  | some s =>
    obtain ⟨hi, -⟩ := List.getElem?_eq_some_iff.mp hs
    have hi' : i < ls.length := by
      rw [← h.content, List.length_map]
      exact hi
    refine ((hf s (h.shape s (List.mem_of_getElem? hs))).map (fun _ hs' => h.set i hs')
      fun s' hall => ?_).congr ⟨fun hc => hc s rfl, fun hc s' hs' => ?_⟩
    · exact showsText_getElem? hall (List.getElem?_set_self hi) (List.getElem?_set_self hi')
    · rw [← Option.some.inj hs']
      exact hc

end

section
variable [Inhabited α]

/-- A full string is not given one of its own characters, unless there is no memory for a greater
array. -/
def OwnFits (pool : Pool) (ss : List (StringObj α)) (i j k : Nat) : Prop :=
  i = j → KeepsAt ss i fun s => k < s.size → s.size = s.space → pool.limit < 2 * s.space + 1

variable {pool : Pool} {ss : List (StringObj α)} {ls : List (List α)}

/-- A `PushBack` of a character does what one of its value does, or the character was deleted. -/
theorem AllHave.fineIff_pushBackElement (h : AllHave pool ls ss) {i j k : Nat} :
    FineIff (AllHave pool (fromList ls j fun m =>
        match m[k]? with
        | some c => onList ls i fun l => l ++ [c]
        | none => ls))
      (fun ss' => List.Forall₂ ShowsText ss' (fromList ls j fun m =>
        match m[k]? with
        | some c => onList ls i fun l => l ++ [c]
        | none => ls))
      (OwnFits pool ss i j k)
      (withCharacter ss i j k none fun ele => onString ss i fun s => s.pushBack pool ele) := by
  unfold withCharacter atString fromList
  rw [h.getElem?]
  cases ht : ss[j]? with
  | none =>
    refine .of_yields (fun hij s hs => ?_) h
    rw [hij, ht] at hs
    cases hs
  | some t =>
    have hshape := h.shape t (List.mem_of_getElem? ht)
    have hlen := hshape.length_content
    rw [Option.map_some]
    by_cases hk : k < t.size
    · have hget : t.content[k]? = some (t.elements.get k) := by
        have hcells := hshape.size_le_cells
        unfold StringObj.content Buffer.get
        rw [List.getElem?_take, if_pos hk, List.getElem?_eq_getElem (by omega)]
        rfl
      simp only [if_pos hk, hget]
      have hpush : ∀ ele, ele = .value (t.elements.get k) → Yields
          (onString ss i fun s => s.pushBack pool ele)
          (AllHave pool (onList ls i fun l => l ++ [t.elements.get k])) := by
        rintro ele rfl
        exact h.yields_onString (g := fun l => l ++ [t.elements.get k])
          fun s hs => hs.yields_pushed _
      by_cases hij : i = j
      · -- The character is one of the string itself.
        subst hij
        rw [if_pos rfl]
        have hown : ∀ x, t.pushBack pool (.own k none) = x →
            onString ss i (fun s => s.pushBack pool (.own k none)) =
              x.map fun s => ss.set i s := by
          rintro x rfl
          unfold onString atString
          rw [ht]
        by_cases hfull : t.size = t.space
        · rcases Nat.lt_or_ge pool.limit (2 * t.space + 1) with hmemory | hmemory
          · rw [hown _ (hshape.pushBack_noMemory hfull hk hmemory _)]
            refine .of_yields (fun _ s hs _ _ => ?_) trivial
            rw [ht] at hs
            obtain rfl := Option.some.inj hs
            exact hmemory
          · refine .of_deleted (fun hfits => ?_)
              (hown _ (hshape.pushBack_own_full hfull hk hmemory).1)
            have hlt := hfits rfl t ht hk hfull
            omega
        · refine .of_yields (fun _ s hs _ hfull' => ?_) ?_
          · rw [ht] at hs
            obtain rfl := Option.some.inj hs
            exact absurd hfull' hfull
          · rw [hown _ (hshape.pushBack_own_room hfull hk none)]
            have hvalue := hpush _ rfl
            unfold onString atString at hvalue
            rw [ht] at hvalue
            exact hvalue
      · have hread : t.index k = .ok (t.elements.get k) := by
          have hcells := hshape.size_le_cells
          exact Buffer.read_of_lt (by omega)
        rw [if_neg hij, hread]
        exact .of_yields (fun heq => absurd heq hij) (hpush _ rfl)
    · have hnone : t.content[k]? = none := List.getElem?_eq_none (by omega)
      simp only [if_neg hk, hnone]
      refine .of_yields (fun hij s hs hk' => ?_) h
      rw [hij, ht] at hs
      obtain rfl := Option.some.inj hs
      exact absurd hk' hk

end

section
variable [inst : Inhabited α] [DecidableEq α] (T : ElementType α inst) (pool : Pool)

/-- What a call asks of its operands and of the strings before it. Most calls ask for nothing. -/
def CallFits (ss : List (StringObj α)) : StringOp α → Prop
  | .constructSize size => size.toNat + 1 < 2 ^ 64
  | .constructCstr cstr => (cstrContent cstr.chars).length < 2 ^ 31
  | .constructUnicode s => UnicodeKeeps T pool s.toUnicodeString
  | .reserve i newSize => KeepsAt ss i fun s => ReserveKeeps s newSize.toNat
  | .resize i newSize val => KeepsAt ss i fun s => ResizeFits pool s newSize.toNat val
  | .pushBackElement i j k _ => OwnFits pool ss i j k.toNat
  | _ => True

variable {T pool} {ss : List (StringObj α)} {ls : List (List α)}

/-- The step lemma. A call that fits does to the strings what it does to the texts, and any other
makes a fault or shows. -/
theorem AllHave.yieldsIff_step (h : AllHave pool ls ss) (op : StringOp α)
    (hop : ¬ op.PushesElement) :
    YieldsIff (AllHave pool (stepTexts T ls op))
      (fun ss' => List.Forall₂ ShowsText ss' (stepTexts T ls op)) (CallFits T pool ss op)
      (stepStrings T pool ss op) := by
  cases op with
  | construct => exact .of_yields trivial (h.yields_newString has_construct)
  | constructSize size => exact h.yieldsIff_newString (yieldsIff_constructZeros size)
  | copyConstruct j =>
    exact .of_yields trivial (h.yields_atString fun t ht => h.yields_newString ht.yields_copy)
  | constructCstr cstr => exact h.yieldsIff_newString (yieldsIff_ofCstr cstr.chars)
  | constructUnicode s =>
    show YieldsIff (AllHave pool (ls ++ (textOfUnicode T s.toUnicodeString).toList))
      (fun ss' => List.Forall₂ ShowsText ss' (ls ++ (textOfUnicode T s.toUnicodeString).toList)) _
      (ifDefined ss (constructUnicode T pool s.toUnicodeString) _)
    cases hx : constructUnicode T pool s.toUnicodeString with
    | none =>
      cases T with
      | wchar => cases hx
      | char => cases hx
      | other =>
        refine .of_yields trivial ?_
        show AllHave pool (ls ++ []) ss
        rw [List.append_nil]
        exact h
    | some x =>
      obtain ⟨l, hl, hyields⟩ := yieldsIff_ofUnicode T s hx
      rw [hl]
      exact h.yieldsIff_newString hyields
  | assign i j =>
    exact .of_yields trivial (h.yields_onStringWith (g := fun _ m => m)
      fun s arg hs ha => hs.yields_assign ha)
  | assignCstr i cstr =>
    exact .of_yields trivial (h.yields_onString (g := fun _ => cstrContent cstr.chars)
      fun s hs => hs.yields_assignCstr cstr)
  | assignUnicode i s =>
    refine .of_yields trivial ?_
    cases T with
    | char => exact h
    | other => exact h
    | wchar =>
      -- The buffer has `MaximumLength` characters, of which the text takes the first.
      refine h.yields_onString (g := fun _ => (s.map (·.chars)).getD []) fun _ _ => ?_
      cases s with
      | none => exact has_construct
      | some str =>
        have hfits := str.fits
        have hmax := str.maximumLength_lt
        have hlen : str.chars.length ≤ str.maximumLength := by omega
        exact yields_ofChars hlen (show str.maximumLength + 1 < 2 ^ 64 by omega)
  | reserve i newSize =>
    have hon := h.yieldsIff_onString (i := i) (g := fun l => l) fun s hs =>
      hs.yieldsIff_reserve newSize
    rw [onList_id] at hon
    exact hon
  | resize i newSize val => exact h.yieldsIff_onString fun s hs => hs.yieldsIff_resize newSize val
  | pushBack i ele =>
    exact .of_yields trivial (h.yields_onString (g := fun l => l ++ [ele])
      fun s hs => hs.yields_pushed ele)
  | pushBackElement i j k stale => exact absurd trivial hop
  | append i j =>
    exact .of_yields trivial (h.yields_onStringWith (g := fun l m => l ++ m)
      fun s arg hs ha => hs.yields_appended ha)
  | addAssign i j =>
    exact .of_yields trivial (h.yields_onStringWith (g := fun l m => l ++ m)
      fun s arg hs ha => hs.yields_appended ha)
  | plus i j =>
    exact .of_yields trivial (h.yields_withArg (g := fun l m => ls ++ [l ++ m])
      fun s arg hs ha => h.yields_newString (hs.yields_sum ha))

/-- The step lemma for all calls. -/
theorem AllHave.fineIff_step (h : AllHave pool ls ss) {op : StringOp α} (hop : op.DeletedFaults) :
    FineIff (AllHave pool (stepTexts T ls op))
      (fun ss' => List.Forall₂ ShowsText ss' (stepTexts T ls op)) (CallFits T pool ss op)
      (stepStrings T pool ss op) := by
  by_cases hpush : op.PushesElement
  · cases op with
    | pushBackElement i j k stale =>
      obtain rfl : stale = none := hop
      exact h.fineIff_pushBackElement
    | _ => exact absurd hpush id
  · exact (h.yieldsIff_step op hpush).toFineIff

variable (T pool)

end

end KernelEventsTrace.Driver.Std
