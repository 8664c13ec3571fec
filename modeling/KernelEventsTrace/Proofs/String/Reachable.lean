import KernelEventsTrace.Driver.Std.StringCompare
import KernelEventsTrace.Proofs.String.Terminated

/-!
# `KernelEventsTrace.Proofs.String.Reachable`: what holds of every string

`Clear` breaks the bookkeeping of a string, and a later call may then leave the array. As long as
no call has, the characters of a string are within its array (`Stored`): a call that changes the
size has written up to it.

`Reachable.stored`: every string of every program is `Stored`.
-/

set_option autoImplicit false

namespace KernelEventsTrace.Driver.Std

open KernelEventsTrace (BufferFault Buffer forRange Returns returns_ok returns_true returns_foldlM)

variable {α : Type}

namespace StringObj

/-- The characters are within the array, which is not greater than the pool. -/
structure Stored (pool : Pool) (s : StringObj α) : Prop where
  size : s.size ≤ s.elements.cells.length
  limit : s.elements.cells.length ≤ pool.limit

variable {pool : Pool} {s : StringObj α}

/-- The size of a string that was stored can be counted. -/
theorem Stored.size_lt (h : s.Stored pool) : s.size < 2 ^ 63 := by
  have hsize := h.size
  have hlimit := h.limit
  have hlt := pool.limit_lt
  omega

/-- A string without a buffer has no characters. -/
theorem Stored.size_eq_zero (h : s.Stored pool) (hnull : s.elements = .null) : s.size = 0 := by
  have hsize := h.size
  rw [hnull] at hsize
  exact Nat.le_zero.mp hsize

/-- The content has as many characters as the size says. -/
theorem Stored.length_content (h : s.Stored pool) : s.content.length = s.size := by
  unfold content
  rw [List.length_take]
  exact Nat.min_eq_left h.size

/-- The default constructor makes an empty string. -/
theorem stored_construct : (construct : StringObj α).Stored pool :=
  ⟨Nat.le_refl 0, Nat.zero_le _⟩

/-- Cells of the same array were written. -/
theorem Stored.with_elements (h : s.Stored pool) {b : Buffer α} {n : Nat}
    (hb : b.cells.length = s.elements.cells.length) (hn : n ≤ s.elements.cells.length) :
    Stored pool ⟨n, b, s.space⟩ := ⟨hb ▸ hn, hb ▸ h.limit⟩

/-- Characters were written behind those of the string. -/
theorem Stored.appended (h : s.Stored pool) {b : Buffer α} {n : Nat}
    (hb : b.cells.length = s.elements.cells.length)
    (hn : 0 < n → n + s.size ≤ s.elements.cells.length) :
    Stored pool { s with elements := b, size := sizeT (s.size + n) } := by
  have hsize := h.size
  have hlimit := h.limit
  have hlt := pool.limit_lt
  have hsum : s.size + n ≤ s.elements.cells.length := by omega
  rw [sizeT_of_lt (by omega)]
  exact h.with_elements hb hsum

/-- A loop that copies characters. -/
theorem returns_copyLoop (off lo n : Nat) {f : Buffer α → Nat → Except BufferFault α}
    {b : Buffer α} :
    Returns (forRange lo n (fun p i => do p.write (i + off) (← f p i)) b) fun b' =>
      b'.cells.length = b.cells.length ∧ (lo < n → n + off ≤ b.cells.length) :=
  Buffer.returns_writeLoop fun q i =>
    Returns.bind (returns_true (f q i)) fun a _ => Buffer.returns_write (i + off) a

/-- The loop that copies stays inside of the array, or it makes a fault. -/
theorem returns_copyCells (src : Buffer α) (n : Nat) {b : Buffer α} :
    Returns (copyCells src n b) fun b' =>
      b'.cells.length = b.cells.length ∧ n ≤ b.cells.length := by
  refine (returns_copyLoop 0 0 n (f := fun _ i => src.read i) (b := b)).mono fun b' hb' => ?_
  exact ⟨hb'.1, by have := hb'.2; omega⟩

section
variable [Inhabited α]

/-- What is allocated is not more than the pool has. -/
theorem returns_allocate (n : Nat) :
    Returns (allocate pool n) fun p : Buffer α => p.cells.length ≤ pool.limit := by
  have hnew : Returns (pool.allocate (sizeT (n + 1))) fun p : Buffer α =>
      p.cells.length ≤ pool.limit := by
    rcases Nat.lt_or_ge pool.limit (sizeT (n + 1)) with hlt | hle
    · rw [Pool.allocate_of_lt hlt]
      intro p hp
      cases hp
    · rw [Pool.allocate_of_le hle]
      exact returns_ok (by simpa using hle)
  refine Returns.bind hnew fun p hp => ?_
  exact (Buffer.returns_write n default).mono fun b hb => hb.2 ▸ hp

/-- The loop that writes zeros stays inside of the array, or it makes a fault. -/
theorem returns_fillCells (lo hi : Nat) {b : Buffer α} :
    Returns (fillCells lo hi b) fun b' =>
      b'.cells.length = b.cells.length ∧ (lo < hi → hi ≤ b.cells.length) :=
  @Buffer.returns_writeLoop _ _ lo hi 0 _ fun _ i => Buffer.returns_write i default

/-- Characters that are copied to a new array, with as much space as is asked for. -/
theorem returns_copyNew (src : Buffer α) (k n : Nat) :
    Returns (do copyCells src k (← allocate pool n)) fun p =>
      k ≤ p.cells.length ∧ p.cells.length ≤ pool.limit :=
  Returns.bind (returns_allocate n) fun _ hp =>
    (returns_copyCells src k).mono fun _ hb => ⟨hb.1 ▸ hb.2, hb.1 ▸ hp⟩

/-- The constructors that copy have an array of just the size. -/
theorem returns_exact (src : Buffer α) (n : Nat) :
    Returns (do
      let elements ← copyCells src n (← allocate pool n)
      return (⟨n, elements, n⟩ : StringObj α)) (Stored pool) := by
  rw [← bind_assoc]
  exact Returns.bind (returns_copyNew src n n) fun p hp => returns_ok ⟨hp.1, hp.2⟩

/-! ### The member functions -/

/-- The constructor for a size. -/
theorem returns_constructSize (n : Nat) :
    Returns (constructSize pool n : Except BufferFault (StringObj α)) (Stored pool) := by
  refine Returns.bind (returns_allocate n) fun p hp => ?_
  refine Returns.bind (returns_fillCells 0 n) fun b hb => ?_
  exact returns_ok ⟨by have := hb.2; show n ≤ b.cells.length; omega, hb.1 ▸ hp⟩

/-- `operator=`, in the old array or in a new one. -/
theorem Stored.returns_assign (h : s.Stored pool) (arg : Arg α) :
    Returns (s.assign pool arg) (Stored pool) := by
  cases arg with
  | self => exact returns_ok h
  | other t =>
    show Returns (s.assignOther pool t) _
    unfold assignOther
    by_cases hle : t.size ≤ s.space
    · rw [if_pos hle]
      exact Returns.bind (returns_copyCells _ _) fun b hb =>
        returns_ok (h.with_elements hb.1 hb.2)
    · rw [if_neg hle]
      exact returns_exact _ _

/-- `Reserve` keeps the characters. -/
theorem Stored.returns_reserve (h : s.Stored pool) (n : Nat) :
    Returns (s.reserve pool n) fun s' => s'.Stored pool ∧ s'.size = s.size := by
  unfold reserve
  by_cases hle : n ≤ s.space
  · rw [if_pos hle]
    exact returns_ok ⟨h, rfl⟩
  · rw [if_neg hle, ← bind_assoc]
    exact Returns.bind (returns_copyNew _ _ _) fun p hp => returns_ok ⟨⟨hp.1, hp.2⟩, rfl⟩

/-- `Resize`, after `Reserve`. -/
theorem Stored.returns_resize (h : s.Stored pool) (n : Nat) (val : α) :
    Returns (s.resize pool n val) (Stored pool) := by
  refine Returns.bind (h.returns_reserve n) fun s' hs' => ?_
  refine Returns.bind (returns_fillCells _ _) fun b hb => ?_
  have hsize := hs'.1.size
  exact returns_ok (hs'.1.with_elements hb.1 (by have := hb.2; omega))

/-- `Clear` sets the size to zero. -/
theorem Stored.returns_clear (h : s.Stored pool) : Returns s.clear (Stored pool) := by
  refine Returns.bind (returns_fillCells 0 s.size) fun b hb => ?_
  exact returns_ok ⟨Nat.zero_le _, hb.1 ▸ h.limit⟩

/-- `PushBack`, wherever the character is read from. -/
theorem Stored.returns_pushBack (h : s.Stored pool) (ele : Buffer.Ref α) :
    Returns (s.pushBack pool ele) (Stored pool) := by
  have hgrow : Returns (s.growForPush pool) (Stored pool) := by
    unfold growForPush
    split
    · exact (h.returns_reserve _).mono fun _ h' => h'.1
    · split
      · exact (h.returns_reserve _).mono fun _ h' => h'.1
      · exact returns_ok h
  refine Returns.bind hgrow fun s' hs' => ?_
  refine Returns.bind (returns_true (ele.read _ s'.elements)) fun c _ => ?_
  refine Returns.bind (Buffer.returns_write s'.size c) fun b hb => ?_
  have hsize := hs'.size_lt
  refine returns_ok ?_
  rw [sizeT_of_lt (by omega)]
  exact hs'.with_elements hb.2 hb.1

/-- `Append`, with the string itself or with another one. -/
theorem Stored.returns_append (h : s.Stored pool) (arg : Arg α) :
    Returns (s.append pool arg) (Stored pool) := by
  refine Returns.bind (h.returns_reserve _) fun s' hs' => ?_
  have hloop := returns_copyLoop s'.size 0 (arg.get s').size (b := s'.elements)
    (f := fun p index => (arg.get { s' with elements := p }).elements.read index)
  exact Returns.bind hloop fun b hb => returns_ok (hs'.1.appended hb.1 hb.2)

/-- `operator+` appends to a copy. -/
theorem returns_plus (s : StringObj α) (arg : Arg α) :
    Returns (s.plus pool arg) (Stored pool) := by
  refine Returns.bind (stored_construct.returns_reserve _) fun r hr => ?_
  refine Returns.bind (hr.1.returns_resize _ default) fun r' hr' => ?_
  refine Returns.bind (returns_copyCells _ _) fun b hb => ?_
  have hloop := returns_copyLoop s.size 0 (arg.get s).size (b := b)
    (f := fun _ index => (arg.get s).elements.read index)
  refine Returns.bind hloop fun b' hb' => returns_ok ?_
  exact hr'.with_elements (hb'.1.trans hb.1) hr'.size

/-- The constructor from a C string. -/
theorem returns_constructCstr [DecidableEq α] (cstr : List α) :
    Returns (constructCstr pool cstr) (Stored pool) := by
  unfold constructCstr
  dsimp only
  split
  · exact returns_exact _ _
  · intro s hs
    cases hs

/-- The assignment from a C string. -/
theorem Stored.returns_assignCstr [DecidableEq α] (h : s.Stored pool) (cstr : List α) :
    Returns (s.assignCstr pool cstr) (Stored pool) := by
  unfold assignCstr
  dsimp only
  split
  · refine Returns.bind (returns_copyCells _ _) fun b hb => ?_
    refine Returns.bind (returns_fillCells _ _) fun b' hb' => ?_
    exact returns_ok (h.with_elements (hb'.1.trans hb.1) hb.2)
  · exact returns_exact _ _

end

/-- The terminator is written behind the characters. -/
theorem returns_terminated [Inhabited α] (a : α) (src : Buffer α) (k n i : Nat) :
    Returns (do
      let elements ← copyCells src k (← allocate pool n)
      let elements ← elements.write i a
      return (⟨k, elements, n⟩ : StringObj α)) (Stored pool) := by
  rw [← bind_assoc]
  refine Returns.bind (returns_copyNew src k n) fun p hp => ?_
  refine Returns.bind (Buffer.returns_write i a) fun b hb => ?_
  exact returns_ok ⟨hb.2 ▸ hp.1, hb.2 ▸ hp.2⟩

/-- The constructors from `UNICODE_STRING`. -/
theorem returns_constructUnicode {inst : Inhabited α} (T : ElementType α inst)
    (str : UnicodeString) {x : Except BufferFault (StringObj α)}
    (hx : constructUnicode T pool str = some x) : Returns x (Stored pool) := by
  cases T with
  | other => cases hx
  | wchar =>
    cases hx
    exact returns_terminated 0 _ _ _ _
  | char =>
    cases hx
    refine Returns.bind (returns_allocate _) fun p hp => ?_
    have hloop : Returns (forRange 0 str.length (fun p i => do
        p.write i (← (Buffer.array str.chars).read i).toUInt8) p) fun b =>
        b.cells.length = p.cells.length ∧ (0 < str.length → str.length + 0 ≤ p.cells.length) :=
      Buffer.returns_writeLoop fun q i =>
        Returns.bind (returns_true _) fun a _ => Buffer.returns_write i _
    refine Returns.bind hloop fun b hb => ?_
    refine Returns.bind (Buffer.returns_write _ _) fun b' hb' => ?_
    -- As many characters as there are bytes were written.
    have hlen : str.length / 2 ≤ str.length := Nat.div_le_self _ _
    refine returns_ok ⟨?_, hb'.2 ▸ hb.1 ▸ hp⟩
    rw [hb'.2]
    exact Nat.le_trans hlen (Nat.le_of_lt hb'.1)

/-- The assignment from `UNICODE_STRING`. -/
theorem returns_assignUnicode {inst : Inhabited α} (T : ElementType α inst)
    (str : Option UnicodeString) {x : Except BufferFault (StringObj α)}
    (hx : assignUnicode T pool str = some x) : Returns x (Stored pool) := by
  cases T with
  | other => cases hx
  | char => cases hx
  | wchar =>
    cases hx
    cases str with
    | none => exact returns_ok stored_construct
    | some str => exact returns_terminated 0 _ _ _ _

end StringObj

/-! ### Programs -/

open StringObj

section
variable (pool : Pool)

/-- Every string is stored. -/
def AllStored (ss : List (StringObj α)) : Prop := ∀ s ∈ ss, s.Stored pool

variable {pool} {ss : List (StringObj α)}

/-- A constructor adds a string. -/
theorem AllStored.returns_newString (h : AllStored pool ss) {x : Except BufferFault (StringObj α)}
    (hx : Returns x (Stored pool)) : Returns (newString ss x) (AllStored pool) := by
  refine hx.map fun s hs t ht => ?_
  rcases List.mem_append.mp ht with ht | ht
  · exact h t ht
  · rw [List.mem_singleton.mp ht]
    exact hs

/-- A call by what it does to one string. -/
theorem AllStored.returns_atString (h : AllStored pool ss) {i : Nat}
    {f : StringObj α → Except BufferFault (List (StringObj α))}
    (hf : ∀ s, s.Stored pool → Returns (f s) (AllStored pool)) :
    Returns (atString ss i f) (AllStored pool) := by
  unfold atString
  cases hs : ss[i]? with
  | none => exact returns_ok h
  | some s => exact hf s (h s (List.mem_of_getElem? hs))

/-- A call that changes one string. -/
theorem AllStored.returns_onString (h : AllStored pool ss) {i : Nat}
    {f : StringObj α → Except BufferFault (StringObj α)}
    (hf : ∀ s, s.Stored pool → Returns (f s) (Stored pool)) :
    Returns (onString ss i f) (AllStored pool) := by
  refine h.returns_atString fun s hs => (hf s hs).map fun s' hs' t ht => ?_
  rcases List.mem_or_eq_of_mem_set ht with ht | rfl
  · exact h t ht
  · exact hs'

/-- A call with an operand. -/
theorem AllStored.returns_withArg (h : AllStored pool ss) {i j : Nat}
    {f : Arg α → Except BufferFault (List (StringObj α))}
    (hf : ∀ arg, Returns (f arg) (AllStored pool)) :
    Returns (withArg ss i j f) (AllStored pool) := by
  unfold withArg
  split
  · exact hf .self
  · exact h.returns_atString fun t _ => hf (.other t)

variable [inst : Inhabited α] [DecidableEq α] {T : ElementType α inst}

/-- Every call leaves strings that can be stored. -/
theorem AllStored.returns_call (h : AllStored pool ss) (call : StringCall α) :
    Returns (stepCall T pool ss call) (AllStored pool) := by
  cases call with
  | clear i => exact h.returns_onString fun s hs => hs.returns_clear
  | op op =>
    cases op with
    | construct => exact h.returns_newString (returns_ok stored_construct)
    | constructSize size => exact h.returns_newString (returns_constructSize _)
    | copyConstruct j =>
      exact h.returns_atString fun t _ => h.returns_newString (returns_exact _ _)
    | constructCstr cstr => exact h.returns_newString (returns_constructCstr _)
    | constructUnicode s =>
      show Returns (ifDefined ss (constructUnicode T pool s.toUnicodeString) _) _
      cases hx : constructUnicode T pool s.toUnicodeString with
      | none => exact returns_ok h
      | some x => exact h.returns_newString (returns_constructUnicode T _ hx)
    | assign i j =>
      exact h.returns_withArg fun arg => h.returns_onString fun s hs => hs.returns_assign arg
    | assignCstr i cstr => exact h.returns_onString fun s hs => hs.returns_assignCstr _
    | assignUnicode i s =>
      show Returns (ifDefined ss (assignUnicode T pool (s.map (·.toUnicodeString))) _) _
      cases hx : assignUnicode T pool (s.map (·.toUnicodeString)) with
      | none => exact returns_ok h
      | some x => exact h.returns_onString fun _ _ => returns_assignUnicode T _ hx
    | reserve i newSize =>
      exact h.returns_onString fun s hs => (hs.returns_reserve _).mono fun _ hs' => hs'.1
    | resize i newSize val => exact h.returns_onString fun s hs => hs.returns_resize _ val
    | pushBack i ele => exact h.returns_onString fun s hs => hs.returns_pushBack _
    | pushBackElement i j k stale =>
      -- The character is one of the string itself, or of another.
      refine h.returns_atString fun t _ => ?_
      split
      · split
        · exact h.returns_onString fun s hs => hs.returns_pushBack _
        · exact Returns.bind (returns_true (t.index k.toNat)) fun c _ =>
            h.returns_onString fun s hs => hs.returns_pushBack _
      · exact returns_ok h
    | append i j =>
      exact h.returns_withArg fun arg => h.returns_onString fun s hs => hs.returns_append arg
    | addAssign i j =>
      exact h.returns_withArg fun arg => h.returns_onString fun s hs => hs.returns_append arg
    | plus i j =>
      exact h.returns_withArg fun arg =>
        h.returns_atString fun s _ => h.returns_newString (returns_plus s arg)

/-- Every string of every program is stored. -/
theorem StringObj.Reachable.stored {s : StringObj α} (h : s.Reachable T pool) :
    s.Stored pool := by
  obtain ⟨calls, ss, hrun, hs⟩ := h
  have hinit : AllStored pool ([] : List (StringObj α)) := by
    intro t ht
    cases ht
  exact returns_foldlM (fun _ call hss => hss.returns_call call) calls hinit ss hrun s hs

end

end KernelEventsTrace.Driver.Std
