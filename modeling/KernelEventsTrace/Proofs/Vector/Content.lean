import KernelEventsTrace.Driver.Std.VectorSpec

/-!
# `KernelEventsTrace.Proofs.Vector.Content`: what the member functions of `Vector` do

`space_` is the number of elements that were allocated, and bounds every index (`Tight`). Every
member function but `Clear` keeps this and stays inside of the array. For most of them the elements
afterwards are a simple function of the elements before (`Holds`).

`operator=` and `Erase` move fewer elements than they have to, so their lemmas say nothing about
the elements.
-/

set_option autoImplicit false

namespace KernelEventsTrace.Driver.Std

variable {α : Type}

namespace VectorObj

/-! ### Specification -/

/-- `size_ <= space_`, and `space_` is not greater than the number of allocated elements. -/
structure Bounded (v : VectorObj α) : Prop where
  size : v.size ≤ v.space
  space : v.space ≤ v.elements.cells.length

/-- The bookkeeping is exact: `space_` is the number of allocated elements. -/
structure Tight (pool : Pool) (v : VectorObj α) : Prop where
  size : v.size ≤ v.space
  space : v.space = v.elements.cells.length
  limit : v.space ≤ pool.limit

/-- A tight vector with the elements `l`. -/
structure Holds (pool : Pool) (l : List α) (v : VectorObj α) : Prop extends Tight pool v where
  content : v.content = l

/-- A tight vector is bounded. -/
theorem Tight.bounded {pool : Pool} {v : VectorObj α} (h : v.Tight pool) : v.Bounded :=
  ⟨h.size, Nat.le_of_eq h.space⟩

/-- The elements are inside of the array. -/
theorem Tight.size_le_cells {pool : Pool} {v : VectorObj α} (h : v.Tight pool) :
    v.size ≤ v.elements.cells.length := h.space ▸ h.size

/-- Sizes are small enough to be doubled. -/
theorem Tight.size_lt {pool : Pool} {v : VectorObj α} (h : v.Tight pool) : v.size < 2 ^ 63 := by
  have hlim := pool.limit_lt
  have hsize := h.size
  have hspace := h.limit
  omega

/-- The content has as many elements as the size says. -/
theorem length_content {v : VectorObj α} (h : v.size ≤ v.elements.cells.length) :
    v.content.length = v.size := by
  unfold content
  rw [List.length_take]
  exact Nat.min_eq_left h

/-- An element, by the cell that it lies in. -/
theorem getElem?_content {v : VectorObj α} {i : Nat} (hi : i < v.size) :
    v.content[i]? = v.elements.cells[i]? := by
  unfold content
  rw [List.getElem?_take, if_pos hi]

/-- A vector that holds a list is tight. -/
theorem yields_tight {pool : Pool} {l : List α} {x : Except BufferFault (VectorObj α)}
    (h : Yields x (Holds pool l)) : Yields x (Tight pool) := h.mono fun _ h' => h'.toTight

/-- A tight vector holds its content. -/
theorem Tight.holds {pool : Pool} {v : VectorObj α} (h : v.Tight pool) :
    Holds pool v.content v := ⟨h, rfl⟩

/-- Another vector that is an operand is tight. -/
def Arg.Tight (pool : Pool) : Arg α → Prop
  | .self => True
  | .other w => w.Tight pool

/-- The operand of a tight vector is tight. -/
theorem Arg.Tight.get {pool : Pool} {v : VectorObj α} {arg : Arg α} (ha : arg.Tight pool)
    (h : v.Tight pool) : (arg.get v).Tight pool := by
  cases arg with
  | self => exact h
  | other w => exact ha

/-! ### The member functions -/

/-- The default constructor makes an empty vector. -/
theorem holds_construct {pool : Pool} : Holds pool [] (construct : VectorObj α) :=
  ⟨⟨Nat.le_refl 0, rfl, Nat.zero_le _⟩, rfl⟩

/-- A vector whose array is another one of the same length, and whose size still fits. -/
theorem Tight.with_elements {pool : Pool} {v : VectorObj α} (h : v.Tight pool) {b : Buffer α}
    {n : Nat} (hb : b.cells.length = v.elements.cells.length) (hn : n ≤ v.space) :
    Holds pool (b.cells.take n) { v with elements := b, size := n } :=
  ⟨⟨hn, h.space.trans hb.symm, h.limit⟩, rfl⟩

section
variable [Inhabited α] {pool : Pool}

/-- `new T[n]`, if it returns. -/
theorem yields_allocate (n : Nat) :
    Yields (pool.allocate n : Except BufferFault (Buffer α))
      fun p => p = .array (List.replicate n default) ∧ n ≤ pool.limit := by
  rcases Nat.lt_or_ge pool.limit n with h | h
  · rw [Pool.allocate_of_lt h]
    trivial
  · rw [Pool.allocate_of_le h]
    exact ⟨rfl, h⟩

/-- A loop that writes `default`. -/
theorem clearLoop_spec (lo hi : Nat) {b : Buffer α} (hle : lo ≤ hi) (hlen : hi ≤ b.cells.length) :
    ∃ b', forRange lo hi (fun p index => p.write index default) b = .ok b' ∧
      Buffer.Writes lo hi (fun _ => default) b b' := by
  refine forRange_writes 0 hle hlen fun i q _ hlt hq => ?_
  exact Buffer.write_of_lt (by rw [hq.length]; omega) _

/-- The cells after such a loop. -/
theorem take_clearLoop {lo hi : Nat} {b b' : Buffer α}
    (hw : Buffer.Writes lo hi (fun _ => default) b b') (hle : lo ≤ hi)
    (hlen : lo ≤ b.cells.length) :
    b'.cells.take hi = b.cells.take lo ++ List.replicate (hi - lo) default := by
  rw [hw.take_eq hle hlen, List.map_const', List.length_range']

/-- The copy loop. -/
theorem copyElements_spec {v : VectorObj α} {p : Buffer α} (hv : v.size ≤ v.elements.cells.length)
    (hp : v.size ≤ p.cells.length) :
    ∃ p', v.copyElements p = .ok p' ∧ Buffer.Writes 0 v.size v.elements.get p p' := by
  refine forRange_writes 0 (Nat.zero_le _) hp fun i q _ hlt hq => ?_
  exact Buffer.write_read (by omega) (by rw [hq.length]; omega)

/-- The cells after the copy loop. -/
theorem take_copyElements {v : VectorObj α} {p p' : Buffer α}
    (hv : v.size ≤ v.elements.cells.length)
    (hw : Buffer.Writes 0 v.size v.elements.get p p') : p'.cells.take v.size = v.content := by
  rw [hw.take_eq (Nat.zero_le _) (Nat.zero_le _), List.take_zero, List.nil_append]
  exact Buffer.map_get_range' hv 0

/-- Copies go to a new array. -/
theorem yields_copyNew {v : VectorObj α} (hv : v.size ≤ v.elements.cells.length) {n : Nat}
    (hn : v.size ≤ n) :
    Yields (do v.copyElements (← pool.allocate n))
      fun p => p.cells.take v.size = v.content ∧ p.cells.length = n ∧ n ≤ pool.limit := by
  refine Yields.bind (yields_allocate n) ?_
  rintro _ ⟨rfl, hlim⟩
  obtain ⟨p', hp', hw⟩ := copyElements_spec (p := .array (List.replicate n default)) hv (by simpa)
  refine Yields.of_eq_ok hp' ⟨take_copyElements hv hw, ?_, hlim⟩
  rw [hw.length]
  simp

/-- The constructor for a size fills with the default. -/
theorem yields_constructSize (s : Nat) :
    Yields (constructSize pool s : Except BufferFault (VectorObj α))
      (Holds pool (List.replicate s default)) := by
  refine Yields.bind (yields_allocate s) ?_
  rintro _ ⟨rfl, hlim⟩
  obtain ⟨b, hb, hw⟩ := clearLoop_spec 0 s
    (b := .array (List.replicate s (default : α))) (Nat.zero_le _) (by simp)
  refine Yields.bind_ok hb ⟨⟨Nat.le_refl _, by rw [hw.length]; simp, hlim⟩, ?_⟩
  exact take_clearLoop hw (Nat.zero_le _) (Nat.zero_le _)

variable {v w : VectorObj α}

/-- A new vector with the elements of another one, and no more space. -/
theorem Tight.yields_copy (h : v.Tight pool) :
    Yields (do
      let elements ← v.copyElements (← pool.allocate v.size)
      return (⟨v.size, elements, v.size⟩ : VectorObj α)) (Holds pool v.content) := by
  rw [← bind_assoc]
  refine Yields.bind (yields_copyNew h.size_le_cells (Nat.le_refl _)) fun p hp => ?_
  exact ⟨⟨Nat.le_refl _, hp.2.1.symm, hp.2.2⟩, hp.1⟩

/-- The copy constructor. -/
theorem Tight.yields_copyConstruct (h : v.Tight pool) :
    Yields (v.copyConstruct pool) (Holds pool v.content) := h.yields_copy

/-- The in-place branch of `operator=` writes the first element only, but sets the size. -/
theorem Tight.yields_assignOther (h : v.Tight pool) (hw : w.Tight pool) :
    Yields (v.assignOther pool w) (Tight pool) := by
  unfold assignOther
  split
  · rename_i hc
    have hcell := h.size_le_cells
    have hwcell := hw.size_le_cells
    have hspace := h.space
    refine Yields.bind_ok (Buffer.read_of_lt (by omega)) ?_
    refine Yields.bind_ok (Buffer.write_of_lt (by omega) _) ?_
    exact (h.with_elements (by simp) hc.1).toTight
  · exact hw.yields_copy.mono fun _ h' => h'.toTight

/-- `operator=`, in the old array or in a new one. -/
theorem Tight.yields_assign (h : v.Tight pool) {arg : Arg α} (ha : arg.Tight pool) :
    Yields (v.assign pool arg) (Tight pool) := by
  cases arg with
  | self => exact h
  | other w => exact h.yields_assignOther ha

/-- `Reserve` keeps the elements, and makes the room it was asked for. -/
theorem Tight.yields_reserve (h : v.Tight pool) (n : Nat) :
    Yields (v.reserve pool n) fun v' =>
      Holds pool v.content v' ∧ v'.size = v.size ∧ n ≤ v'.space := by
  unfold reserve
  split
  · rename_i hn
    exact ⟨h.holds, rfl, hn⟩
  · rename_i hn
    have hsize := h.size
    rw [← bind_assoc]
    refine Yields.bind (yields_copyNew h.size_le_cells (by omega)) fun p hp => ?_
    exact ⟨⟨⟨by show v.size ≤ n; omega, hp.2.1.symm, hp.2.2⟩, hp.1⟩, rfl, Nat.le_refl n⟩

/-- The loop of `Resize`, on an array that has room. A smaller size only cuts elements off. -/
theorem fillLoop_spec {b : Buffer α} {m n : Nat} (hm : m ≤ b.cells.length)
    (hn : n ≤ b.cells.length) :
    ∃ b', forRange m n (fun p index => p.write index default) b = .ok b' ∧
      b'.cells.length = b.cells.length ∧
      b'.cells.take n = resizeTo (b.cells.take m) n default := by
  unfold resizeTo
  rw [List.take_take, List.length_take, Nat.min_eq_left hm]
  rcases Nat.le_total m n with hle | hle
  · obtain ⟨b', hb', hw⟩ := clearLoop_spec m n hle hn
    rw [Nat.min_eq_right hle]
    exact ⟨b', hb', hw.length, take_clearLoop hw hle hm⟩
  · rw [Nat.min_eq_left hle, Nat.sub_eq_zero_of_le hle, List.replicate_zero, List.append_nil]
    exact ⟨b, forRange_of_le hle, rfl, rfl⟩

/-- `Resize` cuts elements off, or adds values `T()`. -/
theorem Tight.yields_resize (h : v.Tight pool) (n : Nat) (val : α) :
    Yields (v.resize pool n val) fun v' =>
      Holds pool (resizeTo v.content n default) v' ∧ v'.size = n := by
  refine Yields.bind (h.yields_reserve n) ?_
  rintro v1 ⟨h1, hsize, hn⟩
  have hspace := h1.space
  obtain ⟨b, hb, hlen, htake⟩ := fillLoop_spec (m := v1.size) (n := n) h1.size_le_cells (by omega)
  refine Yields.bind_ok hb ?_
  rw [← h1.content]
  exact ⟨htake ▸ h1.with_elements hlen hn, rfl⟩

/-- `Clear` on an empty vector changes nothing. -/
theorem Tight.yields_clear (h : v.Tight pool) (hempty : v.size = 0) :
    Yields v.clear (Tight pool) := by
  have hlim := pool.limit_lt
  have hspace := h.limit
  unfold clear
  rw [hempty, forRange_of_le (Nat.le_refl 0), Nat.add_zero, sizeT_of_lt (by omega)]
  exact (h.with_elements rfl (Nat.zero_le _)).toTight

/-- `Clear` on any other vector makes `space_` greater than the array. -/
theorem Tight.clear_not_bounded (h : v.Tight pool) (hne : v.size ≠ 0) :
    ∃ v', v.clear = .ok v' ∧ ¬ v'.Bounded := by
  have hlim := pool.limit_lt
  have hspace := h.limit
  have hsize := h.size
  obtain ⟨b, hb, hw⟩ := clearLoop_spec 0 v.size (b := v.elements) (Nat.zero_le v.size)
    h.size_le_cells
  refine ⟨⟨0, b, sizeT (v.space + v.size)⟩, ?_, fun hbd => ?_⟩
  · unfold clear
    rw [hb]
    rfl
  · have hover : sizeT (v.space + v.size) ≤ b.cells.length := hbd.space
    rw [sizeT_of_lt (by omega), hw.length, ← h.space] at hover
    omega

/-- There is room for one more element. The array is another one if the old one was full. -/
theorem Tight.yields_growForPush (h : v.Tight pool) :
    Yields (v.growForPush pool) fun v' => Holds pool v.content v' ∧ v'.size = v.size ∧
      v'.size < v'.space ∧ (v.space < v'.space ↔ v.size = v.space) := by
  have hlim := pool.limit_lt
  have hspace := h.limit
  have hsize := h.size
  unfold growForPush
  by_cases h0 : v.space = 0
  · rw [if_pos h0]
    refine (h.yields_reserve 8).mono ?_
    rintro v' ⟨h', heq, hn⟩
    exact ⟨h', heq, by omega, by omega⟩
  · rw [if_neg h0]
    by_cases hfull : v.size = v.space
    · rw [if_pos hfull, sizeT_of_lt (by omega)]
      refine (h.yields_reserve _).mono ?_
      rintro v' ⟨h', heq, hn⟩
      exact ⟨h', heq, by omega, by omega⟩
    · rw [if_neg hfull]
      exact ⟨h.holds, rfl, by omega, by omega⟩

omit [Inhabited α] in
/-- An element is written behind the others. -/
theorem Holds.yields_writeBack {l : List α} (h : Holds pool l v) (hroom : v.size < v.space)
    (d : α) :
    Yields (do
      let elements ← v.elements.write v.size d
      return { v with elements := elements, size := sizeT (v.size + 1) })
      (Holds pool (l ++ [d])) := by
  have hspace := h.space
  have hsize := h.size_lt
  refine Yields.bind_ok (Buffer.write_of_lt (by omega) _) ?_
  rw [sizeT_of_lt (by omega)]
  have hlast : (v.elements.cells.set v.size d).take (v.size + 1) = l ++ [d] := by
    rw [← h.content, List.take_add_one, List.getElem?_set_self (by omega),
      List.take_set_of_le (Nat.le_refl _)]
    rfl
  rw [← hlast]
  exact h.with_elements (b := .array (v.elements.cells.set v.size d)) (by simp) hroom

/-- `PushBack` of a value. -/
theorem Tight.yields_pushBack (h : v.Tight pool) (d : α) :
    Yields (v.pushBack pool (.value d)) (Holds pool (v.content ++ [d])) := by
  refine Yields.bind h.yields_growForPush ?_
  rintro v1 ⟨h1, -, hroom, -⟩
  exact h1.yields_writeBack hroom d

/-- A full vector has no memory for a greater array. -/
theorem Tight.growForPush_noMemory (h : v.Tight pool) (hfull : v.size = v.space)
    (hne : v.size ≠ 0) (hmemory : pool.limit < 2 * v.space) :
    v.growForPush pool = .error .noMemory := by
  have hlimit := pool.limit_lt
  have hspace := h.limit
  unfold growForPush reserve
  rw [if_neg (hfull ▸ hne), if_pos hfull, sizeT_of_lt (by omega), if_neg (by omega),
    Pool.allocate_of_lt hmemory]
  rfl

/-- An element of the vector itself is pushed, and no new array is needed, or there is none. -/
theorem Tight.yields_pushBack_own (h : v.Tight pool) {k : Nat} {a : α}
    (hroom : v.size = v.space → pool.limit < 2 * v.space)
    (ha : v.content[k]? = some a) (stale : Option α) :
    Yields (v.pushBack pool (.own k stale)) (Holds pool (v.content ++ [a])) := by
  obtain ⟨hk, -⟩ := List.getElem?_eq_some_iff.mp ha
  rw [length_content h.size_le_cells] at hk
  by_cases hfull : v.size = v.space
  · unfold pushBack
    rw [h.growForPush_noMemory hfull (by omega) (hroom hfull)]
    trivial
  refine Yields.bind h.yields_growForPush ?_
  rintro v1 ⟨h1, hsame, hlt, hnew⟩
  have hkept : ¬ v.space < v1.space := fun hgrown => hfull (hnew.mp hgrown)
  have hread : (Buffer.Ref.own k stale).read (v.space < v1.space) v1.elements = .ok a := by
    rw [decide_eq_false hkept]
    rw [← h1.content, getElem?_content (by omega)] at ha
    exact Buffer.read_of_getElem? ha
  exact Yields.bind_ok hread (h1.yields_writeBack hlt a)

/-- An element of the vector itself is pushed, and the old array is full. `Reserve` deletes it
before the element is read. -/
theorem Tight.pushBack_own_full (h : v.Tight pool) (hfull : v.size = v.space) {k : Nat}
    (hk : k < v.size) (hmemory : 2 * v.space ≤ pool.limit) :
    v.pushBack pool (.own k none) = .error .deleted := by
  have hlimit := pool.limit_lt
  have hspace := h.limit
  have hgrow : v.growForPush pool = v.reserve pool (2 * v.space) := by
    unfold growForPush
    rw [if_neg (by omega), if_pos hfull, sizeT_of_lt (by omega)]
  obtain ⟨p, hp, -⟩ := copyElements_spec (v := v)
    (p := .array (List.replicate (2 * v.space) default)) h.size_le_cells (by simp; omega)
  have hreserve : v.reserve pool (2 * v.space) =
      .ok { v with elements := p, space := 2 * v.space } := by
    unfold reserve
    rw [if_neg (by omega), Pool.allocate_of_le hmemory]
    show (v.copyElements _ >>= _) = _
    rw [hp]
    rfl
  have hgrown : v.space < 2 * v.space := by omega
  unfold pushBack
  rw [hgrow, hreserve]
  show ((Buffer.Ref.own k none).read (decide (v.space < 2 * v.space)) p >>= _) = _
  rw [decide_eq_true hgrown]
  rfl

/-- Whatever is read, the bookkeeping stays exact. -/
theorem Tight.yields_pushBack_ref (h : v.Tight pool) {d : Buffer.Ref α}
    (hd : ∀ k stale, d = .own k stale → k < v.size) :
    Yields (ignoreDeleted (v.pushBack pool d)) (Tight pool) := by
  unfold pushBack
  rw [ignoreDeleted_bind]
  refine Yields.bind h.yields_growForPush.ignoreDeleted ?_
  rintro v1 ⟨h1, hsame, hroom, -⟩
  rw [ignoreDeleted_bind]
  have hread : Yields (ignoreDeleted (d.read (v.space < v1.space) v1.elements)) fun _ => True := by
    refine Buffer.Ref.yields_read fun k stale hown => ?_
    have hk := hd k stale hown
    have hcell := h1.size_le_cells
    omega
  exact Yields.bind hread fun a _ => (yields_tight (h1.yields_writeBack hroom a)).ignoreDeleted

/-- The last element is dropped after the cells were changed. -/
theorem Tight.holds_dropLast (h : v.Tight pool) (hpos : 0 < v.size) {b : Buffer α}
    (hb : b.cells.length = v.elements.cells.length) :
    b.write (v.size - 1) default = .ok (.array (b.cells.set (v.size - 1) default)) ∧
      Holds pool (b.cells.take v.size).dropLast
        ⟨v.size - 1, .array (b.cells.set (v.size - 1) default), v.space⟩ := by
  have hcell := h.size_le_cells
  have hsize := h.size
  refine ⟨Buffer.write_of_lt (by omega) _, ?_⟩
  have hdrop : (b.cells.set (v.size - 1) default).take (v.size - 1) =
      (b.cells.take v.size).dropLast := by
    rw [List.take_set_of_le (Nat.le_refl _), List.dropLast_eq_take, List.length_take,
      List.take_take]
    congr 1
    omega
  rw [← hdrop]
  exact h.with_elements (b := .array (b.cells.set (v.size - 1) default)) (by simpa using hb)
    (by omega)

/-- `PopBack` takes the last element away, if there is one. -/
theorem Tight.yields_popBack (h : v.Tight pool) :
    Yields v.popBack (Holds pool v.content.dropLast) := by
  unfold popBack
  by_cases hzero : v.size = 0
  · rw [if_pos hzero]
    have hnil : v.content = [] := by
      unfold content
      rw [hzero, List.take_zero]
    exact ⟨h, by rw [hnil]; rfl⟩
  · rw [if_neg hzero]
    obtain ⟨hwrite, hholds⟩ := h.holds_dropLast (Nat.pos_of_ne_zero hzero) rfl
    exact Yields.bind_ok hwrite hholds

/-- The doubled size has room for both operands. -/
theorem add_le_doubled {a b : Nat} (ha : a < 2 ^ 63) (hb : b < 2 ^ 63) : a + b ≤ doubled a b := by
  unfold doubled
  rw [sizeT_of_lt (by omega)]
  omega

/-- The second loop of `operator+` and the loop of `Append`: the elements of `w` are written behind
`n` others. They may be read from the array that is being filled, as long as they stay. -/
theorem appendLoop_spec {w : VectorObj α} (hw : w.size ≤ w.elements.cells.length) {n : Nat}
    {b : Buffer α} (hb : w.size + n ≤ b.cells.length)
    {body : Buffer α → Nat → Except BufferFault (Buffer α)}
    (hbody : ∀ i q, i < w.size → Buffer.Writes n (i + n) (fun j => w.elements.get (j - n)) b q →
      body q i = .ok (.array (q.cells.set (i + n) (w.elements.get i)))) :
    ∃ b', forRange 0 w.size body b = .ok b' ∧ b'.cells.length = b.cells.length ∧
      b'.cells.take (n + w.size) = b.cells.take n ++ w.content := by
  have hloop : ∃ b', forRange 0 w.size body b = .ok b' ∧
      Buffer.Writes (0 + n) (w.size + n) (fun j => w.elements.get (j - n)) b b' := by
    refine forRange_writes n (Nat.zero_le _) hb fun i q _ hi hq => ?_
    rw [Nat.zero_add] at hq
    rw [hbody i q hi hq, Nat.add_sub_cancel]
  obtain ⟨b', hb', hwr⟩ := hloop
  refine ⟨b', hb', hwr.length, ?_⟩
  rw [Nat.add_comm n, hwr.take_eq (by omega) (by omega), Nat.zero_add, Nat.add_sub_cancel]
  congr 1
  exact Buffer.map_get_range' hw n

/-- `Append`, also of the vector itself. -/
theorem Tight.yields_append (h : v.Tight pool) {arg : Arg α} (ha : arg.Tight pool) :
    Yields (v.append pool arg) (Holds pool (v.content ++ (arg.get v).content)) := by
  unfold append
  refine Yields.bind (h.yields_reserve _) ?_
  rintro v1 ⟨h1, hsize, hn⟩
  have harg := ha.get h1.toTight
  have hargsize : (arg.get v1).size = (arg.get v).size := by
    cases arg with
    | self => exact hsize
    | other w => rfl
  have hargcontent : (arg.get v1).content = (arg.get v).content := by
    cases arg with
    | self => exact h1.content
    | other w => rfl
  have hroom := add_le_doubled (ha.get h).size_lt h.size_lt
  have hspace := h1.space
  have hcell := h1.size_le_cells
  have hargcell := harg.size_le_cells
  have hlt := h1.limit
  have hlim := pool.limit_lt
  have hloop : ∃ b, forRange 0 (arg.get v1).size (fun p index => do
      let d ← (arg.get { v1 with elements := p }).elements.read index
      p.write (index + v1.size) d) v1.elements = .ok b ∧
      b.cells.length = v1.elements.cells.length ∧
      b.cells.take (v1.size + (arg.get v1).size) = v1.content ++ (arg.get v1).content := by
    refine appendLoop_spec hargcell (by omega) fun i q hi hq => ?_
    have hread : (arg.get { v1 with elements := q }).elements.read i =
        .ok ((arg.get v1).elements.get i) := by
      cases arg with
      | self =>
        -- The vector itself: the cells below its old size stay.
        show q.read i = _
        have hi' : i < v1.size := hi
        unfold Buffer.read
        rw [hq.get_of_lt hi']
        exact Buffer.read_of_lt (by omega)
      | other w => exact Buffer.read_of_lt (Nat.lt_of_lt_of_le hi hargcell)
    show ((arg.get { v1 with elements := q }).elements.read i >>= _) = _
    rw [hread]
    exact Buffer.write_of_lt (by rw [hq.length]; omega) _
  obtain ⟨b, hb, hlen, htake⟩ := hloop
  refine Yields.bind_ok hb ?_
  rw [sizeT_of_lt (by omega), ← h1.content, ← hargcontent, ← htake]
  exact h1.with_elements hlen (by omega)

/-- `operator+` appends to a copy. -/
theorem Tight.yields_plus (h : v.Tight pool) {arg : Arg α} (ha : arg.Tight pool) :
    Yields (v.plus pool arg) (Holds pool (v.content ++ (arg.get v).content)) := by
  have hw := ha.get h
  have hroom := add_le_doubled hw.size_lt h.size_lt
  have hv63 := h.size_lt
  have hw63 := hw.size_lt
  unfold plus
  refine Yields.bind (holds_construct.yields_reserve _) ?_
  rintro r1 ⟨h1, -, -⟩
  refine Yields.bind (h1.yields_resize _ default) ?_
  rintro r2 ⟨h2, hsize⟩
  rw [sizeT_of_lt (by omega)] at hsize
  have hcell := h2.size_le_cells
  have hargcell := hw.size_le_cells
  obtain ⟨b1, hb1, hw1⟩ := copyElements_spec (p := r2.elements) h.size_le_cells (by omega)
  refine Yields.bind_ok hb1 ?_
  have hlen1 := hw1.length
  have hloop : ∃ b, forRange 0 (arg.get v).size (fun p index => do
      p.write (index + v.size) (← (arg.get v).elements.read index)) b1 = .ok b ∧
      b.cells.length = b1.cells.length ∧
      b.cells.take (v.size + (arg.get v).size) = b1.cells.take v.size ++ (arg.get v).content :=
    appendLoop_spec hargcell (by omega) fun i q hi hq =>
      Buffer.write_read (by omega) (by rw [hq.length]; omega)
  obtain ⟨b, hb, hlen, htake⟩ := hloop
  refine Yields.bind_ok hb ?_
  rw [take_copyElements h.size_le_cells hw1] at htake
  rw [← htake, Nat.add_comm, ← hsize]
  exact h2.with_elements (hlen.trans hlen1) h2.size


/-- An element that exists is the one that is read. -/
theorem content_eq_get (hcell : v.size ≤ v.elements.cells.length) {i : Nat} (hi : i < v.size) :
    v.content[i]? = some (v.elements.get i) := by
  rw [getElem?_content hi]
  unfold Buffer.get
  rw [List.getElem?_eq_getElem (by omega)]
  rfl

/-- `Swap` of two positions, if both are there. -/
theorem Tight.yields_swap (h : v.Tight pool) (i j : Nat) :
    Yields (v.swap i j) fun r => Holds pool (swapAt v.content i j) r.2 := by
  have hcell := h.size_le_cells
  have hlen := length_content hcell
  unfold swap
  by_cases hout : i ≥ v.size ∨ j ≥ v.size
  · rw [if_pos hout]
    refine ⟨h, ?_⟩
    unfold swapAt
    rcases hout with hi | hj
    · rw [List.getElem?_eq_none (by omega)]
    · rw [List.getElem?_eq_none (show v.content.length ≤ j by omega)]
      cases v.content[i]? <;> rfl
  · rw [if_neg hout]
    refine Yields.bind_ok (Buffer.read_of_lt (by omega)) ?_
    refine Yields.bind_ok (Buffer.read_of_lt (by omega)) ?_
    refine Yields.bind_ok (Buffer.write_of_lt (by omega) _) ?_
    refine Yields.bind_ok (Buffer.write_of_lt (by simp; omega) _) ?_
    have hswap : swapAt v.content i j =
        ((v.elements.cells.set i (v.elements.get j)).set j (v.elements.get i)).take v.size := by
      unfold swapAt
      rw [content_eq_get hcell (by omega), content_eq_get hcell (by omega), List.take_set,
        List.take_set]
      rfl
    rw [hswap]
    exact h.with_elements (b := .array _) (by simp) h.size

/-- What `Erase` does to the cells: of the elements behind `i`, all but the last one move. -/
theorem erase_spec (hcell : v.size ≤ v.elements.cells.length) {i : Nat} (hi : i < v.size) :
    ∃ b, v.erase i = .ok (true, ⟨v.size - 1, b, v.space⟩) ∧
      b.cells.length = v.elements.cells.length ∧
      ∀ k, k < v.size - 1 → b.cells[k]? =
        if i ≤ k ∧ k < v.size - 2 then v.elements.cells[k + 1]? else v.elements.cells[k]? := by
  unfold erase
  rw [if_neg (Nat.not_le.mpr hi)]
  by_cases h1 : v.size = 1
  · rw [if_pos h1, Buffer.write_of_lt (by omega)]
    refine ⟨_, rfl, by simp, fun k hk => ?_⟩
    omega
  · rw [if_neg h1]
    have hloop : ∃ b, forRange i (v.size - 2)
        (fun p index => do p.write index (← p.read (index + 1))) v.elements = .ok b ∧
        Buffer.Writes i (v.size - 2) (fun k => v.elements.get (k + 1)) v.elements b := by
      rcases Nat.le_total i (v.size - 2) with hle | hle
      · refine forRange_writes 0 hle (by omega) fun k q _ hk hq => ?_
        -- The next cell was not written yet.
        have hread : q.read (k + 1) = .ok (v.elements.get (k + 1)) := by
          unfold Buffer.read
          rw [hq.get_of_le (by omega)]
          exact Buffer.read_of_lt (by omega)
        rw [hread]
        exact Buffer.write_of_lt (by rw [hq.length]; omega) _
      · exact ⟨_, forRange_of_le hle, Buffer.Writes.refl hle⟩
    obtain ⟨b, hb, hw⟩ := hloop
    have hlen := hw.length
    rw [hb]
    refine ⟨.array (b.cells.set (v.size - 1) default), ?_, by simpa using hlen, fun k hk => ?_⟩
    · show (b.write (v.size - 1) default >>= _) = _
      rw [Buffer.write_of_lt (by omega)]
      rfl
    · rw [Buffer.cells_array, List.getElem?_set_ne (by omega), hw.get]
      by_cases hin : i ≤ k ∧ k < v.size - 2
      · rw [if_pos hin, if_pos hin, ← content_eq_get hcell (by omega),
          getElem?_content (by omega)]
      · rw [if_neg hin, if_neg hin]

/-- `Erase` of a position that is not there. -/
theorem erase_of_ge {i : Nat} (hi : v.size ≤ i) : v.erase i = .ok (false, v) := if_pos hi

/-- `Erase` keeps the array, whatever it shifts. -/
theorem Tight.yields_erase (h : v.Tight pool) (i : Nat) :
    Yields (v.erase i) fun r => r.2.Tight pool := by
  have hsize := h.size
  rcases Nat.lt_or_ge i v.size with hi | hi
  · obtain ⟨b, hb, hlen, -⟩ := erase_spec h.size_le_cells hi
    exact Yields.of_eq_ok hb (h.with_elements hlen (by omega)).toTight
  · exact Yields.of_eq_ok (erase_of_ge hi) h

/-- `EraseUnordered` puts the last element into the place. -/
theorem Tight.yields_eraseUnordered (h : v.Tight pool) (i : Nat) :
    Yields (v.eraseUnordered i) fun r => Holds pool (replaceByLast v.content i) r.2 := by
  have hcell := h.size_le_cells
  have hlen := length_content hcell
  unfold eraseUnordered replaceByLast
  rw [hlen]
  by_cases hi : i ≥ v.size
  · rw [if_pos hi, if_neg (Nat.not_lt.mpr hi)]
    exact h.holds
  · have hlast : v.content.getLast? = some (v.elements.get (v.size - 1)) := by
      rw [List.getLast?_eq_getElem?, hlen, content_eq_get hcell (by omega)]
    rw [if_neg hi, if_pos (Nat.lt_of_not_le hi), hlast]
    show Yields _ fun r : Bool × VectorObj α =>
      Holds pool (v.content.set i (v.elements.get (v.size - 1))).dropLast r.2
    by_cases h1 : v.size = 1
    · -- The only element is dropped.
      have hnil : ∀ l : List α, l.length = v.size → l.dropLast = [] := by
        intro l hl
        exact List.eq_nil_of_length_eq_zero (by rw [List.length_dropLast, hl, h1])
      obtain ⟨hwrite, hholds⟩ := h.holds_dropLast (by omega) (b := v.elements) rfl
      have hold : (v.elements.cells.take v.size).dropLast = [] := hnil _ hlen
      rw [hold] at hholds
      rw [if_pos h1, hnil _ (by rw [List.length_set, hlen])]
      rw [h1] at hwrite hholds ⊢
      exact Yields.bind_ok hwrite hholds
    · rw [if_neg h1]
      refine Yields.bind_ok (Buffer.read_of_lt (by omega)) ?_
      refine Yields.bind_ok (Buffer.write_of_lt (by omega) _) ?_
      obtain ⟨hwrite, hholds⟩ := h.holds_dropLast (by omega)
        (b := .array (v.elements.cells.set i (v.elements.get (v.size - 1)))) (by simp)
      refine Yields.bind_ok hwrite ?_
      rw [Buffer.cells_array, List.take_set] at hholds
      exact hholds

end

end VectorObj

end KernelEventsTrace.Driver.Std
