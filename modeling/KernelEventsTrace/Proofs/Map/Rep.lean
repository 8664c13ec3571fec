import Mathlib.Data.List.Nodup
import Mathlib.Data.List.Perm.Basic
import KernelEventsTrace.Driver.Std.Map

/-!
# `KernelEventsTrace.Proofs.Map.Rep`: the tree that a `Map` represents

The nodes of a `Map` are the nodes of a coloured tree whose elements carry an address. The
tree fixes the content of every cell: `TreeAt get nil par t` says that memory `get` holds
the nodes of `t`, with `par` above the root, and `PathAt get nil hole p` says the same for
the frames of a path. `treeAt_plug` splits a tree at a hole.

`Map.Rep m t` is the representation of a whole map: the tree is in memory below `root_`,
its addresses are distinct, and the sentinel is black and its own child. The parent of the
sentinel is free, because `Transplant` writes it.

`Map.Changes m m' S` is the frame condition of an operation: outside the addresses `S` it
changes nothing. The spec lemmas of the writes (`Map.update_spec`, `Map.relink_spec`,
`Map.setParent_tree_spec`) are what the proofs about rotations and fix-ups use.
-/

set_option autoImplicit false

namespace KernelEventsTrace.RedBlack

variable {α : Type}

/-- The elements of a path: those of its frames and of their siblings. -/
def RbPath.elems (p : RbPath α) : List α := p.flatMap fun f => f.elem :: f.sib.toList

/-- Around the root there is nothing. -/
@[simp] theorem RbPath.elems_nil : RbPath.elems ([] : RbPath α) = [] := rfl

/-- Around a subtree are the element of its parent, its sibling, and what is around the parent. -/
@[simp] theorem RbPath.elems_cons (f : Frame α) (p : RbPath α) :
    RbPath.elems (f :: p) = f.elem :: f.sib.toList ++ RbPath.elems p := by
  simp [RbPath.elems]

/-- What is around a subtree, for a path in two parts. -/
@[simp] theorem RbPath.elems_append (p q : RbPath α) :
    RbPath.elems (p ++ q) = RbPath.elems p ++ RbPath.elems q := by
  simp [RbPath.elems]

/-- Both orders of a join have the same elements. -/
theorem RbTree.toList_join_perm (d : Side) (c : Bool) (t : RbTree α) (a : α) (u : RbTree α) :
    (RbTree.join d c t a u).toList.Perm (a :: (t.toList ++ u.toList)) := by
  cases d with
  | left => exact List.perm_middle
  | right =>
    show (u.toList ++ a :: t.toList).Perm _
    exact List.perm_middle.trans (List.perm_append_comm.cons a)

/-- The elements of a whole tree are those of the path and of the subtree in its hole. -/
theorem RbPath.toList_plug_perm (p : RbPath α) (t : RbTree α) :
    (RbPath.plug p t).toList.Perm (RbPath.elems p ++ t.toList) := by
  induction p generalizing t with
  | nil => simp
  | cons f p ih =>
    rw [RbPath.plug_cons, RbPath.elems_cons]
    refine (ih _).trans ?_
    have hj := RbTree.toList_join_perm f.side f.isRed t f.elem f.sib
    refine (hj.append_left _).trans ?_
    refine List.perm_append_comm.trans ?_
    simp only [List.cons_append, List.append_assoc]
    refine List.Perm.cons _ ?_
    refine List.perm_append_comm.trans ?_
    rw [List.append_assoc]

/-- The path is not longer than the tree is large. -/
theorem RbPath.length_le (p : RbPath α) (t : RbTree α) :
    p.length ≤ (RbPath.plug p t).toList.length := by
  rw [(RbPath.toList_plug_perm p t).length_eq, List.length_append]
  induction p with
  | nil => simp
  | cons f p ih =>
    rw [RbPath.elems_cons]
    simp only [List.length_cons, List.cons_append, List.length_append] at ih ⊢
    omega

end KernelEventsTrace.RedBlack

namespace KernelEventsTrace.Driver.Std

open KernelEventsTrace.RedBlack
open KernelEventsTrace.RedBlack.RbPath (plug)

/-- An element of the represented tree: an entry and the address of its node. -/
structure Entry (K V : Type) where
  addr : Ptr
  key : K
  val : V

variable {K V : Type}

/-- The address of the root, or the sentinel. -/
def treeAddr (nil : Ptr) : RbTree (Entry K V) → Ptr
  | .nil => nil
  | .node _ _ e _ => e.addr

/-- The address of the node above the hole, or the sentinel. -/
def pathAddr (nil : Ptr) : RbPath (Entry K V) → Ptr
  | [] => nil
  | f :: _ => f.elem.addr

/-- The addresses of the nodes of a tree. -/
def treeAddrs (t : RbTree (Entry K V)) : List Ptr := t.toList.map Entry.addr

/-- The addresses of the nodes of a path. -/
def pathAddrs (p : RbPath (Entry K V)) : List Ptr := (RbPath.elems p).map Entry.addr

/-- The empty tree is at the sentinel. -/
@[simp] theorem treeAddr_nil (nil : Ptr) :
    treeAddr nil (RbTree.nil : RbTree (Entry K V)) = nil := rfl

/-- A tree is at the address of its root. -/
@[simp] theorem treeAddr_node (nil : Ptr) (c : Bool) (l : RbTree (Entry K V)) (e : Entry K V)
    (r : RbTree (Entry K V)) : treeAddr nil (.node c l e r) = e.addr := rfl

/-- The same for a join. -/
@[simp] theorem treeAddr_join (nil : Ptr) (d : Side) (c : Bool) (t : RbTree (Entry K V))
    (e : Entry K V) (u : RbTree (Entry K V)) :
    treeAddr nil (RbTree.join d c t e u) = e.addr := by cases d <;> rfl

/-- The colour is not part of the address. -/
@[simp] theorem treeAddr_paint (nil : Ptr) (c : Bool) (t : RbTree (Entry K V)) :
    treeAddr nil (t.paint c) = treeAddr nil t := by cases t <;> rfl

/-- The sentinel is not counted. -/
@[simp] theorem treeAddrs_nil : treeAddrs (RbTree.nil : RbTree (Entry K V)) = [] := rfl

/-- The colour is not part of the addresses. -/
@[simp] theorem treeAddrs_paint (c : Bool) (t : RbTree (Entry K V)) :
    treeAddrs (t.paint c) = treeAddrs t := by simp [treeAddrs]

/-- Above the root is the sentinel. -/
@[simp] theorem pathAddr_nil (nil : Ptr) : pathAddr nil ([] : RbPath (Entry K V)) = nil := rfl

/-- The parent of a subtree is the element of the first frame. -/
@[simp] theorem pathAddr_cons (nil : Ptr) (f : Frame (Entry K V)) (p : RbPath (Entry K V)) :
    pathAddr nil (f :: p) = f.elem.addr := rfl

/-- A path without frames has no nodes. -/
@[simp] theorem pathAddrs_nil : pathAddrs ([] : RbPath (Entry K V)) = [] := rfl

/-- The nodes of a path are the parent, the sibling, and those further up. -/
@[simp] theorem pathAddrs_cons (f : Frame (Entry K V)) (p : RbPath (Entry K V)) :
    pathAddrs (f :: p) = f.elem.addr :: treeAddrs f.sib ++ pathAddrs p := by
  simp [pathAddrs, treeAddrs]

/-- The nodes of a join. -/
theorem mem_treeAddrs_join {a : Ptr} {d : Side} {c : Bool} {t u : RbTree (Entry K V)}
    {e : Entry K V} :
    a ∈ treeAddrs (RbTree.join d c t e u) ↔ a = e.addr ∨ a ∈ treeAddrs t ∨ a ∈ treeAddrs u := by
  have h := ((RbTree.toList_join_perm d c t e u).map Entry.addr).mem_iff (a := a)
  simpa [treeAddrs] using h

/-- The nodes of a join are distinct if those of its parts are, and the parts are apart. -/
theorem nodup_treeAddrs_join {d : Side} {c : Bool} {t u : RbTree (Entry K V)} {e : Entry K V} :
    (treeAddrs (RbTree.join d c t e u)).Nodup ↔
      e.addr ∉ treeAddrs t ∧ e.addr ∉ treeAddrs u ∧ (treeAddrs t).Nodup ∧
        (treeAddrs u).Nodup ∧ (∀ a ∈ treeAddrs t, a ∉ treeAddrs u) := by
  have h := ((RbTree.toList_join_perm d c t e u).map Entry.addr).nodup_iff
  rw [treeAddrs, h]
  simp only [List.map_cons, List.map_append, List.nodup_cons, List.mem_append,
    List.nodup_append', List.disjoint_left, not_or, treeAddrs]
  tauto

/-- The nodes of a tree. -/
theorem mem_treeAddrs_node {a : Ptr} {c : Bool} {l r : RbTree (Entry K V)} {e : Entry K V} :
    a ∈ treeAddrs (.node c l e r) ↔ a = e.addr ∨ a ∈ treeAddrs l ∨ a ∈ treeAddrs r :=
  mem_treeAddrs_join (d := .left)

/-- The nodes of a tree are distinct if those of its subtrees are, and the subtrees are apart. -/
theorem nodup_treeAddrs_node {c : Bool} {l r : RbTree (Entry K V)} {e : Entry K V} :
    (treeAddrs (.node c l e r)).Nodup ↔
      e.addr ∉ treeAddrs l ∧ e.addr ∉ treeAddrs r ∧ (treeAddrs l).Nodup ∧
        (treeAddrs r).Nodup ∧ (∀ a ∈ treeAddrs l, a ∉ treeAddrs r) :=
  nodup_treeAddrs_join (d := .left)

/-- The nodes of a tree that was put into its path. -/
theorem mem_treeAddrs_plug {a : Ptr} {p : RbPath (Entry K V)} {t : RbTree (Entry K V)} :
    a ∈ treeAddrs (plug p t) ↔ a ∈ pathAddrs p ∨ a ∈ treeAddrs t := by
  have h := ((RbPath.toList_plug_perm p t).map Entry.addr).mem_iff (a := a)
  simpa [treeAddrs, pathAddrs] using h

/-- The nodes of the whole tree are distinct if those of the path and of the subtree are, and the
two are apart. -/
theorem nodup_treeAddrs_plug {p : RbPath (Entry K V)} {t : RbTree (Entry K V)} :
    (treeAddrs (plug p t)).Nodup ↔
      (pathAddrs p).Nodup ∧ (treeAddrs t).Nodup ∧ (∀ a ∈ pathAddrs p, a ∉ treeAddrs t) := by
  have h := ((RbPath.toList_plug_perm p t).map Entry.addr).nodup_iff
  rw [treeAddrs, h]
  simp only [List.map_append, List.nodup_append', List.disjoint_left, treeAddrs, pathAddrs]

/-- The root of a subtree is one of its nodes, or the sentinel. -/
theorem treeAddr_mem (nil : Ptr) (t : RbTree (Entry K V)) :
    treeAddr nil t ∈ treeAddrs t ∨ t = .nil := by
  cases t with
  | nil => exact Or.inr rfl
  | node c l e r => exact Or.inl (by simp [treeAddrs])

/-- A link leads to the sentinel or to a node of the subtree below it. -/
theorem treeAddr_eq_nil_or_mem (nil : Ptr) (t : RbTree (Entry K V)) :
    treeAddr nil t = nil ∨ treeAddr nil t ∈ treeAddrs t := by
  rcases treeAddr_mem nil t with hm | rfl
  · exact Or.inr hm
  · exact Or.inl rfl

/-- An address apart from a subtree and the sentinel is not where the subtree starts. -/
theorem ne_treeAddr {nil a : Ptr} {t : RbTree (Entry K V)} (hnil : a ≠ nil)
    (ht : a ∉ treeAddrs t) : a ≠ treeAddr nil t := by
  intro heq
  rcases treeAddr_eq_nil_or_mem nil t with hn | hm
  · exact hnil (heq.trans hn)
  · exact ht (heq ▸ hm)

/-- A nonempty subtree does not start at the sentinel. -/
theorem treeAddr_eq_nil_iff {nil : Ptr} {t : RbTree (Entry K V)} (h : nil ∉ treeAddrs t) :
    treeAddr nil t = nil ↔ t = .nil := by
  constructor
  · intro ht
    rcases treeAddr_mem nil t with hm | hm
    · rw [ht] at hm
      exact absurd hm h
    · exact hm
  · intro ht
    subst ht
    rfl

/-! ### Trees and paths in memory -/

/-- Memory `get` holds the nodes of the tree, with `par` above its root. -/
def TreeAt (get : Ptr → Option (Node K V)) (nil : Ptr) : Ptr → RbTree (Entry K V) → Prop
  | _, .nil => True
  | par, .node c l e r =>
    get e.addr = some { key := e.key, val := e.val, isRed := c, parent := par,
                        left := treeAddr nil l, right := treeAddr nil r } ∧
      TreeAt get nil e.addr l ∧ TreeAt get nil e.addr r

/-- The cell of a node whose child on side `d` is at `p`, and the other one at `q`. -/
def cell (d : Side) (c : Bool) (e : Entry K V) (par p q : Ptr) : Node K V :=
  match d with
  | .left => { key := e.key, val := e.val, isRed := c, parent := par, left := p, right := q }
  | .right => { key := e.key, val := e.val, isRed := c, parent := par, left := q, right := p }

/-- Memory `get` holds the nodes of the path, with `hole` in its hole. -/
def PathAt (get : Ptr → Option (Node K V)) (nil : Ptr) : Ptr → RbPath (Entry K V) → Prop
  | _, [] => True
  | hole, f :: p =>
    get f.elem.addr =
        some (cell f.side f.isRed f.elem (pathAddr nil p) hole (treeAddr nil f.sib)) ∧
      TreeAt get nil f.elem.addr f.sib ∧ PathAt get nil f.elem.addr p

section
variable {d : Side} {c : Bool} {e : Entry K V} {par p q : Ptr}

/-- The colour of a cell. -/
@[simp] theorem cell_isRed : (cell d c e par p q).isRed = c := by cases d <;> rfl

/-- The key of a cell. -/
@[simp] theorem cell_key : (cell d c e par p q).key = e.key := by cases d <;> rfl

/-- The value of a cell. -/
@[simp] theorem cell_val : (cell d c e par p q).val = e.val := by cases d <;> rfl

/-- The parent of a cell. -/
@[simp] theorem cell_parent : (cell d c e par p q).parent = par := by cases d <;> rfl

/-- The child on the side that the cell was made for. -/
@[simp] theorem cell_child : (cell d c e par p q).child d = p := by cases d <;> rfl

/-- The child on the other side. -/
@[simp] theorem cell_child_flip : (cell d c e par p q).child d.flip = q := by cases d <;> rfl

/-- The left child of a cell that was made for the left side. -/
@[simp] theorem cell_left_left : (cell .left c e par p q).left = p := rfl

/-- The right child of a cell that was made for the left side. -/
@[simp] theorem cell_left_right : (cell .left c e par p q).right = q := rfl

/-- A new child on the same side. -/
@[simp] theorem setChild_cell (x : Ptr) :
    Node.setChild d x (cell d c e par p q) = cell d c e par x q := by cases d <;> rfl

/-- A new child on the other side. -/
@[simp] theorem setChild_flip_cell (x : Ptr) :
    Node.setChild d.flip x (cell d c e par p q) = cell d c e par p x := by cases d <;> rfl

/-- A cell with another parent. -/
theorem cell_with_parent (x : Ptr) :
    { cell d c e par p q with parent := x } = cell d c e x p q := by cases d <;> rfl

/-- A cell with another colour. -/
theorem cell_with_isRed (x : Bool) :
    { cell d c e par p q with isRed := x } = cell d x e par p q := by cases d <;> rfl

end

/-- A join is in memory if its cell is, and its parts are below the cell. -/
theorem treeAt_join {get : Ptr → Option (Node K V)} {nil par : Ptr} {d : Side} {c : Bool}
    {t u : RbTree (Entry K V)} {e : Entry K V} :
    TreeAt get nil par (RbTree.join d c t e u) ↔
      get e.addr = some (cell d c e par (treeAddr nil t) (treeAddr nil u)) ∧
        TreeAt get nil e.addr t ∧ TreeAt get nil e.addr u := by
  cases d with
  | left => exact Iff.rfl
  | right =>
    -- `TreeAt` names the left child first.
    show _ ∧ TreeAt get nil e.addr u ∧ TreeAt get nil e.addr t ↔ _
    rw [and_comm (a := TreeAt get nil e.addr u)]
    rfl

/-- A whole tree in memory is its path in memory and the subtree in its hole. -/
theorem treeAt_plug {get : Ptr → Option (Node K V)} {nil : Ptr} {p : RbPath (Entry K V)}
    {t : RbTree (Entry K V)} :
    TreeAt get nil nil (plug p t) ↔
      PathAt get nil (treeAddr nil t) p ∧ TreeAt get nil (pathAddr nil p) t := by
  induction p generalizing t with
  | nil => simp [PathAt]
  | cons f p ih =>
    rw [RbPath.plug_cons, ih]
    show PathAt get nil (treeAddr nil (RbTree.join _ _ _ _ _)) p ∧
      TreeAt get nil (pathAddr nil p) (RbTree.join _ _ _ _ _) ↔ _
    rw [treeAt_join, treeAddr_join]
    simp only [PathAt, pathAddr_cons]
    tauto

/-- A tree stays in memory when its own cells stay. -/
theorem TreeAt.congr {get get' : Ptr → Option (Node K V)} {nil par : Ptr}
    {t : RbTree (Entry K V)} (h : TreeAt get nil par t)
    (hg : ∀ a ∈ treeAddrs t, get' a = get a) : TreeAt get' nil par t := by
  induction t generalizing par with
  | nil => trivial
  | node c l e r ihl ihr =>
    obtain ⟨he, hl, hr⟩ := h
    simp only [treeAddrs, RbTree.toList_node, List.map_append, List.map_cons, List.mem_append,
      List.mem_cons] at hg
    refine ⟨?_, ihl hl fun a ha => hg a (Or.inl ha), ihr hr fun a ha => hg a (Or.inr (Or.inr ha))⟩
    rw [hg _ (Or.inr (Or.inl rfl)), he]

/-- A path stays in memory when its own cells stay. -/
theorem PathAt.congr {get get' : Ptr → Option (Node K V)} {nil hole : Ptr}
    {p : RbPath (Entry K V)} (h : PathAt get nil hole p)
    (hg : ∀ a ∈ pathAddrs p, get' a = get a) : PathAt get' nil hole p := by
  induction p generalizing hole with
  | nil => trivial
  | cons f p ih =>
    obtain ⟨hf, hs, hp⟩ := h
    simp only [pathAddrs_cons, List.cons_append, List.mem_cons, List.mem_append] at hg
    refine ⟨?_, hs.congr fun a ha => hg a (Or.inr (Or.inl ha)),
      ih hp fun a ha => hg a (Or.inr (Or.inr ha))⟩
    rw [hg _ (Or.inl rfl), hf]

/-- Every address of a tree in memory holds a node. -/
theorem TreeAt.get_isSome {get : Ptr → Option (Node K V)} {nil par : Ptr}
    {t : RbTree (Entry K V)} (h : TreeAt get nil par t) {a : Ptr} (ha : a ∈ treeAddrs t) :
    (get a).isSome := by
  induction t generalizing par with
  | nil => simp at ha
  | node c l e r ihl ihr =>
    obtain ⟨he, hl, hr⟩ := h
    simp only [treeAddrs, RbTree.toList_node, List.map_append, List.map_cons, List.mem_append,
      List.mem_cons] at ha
    rcases ha with ha | ha | ha
    · exact ihl hl ha
    · rw [ha, he]
      rfl
    · exact ihr hr ha

namespace Map

/-! ### Representation -/

/-- The map represents the tree: its nodes are in memory below `root_`, at distinct
addresses, and the sentinel is black and its own child. -/
structure Rep (m : Map K V) (t : RbTree (Entry K V)) : Prop where
  root : m.root = treeAddr m.nil t
  cells : TreeAt m.heap.get m.nil m.nil t
  nodup : (treeAddrs t).Nodup
  nil_notMem : m.nil ∉ treeAddrs t
  nilCell : ∃ n, m.heap.get m.nil = some n ∧ n.isRed = false ∧ n.left = m.nil ∧ n.right = m.nil

/-- Outside the addresses `S`, the operation from `m` to `m'` changes nothing. -/
structure Changes (m m' : Map K V) (S : List Ptr) : Prop where
  nil : m'.nil = m.nil
  size : m'.size = m.size
  next : m'.heap.next = m.heap.next
  get : ∀ q, q ∉ S → m'.heap.get q = m.heap.get q

/-- Nothing changes if nothing is done. -/
theorem Changes.refl (m : Map K V) (S : List Ptr) : Changes m m S :=
  ⟨rfl, rfl, rfl, fun _ _ => rfl⟩

/-- Changes one after the other. -/
theorem Changes.trans {m m' m'' : Map K V} {S T : List Ptr} (h : Changes m m' S)
    (h' : Changes m' m'' T) (hT : ∀ q ∈ T, q ∈ S) : Changes m m'' S :=
  ⟨h'.nil.trans h.nil, h'.size.trans h.size, h'.next.trans h.next, fun q hq =>
    (h'.get q fun hq' => hq (hT q hq')).trans (h.get q hq)⟩

/-- More addresses can be allowed to change. -/
theorem Changes.mono {m m' : Map K V} {S T : List Ptr} (h : Changes m m' S)
    (hT : ∀ q ∈ S, q ∈ T) : Changes m m' T :=
  ⟨h.nil, h.size, h.next, fun q hq => h.get q fun hq' => hq (hT q hq')⟩

/-! ### Reads and writes -/

/-- `node` reads the heap. -/
@[simp] theorem node_eq_ok {m : Map K V} {p : Ptr} {n : Node K V} :
    m.node p = .ok n ↔ m.heap.get p = some n := by
  unfold node
  cases m.heap.get p <;> simp

/-- Reading a node that is in memory. -/
theorem node_of_get {m : Map K V} {p : Ptr} {n : Node K V} (h : m.heap.get p = some n) :
    m.node p = .ok n := node_eq_ok.mpr h

/-- A write to a node that is in memory. -/
theorem update_spec {m : Map K V} {p : Ptr} {n : Node K V} (h : m.heap.get p = some n)
    (f : Node K V → Node K V) :
    ∃ m', m.update p f = .ok m' ∧ m'.toMapObj = m.toMapObj ∧ m'.heap.next = m.heap.next ∧
      ∀ q, m'.heap.get q = if q = p then some (f n) else m.heap.get q := by
  refine ⟨{ m with heap := m.heap.put p (some (f n)) }, ?_, rfl, Heap.next_put _ _ _, ?_⟩
  · simp [update, node_of_get h, bind, Except.bind, pure, Except.pure]
  · exact Heap.get_put_of_get h _

/-- `delete` of a node that is in memory. -/
theorem deleteNode_eq {m : Map K V} {p : Ptr} {n : Node K V} (h : m.heap.get p = some n) :
    m.deleteNode p = .ok { m with heap := m.heap.put p none } := by
  simp [deleteNode, node_of_get h, bind, Except.bind, pure, Except.pure]

/-- The node that `new` made. -/
theorem newNode_get (m : Map K V) (key : K) (val : V) :
    (m.newNode key val).2.heap.get m.heap.next = some
      { key := key, val := val, isRed := true,
        parent := nullptr, left := nullptr, right := nullptr } := by
  show (m.heap.alloc _).get _ = _
  rw [Heap.get_alloc, if_pos rfl]

/-- A write to the link of the node above the hole. -/
theorem setChild_frame_spec {m : Map K V} {f : Frame (Entry K V)} {p : RbPath (Entry K V)}
    {u : Ptr} (hp : PathAt m.heap.get m.nil u (f :: p)) (hnd : (pathAddrs (f :: p)).Nodup)
    (v : Ptr) :
    ∃ m', m.setChild f.side f.elem.addr v = .ok m' ∧ m'.toMapObj = m.toMapObj ∧
      m'.heap.next = m.heap.next ∧ PathAt m'.heap.get m.nil v (f :: p) ∧
      ∀ q, q ≠ f.elem.addr → m'.heap.get q = m.heap.get q := by
  obtain ⟨hf, hs, hp⟩ := hp
  simp only [pathAddrs_cons, List.cons_append, List.mem_append, not_or, List.nodup_cons] at hnd
  obtain ⟨m', hm', hobj, hnext, hget⟩ := update_spec hf (Node.setChild f.side v)
  simp only [setChild_cell] at hget
  have hother : ∀ q, q ≠ f.elem.addr → m'.heap.get q = m.heap.get q := fun q hq => by
    rw [hget, if_neg hq]
  refine ⟨m', hm', hobj, hnext, ⟨?_, ?_, ?_⟩, hother⟩
  · rw [hget, if_pos rfl]
  · refine hs.congr fun a ha => hother a ?_
    rintro rfl
    exact hnd.1.1 ha
  · refine hp.congr fun a ha => hother a ?_
    rintro rfl
    exact hnd.1.2 ha

/-- `relink` puts `v` in the place of `u`: in the hole of the path, or at the root. -/
theorem relink_spec {m : Map K V} {p : RbPath (Entry K V)} {u v : Ptr} {n : Node K V}
    (hu : m.heap.get u = some n) (hpar : n.parent = pathAddr m.nil p)
    (hp : PathAt m.heap.get m.nil u p) (hnil : m.nil ∉ pathAddrs p)
    (hdis : (pathAddrs p).Nodup) (hup : u ∉ pathAddrs p) (hun : u ≠ m.nil) :
    ∃ m', m.relink u v = .ok m' ∧ m'.nil = m.nil ∧ m'.size = m.size ∧
      m'.heap.next = m.heap.next ∧ m'.root = (if p = [] then v else m.root) ∧
      PathAt m'.heap.get m.nil v p ∧ ∀ q, q ∉ pathAddrs p → m'.heap.get q = m.heap.get q := by
  cases p with
  | nil =>
    -- `u` is the root. No cell is written.
    refine ⟨{ m with root := v }, ?_, rfl, rfl, rfl, rfl, trivial, fun q _ => rfl⟩
    simp [relink, node_of_get hu, hpar, bind, Except.bind, pure, Except.pure]
  | cons f p =>
    obtain ⟨m', hm', hobj, hnext, hp', hother⟩ := setChild_frame_spec hp hdis v
    obtain ⟨hf, -, -⟩ := hp
    simp only [pathAddrs_cons, List.cons_append, List.mem_cons, List.mem_append, not_or]
      at hnil hup
    have hfn : f.elem.addr ≠ m.nil := fun h => hnil.1 h.symm
    -- The test of `relink` finds the side of the hole.
    have hside : (u = (cell f.side f.isRed f.elem (pathAddr m.nil p) u
        (treeAddr m.nil f.sib)).left) ↔ f.side = .left := by
      cases hd : f.side with
      | left => simp [cell]
      | right =>
        simp only [cell, reduceCtorEq, iff_false]
        exact ne_treeAddr hun hup.2.1
    have hrun : m.relink u v = .ok m' := by
      unfold relink
      simp only [node_of_get hu, hpar, pathAddr_cons, bind, Except.bind, hfn, if_false,
        node_of_get hf]
      cases hd : f.side with
      | left =>
        rw [hd] at hside hm'
        rw [if_pos (hside.mpr rfl)]
        exact hm'
      | right =>
        rw [hd] at hside hm'
        rw [if_neg (fun h => by simpa using hside.mp h)]
        exact hm'
    refine ⟨m', hrun, congrArg MapObj.nil hobj, congrArg MapObj.size hobj, hnext,
      by simpa using congrArg MapObj.root hobj, hp', ?_⟩
    intro q hq
    refine hother q ?_
    rintro rfl
    exact hq (by simp)

end Map

end KernelEventsTrace.Driver.Std
