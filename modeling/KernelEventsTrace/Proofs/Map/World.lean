import Mathlib.Logic.Function.Basic
import KernelEventsTrace.Proofs.Map.Refinement

/-!
# `KernelEventsTrace.Proofs.Map.World`: every reachable map is a red-black tree

`World.Inv` is the invariant of a memory with several maps: each of them is well-formed, and
no two of them share a node or a sentinel. Every step keeps it (`Inv.step`), because a member
function changes its own nodes only.

* `World.Reachable.maps_redBlack`: in every reachable world every map is well-formed, its height
  bounds the rounds of a search and the depth of `Clear`, and every further step succeeds.
* `execAll_construct`: a sequence of calls on a default-constructed map returns what it
  returns on the empty finite map.
-/

set_option autoImplicit false

namespace KernelEventsTrace.Driver.Std

open KernelEventsTrace.RedBlack
open KernelEventsTrace.RedBlack.RbPath (plug)
open KernelEventsTrace.OrdMap

variable {K V : Type} {compare : K → K → Bool}

/-! ### Elements -/

namespace Map

/-- Every node of a subtree whose root is an element is an element. -/
theorem Element.of_subtree {m : Map K V} {t : RbTree (Entry K V)} {par : Ptr}
    (ht : TreeAt m.heap.get m.nil par t) (hnil : m.nil ∉ treeAddrs t)
    (hroot : t ≠ .nil → m.Element (treeAddr m.nil t)) :
    ∀ a ∈ treeAddrs t, m.Element a := by
  induction t generalizing par with
  | nil =>
    intro a ha
    simp at ha
  | node c l e r ihl ihr =>
    obtain ⟨he, hl, hr⟩ := ht
    simp only [mem_treeAddrs_node, not_or] at hnil
    have hel : m.Element e.addr := hroot (by simp)
    have hchild : ∀ d (s : RbTree (Entry K V)), m.nil ∉ treeAddrs s →
        Node.child d { key := e.key, val := e.val, isRed := c, parent := par,
                       left := treeAddr m.nil l, right := treeAddr m.nil r }
          = treeAddr m.nil s →
        s ≠ .nil → m.Element (treeAddr m.nil s) := by
      intro d s hs heq hne
      rw [← heq]
      refine Element.child d hel (node_of_get he) ?_
      rw [heq]
      exact fun h => hne ((treeAddr_eq_nil_iff hs).mp h)
    intro a ha
    rcases mem_treeAddrs_node.mp ha with rfl | ha | ha
    · exact hel
    · exact ihl hl hnil.2.1 (hchild .left l hnil.2.1 rfl) a ha
    · exact ihr hr hnil.2.2 (hchild .right r hnil.2.2 rfl) a ha

/-- The elements of a map are the nodes of the tree that it represents. -/
theorem Rep.element_iff {m : Map K V} {t : RbTree (Entry K V)} (h : m.Rep t) {a : Ptr} :
    m.Element a ↔ a ∈ treeAddrs t := by
  constructor
  · intro ha
    induction ha with
    | root hne =>
      rw [h.root] at hne ⊢
      exact (treeAddr_eq_nil_or_mem m.nil t).resolve_left hne
    | @child p n d _ hn hne ih =>
      -- The child of a node of the tree is the root of one of its subtrees.
      obtain ⟨e, he, rfl⟩ := List.mem_map.mp ih
      obtain ⟨pre, post, hl⟩ := List.append_of_mem he
      obtain ⟨q, c, l, r, rfl, -, -⟩ := RbPath.exists_plug_of_toList hl
      have hnode := h.node_join (d := .left)
      obtain rfl := Except.ok.inj (hn.symm.trans hnode)
      have hsub : ∀ s : RbTree (Entry K V), treeAddr m.nil s ≠ m.nil →
          (∀ b ∈ treeAddrs s, b ∈ treeAddrs (.node c l e r)) →
          treeAddr m.nil s ∈ treeAddrs (plug q (.node c l e r)) := by
        intro s hs hmem
        refine mem_treeAddrs_plug.mpr (Or.inr (hmem _ ?_))
        exact (treeAddr_eq_nil_or_mem m.nil s).resolve_left hs
      cases d with
      | left =>
        exact hsub l hne fun b hb => mem_treeAddrs_node.mpr (Or.inr (Or.inl hb))
      | right =>
        exact hsub r hne fun b hb => mem_treeAddrs_node.mpr (Or.inr (Or.inr hb))
  · have hroot : t ≠ .nil → m.Element (treeAddr m.nil t) := by
      intro hne
      rw [← h.root]
      refine Element.root fun heq => hne ?_
      rw [h.root] at heq
      exact (treeAddr_eq_nil_iff h.nil_notMem).mp heq
    exact Element.of_subtree h.cells h.nil_notMem hroot a

end Map

/-! ### Several maps in one memory -/

namespace World

/-- The addresses a map owns: its sentinel and its nodes. -/
def footprint (o : MapObj) (t : RbTree (Entry K V)) : List Ptr := o.nil :: treeAddrs t

/-- Memory that was allocated and that a map does not own is not its own after a call either, and
is kept: the map owns what it owned before, and what it has allocated. -/
theorem outside_of_evolves {m m' : Map K V} {t t' : RbTree (Entry K V)} (hev : m.Evolves t m' t')
    {a : Ptr} (hlt : a < m.heap.next) (hout : a ∉ footprint m.toMapObj t) :
    a ∉ footprint m'.toMapObj t' ∧ m'.heap.get a = m.heap.get a := by
  simp only [footprint, List.mem_cons, not_or] at hout
  constructor
  · intro hmem
    rcases List.mem_cons.mp hmem with heq | hmem
    · exact hout.1 (heq.trans hev.nil)
    · rcases hev.fresh a hmem with hold | hfresh
      · exact hout.2 hold
      · exact Nat.not_le_of_lt hlt hfresh
  · exact hev.frame a hlt hout.1 hout.2

/-- A new map owns its sentinel only, which is new. -/
theorem outside_of_construct [Inhabited K] [Inhabited V] (heap : Heap K V) {a : Ptr}
    (hlt : a < heap.next) :
    a ∉ footprint (Map.construct heap : Map K V).toMapObj (.nil : RbTree (Entry K V)) ∧
      (Map.construct heap : Map K V).heap.get a = heap.get a := by
  have hne : a ≠ heap.next := Nat.ne_of_lt hlt
  constructor
  · intro hmem
    exact hne (List.mem_singleton.mp hmem)
  · show (heap.alloc _).get a = _
    rw [Heap.get_alloc, if_neg hne]

/-- Every map of the world is well-formed, and no two of them share an address. -/
structure Inv (compare : K → K → Bool) (w : World K V) (ts : Nat → RbTree (Entry K V)) : Prop where
  wf : ∀ i m, w.map i = some m → m.WF compare (ts i)
  apart : ∀ i j o o', i ≠ j → w.maps[i]? = some o → w.maps[j]? = some o' →
    ∀ a ∈ footprint o (ts i), a ∉ footprint o' (ts j)

/-- The map in a slot is its object with the common heap. -/
theorem map_eq_some {w : World K V} {i : Nat} {m : Map K V} :
    w.map i = some m ↔ w.maps[i]? = some m.toMapObj ∧ m.heap = w.heap := by
  unfold map
  cases h : w.maps[i]? with
  | none => simp
  | some o =>
    constructor
    · intro hm
      cases hm
      exact ⟨rfl, rfl⟩
    · rintro ⟨ho, hh⟩
      cases ho
      rw [Option.map_some, ← hh]

/-- A memory without maps. -/
theorem inv_start (h : Heap K V) : Inv compare { heap := h, maps := [] } fun _ => .nil :=
  ⟨fun i m hm => by simp [map] at hm, fun i j o o' _ ho => by simp at ho⟩

/-- What a map owns has been allocated. -/
theorem Inv.lt_next {w : World K V} {ts : Nat → RbTree (Entry K V)} (h : w.Inv compare ts)
    {i : Nat} {o : MapObj} (ho : w.maps[i]? = some o) :
    ∀ a ∈ footprint o (ts i), a < w.heap.next := by
  have hwf := h.wf i ⟨o, w.heap⟩ (map_eq_some.mpr ⟨ho, rfl⟩)
  intro a ha
  rcases List.mem_cons.mp ha with rfl | ha
  · exact hwf.rep.nil_lt_next
  · exact hwf.rep.lt_next ha

/-- One map of a world is another one, or new. The other maps do not see the change if they own
nothing that it owns, and what they own is kept. -/
theorem Inv.update {w w' : World K V} {ts : Nat → RbTree (Entry K V)} (h : w.Inv compare ts)
    {i : Nat} {o : MapObj} {t : RbTree (Entry K V)} (hself : w'.maps[i]? = some o)
    (hother : ∀ j, j ≠ i → w'.maps[j]? = w.maps[j]?)
    (hwf : Map.WF compare { o with heap := w'.heap } t)
    (hkeep : ∀ j oj, j ≠ i → w.maps[j]? = some oj → ∀ a ∈ footprint oj (ts j),
      a ∉ footprint o t ∧ w'.heap.get a = w.heap.get a) :
    w'.Inv compare (Function.update ts i t) := by
  constructor
  · intro j m hm
    obtain ⟨hj, hheap⟩ := map_eq_some.mp hm
    obtain ⟨oj, heap⟩ := m
    obtain rfl : heap = w'.heap := hheap
    by_cases hji : j = i
    · subst hji
      obtain rfl := Option.some.inj (hself.symm.trans hj)
      rw [Function.update_self]
      exact hwf
    · rw [hother j hji] at hj
      rw [Function.update_of_ne hji]
      have hwfj := h.wf j ⟨oj, w.heap⟩ (map_eq_some.mpr ⟨hj, rfl⟩)
      exact hwfj.congr fun a ha => (hkeep j _ hji hj a (List.mem_cons.mpr ha)).2
  · intro j k oj ok hjk hj hk a ha ha'
    by_cases hji : j = i
    · subst hji
      have hkj : k ≠ j := fun heq => hjk heq.symm
      obtain rfl := Option.some.inj (hself.symm.trans hj)
      rw [hother k hkj] at hk
      rw [Function.update_self] at ha
      rw [Function.update_of_ne hkj] at ha'
      exact (hkeep k ok hkj hk a ha').1 ha
    · rw [hother j hji] at hj
      rw [Function.update_of_ne hji] at ha
      by_cases hki : k = i
      · subst hki
        obtain rfl := Option.some.inj (hself.symm.trans hk)
        rw [Function.update_self] at ha'
        exact (hkeep j oj hji hj a ha).1 ha'
      · rw [hother k hki] at hk
        rw [Function.update_of_ne hki] at ha'
        exact h.apart j k oj ok hjk hj hk a ha ha'

/-- A world with another map in the place of a map that evolved into it. -/
theorem Inv.put {w : World K V} {ts : Nat → RbTree (Entry K V)} (h : w.Inv compare ts) {i : Nat}
    {m m' : Map K V} {t' : RbTree (Entry K V)} (hm : w.map i = some m) (hwf : m'.WF compare t')
    (hev : m.Evolves (ts i) m' t') :
    (w.put i m').Inv compare (Function.update ts i t') := by
  obtain ⟨hobj, hheap⟩ := map_eq_some.mp hm
  have hlen : i < w.maps.length := by
    obtain ⟨hlt, -⟩ := List.getElem?_eq_some_iff.mp hobj
    exact hlt
  apply h.update (o := m'.toMapObj)
  · simp [World.put, hlen]
  · intro j hj
    simp [World.put, hj.symm]
  · exact hwf
  · intro j o hj ho a ha
    have hlt := h.lt_next ho a ha
    rw [← hheap] at hlt ⊢
    exact outside_of_evolves hev hlt (h.apart j i o m.toMapObj hj ho hobj a ha)

/-- A world with one more, empty map. -/
theorem Inv.construct [Inhabited K] [Inhabited V] {w : World K V} {ts : Nat → RbTree (Entry K V)}
    (h : w.Inv compare ts) :
    World.Inv compare { heap := (Map.construct w.heap : Map K V).heap,
                        maps := w.maps ++ [(Map.construct w.heap : Map K V).toMapObj] }
      (Function.update ts w.maps.length .nil) := by
  apply h.update (o := (Map.construct w.heap : Map K V).toMapObj)
  · exact List.getElem?_concat_length
  · intro j hj
    rcases Nat.lt_or_gt_of_ne hj with hlt | hgt
    · exact List.getElem?_append_left hlt
    · rw [List.getElem?_eq_none (Nat.le_of_lt hgt), List.getElem?_eq_none]
      rw [List.length_append]
      exact hgt
  · exact Map.construct_spec compare w.heap
  · intro j o hj ho a ha
    exact outside_of_construct w.heap (h.lt_next ho a ha)

/-! ### Reachable worlds -/

/-- A step keeps the invariant, and an enabled step succeeds. -/
theorem Inv.step [StrictWeak compare] [Inhabited K] [Inhabited V] {w : World K V}
    {ts : Nat → RbTree (Entry K V)} (h : w.Inv compare ts) {a : Act K V} (ha : w.Enabled a) :
    ∃ w' ts', w.step compare a = .ok w' ∧ w'.Inv compare ts' := by
  cases a with
  | construct => exact ⟨_, _, rfl, h.construct⟩
  | call i op =>
    cases hm : w.map i with
    | none => exact ⟨w, ts, by simp only [World.step, hm], h⟩
    | some m =>
      obtain ⟨F, hF⟩ := Holds.exists_of_pairwise (h.wf i m hm).sorted.pairwise
      obtain ⟨m', t', hm', hwf, hev, -⟩ := Map.exec_spec (h.wf i m hm) hF op
      refine ⟨w.put i m', _, ?_, h.put hm hwf hev⟩
      simp only [World.step, hm, hm', bind, Except.bind, pure, Except.pure]
  | eraseAt i position =>
    cases hm : w.map i with
    | none => exact ⟨w, ts, by simp only [World.step, hm], h⟩
    | some m =>
      have hwf := h.wf i m hm
      obtain ⟨e, he, rfl⟩ := List.mem_map.mp (hwf.rep.element_iff.mp (ha m hm))
      obtain ⟨pre, post, hl⟩ := List.append_of_mem he
      obtain ⟨x, m', t', hm', hwf', hev, -⟩ := Map.eraseAt_spec hwf hl
      refine ⟨w.put i m', _, ?_, h.put hm hwf' hev⟩
      simp only [World.step, hm, hm', bind, Except.bind, pure, Except.pure]

/-- Every reachable world satisfies the invariant. -/
theorem Reachable.inv [StrictWeak compare] [Inhabited K] [Inhabited V] {w : World K V}
    (h : w.Reachable compare) : ∃ ts, w.Inv compare ts := by
  induction h with
  | start h => exact ⟨_, inv_start h⟩
  | step a _ ha hstep ih =>
    obtain ⟨ts, hts⟩ := ih
    obtain ⟨w', ts', hw', hinv⟩ := hts.step ha
    obtain rfl := Except.ok.inj (hstep.symm.trans hw')
    exact ⟨ts', hinv⟩

/-- In every reachable world every map is a sorted red-black tree that links its nodes both
ways, ends at its black sentinel, and counts its nodes. Twice the logarithm of the size bounds
the height, the depth of `Clear` and the length of every search. Every further call on the
maps succeeds: no step reads a null or deleted node or rotates around the sentinel. -/
theorem Reachable.maps_redBlack [StrictWeak compare] [Inhabited K] [Inhabited V] {w : World K V}
    (h : w.Reachable compare) :
    (∀ i m, w.map i = some m → ∃ t, m.WF compare t ∧
        t.height ≤ 2 * Nat.log2 (m.size + 1) ∧
        (∃ m', m.clearNode (2 * Nat.log2 (m.size + 1) + 1) m.root = .ok m') ∧
        ∀ key, ∃ s, Map.searchLoop compare (2 * Nat.log2 (m.size + 1) + 1) m key m.root m.nil
          = .ok s) ∧
      ∀ a, w.Enabled a → ∃ w', w.step compare a = .ok w' := by
  obtain ⟨ts, hinv⟩ := h.inv
  refine ⟨?_, ?_⟩
  · intro i m hm
    have hwf := hinv.wf i m hm
    have hheight := hwf.height_le
    refine ⟨ts i, hwf, hheight, ?_, ?_⟩
    · obtain ⟨m', hm', -⟩ := Map.clearNode_spec (2 * Nat.log2 (m.size + 1) + 1) hwf.rep.cells
        hwf.rep.nodup hwf.rep.nil_notMem (by omega)
      rw [hwf.rep.root]
      exact ⟨m', hm'⟩
    · intro key
      obtain ⟨s, hs, -⟩ := hwf.search key (n := 2 * Nat.log2 (m.size + 1) + 1) (by omega)
      exact ⟨s, hs⟩
  · intro a ha
    obtain ⟨w', -, hw', -⟩ := hinv.step ha
    exact ⟨w', hw'⟩

/-- Two maps in one memory: the first has the keys 3, 5 and 7, the second is empty. -/
def sample : World Nat Nat where
  heap := ⟨[some ⟨0, 0, false, 1, 1, 1⟩, some ⟨5, 50, false, 1, 4, 3⟩,
    some ⟨7, 70, true, 2, 1, 1⟩, some ⟨3, 30, true, 2, 1, 1⟩, some ⟨0, 0, false, 5, 5, 5⟩]⟩
  maps := [⟨2, 1, 3⟩, ⟨5, 5, 0⟩]

/-- The first map of `sample`. -/
def sampleMap : Map Nat Nat := { root := 2, nil := 1, size := 3, heap := sample.heap }

/-- Three insertions and a second construction lead there. -/
theorem sample_reachable : sample.Reachable fun a b => decide (a < b) :=
  .step .construct (.step (.call 0 (.insert 3 30)) (.step (.call 0 (.insert 7 70))
    (.step (.call 0 (.insert 5 50)) (.step .construct (.start ⟨[]⟩)
      trivial rfl) trivial rfl) trivial rfl) trivial rfl) trivial rfl

/-- The first map of `sample` is a red-black tree of height at most 4. -/
theorem sample_maps_redBlack :
    ∃ t, sampleMap.WF (fun a b => decide (a < b)) t ∧ t.height ≤ 4 := by
  obtain ⟨t, hwf, hheight, -⟩ := sample_reachable.maps_redBlack.1 0 sampleMap rfl
  exact ⟨t, hwf, hheight⟩

end World

/-- A sequence of calls on a default-constructed map succeeds and returns what it returns on
the empty finite map over the classes of equivalent keys. -/
theorem Map.execAll_construct [StrictWeak compare] [Inhabited K] [Inhabited V] (h : Heap K V)
    (ops : List (Op K V)) :
    ∃ m', (Map.construct h).execAll compare ops =
      .ok ((Spec.execAll (FMap.empty : FMap compare V) ops).1, m') := by
  obtain ⟨m', t', hm', -, -⟩ := execAll_spec ops (construct_spec compare h) Holds.nil
  exact ⟨m', hm'⟩

/-- A run over natural numbers in which a key is inserted twice, read and erased. -/
theorem Map.execAll_construct_nat : ∃ m', (Map.construct ⟨[]⟩ : Map Nat Nat).execAll
    (fun a b => decide (a < b)) [.insert 5 50, .insert 5 60, .index 7, .erase 5, .find 5, .size] =
    .ok ((Spec.execAll (FMap.empty : FMap (fun a b : Nat => decide (a < b)) Nat)
      [.insert 5 50, .insert 5 60, .index 7, .erase 5, .find 5, .size]).1, m') :=
  Map.execAll_construct ⟨[]⟩ _

end KernelEventsTrace.Driver.Std
