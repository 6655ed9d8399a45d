import GclProofs.Collector

/-!
`register_object`, the root stack and `init_globals` of `gcl.c`, and the heap invariant each
keeps.
-/

namespace GclProofs

def nilRoot : Cell := 0

def operandStack : Cell := 1

def contStack : Cell := 2

abbrev Malloc := Collector → Addr

def Malloc.NeverFails (malloc : Malloc) : Prop := ∀ c, malloc c ≠ 0

def Collector.linkRoot (c : Collector) (root : Cell) : Collector := { c with rootsHead := root :: c.rootsHead }

def pushRoot (malloc : Malloc) (c : Collector) (root : Cell) : Except Fault Collector :=
  if malloc c = 0 then throw .outOfMemory else pure (c.linkRoot root)

section pushRoot

variable {malloc : Malloc} {c c' : Collector} {root : Cell}

@[simp] theorem Collector.linkRoot_rootsHead : (c.linkRoot root).rootsHead = root :: c.rootsHead := rfl

@[simp] theorem Collector.linkRoot_heap : (c.linkRoot root).heap = c.heap := rfl

@[simp] theorem Collector.linkRoot_heapHead : (c.linkRoot root).heapHead = c.heapHead := rfl

@[simp] theorem Collector.linkRoot_cells : (c.linkRoot root).cells = c.cells := rfl

@[simp] theorem Collector.linkRoot_objectCount : (c.linkRoot root).objectCount = c.objectCount := rfl

theorem pushRoot_of_ne (h : malloc c ≠ 0) : pushRoot malloc c root = .ok (c.linkRoot root) := by
  simp [pushRoot, h]; rfl

theorem pushRoot_eq_ok (h : pushRoot malloc c root = .ok c') : malloc c ≠ 0 ∧ c' = c.linkRoot root := by
  unfold pushRoot at h
  split at h
  · cases h
  · exact ⟨‹_›, (Except.ok.inj h).symm⟩

theorem pushRoot_eq_error {f : Fault} (h : pushRoot malloc c root = .error f) : f = .outOfMemory := by
  unfold pushRoot at h
  split at h
  · cases h; rfl
  · cases h

theorem pushRoot_bind {α : Type} {k : Collector → Except Fault α} :
    (pushRoot malloc c root >>= k) = if malloc c = 0 then .error .outOfMemory else k (c.linkRoot root) := by
  unfold pushRoot
  split <;> rfl

theorem bind_pushRoot {α : Type} {P : Except Fault α → Prop} {k : Collector → Except Fault α}
    (hfail : P (.error .outOfMemory)) (hk : P (k (c.linkRoot root))) : P (pushRoot malloc c root >>= k) := by
  rw [pushRoot_bind]
  split
  exacts [hfail, hk]

end pushRoot

def setRoot (c : Collector) (root : Cell) (value : Addr) : Collector :=
  { c with cells := Function.update c.cells root value }

def popRoot (c : Collector) : Except Fault Collector :=
  match c.rootsHead with
  | [] => throw (.error "stack_pop: stack underflow")
  | _ :: rest => pure { c with rootsHead := rest }

def Collector.linkObject (c : Collector) (o : Addr) (cls : Cls) : Collector :=
  { c with
    heap := { c.heap with marked := Function.update c.heap.marked o false,
                          cls := Function.update c.heap.cls o cls }
    heapHead := o :: c.heapHead
    objectCount := c.objectCount + 1 }

def registerObject (c : Collector) (o : Addr) (cls : Cls) : Except Fault Collector := do
  let c ← if c.objectCount = 10000 then Prod.fst <$> gc c else pure c
  if c.objectCount = 10000 then throw (.error "register_object: object count limit reached.")
  pure (c.linkObject o cls)

def Collector.initial (heap : Heap) (cells : Cell → Addr) : Collector where
  heap := heap
  heapHead := []
  rootsHead := []
  objectCount := 0
  cells := Function.update (Function.update (Function.update cells nilRoot nilValue) operandStack nilValue)
    contStack nilValue

def initGlobals (malloc : Malloc) (c : Collector) : Except Fault Collector := do
  let c ← registerObject c nilValue .nil
  let c ← pushRoot malloc c nilRoot
  let c ← pushRoot malloc c operandStack
  pushRoot malloc c contStack

namespace Collector

structure HeapInv (c : Collector) extends HeapShape c : Prop where
  count : c.objectCount = c.heapHead.length
  bound : c.objectCount ≤ 10000

end Collector

namespace Collector

section linkObject

variable (c : Collector) (o : Addr) (cls : Cls)

@[simp] theorem linkObject_heapHead : (c.linkObject o cls).heapHead = o :: c.heapHead := rfl

@[simp] theorem linkObject_rootsHead : (c.linkObject o cls).rootsHead = c.rootsHead := rfl

@[simp] theorem linkObject_cells : (c.linkObject o cls).cells = c.cells := rfl

@[simp] theorem linkObject_objectCount : (c.linkObject o cls).objectCount = c.objectCount + 1 := rfl

@[simp] theorem linkObject_marked : (c.linkObject o cls).heap.marked = Function.update c.heap.marked o false :=
  rfl

@[simp] theorem linkObject_cls : (c.linkObject o cls).heap.cls = Function.update c.heap.cls o cls := rfl

theorem linkObject_children (x : Addr) :
    (c.linkObject o cls).heap.children x = if x = o then c.heap.childrenAs cls o else c.heap.children x := by
  by_cases hx : x = o
  · subst hx; simp [Heap.children, Heap.childrenAs, linkObject]
  · simp [Heap.children, Heap.childrenAs, linkObject, hx]

end linkObject

end Collector

theorem registerObject_of_lt {c : Collector} (h : c.objectCount ≠ 10000) (o : Addr) (cls : Cls) :
    registerObject c o cls = .ok (c.linkObject o cls) := by
  simp [registerObject, h]; rfl

theorem registerObject_of_cap {c c1 : Collector} {d : List Addr} (h : c.objectCount = 10000)
    (hgc : gc c = .ok (c1, d)) (o : Addr) (cls : Cls) :
    registerObject c o cls =
      if c1.objectCount = 10000 then .error (.error "register_object: object count limit reached.")
      else .ok (c1.linkObject o cls) := by
  by_cases h1 : c1.objectCount = 10000
  · simp [registerObject, h, hgc, h1, Functor.map, Except.map, bind, Except.bind]
  · simp [registerObject, h, hgc, h1, Functor.map, Except.map, bind, Except.bind]; rfl

theorem registerObject_eq_ok {c c' : Collector} {o : Addr} {cls : Cls}
    (h : registerObject c o cls = .ok c') :
    ∃ c1, (c1 = c ∨ ∃ d, gc c = .ok (c1, d)) ∧ c1.objectCount ≠ 10000 ∧ c' = c1.linkObject o cls := by
  by_cases hcap : c.objectCount = 10000
  · cases hgc : gc c with
    | error e => simp [registerObject, hcap, hgc, Functor.map, Except.map, bind, Except.bind] at h
    | ok r =>
      obtain ⟨c1, d⟩ := r
      rw [registerObject_of_cap hcap hgc] at h
      split at h
      · cases h
      · exact ⟨c1, .inr ⟨d, rfl⟩, ‹_›, (Except.ok.inj h).symm⟩
  · rw [registerObject_of_lt hcap] at h
    exact ⟨c, .inl rfl, hcap, (Except.ok.inj h).symm⟩

theorem heapInv_linkRoot {c : Collector} (hinv : c.HeapInv) {root : Cell} (h : c.cells root ∈ c.heapHead) :
    (c.linkRoot root).HeapInv :=
  { hinv with roots := fun cell hc => (List.mem_cons.1 hc).elim (fun e => e ▸ h) (hinv.roots cell) }

theorem heapInv_setRoot {c : Collector} (hinv : c.HeapInv) {root : Cell} {value : Addr}
    (h : root ∈ c.rootsHead → value ∈ c.heapHead) : (setRoot c root value).HeapInv :=
  { hinv with
    roots := fun cell hc => by
      by_cases e : cell = root
      · subst e; simpa [setRoot] using h hc
      · simpa [setRoot, e] using hinv.roots cell hc }

theorem popRoot_eq_ok {c c' : Collector} (h : popRoot c = .ok c') :
    c.rootsHead ≠ [] ∧ c' = { c with rootsHead := c.rootsHead.tail } := by
  unfold popRoot at h
  split at h
  · cases h
  · rename_i rest hr
    cases h
    simp [hr]

theorem heapInv_popRoot {c c' : Collector} (hinv : c.HeapInv) (h : popRoot c = .ok c') : c'.HeapInv := by
  obtain ⟨-, rfl⟩ := popRoot_eq_ok h
  exact { hinv with roots := fun cell hc => hinv.roots cell (List.mem_of_mem_tail hc) }

theorem heapInv_linkObject {c : Collector} (hinv : c.HeapInv) (hcap : c.objectCount ≠ 10000) {o : Addr}
    (ho : o ∉ c.heapHead) (ho0 : o ≠ 0) {cls : Cls} (hch : ∀ y ∈ c.heap.childrenAs cls o, y ∈ c.heapHead) :
    (c.linkObject o cls).HeapInv where
  nodup := by simpa using ⟨ho, hinv.nodup⟩
  nonzero := by simpa [Ne.symm ho0] using hinv.nonzero
  unmarked x hx := by
    by_cases e : x = o
    · simp [e]
    · simpa [e] using hinv.unmarked x ((List.mem_cons.1 hx).resolve_left e)
  closed x hx y hy := by
    rw [Collector.linkObject_children] at hy
    split at hy
    · exact List.mem_cons_of_mem _ (hch y hy)
    · exact List.mem_cons_of_mem _ (hinv.closed x ((List.mem_cons.1 hx).resolve_left ‹_›) y hy)
  roots cell hc := List.mem_cons_of_mem _ (hinv.roots cell hc)
  count := by simp [hinv.count]
  bound := by have := hinv.bound; simp only [Collector.linkObject_objectCount]; omega

theorem heapInv_gc {c c1 : Collector} {d : List Addr} (hinv : c.HeapInv) (hgc : gc c = .ok (c1, d)) :
    c1.HeapInv ∧ c1.heapHead.Sublist c.heapHead ∧ c1.rootsHead = c.rootsHead ∧ c1.cells = c.cells ∧
      c1.heap = { c.heap with marked := c1.heap.marked, tailIsNext := c1.heap.tailIsNext } := by
  obtain ⟨m, c', hm, hgc', hk, hn, hr, hcells, hh, hms⟩ :=
    gc_spec hinv.toHeapShape (gc_ok_nil hinv.toHeapShape hgc)
  obtain rfl : c1 = c' := by rw [hgc] at hgc'; cases hgc'; rfl
  have hkeep : ∀ x, c.Reachable x → x ∈ c1.heapHead := fun x hx =>
    hk ▸ List.mem_filter.2 ⟨hinv.reachable_mem hx, (hm x (hinv.reachable_mem hx)).2 hx⟩
  have hsub : c1.heapHead.Sublist c.heapHead := hk ▸ List.filter_sublist _
  have hch : c1.heap.children = c.heap.children := by rw [hh]; rfl
  refine ⟨⟨⟨hk ▸ hinv.nodup.filter _, fun h0 => hinv.nonzero (hsub.subset h0),
    fun x hx => hms x (hsub.subset hx), fun x hx y hy => ?_, fun cell hc => ?_⟩, ?_, ?_⟩,
    hsub, hr, hcells, hh⟩
  · rw [hk, List.mem_filter] at hx
    obtain ⟨cell, hc, hreach⟩ := (hm x hx.1).1 hx.2
    exact hkeep y ⟨cell, hc, hreach.tail (hch ▸ hy)⟩
  · rw [hr] at hc
    exact hcells ▸ hkeep _ ⟨cell, hc, .refl⟩
  · rw [hn, hinv.count, hk, List.length_eq_length_filter_add (l := c.heapHead) m]; omega
  · have := hinv.bound; omega

theorem gc_idempotent (c : Collector) (hinv : c.HeapInv) (hnil : c.Reachable nilValue)
    (hnil1 : ∀ x ∈ c.heapHead, c.heap.cls x = .nil → x = nilValue) :
    ∃ c1 d c2, gc c = .ok (c1, d) ∧ gc c1 = .ok (c2, []) ∧ c2.heapHead = c1.heapHead ∧
      c2.objectCount = c1.objectCount ∧ c2.rootsHead = c1.rootsHead ∧ c2.cells = c1.cells ∧
      c2.heap.children = c1.heap.children := by
  obtain ⟨m, c1, hm, hgc, hk, -, hr, hcells, hh, -⟩ :=
    gc_spec hinv.toHeapShape fun x hx hrx hc => hrx (hnil1 x hx hc ▸ hnil)
  have hinv1 := (heapInv_gc hinv hgc).1
  have hch : c1.heap.children = c.heap.children := by rw [hh]; rfl
  have hall : ∀ x ∈ c1.heapHead, c1.Reachable x := fun x hx => by
    rw [hk, List.mem_filter] at hx
    obtain ⟨cell, hc, hre⟩ := (hm x hx.1).1 hx.2
    exact ⟨cell, hr ▸ hc, by rw [hcells, Heap.reaches_congr hch]; exact hre⟩
  obtain ⟨m1, c2, hm1, hgc1, hk1, hn1, hr1, hcells1, hh1, -⟩ :=
    gc_spec hinv1.toHeapShape fun x hx hrx => absurd (hall x hx) hrx
  have hfreed : c1.heapHead.filter (fun x => !m1 x) = [] :=
    List.filter_eq_nil_iff.2 fun x hx => by simpa using (hm1 x hx).2 (hall x hx)
  refine ⟨c1, _, c2, hgc, hfreed ▸ hgc1, hk1.trans (List.filter_eq_self.2 fun x hx => (hm1 x hx).2 (hall x hx)),
    by rw [hn1, hfreed]; simp, hr1, hcells1, by rw [hh1]; rfl⟩

theorem gc_idempotent_sample :
    (sampleCollector.HeapInv ∧ sampleCollector.Reachable nilValue ∧
      ∀ x ∈ sampleCollector.heapHead, sampleCollector.heap.cls x = .nil → x = nilValue) ∧
    ∃ c1 d c2, gc sampleCollector = .ok (c1, d) ∧ gc c1 = .ok (c2, []) ∧ c2.heapHead = c1.heapHead ∧
      c2.objectCount = c1.objectCount ∧ c2.rootsHead = c1.rootsHead ∧ c2.cells = c1.cells ∧
      c2.heap.children = c1.heap.children :=
  have hinv : sampleCollector.HeapInv := ⟨⟨by decide, by decide, by decide, by decide, by decide⟩, by decide, by decide⟩
  have hnil : sampleCollector.Reachable nilValue :=
    ⟨0, List.mem_singleton_self _, Relation.ReflTransGen.single (by decide)⟩
  have hnil1 : ∀ x ∈ sampleCollector.heapHead, sampleCollector.heap.cls x = .nil → x = nilValue := by decide
  ⟨⟨hinv, hnil, hnil1⟩, gc_idempotent sampleCollector hinv hnil hnil1⟩

theorem registerObject_full {c : Collector} (hinv : c.HeapInv) (hall : ∀ x ∈ c.heapHead, c.Reachable x)
    (hcap : c.objectCount = 10000) (o : Addr) (cls : Cls) :
    registerObject c o cls = .error (.error "register_object: object count limit reached.") := by
  obtain ⟨m, c', hm, hgc, -, hn, -⟩ := gc_spec hinv.toHeapShape fun x hx hr => absurd (hall x hx) hr
  have hd : (c.heapHead.filter fun x => !m x) = [] :=
    List.filter_eq_nil_iff.2 fun x hx => by simp [(hm x hx).2 (hall x hx)]
  rw [registerObject_of_cap hcap hgc, if_pos (by rw [hn, hd, hcap]; rfl)]

theorem registerObject_eq_link {c c' : Collector} (hinv : c.HeapInv) {o : Addr} {cls : Cls}
    (h : registerObject c o cls = .ok c') :
    ∃ c1 : Collector, c1.HeapInv ∧ c1.heapHead.Sublist c.heapHead ∧ c1.rootsHead = c.rootsHead ∧ c1.cells = c.cells ∧
      c1.heap = { c.heap with marked := c1.heap.marked, tailIsNext := c1.heap.tailIsNext } ∧
      c1.objectCount ≠ 10000 ∧ c' = c1.linkObject o cls := by
  obtain ⟨c1, rfl | ⟨d, hgc⟩, hcap, rfl⟩ := registerObject_eq_ok h
  · exact ⟨c1, hinv, .refl _, rfl, rfl, rfl, hcap, rfl⟩
  · obtain ⟨h1, h2, h3, h4, h5⟩ := heapInv_gc hinv hgc
    exact ⟨c1, h1, h2, h3, h4, h5, hcap, rfl⟩

theorem heapInv_registerObject {c c' : Collector} (hinv : c.HeapInv) {o : Addr} {cls : Cls}
    (ho : o ∉ c.heapHead) (ho0 : o ≠ 0)
    (hch : ∀ y ∈ c.heap.childrenAs cls o, ∃ cell ∈ c.rootsHead, c.cells cell = y)
    (h : registerObject c o cls = .ok c') : c'.HeapInv := by
  obtain ⟨c1, hinv1, hsub, hr, hcells, hh, hcap, rfl⟩ := registerObject_eq_link hinv h
  refine heapInv_linkObject hinv1 hcap (fun h => ho (hsub.subset h)) ho0 fun y hy => ?_
  have hch1 : c1.heap.childrenAs cls o = c.heap.childrenAs cls o := by rw [hh]; rfl
  obtain ⟨cell, hc, rfl⟩ := hch y (hch1 ▸ hy)
  exact hcells ▸ hinv1.roots cell (hr ▸ hc)

theorem registerObject_correct (c : Collector) (o : Addr) (cls : Cls) (hinv : c.HeapInv)
    (hroot : nilRoot ∈ c.rootsHead) (hnilcell : c.cells nilRoot = nilValue)
    (hnil1 : ∀ x ∈ c.heapHead, c.heap.cls x = .nil → x = nilValue)
    (hch : ∀ y ∈ c.heap.childrenAs cls o, ∃ cell ∈ c.rootsHead, c.cells cell = y) :
    (registerObject c o cls = .error (.error "register_object: object count limit reached.") ↔
      c.objectCount = 10000 ∧ ∀ x ∈ c.heapHead, c.Reachable x) ∧
    (¬(c.objectCount = 10000 ∧ ∀ x ∈ c.heapHead, c.Reachable x) →
      ∃ c', registerObject c o cls = .ok c' ∧ c'.heap.marked o = false ∧ c'.heap.cls o = cls ∧
        (∀ x, c.Reachable x → x ∈ c'.heapHead) ∧ (∀ y ∈ c.heap.childrenAs cls o, y ∈ c'.heapHead) ∧
        ((c.objectCount < 10000 ∧ c'.heapHead = o :: c.heapHead ∧ c'.objectCount = c.objectCount + 1) ∨
          (c.objectCount = 10000 ∧ ∃ kept, kept.Sublist c.heapHead ∧
            (∀ x, x ∈ kept ↔ x ∈ c.heapHead ∧ c.Reachable x) ∧
            c'.heapHead = o :: kept ∧ c'.objectCount = kept.length + 1))) := by
  have hnilr : c.Reachable nilValue := ⟨nilRoot, hroot, hnilcell ▸ Relation.ReflTransGen.refl⟩
  have hchr : ∀ y ∈ c.heap.childrenAs cls o, c.Reachable y := fun y hy => by
    obtain ⟨cell, hc, rfl⟩ := hch y hy
    exact ⟨cell, hc, Relation.ReflTransGen.refl⟩
  by_cases hcap : c.objectCount = 10000
  · obtain ⟨m, c1, hm, hgc, hk, hn, -, -, hh, -⟩ :=
      gc_spec hinv.toHeapShape fun x hx hr hc => hr (hnil1 x hx hc ▸ hnilr)
    have hlen := List.length_eq_length_filter_add (l := c.heapHead) m
    have hall : (∀ x ∈ c.heapHead, c.Reachable x) ↔ (c.heapHead.filter fun x => !m x).length = 0 := by
      simp only [List.length_eq_zero, List.filter_eq_nil_iff, Bool.not_eq_true', Bool.not_eq_false]
      exact ⟨fun h x hx => (hm x hx).2 (h x hx), fun h x hx => (hm x hx).1 (h x hx)⟩
    have hc1 : c1.objectCount = 10000 ↔ ∀ x ∈ c.heapHead, c.Reachable x := by
      rw [hall, hn, hcap]; rw [hinv.count] at hcap; omega
    rw [registerObject_of_cap hcap hgc]
    refine ⟨by rw [← hc1]; split <;> rename_i h1 <;> simp [hcap, h1], fun hnot => ?_⟩
    have h1 : c1.objectCount ≠ 10000 := fun h => hnot ⟨hcap, hc1.1 h⟩
    have hmem : ∀ x, c.Reachable x → x ∈ c1.heapHead := fun x hx =>
      hk ▸ List.mem_filter.2 ⟨hinv.reachable_mem hx, (hm x (hinv.reachable_mem hx)).2 hx⟩
    refine ⟨_, by rw [if_neg h1], by simp, by simp, fun x hx => List.mem_cons_of_mem _ (hmem x hx),
      fun y hy => List.mem_cons_of_mem _ (hmem y (hchr y hy)), .inr ⟨hcap, c.heapHead.filter m, List.filter_sublist _,
      fun x => ?_, by simp [hk], by simp only [Collector.linkObject_objectCount, hn]; have := hinv.count; omega⟩⟩
    rw [List.mem_filter]
    exact ⟨fun ⟨hx, hmx⟩ => ⟨hx, (hm x hx).1 hmx⟩, fun ⟨hx, hrx⟩ => ⟨hx, (hm x hx).2 hrx⟩⟩
  · rw [registerObject_of_lt hcap]
    refine ⟨by simp [hcap], fun _ => ⟨_, rfl, by simp, by simp,
      fun x hx => List.mem_cons_of_mem _ (hinv.reachable_mem hx),
      fun y hy => List.mem_cons_of_mem _ (hinv.reachable_mem (hchr y hy)),
      .inl ⟨by have := hinv.bound; omega, rfl, rfl⟩⟩⟩

def registerSample : Collector := { sampleCollector with cells := fun _ => nilValue }

def freeableCollector : Collector where
  heap :=
    { marked := fun _ => false
      cls := fun x => if x ≤ 1 then .nil else .atom
      tailIsNext := fun _ => false
      head := fun _ => 0
      tail := fun _ => 0
      apply := fun _ => .eval
      data := fun _ => 0
      chars := fun _ => "" }
  heapHead := List.range' 1 10000
  rootsHead := [nilRoot]
  objectCount := 10000
  cells := fun _ => nilValue

theorem registerObject_correct_sample :
    ((registerSample.HeapInv ∧ nilRoot ∈ registerSample.rootsHead ∧
        registerSample.cells nilRoot = nilValue ∧
        (∀ x ∈ registerSample.heapHead, registerSample.heap.cls x = .nil → x = nilValue) ∧
        ∀ y ∈ registerSample.heap.childrenAs .cons 5,
          ∃ cell ∈ registerSample.rootsHead, registerSample.cells cell = y) ∧
      (registerObject registerSample 5 .cons =
          .error (.error "register_object: object count limit reached.") ↔
        registerSample.objectCount = 10000 ∧
          ∀ x ∈ registerSample.heapHead, registerSample.Reachable x) ∧
      (¬(registerSample.objectCount = 10000 ∧
          ∀ x ∈ registerSample.heapHead, registerSample.Reachable x) →
        ∃ c', registerObject registerSample 5 .cons = .ok c' ∧ c'.heap.marked 5 = false ∧
          c'.heap.cls 5 = .cons ∧ (∀ x, registerSample.Reachable x → x ∈ c'.heapHead) ∧
          (∀ y ∈ registerSample.heap.childrenAs .cons 5, y ∈ c'.heapHead) ∧
          ((registerSample.objectCount < 10000 ∧ c'.heapHead = 5 :: registerSample.heapHead ∧
              c'.objectCount = registerSample.objectCount + 1) ∨
            (registerSample.objectCount = 10000 ∧ ∃ kept, kept.Sublist registerSample.heapHead ∧
              (∀ x, x ∈ kept ↔ x ∈ registerSample.heapHead ∧ registerSample.Reachable x) ∧
              c'.heapHead = 5 :: kept ∧ c'.objectCount = kept.length + 1)))) ∧
    ((freeableCollector.HeapInv ∧ nilRoot ∈ freeableCollector.rootsHead ∧
        freeableCollector.cells nilRoot = nilValue ∧
        (∀ x ∈ freeableCollector.heapHead, freeableCollector.heap.cls x = .nil → x = nilValue) ∧
        ∀ y ∈ freeableCollector.heap.childrenAs .atom 10001,
          ∃ cell ∈ freeableCollector.rootsHead, freeableCollector.cells cell = y) ∧
      (registerObject freeableCollector 10001 .atom =
          .error (.error "register_object: object count limit reached.") ↔
        freeableCollector.objectCount = 10000 ∧
          ∀ x ∈ freeableCollector.heapHead, freeableCollector.Reachable x) ∧
      (¬(freeableCollector.objectCount = 10000 ∧
          ∀ x ∈ freeableCollector.heapHead, freeableCollector.Reachable x) →
        ∃ c', registerObject freeableCollector 10001 .atom = .ok c' ∧ c'.heap.marked 10001 = false ∧
          c'.heap.cls 10001 = .atom ∧ (∀ x, freeableCollector.Reachable x → x ∈ c'.heapHead) ∧
          (∀ y ∈ freeableCollector.heap.childrenAs .atom 10001, y ∈ c'.heapHead) ∧
          ((freeableCollector.objectCount < 10000 ∧ c'.heapHead = 10001 :: freeableCollector.heapHead ∧
              c'.objectCount = freeableCollector.objectCount + 1) ∨
            (freeableCollector.objectCount = 10000 ∧ ∃ kept, kept.Sublist freeableCollector.heapHead ∧
              (∀ x, x ∈ kept ↔ x ∈ freeableCollector.heapHead ∧ freeableCollector.Reachable x) ∧
              c'.heapHead = 10001 :: kept ∧ c'.objectCount = kept.length + 1)))) :=
  have hinv : registerSample.HeapInv :=
    ⟨⟨by decide, by decide, by decide, by decide, by decide⟩, by decide, by decide⟩
  have hinv' : freeableCollector.HeapInv :=
    ⟨⟨by simp [freeableCollector, List.nodup_range'], by simp [freeableCollector], fun _ _ => rfl,
      fun x _ y hy => by
        simp only [Heap.children, freeableCollector] at hy; split at hy <;> simp [Heap.childrenAs] at hy,
      fun _ _ => by simp [freeableCollector, nilValue]⟩,
      by simp [freeableCollector], by decide⟩
  have hnil : ∀ x ∈ freeableCollector.heapHead, freeableCollector.heap.cls x = .nil → x = nilValue :=
    fun x hx h => by
      obtain ⟨i, -, rfl⟩ := List.mem_range'.1 hx
      by_cases hle : 1 + 1 * i ≤ 1
      · exact Nat.le_antisymm hle (Nat.le_add_right 1 _)
      · dsimp only [freeableCollector] at h; rw [if_neg hle] at h; cases h
  ⟨⟨⟨hinv, by decide, by decide, by decide, by decide⟩,
    registerObject_correct registerSample 5 .cons hinv (by decide) (by decide) (by decide) (by decide)⟩,
    ⟨⟨hinv', by decide, rfl, hnil, by simp [Heap.childrenAs]⟩,
    registerObject_correct freeableCollector 10001 .atom hinv' (by decide) rfl hnil (by simp [Heap.childrenAs])⟩⟩

def capCollector : Collector where
  heap :=
    { marked := fun _ => false
      cls := fun x => if x ≤ 2 then .nil else .atom
      tailIsNext := fun _ => false
      head := fun _ => 0
      tail := fun _ => 0
      apply := fun _ => .eval
      data := fun _ => 0
      chars := fun _ => "" }
  heapHead := 1 :: 2 :: List.range' 3 9998
  rootsHead := [nilRoot]
  objectCount := 10000
  cells := fun _ => nilValue

theorem registerObject_aborts_at_cap :
    capCollector.HeapInv ∧ nilRoot ∈ capCollector.rootsHead ∧
      ¬(∀ x ∈ capCollector.heapHead, capCollector.Reachable x) ∧
      registerObject capCollector 10001 .atom = .error .abort := by
  have hch : ∀ x, capCollector.heap.children x = [] := fun x => by
    simp only [Heap.children, capCollector]; split <;> rfl
  have hreach : ∀ x, capCollector.Reachable x ↔ x = nilValue := fun x => by
    have : capCollector.heap.Reaches nilValue x ↔ x = nilValue := by
      refine ⟨fun h => ?_, fun h => h ▸ Relation.ReflTransGen.refl⟩
      induction h with
      | refl => rfl
      | tail _ hz => simp [hch] at hz
    show (∃ cell ∈ [nilRoot], capCollector.heap.Reaches nilValue x) ↔ _
    simp [this]
  refine ⟨⟨⟨?_, by simp [capCollector], fun _ _ => rfl, fun x _ y hy => by simp [hch] at hy,
    fun _ _ => by simp [capCollector, nilValue]⟩, ?_, by decide⟩,
    by simp [capCollector], fun h => absurd ((hreach 2).1 (h 2 (by simp [capCollector]))) (by decide), ?_⟩
  · simp [capCollector, List.nodup_range']
  · show (10000 : Int) = ((1 :: 2 :: List.range' 3 9998).length : Nat)
    rw [List.length_cons, List.length_cons, List.length_range']; rfl
  · have hmark : mark (5 * capCollector.heapHead.length + 2) capCollector.heap (capCollector.cells nilRoot) =
        some (markRun 2 (markInit capCollector.heap 1)).heap :=
      mark_of_returned (show (markRun 2 (markInit capCollector.heap 1)).pc = .returned from rfl)
        (Nat.le_add_left _ _)
    have hroots : markRoots (5 * capCollector.heapHead.length + 2) capCollector.cells capCollector.heap
        capCollector.rootsHead = .ok (markRun 2 (markInit capCollector.heap 1)).heap := by
      show markRoots _ _ _ [nilRoot] = _
      rw [markRoots, hmark]; rfl
    have hcount : capCollector.objectCount = 10000 := rfl
    simp only [registerObject, gc, hroots, hcount, if_true]
    rfl

end GclProofs
