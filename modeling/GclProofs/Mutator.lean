import GclProofs.Allocator

/-!
The states the collector's operations reach from `init_globals`, along which `nil_value` stays
rooted and the only object of class `nil`.
-/

namespace GclProofs

inductive ChildField where
  | head
  | tail
  | data
  deriving DecidableEq, Repr

def Heap.setChild (h : Heap) (o : Addr) (f : ChildField) (value : Addr) : Heap :=
  match f with
  | .head => { h with head := Function.update h.head o value }
  | .tail => { h with tail := Function.update h.tail o value }
  | .data => { h with data := Function.update h.data o value }

namespace Heap

variable (h : Heap) (o : Addr) (f : ChildField) (value : Addr)

@[simp] theorem setChild_marked : (h.setChild o f value).marked = h.marked := by cases f <;> rfl

@[simp] theorem setChild_cls : (h.setChild o f value).cls = h.cls := by cases f <;> rfl

theorem children_setChild_of_ne {x : Addr} (hx : x ≠ o) : (h.setChild o f value).children x = h.children x := by
  cases f <;> cases hc : h.cls x <;> simp [children, childrenAs, setChild, hc, Function.update_noteq hx]

theorem mem_children_setChild {x y : Addr} (hy : y ∈ (h.setChild o f value).children x) :
    y ∈ h.children x ∨ x = o ∧ y = value := by
  by_cases hx : x = o
  · subst hx
    cases f <;> cases hc : h.cls x <;> simp_all [children, childrenAs, setChild] <;> tauto
  · exact .inl (h.children_setChild_of_ne o f value hx ▸ hy)

end Heap

inductive Op where
  | registerObject (o : Addr) (cls : Cls)
  | pushRoot (root : Cell)
  | setRoot (root : Cell) (value : Addr)
  | popRoot
  | gc
  | setChild (o : Addr) (f : ChildField) (value : Addr)
  deriving DecidableEq, Repr

def Op.exec (c : Collector) : Op → Except Fault Collector
  | .registerObject o cls => GclProofs.registerObject c o cls
  | .pushRoot root => .ok (c.linkRoot root)
  | .setRoot root value => .ok (GclProofs.setRoot c root value)
  | .popRoot => GclProofs.popRoot c
  | .gc => Prod.fst <$> GclProofs.gc c
  | .setChild o f value => .ok { c with heap := c.heap.setChild o f value }

def Op.Allowed (c : Collector) : Op → Prop
  | .registerObject o cls =>
    o ∉ c.heapHead ∧ o ≠ 0 ∧ ∀ y ∈ c.heap.childrenAs cls o, ∃ cell ∈ c.rootsHead, c.cells cell = y
  | .pushRoot root => c.cells root ∈ c.heapHead
  | .setRoot root value => root ∈ c.rootsHead → value ∈ c.heapHead
  | .popRoot => c.rootsHead ≠ []
  | .gc => True
  | .setChild o _ value => o ∈ c.heapHead → value ∈ c.heapHead

instance (c : Collector) : (op : Op) → Decidable (op.Allowed c)
  | .registerObject .. => inferInstanceAs (Decidable (_ ∧ _ ∧ _))
  | .pushRoot _ => inferInstanceAs (Decidable (_ ∈ _))
  | .setRoot .. => inferInstanceAs (Decidable (_ → _))
  | .popRoot => inferInstanceAs (Decidable (¬_))
  | .gc => inferInstanceAs (Decidable True)
  | .setChild .. => inferInstanceAs (Decidable (_ → _))

def Op.KeepsNil (c : Collector) : Op → Prop
  | .registerObject _ cls => cls ≠ .nil
  | .setRoot root _ => root ≠ nilRoot
  | .popRoot => 2 ≤ c.rootsHead.length
  | _ => True

instance (c : Collector) : (op : Op) → Decidable (op.KeepsNil c)
  | .registerObject .. | .setRoot .. => inferInstanceAs (Decidable (¬_))
  | .popRoot => inferInstanceAs (Decidable (_ ≤ _))
  | .pushRoot _ | .gc | .setChild .. => inferInstanceAs (Decidable True)

inductive Reached (allowed : Collector → Op → Prop) (heap : Heap) (cells : Cell → Addr) :
    Collector → Prop
  | init {c : Collector} (malloc : Malloc) : initGlobals malloc (Collector.initial heap cells) = .ok c →
      Reached allowed heap cells c
  | step {c c' : Collector} (op : Op) : Reached allowed heap cells c → allowed c op → op.exec c = .ok c' →
      Reached allowed heap cells c'

theorem initGlobals_cases (malloc : Malloc) (heap : Heap) (cells : Cell → Addr) :
    initGlobals malloc (Collector.initial heap cells) = .error .outOfMemory ∨
      initGlobals malloc (Collector.initial heap cells) =
        .ok (((((Collector.initial heap cells).linkObject nilValue .nil).linkRoot nilRoot).linkRoot operandStack).linkRoot
          contStack) := by
  rw [initGlobals, registerObject_of_lt (by simp [Collector.initial]), ok_bind, pushRoot_bind, pushRoot_bind, pushRoot]
  split_ifs <;> first | exact .inl rfl | exact .inr rfl

theorem initGlobals_eq_ok {malloc : Malloc} {heap : Heap} {cells : Cell → Addr} {c : Collector}
    (h : initGlobals malloc (Collector.initial heap cells) = .ok c) :
    c = ((((Collector.initial heap cells).linkObject nilValue .nil).linkRoot nilRoot).linkRoot operandStack).linkRoot
      contStack := by
  rcases initGlobals_cases malloc heap cells with h' | h' <;> rw [h'] at h
  · cases h
  · exact (Except.ok.inj h).symm

theorem initGlobals_eq_error {malloc : Malloc} {heap : Heap} {cells : Cell → Addr} {f : Fault}
    (h : initGlobals malloc (Collector.initial heap cells) = .error f) : f = .outOfMemory := by
  rcases initGlobals_cases malloc heap cells with h' | h' <;> rw [h'] at h
  · exact (Except.error.inj h).symm
  · cases h

theorem initGlobals_initial {malloc : Malloc} (hm : malloc.NeverFails) (heap : Heap) (cells : Cell → Addr) :
    initGlobals malloc (Collector.initial heap cells) =
      .ok (((((Collector.initial heap cells).linkObject nilValue .nil).linkRoot nilRoot).linkRoot operandStack).linkRoot
        contStack) := by
  rw [initGlobals, registerObject_of_lt (by simp [Collector.initial]), ok_bind, pushRoot_of_ne (hm _), ok_bind,
    pushRoot_of_ne (hm _), ok_bind, pushRoot_of_ne (hm _)]

theorem gc_exec_eq_ok {c c' : Collector} (h : Op.gc.exec c = .ok c') : ∃ d, gc c = .ok (c', d) := by
  cases hg : gc c with
  | error e => simp [Op.exec, hg, Functor.map, Except.map] at h
  | ok r => simp only [Op.exec, hg, Functor.map, Except.map, Except.ok.injEq] at h; exact ⟨r.2, h ▸ rfl⟩

theorem heapInv_setChild {c : Collector} (hinv : c.HeapInv) {o value : Addr} {f : ChildField}
    (h : o ∈ c.heapHead → value ∈ c.heapHead) : ({ c with heap := c.heap.setChild o f value } : Collector).HeapInv :=
  { hinv with
    unmarked := fun x hx => by simpa using hinv.unmarked x hx
    closed := fun x hx y hy => (c.heap.mem_children_setChild o f value hy).elim (hinv.closed x hx y)
      fun ⟨hxo, hyv⟩ => hyv ▸ h (hxo ▸ hx) }

theorem heapInv_step {c c' : Collector} (hinv : c.HeapInv) {op : Op} (ha : op.Allowed c)
    (he : op.exec c = .ok c') : c'.HeapInv := by
  cases op with
  | registerObject o cls => exact heapInv_registerObject hinv ha.1 ha.2.1 ha.2.2 he
  | pushRoot root => cases he; exact heapInv_linkRoot hinv ha
  | setRoot root value => cases he; exact heapInv_setRoot hinv ha
  | popRoot => exact heapInv_popRoot hinv he
  | gc =>
    obtain ⟨d, hgc⟩ := gc_exec_eq_ok he
    exact (heapInv_gc hinv hgc).1
  | setChild o f value => cases he; exact heapInv_setChild hinv ha

theorem heapInv_initial {malloc : Malloc} (heap : Heap) (cells : Cell → Addr) {c : Collector}
    (h : initGlobals malloc (Collector.initial heap cells) = .ok c) : c.HeapInv := by
  rw [initGlobals_eq_ok h]
  refine heapInv_linkRoot (heapInv_linkRoot (heapInv_linkRoot (heapInv_linkObject ⟨⟨?_, ?_, ?_, ?_, ?_⟩, ?_, ?_⟩
    ?_ ?_ ?_ ?_) ?_) ?_) ?_ <;>
    simp [Collector.initial, Heap.childrenAs, nilValue, nilRoot, operandStack, contStack]

theorem Reached.heapInv {allowed : Collector → Op → Prop} (hallowed : ∀ c op, allowed c op → op.Allowed c)
    {heap : Heap} {cells : Cell → Addr} {c : Collector} (hr : Reached allowed heap cells c) : c.HeapInv := by
  induction hr with
  | init _ h => exact heapInv_initial heap cells h
  | step op _ ha he ih => exact heapInv_step ih (hallowed _ op ha) he

namespace Collector

structure NilSafe (c : Collector) : Prop where
  bottom : ∃ rest, c.rootsHead = rest ++ [nilRoot]
  cell : c.cells nilRoot = nilValue
  onlyNil : ∀ x ∈ c.heapHead, c.heap.cls x = .nil → x = nilValue

theorem NilSafe.reachable {c : Collector} (hs : c.NilSafe) : c.Reachable nilValue := by
  obtain ⟨rest, hr⟩ := hs.bottom
  exact ⟨nilRoot, by simp [hr], hs.cell ▸ .refl⟩

end Collector

theorem gc_ok_of_nilSafe {c : Collector} (hinv : c.HeapInv) (hs : c.NilSafe) :
    ∃ r, gc c = .ok r := by
  obtain ⟨m, c', -, hgc, -⟩ := gc_spec hinv.toHeapShape fun x hx hr hc => hr (hs.onlyNil x hx hc ▸ hs.reachable)
  exact ⟨_, hgc⟩

theorem exec_ne_abort {c : Collector} (hinv : c.HeapInv) (hs : c.NilSafe) (op : Op) :
    op.exec c ≠ .error .abort := by
  obtain ⟨⟨c1, d⟩, hgc⟩ := gc_ok_of_nilSafe hinv hs
  cases op with
  | registerObject o cls =>
    by_cases hcap : c.objectCount = 10000
    · simp only [Op.exec, registerObject_of_cap hcap hgc]
      split <;> simp
    · simp [Op.exec, registerObject_of_lt hcap]
  | popRoot =>
    simp only [Op.exec, popRoot]
    split <;> simp [throw, throwThe, MonadExceptOf.throw, pure, Except.pure]
  | gc => simp [Op.exec, hgc, Functor.map, Except.map]
  | _ => simp [Op.exec]

theorem nilSafe_registerObject {c c' : Collector} (hinv : c.HeapInv) (hs : c.NilSafe) {o : Addr} {cls : Cls}
    (hcls : cls ≠ .nil) (h : registerObject c o cls = .ok c') : c'.NilSafe := by
  obtain ⟨c1, -, hsub, hr, hcells, hh, -, rfl⟩ := registerObject_eq_link hinv h
  have hcls1 : c1.heap.cls = c.heap.cls := by rw [hh]
  refine ⟨by simpa [hr] using hs.bottom, by simpa [hcells] using hs.cell, fun x hx hc => ?_⟩
  by_cases e : x = o
  · subst e; simp [hcls] at hc
  · refine hs.onlyNil x (hsub.subset ((List.mem_cons.1 hx).resolve_left e)) ?_
    simpa [e, hcls1] using hc

theorem nilSafe_linkRoot {c : Collector} (hs : c.NilSafe) (root : Cell) : (c.linkRoot root).NilSafe :=
  have ⟨rest, hr⟩ := hs.bottom
  { hs with bottom := ⟨root :: rest, by simp [hr]⟩ }

theorem nilSafe_setRoot {c : Collector} (hs : c.NilSafe) {root : Cell} (hroot : root ≠ nilRoot) (value : Addr) :
    (setRoot c root value).NilSafe :=
  { hs with cell := by simpa [setRoot, Ne.symm hroot] using hs.cell }

theorem nilSafe_popRoot {c c' : Collector} (hs : c.NilSafe) (hlen : 2 ≤ c.rootsHead.length)
    (h : popRoot c = .ok c') : c'.NilSafe := by
  obtain ⟨-, rfl⟩ := popRoot_eq_ok h
  obtain ⟨rest, hr⟩ := hs.bottom
  refine { hs with bottom := ⟨rest.tail, ?_⟩ }
  cases rest with
  | nil => simp [hr] at hlen
  | cons r rest => simp [hr]

theorem nilSafe_gc {c c1 : Collector} {d : List Addr} (hinv : c.HeapInv) (hs : c.NilSafe)
    (hgc : gc c = .ok (c1, d)) : c1.NilSafe := by
  obtain ⟨-, hsub, hr, hcells, hh⟩ := heapInv_gc hinv hgc
  have hcls1 : c1.heap.cls = c.heap.cls := by rw [hh]
  exact ⟨by simpa [hr] using hs.bottom, by simpa [hcells] using hs.cell,
    fun x hx hc => hs.onlyNil x (hsub.subset hx) (hcls1 ▸ hc)⟩

theorem nilSafe_setChild {c : Collector} (hs : c.NilSafe) (o : Addr) (f : ChildField) (value : Addr) :
    ({ c with heap := c.heap.setChild o f value } : Collector).NilSafe :=
  { hs with onlyNil := fun x hx hc => hs.onlyNil x hx (by simpa using hc) }

theorem nilSafe_step {c c' : Collector} (hinv : c.HeapInv) (hs : c.NilSafe) {op : Op}
    (hk : op.KeepsNil c) (he : op.exec c = .ok c') : c'.NilSafe := by
  cases op with
  | registerObject o cls => exact nilSafe_registerObject hinv hs hk he
  | pushRoot root => cases he; exact nilSafe_linkRoot hs root
  | setRoot root value => cases he; exact nilSafe_setRoot hs hk value
  | popRoot => exact nilSafe_popRoot hs hk he
  | gc =>
    obtain ⟨d, hgc⟩ := gc_exec_eq_ok he
    exact nilSafe_gc hinv hs hgc
  | setChild o f value => cases he; exact nilSafe_setChild hs o f value

theorem nilSafe_initial {malloc : Malloc} (heap : Heap) (cells : Cell → Addr) {c : Collector}
    (h : initGlobals malloc (Collector.initial heap cells) = .ok c) : c.NilSafe := by
  rw [initGlobals_eq_ok h]
  exact ⟨⟨[contStack, operandStack], rfl⟩, by simp [Collector.initial, nilRoot, operandStack, contStack],
    by simp [Collector.initial]⟩

theorem Reached.nilSafe {heap : Heap} {cells : Cell → Addr} {c : Collector}
    (hr : Reached (fun c op => op.Allowed c ∧ op.KeepsNil c) heap cells c) : c.HeapInv ∧ c.NilSafe := by
  induction hr with
  | init _ h => exact ⟨heapInv_initial heap cells h, nilSafe_initial heap cells h⟩
  | step op _ ha he ih => exact ⟨heapInv_step ih.1 ha.1 he, nilSafe_step ih.1 ih.2 ha.2 he⟩

theorem reached_heapInv (heap : Heap) (cells : Cell → Addr) :
    (∀ c, Reached Op.Allowed heap cells c → c.HeapInv) ∧
    ∀ c, Reached (fun c op => op.Allowed c ∧ op.KeepsNil c) heap cells c →
      nilValue ∈ c.heapHead ∧ ∀ op : Op, op.exec c ≠ .error .abort :=
  ⟨fun _ hr => hr.heapInv fun _ _ h => h, fun _ hr =>
    have hs := hr.nilSafe
    ⟨hs.1.reachable_mem hs.2.reachable, exec_ne_abort hs.1 hs.2⟩⟩

def zeroHeap : Heap :=
  ⟨fun _ => false, fun _ => .nil, fun _ => false, fun _ => 0, fun _ => 0, fun _ => .eval, fun _ => 0, fun _ => ""⟩

theorem reached_heapInv_sample :
    ∃ c, (Reached Op.Allowed zeroHeap (fun _ => 0) c ∧
        Reached (fun c op => op.Allowed c ∧ op.KeepsNil c) zeroHeap (fun _ => 0) c) ∧
      c.HeapInv ∧ nilValue ∈ c.heapHead ∧ ∀ op : Op, op.exec c ≠ .error .abort :=
  have hr : Reached (fun c op => op.Allowed c ∧ op.KeepsNil c) zeroHeap (fun _ => 0) _ :=
    .step (.registerObject 2 .atom) (.init (fun _ => 1) rfl) ⟨by decide, by decide⟩ rfl
  ⟨_, ⟨.step (.registerObject 2 .atom) (.init (fun _ => 1) rfl) (by decide) rfl, hr⟩,
    (reached_heapInv zeroHeap (fun _ => 0)).1 _ (.step (.registerObject 2 .atom) (.init (fun _ => 1) rfl) (by decide) rfl),
    (reached_heapInv zeroHeap (fun _ => 0)).2 _ hr⟩

theorem nil_dispose_reached :
    ∃ c, Reached (fun c op => op.Allowed c ∧ op ≠ .popRoot) zeroHeap (fun _ => 0) c ∧
      Op.gc.exec c = .error .abort :=
  ⟨_, .step (.registerObject 2 .nil) (.init (fun _ => 1) rfl) ⟨by decide, by decide⟩ rfl, rfl⟩

end GclProofs
