import GclProofs.Represent

/-!
The collected heap holding a state of the abstract machine (`MachineRel`), and an operation
doing what the machine does unless an allocation fails (`Refines`).
-/

namespace GclProofs

def mainCells : List Cell := [mainForms, mainEnv, mainEnvs]

namespace Collector

variable {c c' c'' : Collector} {K : List Cont} {S : List Value} {L L' : List Addr}

def LocalsUnrooted (c : Collector) : Prop :=
  ∀ cell ∈ c.rootsHead, cell < consFrame.head ∨ mapConsValue < cell

structure HoldsStacks (c : Collector) (K : List Cont) (S : List Value) : Prop where
  inv : c.HeapInv
  nilSafe : c.NilSafe
  nilCls : c.heap.cls nilValue = .nil
  operand : operandStack ∈ c.rootsHead
  cont : contStack ∈ c.rootsHead
  stack : c.heap.ListRepr c.heap.ValueRepr S (c.cells operandStack)
  conts : c.heap.ListRepr c.heap.ContRepr K (c.cells contStack)

theorem HoldsStacks.nil_ne_cons (h : c.HoldsStacks K S) : c.heap.cls nilValue ≠ .cons := by
  rw [h.nilCls]; decide

theorem HoldsStacks.transfer (h : c.HoldsStacks K S) (hinv : c'.HeapInv) (hnil : c'.NilSafe)
    (hag : ∀ cell ∈ c.rootsHead, c.heap.Agree c'.heap (c.cells cell)) (hop : operandStack ∈ c'.rootsHead)
    (hco : contStack ∈ c'.rootsHead) (hs : c'.cells operandStack = c.cells operandStack)
    (hk : c'.cells contStack = c.cells contStack) : c'.HoldsStacks K S where
  inv := hinv
  nilSafe := hnil
  nilCls := by
    obtain ⟨rest, hr⟩ := h.nilSafe.bottom
    exact (h.nilSafe.cell ▸ hag nilRoot (by simp [hr])).fields.1.trans h.nilCls
  operand := hop
  cont := hco
  stack := hs ▸ (hag _ h.operand).stackRepr h.stack
  conts := hk ▸ (hag _ h.cont).contsRepr h.conts

theorem HoldsStacks.grow (h : c.HoldsStacks K S) (hg : c.Grows L c' L') (hop : operandStack ∈ c'.rootsHead)
    (hco : contStack ∈ c'.rootsHead) (hs : c'.cells operandStack = c.cells operandStack)
    (hk : c'.cells contStack = c.cells contStack) : c'.HoldsStacks K S :=
  h.transfer hg.inv hg.nilSafe (fun _ hc => hg.keeps.agree (.of_root hc)) hop hco hs hk

theorem HoldsStacks.pop {v : Value} (h : c.HoldsStacks K (v :: S)) :
    GclProofs.pop c = .ok (setRoot c operandStack (c.heap.tail (c.cells operandStack)),
      c.heap.head (c.cells operandStack)) ∧
    (setRoot c operandStack (c.heap.tail (c.cells operandStack))).HoldsStacks K S ∧
    c.heap.ValueRepr v (c.heap.head (c.cells operandStack)) ∧ c.heap.head (c.cells operandStack) ∈ c.heapHead := by
  obtain ⟨hc, hv, hs⟩ := h.stack
  have hop := h.inv.roots _ h.operand
  refine ⟨pop_of_cons hc, ⟨heapInv_setRoot h.inv fun _ => reaches_mem h.inv.closed hop (Heap.reaches_tail hc),
    nilSafe_setRoot h.nilSafe (by decide) _, h.nilCls, h.operand, h.cont, ?_, ?_⟩, hv,
    reaches_mem h.inv.closed hop (Heap.reaches_head hc)⟩
  · simpa only [setRoot, Function.update_same] using hs
  · simpa only [setRoot, Function.update_noteq (show contStack ≠ operandStack by decide)] using h.conts

theorem HoldsStacks.pop_empty (h : c.HoldsStacks K []) : GclProofs.pop c = .error (.error "pop: stack underflow") :=
  pop_of_not_cons (by rw [show c.cells operandStack = nilValue from h.stack]; exact h.nil_ne_cons)

theorem HoldsStacks.popCont {k : Cont} (h : c.HoldsStacks (k :: K) S) :
    GclProofs.popCont c = (setRoot c contStack (c.heap.tail (c.cells contStack)), c.heap.head (c.cells contStack)) ∧
    (setRoot c contStack (c.heap.tail (c.cells contStack))).HoldsStacks K S ∧
    c.heap.ContRepr k (c.heap.head (c.cells contStack)) ∧ c.heap.head (c.cells contStack) ∈ c.heapHead := by
  obtain ⟨hc, hv, hs⟩ := h.conts
  have hco := h.inv.roots _ h.cont
  refine ⟨popCont_of_cons hc, ⟨heapInv_setRoot h.inv fun _ => reaches_mem h.inv.closed hco (Heap.reaches_tail hc),
    nilSafe_setRoot h.nilSafe (by decide) _, h.nilCls, h.operand, h.cont, ?_, ?_⟩, hv,
    reaches_mem h.inv.closed hco (Heap.reaches_head hc)⟩
  · simpa only [setRoot, Function.update_noteq (show operandStack ≠ contStack by decide)] using h.stack
  · simpa only [setRoot, Function.update_same] using hs

theorem HoldsStacks.popCont_empty (h : c.HoldsStacks [] S) : GclProofs.popCont c = (c, 0) :=
  popCont_of_not_cons (by rw [show c.cells contStack = nilValue from h.conts]; exact h.nil_ne_cons)

def KeepsCells (cells : List Cell) (c c' : Collector) : Prop :=
  ∀ cell ∈ cells, cell ∈ c.rootsHead →
    cell ∈ c'.rootsHead ∧ c'.cells cell = c.cells cell ∧ c.heap.Agree c'.heap (c.cells cell)

theorem KeepsCells.trans {cells : List Cell} (h1 : KeepsCells cells c c') (h2 : KeepsCells cells c' c'') :
    KeepsCells cells c c'' := fun cell hc hr =>
  have ⟨hr', he', ha'⟩ := h1 cell hc hr
  have ⟨hr'', he'', ha''⟩ := h2 cell hc hr'
  ⟨hr'', he''.trans he', ha'.trans (he' ▸ ha'')⟩

theorem Grows.keepsCells {cells : List Cell} (hg : c.Grows L c' L')
    (hroots : ∀ cell ∈ cells, cell ∈ c.rootsHead → cell ∈ c'.rootsHead ∧ c'.cells cell = c.cells cell) :
    KeepsCells cells c c' := fun cell hc hr =>
  ⟨(hroots cell hc hr).1, (hroots cell hc hr).2, hg.keeps.agree (.of_root hr)⟩

theorem keepsCells_of_heap {cells : List Cell} (hh : c'.heap = c.heap)
    (hroots : ∀ cell ∈ cells, cell ∈ c.rootsHead → cell ∈ c'.rootsHead ∧ c'.cells cell = c.cells cell) :
    KeepsCells cells c c' := fun cell hc hr =>
  ⟨(hroots cell hc hr).1, (hroots cell hc hr).2, fun y _ => hh ▸ Heap.FieldsEq.refl _ y⟩

theorem KeepsCells.refl (cells : List Cell) (c : Collector) : c.KeepsCells cells c :=
  fun _ _ hr => ⟨hr, rfl, fun y _ => Heap.FieldsEq.refl _ y⟩

end Collector

structure MachineRel (m : Machine) (a : AState) : Prop where
  holds : m.col.HoldsStacks a.conts a.stack
  unrooted : m.col.LocalsUnrooted
  out : m.out = a.out

inductive Refines (c0 : Collector) : Except Fault Machine → Except Fault AState → Prop
  | allocFails {f : Fault} {r : Except Fault AState} : f.IsAllocFailure → Refines c0 (.error f) r
  | error {f : Fault} : Refines c0 (.error f) (.error f)
  | ok {m : Machine} {a : AState} : MachineRel m a → c0.KeepsCells mainCells m.col → Refines c0 (.ok m) (.ok a)

theorem bind_of_allocFailure {α β : Type} {P : Except Fault β → Prop} (hfail : ∀ f, f.IsAllocFailure → P (.error f))
    {x : Except Fault α} {k : α → Except Fault β} (hx : ∀ f, x = .error f → f.IsAllocFailure)
    (hk : ∀ v, x = .ok v → P (k v)) : P (x >>= k) := by
  cases h : x with
  | error f => exact hfail f (hx f h)
  | ok v => exact hk v h

namespace Refines

variable {c0 c1 : Collector} {r : Except Fault Machine} {r' : Except Fault AState}

theorem bind {α : Type} {x : Except Fault α} {k : α → Except Fault Machine}
    (hx : ∀ f, x = .error f → f.IsAllocFailure) (hk : ∀ v, x = .ok v → Refines c0 (k v) r') :
    Refines c0 (x >>= k) r' :=
  bind_of_allocFailure (P := (Refines c0 · r')) (fun _ => .allocFails) hx hk

theorem bind_pushRoot {malloc : Malloc} {c : Collector} {root : Cell} {k : Collector → Except Fault Machine}
    (hk : Refines c0 (k (c.linkRoot root)) r') : Refines c0 (pushRoot malloc c root >>= k) r' :=
  GclProofs.bind_pushRoot (P := (Refines c0 · r')) (.allocFails (.inl rfl)) hk

theorem start (hk : c0.KeepsCells mainCells c1) (h : Refines c1 r r') : Refines c0 r r' := by
  cases h with
  | allocFails hf => exact .allocFails hf
  | error => exact .error
  | ok hrel hk' => exact .ok hrel (hk.trans hk')

end Refines

section stackOps

variable {malloc : Malloc} {c : Collector} {K : List Cont} {S : List Value}

theorem push_holds (hmalloc : malloc.Fresh) (hrel : c.HoldsStacks K S)
    (hown : consFrame.head ∉ c.rootsHead ∧ consFrame.tail ∉ c.rootsHead) {v : Value} {x : Addr}
    (hv : c.heap.ValueRepr v x) (hx : x ∈ c.heapHead) :
    (∀ f, push malloc c x = .error f → f.IsAllocFailure) ∧
    ∀ c', push malloc c x = .ok c' → c'.HoldsStacks K (v :: S) ∧ c.Grows [x] c' [] ∧ c'.rootsHead = c.rootsHead ∧
      ∀ cell, cell ≠ operandStack → cell ≠ consFrame.head → cell ≠ consFrame.tail → c'.cells cell = c.cells cell := by
  have hp := pushOn_grows hmalloc hrel.inv hrel.nilSafe hrel.operand (by decide) hown hx
  refine ⟨hp.1, fun c' h => ?_⟩
  obtain ⟨hg, hr, hcls, hh, ht, hcells⟩ := hp.2 c' h
  have hk : c'.cells contStack = c.cells contStack := hcells _ (by decide) (by decide) (by decide)
  refine ⟨⟨hg.inv, hg.nilSafe, (hg.keeps nilValue (.inl hrel.nilSafe.reachable)).2.1.trans hrel.nilCls,
    hr ▸ hrel.operand, hr ▸ hrel.cont, ⟨hcls, hh ▸ (hg.keeps.agree (.of_mem (List.mem_singleton_self x))).valueRepr hv,
      ht ▸ (hg.keeps.agree (.of_root hrel.operand)).stackRepr hrel.stack⟩,
    hk ▸ (hg.keeps.agree (.of_root hrel.cont)).contsRepr hrel.conts⟩, hg, hr, hcells⟩

theorem pushCont_holds (hmalloc : malloc.Fresh) (hrel : c.HoldsStacks K S)
    (hown : consFrame.head ∉ c.rootsHead ∧ consFrame.tail ∉ c.rootsHead) {k : Cont} {x : Addr}
    (hv : c.heap.ContRepr k x) (hx : x ∈ c.heapHead) :
    (∀ f, pushCont malloc c x = .error f → f.IsAllocFailure) ∧
    ∀ c', pushCont malloc c x = .ok c' → c'.HoldsStacks (k :: K) S ∧ c.Grows [x] c' [] ∧ c'.rootsHead = c.rootsHead ∧
      ∀ cell, cell ≠ contStack → cell ≠ consFrame.head → cell ≠ consFrame.tail → c'.cells cell = c.cells cell := by
  have hp := pushOn_grows hmalloc hrel.inv hrel.nilSafe hrel.cont (by decide) hown hx
  refine ⟨hp.1, fun c' h => ?_⟩
  obtain ⟨hg, hr, hcls, hh, ht, hcells⟩ := hp.2 c' h
  have hs : c'.cells operandStack = c.cells operandStack := hcells _ (by decide) (by decide) (by decide)
  refine ⟨⟨hg.inv, hg.nilSafe, (hg.keeps nilValue (.inl hrel.nilSafe.reachable)).2.1.trans hrel.nilCls,
    hr ▸ hrel.operand, hr ▸ hrel.cont, hs ▸ (hg.keeps.agree (.of_root hrel.operand)).stackRepr hrel.stack,
    ⟨hcls, hh ▸ (hg.keeps.agree (.of_mem (List.mem_singleton_self x))).contRepr hv,
      ht ▸ (hg.keeps.agree (.of_root hrel.cont)).contsRepr hrel.conts⟩⟩, hg, hr, hcells⟩

theorem Collector.LocalsUnrooted.own (hun : c.LocalsUnrooted) {cell : Cell} (h1 : consFrame.head ≤ cell)
    (h2 : cell ≤ mapConsValue) : cell ∉ c.rootsHead := fun hc => by
  have := hun cell hc
  simp only [consFrame, mapConsValue, Cell] at this h1 h2
  omega

theorem Collector.LocalsUnrooted.not_mem {c' : Collector} (hun : c.LocalsUnrooted) (pre : List Cell)
    (hr : c'.rootsHead = pre ++ c.rootsHead) {cell : Cell} (h1 : consFrame.head ≤ cell) (h2 : cell ≤ mapConsValue)
    (hpre : cell ∉ pre) : cell ∉ c'.rootsHead := by
  rw [hr, List.mem_append, not_or]
  exact ⟨hpre, hun.own h1 h2⟩

theorem Collector.LocalsUnrooted.ne_of_mem (hun : c.LocalsUnrooted) {cell cell' : Cell} (hc : cell ∈ c.rootsHead)
    (h1 : consFrame.head ≤ cell') (h2 : cell' ≤ mapConsValue) : cell ≠ cell' :=
  ne_of_mem_of_not_mem hc (hun.own h1 h2)

theorem linkRoot3_grows (hinv : c.HeapInv) (hs : c.NilSafe) (hun : c.LocalsUnrooted) {a b e : Cell}
    (hcells : [a, b, e].Nodup) (hrange : ∀ cell ∈ [a, b, e], consFrame.head ≤ cell ∧ cell ≤ mapConsValue)
    {va vb ve : Addr} {L : List Addr} (hl : ∀ y ∈ va :: vb :: ve :: L, y ∈ c.heapHead) :
    c.Grows (va :: vb :: ve :: L)
      ((setRoot ((setRoot ((setRoot c a va).linkRoot a) b vb).linkRoot b) e ve).linkRoot e) L := by
  have hne : (a ≠ b ∧ a ≠ e) ∧ b ≠ e := by simpa using hcells
  have hnil : ∀ cell ∈ [a, b, e], cell ≠ nilRoot := fun cell hc e => absurd (e ▸ (hrange cell hc).1) (by decide)
  have hg1 := linkRoot_grows hinv hs (hun.own (hrange a (by simp)).1 (hrange a (by simp)).2) (hnil a (by simp))
    (hl va (by simp)) fun y hy => hl y (List.mem_cons_of_mem _ hy)
  have hg2 := linkRoot_grows hg1.inv hg1.nilSafe (hun.not_mem [a] rfl (hrange b (by simp)).1 (hrange b (by simp)).2
    (by simpa [eq_comm] using hne.1.1)) (hnil b (by simp)) (hg1.listed vb (by simp))
    fun y hy => hg1.listed y (List.mem_cons_of_mem _ hy)
  have hg3 := linkRoot_grows hg2.inv hg2.nilSafe (hun.not_mem [b, a] rfl (hrange e (by simp)).1 (hrange e (by simp)).2
    (by simp [eq_comm, hne.1.2, hne.2])) (hnil e (by simp)) (hg2.listed ve (by simp))
    fun y hy => hg2.listed y (List.mem_cons_of_mem _ hy)
  exact hg1.trans (hg2.trans hg3)

theorem pushEval_holds {β : Type} {P : Except Fault β → Prop} (hfail : ∀ f, f.IsAllocFailure → P (.error f))
    {k : Collector → Except Fault β} (hmalloc : malloc.Fresh) (hrel : c.HoldsStacks K S)
    (hown : consFrame.head ∉ c.rootsHead ∧ consFrame.tail ∉ c.rootsHead ∧ functionData ∉ c.rootsHead)
    {forms : List (String × Form)} {env : Env} {e : Expr} {envs x : Addr} (henvs : c.heap.EnvsRepr forms env envs)
    (he : c.heap.Repr e x) (hel : envs ∈ c.heapHead) (hxl : x ∈ c.heapHead)
    (hk : ∀ c', c'.HoldsStacks (.eval forms env e :: K) S → c.Grows [envs, x] c' [] → c'.rootsHead = c.rootsHead →
      (∀ cell ∈ c.rootsHead, cell ≠ contStack → c'.cells cell = c.cells cell) → P (k c')) :
    P (do
      let (c, functionData) ← createCons malloc consFrame c envs x
      let (c, function) ← createFunction malloc c .eval functionData
      let c ← pushCont malloc c function
      k c) := by
  have h1 := createCons_grows hmalloc hrel.inv hrel.nilSafe hel hxl ⟨hown.1, hown.2.1⟩
  refine bind_of_allocFailure hfail h1.1 fun ⟨c1, d1⟩ e1 => ?_
  obtain ⟨hg1, hr1, hcells1, hcls1, hh1, ht1⟩ := h1.2 c1 d1 e1
  have h2 := createFunction_grows hmalloc hg1.inv hg1.nilSafe (hg1.listed d1 (List.mem_singleton_self d1))
    (hr1 ▸ hown.2.2) .eval
  refine bind_of_allocFailure hfail h2.1 fun ⟨c2, f2⟩ e2 => ?_
  obtain ⟨hg2, hr2, hcells2, hcls2, hap2, hd2⟩ := h2.2 c2 f2 e2
  have hsame : ∀ cell ∈ c.rootsHead, c2.cells cell = c.cells cell := fun cell hc => by
    rw [hcells2, hcells1, Function.update_noteq (ne_of_mem_of_not_mem hc hown.2.2),
      Function.update_noteq (ne_of_mem_of_not_mem hc hown.2.1), Function.update_noteq (ne_of_mem_of_not_mem hc hown.1)]
  have hr12 : c2.rootsHead = c.rootsHead := hr2.trans hr1
  have hrel2 : c2.HoldsStacks K S :=
    hrel.grow (hg1.trans hg2) (hr12 ▸ hrel.operand) (hr12 ▸ hrel.cont) (hsame _ hrel.operand) (hsame _ hrel.cont)
  have hd1 := (hg2.keeps d1 (.of_mem (List.mem_singleton_self d1))).2
  have hag : ∀ y ∈ [envs, x], c.heap.Agree c2.heap y := fun y hy => (hg1.trans hg2).keeps.agree (.of_mem hy)
  have hcont : c2.heap.ContRepr (.eval forms env e) f2 := by
    refine ⟨hcls2, hap2, ?_⟩
    rw [hd2]
    exact ⟨hd1.1.trans hcls1, hd1.2.1 ▸ hh1 ▸ (hag envs (by simp)).envsRepr henvs,
      hd1.2.2.1 ▸ ht1 ▸ (hag x (by simp)).repr he⟩
  have h3 := pushCont_holds hmalloc hrel2 (hr12 ▸ ⟨hown.1, hown.2.1⟩) hcont (hg2.listed f2 (List.mem_singleton_self f2))
  refine bind_of_allocFailure hfail h3.1 fun c3 e3 => ?_
  obtain ⟨hh3, hg3, hr3, hcells3⟩ := h3.2 c3 e3
  refine hk c3 hh3 ((hg1.trans hg2).trans hg3) (hr3.trans hr12) fun cell hc hne => ?_
  rw [hcells3 cell hne (ne_of_mem_of_not_mem hc hown.1) (ne_of_mem_of_not_mem hc hown.2.1), hsame cell hc]

end stackOps

section main

variable {malloc : Malloc} {c : Collector} {K : List Cont} {S : List Value} {O : List String}

theorem ne_of_mem_mainCells {cell cell' : Cell} (hc : cell ∈ mainCells) (h : cell' ≤ mapConsValue) : cell ≠ cell' := by
  rintro rfl
  simp only [mainCells, List.mem_cons, List.mem_singleton, List.not_mem_nil, or_false] at hc
  rcases hc with rfl | rfl | rfl <;> exact absurd h (by decide)

theorem Collector.Grows.keepsMain {c' : Collector} {L L' : List Addr} (hg : c.Grows L c' L')
    (hr : c'.rootsHead = c.rootsHead)
    (hcells : ∀ cell ∈ c.rootsHead, cell ≠ operandStack → cell ≠ contStack → c'.cells cell = c.cells cell) :
    c.KeepsCells mainCells c' :=
  hg.keepsCells fun cell hc hr' => ⟨hr ▸ hr', hcells cell hr' (ne_of_mem_mainCells hc (by decide))
    (ne_of_mem_mainCells hc (by decide))⟩

theorem keepsMain_setRoot {cell : Cell} (h : cell ≤ mapConsValue) (v : Addr) :
    c.KeepsCells mainCells (setRoot c cell v) :=
  Collector.keepsCells_of_heap rfl fun _ hc hr => ⟨hr, Function.update_noteq (ne_of_mem_mainCells hc h) _ _⟩

theorem push_refines (hmalloc : malloc.Fresh) (hrel : c.HoldsStacks K S) (hun : c.LocalsUnrooted) {v : Value}
    {x : Addr} (hv : c.heap.ValueRepr v x) (hx : x ∈ c.heapHead) :
    Refines c (do let c ← push malloc c x; pure ⟨c, O⟩) (.ok ⟨K, v :: S, O⟩) := by
  have hp := push_holds hmalloc hrel ⟨hun.own le_rfl (by decide), hun.own (by decide) (by decide)⟩ hv hx
  refine Refines.bind hp.1 fun c' h' => ?_
  obtain ⟨hh, hg, hroots, hcells⟩ := hp.2 c' h'
  exact .ok ⟨hh, fun cell hc => hun cell (hroots ▸ hc), rfl⟩ (hg.keepsMain hroots fun cell hc h1 _ =>
    hcells cell h1 (ne_of_mem_of_not_mem hc (hun.own le_rfl (by decide)))
      (ne_of_mem_of_not_mem hc (hun.own (by decide) (by decide))))

end main

end GclProofs
