import GclProofs.Interp

/-!
What the interpreter's operations keep: every object the caller holds, with its fields.
-/

namespace GclProofs

namespace Heap

section children

variable {h : Heap} {x : Addr}

theorem reaches_head (hc : h.cls x = .cons) : h.Reaches x (h.head x) := .single (by simp [children, childrenAs, hc])

theorem reaches_tail (hc : h.cls x = .cons) : h.Reaches x (h.tail x) := .single (by simp [children, childrenAs, hc])

theorem reaches_data (hc : h.cls x = .function) : h.Reaches x (h.data x) :=
  .single (by simp [children, childrenAs, hc])

end children

def Agree (h h' : Heap) (x : Addr) : Prop := ∀ y, h.Reaches x y → h.FieldsEq h' y

namespace Agree

variable {h h' : Heap} {x y : Addr}

theorem fields (ha : h.Agree h' x) : h.FieldsEq h' x := ha x .refl

theorem reaches (ha : h.Agree h' x) (hy : h.Reaches x y) : h.Agree h' y := fun z hz => ha z (hy.trans hz)

theorem head (ha : h.Agree h' x) (hc : h.cls x = .cons) : h.Agree h' (h.head x) := ha.reaches (reaches_head hc)

theorem tail (ha : h.Agree h' x) (hc : h.cls x = .cons) : h.Agree h' (h.tail x) := ha.reaches (reaches_tail hc)

theorem data (ha : h.Agree h' x) (hc : h.cls x = .function) : h.Agree h' (h.data x) := ha.reaches (reaches_data hc)

theorem reaches_of (ha : h.Agree h' x) (hy : h.Reaches x y) : h'.Reaches x y := by
  induction hy with
  | refl => exact .refl
  | @tail b z hb hz ih => exact ih.tail (by rw [(ha b hb).children]; exact hz)

theorem trans {h'' : Heap} (h12 : h.Agree h' x) (h23 : h'.Agree h'' x) : h.Agree h'' x :=
  fun y hy => (h12 y hy).trans (h23 y (h12.reaches_of hy))

end Agree

end Heap

namespace Collector

def Held (c : Collector) (L : List Addr) (x : Addr) : Prop :=
  c.Reachable x ∨ ∃ l ∈ L, c.heap.Reaches l x

def Keeps (c : Collector) (L : List Addr) (c' : Collector) (L' : List Addr) : Prop :=
  ∀ x, c.Held L x → c'.Held L' x ∧ c.heap.FieldsEq c'.heap x

variable {c c' c'' : Collector} {L L' L'' : List Addr} {x y : Addr}

theorem Held.of_mem (hl : x ∈ L) : c.Held L x := .inr ⟨x, hl, .refl⟩

theorem Held.of_root {cell : Cell} (hc : cell ∈ c.rootsHead) : c.Held L (c.cells cell) := .inl ⟨cell, hc, .refl⟩

theorem Held.reaches (hx : c.Held L x) (hy : c.heap.Reaches x y) : c.Held L y := by
  rcases hx with ⟨cell, hc, hr⟩ | ⟨l, hl, hr⟩
  · exact .inl ⟨cell, hc, hr.trans hy⟩
  · exact .inr ⟨l, hl, hr.trans hy⟩

theorem Held.mono (hx : c.Held L x) (hL : ∀ l ∈ L, c.Held L' l) : c.Held L' x := by
  rcases hx with hr | ⟨l, hl, hr⟩
  · exact .inl hr
  · exact (hL l hl).reaches hr

theorem Held.mem (hw : c.HeapShape) (hL : ∀ l ∈ L, l ∈ c.heapHead) (hx : c.Held L x) : x ∈ c.heapHead := by
  rcases hx with hr | ⟨l, hl, hr⟩
  · exact hw.reachable_mem hr
  · exact reaches_mem hw.closed (hL l hl) hr

theorem Keeps.trans (h1 : c.Keeps L c' L') (h2 : c'.Keeps L' c'' L'') : c.Keeps L c'' L'' := fun x hx =>
  ⟨(h2 x (h1 x hx).1).1, (h1 x hx).2.trans (h2 x (h1 x hx).1).2⟩

theorem Keeps.mono {L0 L1 : List Addr} (hk : c.Keeps L c' L') (h0 : ∀ l ∈ L0, c.Held L l)
    (h1 : ∀ l ∈ L', c'.Held L1 l) : c.Keeps L0 c' L1 := fun x hx =>
  ⟨(hk x (hx.mono h0)).1.mono h1, (hk x (hx.mono h0)).2⟩

theorem Keeps.agree (hk : c.Keeps L c' L') (hx : c.Held L x) : c.heap.Agree c'.heap x :=
  fun y hy => (hk y (hx.reaches hy)).2

theorem keeps_of_frame (hf : ∀ x, c.Held L x → c.heap.FieldsEq c'.heap x)
    (hroots : ∀ cell ∈ c.rootsHead, c'.Held L' (c.cells cell)) (hlocals : ∀ l ∈ L, c'.Held L' l) :
    c.Keeps L c' L' := by
  have hpath : ∀ s, c.Held L s → c'.Held L' s → ∀ x, c.heap.Reaches s x → c'.Held L' x :=
    fun s hs hs' x hx => hs'.reaches (Heap.Agree.reaches_of (fun y hy => hf y (hs.reaches hy)) hx)
  refine fun x hx => ⟨?_, hf x hx⟩
  rcases hx with ⟨cell, hc, hr⟩ | ⟨l, hl, hr⟩
  · exact hpath _ (.of_root hc) (hroots cell hc) x hr
  · exact hpath l (.of_mem hl) (hlocals l hl) x hr

theorem keeps_linkRoot {cell : Cell} (hcell : cell ∉ c.rootsHead) (v : Addr) :
    c.Keeps (v :: L) ((setRoot c cell v).linkRoot cell) L :=
  keeps_of_frame (fun _ _ => Heap.FieldsEq.refl _ _)
    (fun r hr => by
      have hne : r ≠ cell := fun e => hcell (e ▸ hr)
      simpa [setRoot, Function.update_noteq hne] using
        Held.of_root (c := (setRoot c cell v).linkRoot cell) (L := L) (List.mem_cons_of_mem _ hr))
    (by
      rintro l (_ | ⟨_, hl⟩)
      · simpa [setRoot] using Held.of_root (c := (setRoot c cell v).linkRoot cell) (L := L)
          (List.mem_cons_self _ _)
      · exact .of_mem hl)

theorem keeps_setRoot {cell : Cell} (hcell : cell ∈ c.rootsHead) {v : Addr} (hv : c.heap.Reaches v (c.cells cell)) :
    c.Keeps (v :: L) (setRoot c cell v) L := by
  have hv' : (setRoot c cell v).Held L v := by
    simpa [setRoot] using Held.of_root (c := setRoot c cell v) (L := L) hcell
  refine keeps_of_frame (fun _ _ => Heap.FieldsEq.refl _ _) (fun r hr => ?_) ?_
  · by_cases e : r = cell
    · subst e; exact hv'.reaches hv
    · simpa [setRoot, Function.update_noteq e] using Held.of_root (c := setRoot c cell v) (L := L) hr
  · rintro l (_ | ⟨_, hl⟩)
    · exact hv'
    · exact .of_mem hl

theorem keeps_of_alloc (hw : c.HeapShape) (hL : ∀ l ∈ L, l ∈ c.heapHead) {o : Addr} (ho : o ∉ c.heapHead)
    (hf : ∀ x, x ≠ o → c.heap.FieldsEq c'.heap x) (hr : c'.rootsHead = c.rootsHead)
    (hcells : ∀ cell ∈ c.rootsHead, c'.cells cell = c.cells cell) (hch : ∀ l ∈ L, l ∈ c'.heap.children o) :
    c.Keeps L c' [o] :=
  keeps_of_frame (fun x hx => hf x fun e => ho (e ▸ hx.mem hw hL))
    (fun cell hc => by rw [← hcells cell hc]; exact Held.of_root (hr ▸ hc))
    (fun l hl => .inr ⟨o, List.mem_singleton_self o, .single (hch l hl)⟩)

end Collector

section createFunction

variable {malloc : Malloc} {c : Collector} {data : Addr}

theorem createFunction_spec (hmalloc : malloc.Fresh) (hinv : c.HeapInv) (hs : c.NilSafe)
    (hdata : data ∈ c.heapHead) (apply : ApplyFunc) :
    (∀ f, createFunction malloc c apply data = .error f → f.IsAllocFailure) ∧
    ∀ c' o, createFunction malloc c apply data = .ok (c', o) →
      o ∉ c.heapHead ∧ o ∈ c'.heapHead ∧ c'.HeapInv ∧ c'.NilSafe ∧ c'.rootsHead = c.rootsHead ∧
      c'.cells = Function.update c.cells functionData data ∧
      c'.heap.cls o = .function ∧ c'.heap.apply o = apply ∧ c'.heap.data o = data ∧
      ∀ x, x ≠ o → c.heap.FieldsEq c'.heap x := by
  unfold createFunction
  dsimp only
  set c1 := setRoot c functionData data
  set o := malloc c1
  by_cases ho0 : o = 0
  · simp only [ho0, if_true]
    exact ⟨fun f h => by cases h; exact .inl rfl, fun _ _ h => by cases h⟩
  simp only [ho0, if_false, pure_bind, pushRoot_bind]
  set c2 : Collector := { c1 with heap := { c1.heap with apply := Function.update c1.heap.apply o apply,
                                                          data := Function.update c1.heap.data o data } }
  split
  · exact ⟨fun f h => by cases h; exact .inl rfl, fun _ _ h => by cases h⟩
  have hfresh : o ∉ c.heapHead := hmalloc c1 ho0
  have hinv2 : c2.HeapInv :=
    have h := heapInv_setChild (o := o) (f := .data) (heapInv_setRoot hinv fun _ => hdata) fun _ => hdata
    ⟨⟨h.nodup, h.nonzero, h.unmarked, h.closed, h.roots⟩, h.count, h.bound⟩
  have hcell : c2.cells functionData = data := by simp [c2, c1, setRoot]
  have hinv3 : (c2.linkRoot functionData).HeapInv := heapInv_linkRoot hinv2 (hcell ▸ hdata)
  have hs2 : c2.NilSafe := { nilSafe_setRoot hs (show functionData ≠ nilRoot by decide) data with }
  have hs3 : (c2.linkRoot functionData).NilSafe := nilSafe_linkRoot hs2 functionData
  refine ⟨fun f h => ?_, fun c' o' h => ?_⟩
  · rcases bind_eq_error h with h4 | ⟨c4, h4, h⟩
    · exact .inr (.inr (registerObject_error hinv3 hs3 h4))
    obtain ⟨-, hr4, -⟩ := registerObject_frame hinv3 h4
    simp [popRoot, hr4, bind, Except.bind, pure, Except.pure] at h
  obtain ⟨c4, h4, h⟩ := bind_eq_ok h
  obtain ⟨c5, h5, h⟩ := bind_eq_ok h
  cases h
  obtain ⟨ho4, hr4, hcells4, hf4⟩ := registerObject_frame hinv3 h4
  have hinv4 := heapInv_registerObject hinv3 hfresh ho0
    (by rintro y (_ | ⟨_, _ | _⟩); exact ⟨functionData, by simp, by simp [c2, c1, setRoot]⟩) h4
  have hlen : 2 ≤ c.rootsHead.length + 1 := by
    obtain ⟨rest, hr⟩ := hs.bottom; simp [hr]
  have hs5 := nilSafe_popRoot (nilSafe_registerObject hinv3 hs3 (by decide) h4) (by simp [hr4, c2, c1, setRoot, hlen]) h5
  have hinv5 := heapInv_popRoot hinv4 h5
  obtain ⟨-, rfl⟩ := popRoot_eq_ok h5
  have hc4 := hf4 o
  refine ⟨hfresh, ho4, hinv5, hs5, by simp [hr4, c2, c1, setRoot], by simp [hcells4, c2, c1, setRoot],
    by simpa using hc4.1, by simpa [c2] using hc4.2.2.2.2.2, by simpa [c2] using hc4.2.2.2.1,
    fun x hx => ?_⟩
  have hc3 : c.heap.FieldsEq (c2.linkRoot functionData).heap x :=
    ⟨rfl, rfl, rfl, by simp [c2, c1, setRoot, Function.update_noteq hx], rfl,
      by simp [c2, c1, setRoot, Function.update_noteq hx]⟩
  exact hc3.trans ((Heap.FieldsEq.of_update_cls _ hx .function).trans (hf4 x))

end createFunction

namespace Collector

variable {c c' c'' : Collector} {L L' L'' : List Addr}

structure Grows (c : Collector) (L : List Addr) (c' : Collector) (L' : List Addr) : Prop where
  inv : c'.HeapInv
  nilSafe : c'.NilSafe
  listed : ∀ l ∈ L', l ∈ c'.heapHead
  keeps : c.Keeps L c' L'

theorem Grows.trans (h1 : c.Grows L c' L') (h2 : c'.Grows L' c'' L'') : c.Grows L c'' L'' :=
  ⟨h2.inv, h2.nilSafe, h2.listed, h1.keeps.trans h2.keeps⟩

theorem Grows.mono {L0 L1 : List Addr} (hg : c.Grows L c' L') (h0 : ∀ l ∈ L0, c.Held L l)
    (h1 : ∀ l ∈ L', c'.Held L1 l) (h1' : ∀ l ∈ L1, c'.Held L' l) : c.Grows L0 c' L1 :=
  ⟨hg.inv, hg.nilSafe, fun l hl => (h1' l hl).mem hg.inv.toHeapShape hg.listed, hg.keeps.mono h0 h1⟩

theorem Grows.narrow {L0 : List Addr} (hg : c.Grows L c' L') (h : L0 ⊆ L) : c.Grows L0 c' L' :=
  hg.mono (fun _ hl => .of_mem (h hl)) (fun _ hl => .of_mem hl) (fun _ hl => .of_mem hl)

theorem Grows.forget_locals (hg : c.Grows L c' L') : c.Grows [] c' L' :=
  hg.narrow (List.nil_subset _)

end Collector

theorem consFrame_valid : consFrame.Valid := ⟨by decide, by decide, by decide⟩

section grows

variable {malloc : Malloc} {c : Collector} {x : Addr}

open Collector

theorem createCons_grows (hmalloc : malloc.Fresh) (hinv : c.HeapInv) (hs : c.NilSafe) {head tail : Addr}
    (hhead : head ∈ c.heapHead) (htail : tail ∈ c.heapHead)
    (hown : consFrame.head ∉ c.rootsHead ∧ consFrame.tail ∉ c.rootsHead) :
    (∀ f, createCons malloc consFrame c head tail = .error f → f.IsAllocFailure) ∧
    ∀ c' o, createCons malloc consFrame c head tail = .ok (c', o) →
      c.Grows [head, tail] c' [o] ∧ c'.rootsHead = c.rootsHead ∧
      c'.cells = Function.update (Function.update c.cells consFrame.head head) consFrame.tail tail ∧
      c'.heap.cls o = .cons ∧ c'.heap.head o = head ∧ c'.heap.tail o = tail := by
  obtain ⟨herr, hok⟩ := createCons_spec hmalloc consFrame_valid hinv hs hhead htail
  refine ⟨herr, fun c' o h => ?_⟩
  obtain ⟨ho, hol, hinv', hs', hr, hcells, hcls, hh, ht, hf⟩ := hok c' o h
  refine ⟨⟨hinv', hs', by simpa using hol, keeps_of_alloc hinv.toHeapShape (by simp [hhead, htail]) ho hf hr
    (fun cell hc => ?_) (by simp [Heap.children, Heap.childrenAs, hcls, hh, ht])⟩, hr, hcells, hcls, hh, ht⟩
  rw [hcells, Function.update_noteq (ne_of_mem_of_not_mem hc hown.2), Function.update_noteq (ne_of_mem_of_not_mem hc hown.1)]

theorem createFunction_grows (hmalloc : malloc.Fresh) (hinv : c.HeapInv) (hs : c.NilSafe) {data : Addr}
    (hdata : data ∈ c.heapHead) (hown : functionData ∉ c.rootsHead) (apply : ApplyFunc) :
    (∀ f, createFunction malloc c apply data = .error f → f.IsAllocFailure) ∧
    ∀ c' o, createFunction malloc c apply data = .ok (c', o) →
      c.Grows [data] c' [o] ∧ c'.rootsHead = c.rootsHead ∧ c'.cells = Function.update c.cells functionData data ∧
      c'.heap.cls o = .function ∧ c'.heap.apply o = apply ∧ c'.heap.data o = data := by
  obtain ⟨herr, hok⟩ := createFunction_spec hmalloc hinv hs hdata apply
  refine ⟨herr, fun c' o h => ?_⟩
  obtain ⟨ho, hol, hinv', hs', hr, hcells, hcls, hap, hd, hf⟩ := hok c' o h
  refine ⟨⟨hinv', hs', by simpa using hol, keeps_of_alloc hinv.toHeapShape (by simp [hdata]) ho hf hr
    (fun cell hc => ?_) (by simp [Heap.children, Heap.childrenAs, hcls, hd])⟩, hr, hcells, hcls, hap, hd⟩
  rw [hcells, Function.update_noteq (ne_of_mem_of_not_mem hc hown)]

theorem createAtom_grows (hmalloc : malloc.Fresh) (hinv : c.HeapInv) (hs : c.NilSafe) (chars : String) :
    (∀ f, createAtom malloc c chars = .error f → f.IsAllocFailure) ∧
    ∀ c' o, createAtom malloc c chars = .ok (c', o) →
      c.Grows [] c' [o] ∧ c'.rootsHead = c.rootsHead ∧ c'.cells = c.cells ∧
      c'.heap.cls o = .atom ∧ c'.heap.chars o = chars := by
  obtain ⟨herr, hok⟩ := createAtom_spec hmalloc hinv hs chars
  refine ⟨herr, fun c' o h => ?_⟩
  obtain ⟨ho, hol, hinv', hs', hr, hcells, hcls, hch, hf⟩ := hok c' o h
  exact ⟨⟨hinv', hs', by simpa using hol, keeps_of_alloc hinv.toHeapShape (by simp) ho hf hr
    (fun cell _ => by rw [hcells]) (by simp)⟩, hr, hcells, hcls, hch⟩

theorem pushOn_grows (hmalloc : malloc.Fresh) (hinv : c.HeapInv) (hs : c.NilSafe) {stack : Cell}
    (hstack : stack ∈ c.rootsHead) (hnil : stack ≠ nilRoot)
    (hown : consFrame.head ∉ c.rootsHead ∧ consFrame.tail ∉ c.rootsHead) (hx : x ∈ c.heapHead) :
    (∀ f, pushOn malloc stack c x = .error f → f.IsAllocFailure) ∧
    ∀ c', pushOn malloc stack c x = .ok c' →
      c.Grows [x] c' [] ∧ c'.rootsHead = c.rootsHead ∧
      c'.heap.cls (c'.cells stack) = .cons ∧ c'.heap.head (c'.cells stack) = x ∧
      c'.heap.tail (c'.cells stack) = c.cells stack ∧
      ∀ cell, cell ≠ stack → cell ≠ consFrame.head → cell ≠ consFrame.tail → c'.cells cell = c.cells cell := by
  obtain ⟨herr, hok⟩ := createCons_grows hmalloc hinv hs hx (hinv.roots stack hstack) hown
  refine ⟨fun f h => ?_, fun c' h => ?_⟩
  · rcases bind_eq_error h with h | ⟨_, -, h⟩
    · exact herr f h
    · cases h
  obtain ⟨⟨c1, o⟩, h1, h⟩ := bind_eq_ok h
  cases h
  obtain ⟨hg, hr, hcells, hcls, hh, ht⟩ := hok c1 o h1
  have hne : stack ≠ consFrame.head ∧ stack ≠ consFrame.tail :=
    ⟨fun e => hown.1 (e ▸ hstack), fun e => hown.2 (e ▸ hstack)⟩
  have hc1 : ∀ cell, cell ≠ consFrame.head → cell ≠ consFrame.tail → c1.cells cell = c.cells cell :=
    fun cell h3 h4 => by rw [hcells, Function.update_noteq h4, Function.update_noteq h3]
  have hg' : c1.Grows [o] (setRoot c1 stack o) [] :=
    ⟨heapInv_setRoot hg.inv fun _ => hg.listed o (by simp), nilSafe_setRoot hg.nilSafe hnil o, by simp,
      keeps_setRoot (hr ▸ hstack) (.single (by
        simp [Heap.children, Heap.childrenAs, hcls, ht, hc1 stack hne.1 hne.2]))⟩
  have h0 : ∀ l ∈ [x], c.Held [x, c.cells stack] l := fun l hl =>
    .of_mem (List.mem_cons.2 (.inl (List.mem_singleton.1 hl)))
  have h1 : ∀ l ∈ [o], c1.Held [o] l := fun l hl => .of_mem hl
  refine ⟨(hg.mono h0 h1 h1).trans hg', by simp [setRoot, hr],
    by simpa [setRoot] using hcls, by simpa [setRoot] using hh, by simpa [setRoot, hc1 stack hne.1 hne.2] using ht,
    fun cell h2 h3 h4 => by simp [setRoot, Function.update_noteq h2, hc1 cell h3 h4]⟩

theorem mapCons_eq (c : Collector) (key value : Addr) (map : Cell) :
    mapCons malloc c key value map =
      createCons malloc consFrame c key value >>= fun (c, entry) => pushOn malloc map c entry := rfl

theorem mapCons_grows (hmalloc : malloc.Fresh) (hinv : c.HeapInv) (hs : c.NilSafe) {map : Cell}
    (hmap : map ∈ c.rootsHead) (hnil : map ≠ nilRoot)
    (hown : consFrame.head ∉ c.rootsHead ∧ consFrame.tail ∉ c.rootsHead) {key value : Addr}
    (hkey : key ∈ c.heapHead) (hvalue : value ∈ c.heapHead) :
    (∀ f, mapCons malloc c key value map = .error f → f.IsAllocFailure) ∧
    ∀ c', mapCons malloc c key value map = .ok c' →
      c.Grows [key, value] c' [] ∧ c'.rootsHead = c.rootsHead ∧
      c'.heap.cls (c'.cells map) = .cons ∧ c'.heap.tail (c'.cells map) = c.cells map ∧
      c'.heap.cls (c'.heap.head (c'.cells map)) = .cons ∧ c'.heap.head (c'.heap.head (c'.cells map)) = key ∧
      c'.heap.tail (c'.heap.head (c'.cells map)) = value ∧
      ∀ cell, cell ≠ map → cell ≠ consFrame.head → cell ≠ consFrame.tail → c'.cells cell = c.cells cell := by
  rw [mapCons_eq]
  obtain ⟨herr, hok⟩ := createCons_grows hmalloc hinv hs hkey hvalue hown
  have hpush : ∀ c1 e, createCons malloc consFrame c key value = .ok (c1, e) → _ := fun c1 e h1 =>
    have hg := (hok c1 e h1).1
    have hr := (hok c1 e h1).2.1
    pushOn_grows hmalloc hg.inv hg.nilSafe (hr ▸ hmap) hnil (hr ▸ hown) (hg.listed e (List.mem_singleton_self e))
  refine ⟨fun f h => ?_, fun c' h => ?_⟩
  · rcases bind_eq_error h with h | ⟨⟨c1, e⟩, h1, h⟩
    · exact herr f h
    · exact (hpush c1 e h1).1 f h
  obtain ⟨⟨c1, e⟩, h1, h⟩ := bind_eq_ok h
  obtain ⟨hg, hr, hcells, hcls, hh, ht⟩ := hok c1 e h1
  obtain ⟨hg2, hr2, hcls2, hh2, ht2, hcells2⟩ := (hpush c1 e h1).2 c' h
  have hfe := (hg2.keeps e (.of_mem (List.mem_singleton_self e))).2
  have hc1 : ∀ cell, cell ≠ consFrame.head → cell ≠ consFrame.tail → c1.cells cell = c.cells cell :=
    fun cell h3 h4 => by rw [hcells, Function.update_noteq h4, Function.update_noteq h3]
  refine ⟨hg.trans hg2, hr2.trans hr, hcls2, by rw [ht2, hc1 map (ne_of_mem_of_not_mem hmap hown.1)
    (ne_of_mem_of_not_mem hmap hown.2)], by rw [hh2, hfe.1, hcls], by rw [hh2, hfe.2.1, hh],
    by rw [hh2, hfe.2.2.1, ht], fun cell h2 h3 h4 => by rw [hcells2 cell h2 h3 h4, hc1 cell h3 h4]⟩

theorem pop_of_cons (hc : c.heap.cls (c.cells operandStack) = .cons) :
    pop c = .ok (setRoot c operandStack (c.heap.tail (c.cells operandStack)), c.heap.head (c.cells operandStack)) := by
  simp [pop, hc, pure, Except.pure]

theorem pop_of_not_cons (hc : c.heap.cls (c.cells operandStack) ≠ .cons) :
    pop c = .error (.error "pop: stack underflow") := by
  simp [pop, hc, throw, throwThe, MonadExceptOf.throw]

theorem popCont_of_cons (hc : c.heap.cls (c.cells contStack) = .cons) :
    popCont c = (setRoot c contStack (c.heap.tail (c.cells contStack)), c.heap.head (c.cells contStack)) := by
  simp [popCont, hc]

theorem popCont_of_not_cons (hc : c.heap.cls (c.cells contStack) ≠ .cons) : popCont c = (c, 0) := by
  simp [popCont, hc]

theorem linkRoot_grows (hinv : c.HeapInv) (hs : c.NilSafe) {cell : Cell} (hcell : cell ∉ c.rootsHead)
    (hnil : cell ≠ nilRoot) {v : Addr} (hv : v ∈ c.heapHead) {L : List Addr} (hL : ∀ l ∈ L, l ∈ c.heapHead) :
    c.Grows (v :: L) ((setRoot c cell v).linkRoot cell) L :=
  ⟨heapInv_linkRoot (heapInv_setRoot hinv fun _ => hv) (by simpa [setRoot] using hv),
    nilSafe_linkRoot (nilSafe_setRoot hs hnil v) cell, hL, keeps_linkRoot hcell v⟩

theorem popRoot_bind {α : Type} {k : Collector → Except Fault α} {cell : Cell} {rest : List Cell}
    (hr : c.rootsHead = cell :: rest) : (popRoot c >>= k) = k { c with rootsHead := rest } := by
  simp only [popRoot, hr]; rfl

theorem popRoot3_bind {α : Type} {k : Collector → Except Fault α} {a b d : Cell} {rest : List Cell}
    (hr : c.rootsHead = a :: b :: d :: rest) :
    (do let c ← popRoot c; let c ← popRoot c; let c ← popRoot c; k c) = k { c with rootsHead := rest } := by
  simp only [popRoot, hr]; rfl

theorem unroot_grows (hinv : c.HeapInv) (hs : c.NilSafe) {pre rest : List Cell} (hr : c.rootsHead = pre ++ rest)
    (hbot : ∃ p, rest = p ++ [nilRoot]) {L : List Addr} (hL : ∀ l ∈ L, l ∈ c.heapHead) :
    c.Grows L { c with rootsHead := rest } (pre.map c.cells ++ L) where
  inv := { hinv with roots := fun cell hc => hinv.roots cell (hr ▸ List.mem_append_right _ hc) }
  nilSafe := { hs with bottom := hbot }
  listed l hl := by
    rcases List.mem_append.1 hl with hl | hl
    · obtain ⟨cell, hc, rfl⟩ := List.mem_map.1 hl
      exact hinv.roots cell (hr ▸ List.mem_append_left _ hc)
    · exact hL l hl
  keeps := keeps_of_frame (fun _ _ => Heap.FieldsEq.refl _ _)
    (fun cell hc => by
      rcases List.mem_append.1 (hr ▸ hc) with hc | hc
      · exact .of_mem (List.mem_append_left _ (List.mem_map_of_mem _ hc))
      · exact .of_root (c := { c with rootsHead := rest }) hc)
    (fun l hl => .of_mem (List.mem_append_right _ hl))

end grows

end GclProofs
