import GclProofs.Mutator

/-!
`create_cons` and `create_atom` of `gcl.c`, and `Within`: the objects a computation registers
fit under the object cap.
-/

namespace GclProofs

def Heap.FieldsEq (h h' : Heap) (x : Addr) : Prop :=
  h'.cls x = h.cls x ∧ h'.head x = h.head x ∧ h'.tail x = h.tail x ∧ h'.data x = h.data x ∧
    h'.chars x = h.chars x ∧ h'.apply x = h.apply x

namespace Heap.FieldsEq

variable {h h' h'' : Heap} {x : Addr}

theorem refl (h : Heap) (x : Addr) : h.FieldsEq h x := ⟨rfl, rfl, rfl, rfl, rfl, rfl⟩

theorem trans (h1 : h.FieldsEq h' x) (h2 : h'.FieldsEq h'' x) : h.FieldsEq h'' x :=
  ⟨h2.1.trans h1.1, h2.2.1.trans h1.2.1, h2.2.2.1.trans h1.2.2.1, h2.2.2.2.1.trans h1.2.2.2.1,
    h2.2.2.2.2.1.trans h1.2.2.2.2.1, h2.2.2.2.2.2.trans h1.2.2.2.2.2⟩

theorem children (hx : h.FieldsEq h' x) : h'.children x = h.children x := by
  obtain ⟨hc, hh, ht, hd, -⟩ := hx
  simp only [Heap.children, Heap.childrenAs, hc, hh, ht, hd]

theorem of_setChild (h : Heap) {o y : Addr} (hy : y ≠ o) (f : ChildField) (value : Addr) :
    h.FieldsEq (h.setChild o f value) y := by
  cases f <;> exact ⟨rfl, by simp [Heap.setChild, Function.update_noteq hy], by simp [Heap.setChild, Function.update_noteq hy],
    by simp [Heap.setChild, Function.update_noteq hy], rfl, rfl⟩

end Heap.FieldsEq

theorem Heap.FieldsEq.of_update_cls (h : Heap) {o x : Addr} (hx : x ≠ o) (cls : Cls) :
    h.FieldsEq { h with cls := Function.update h.cls o cls } x :=
  ⟨by simp [Function.update_noteq hx], rfl, rfl, rfl, rfl, rfl⟩

theorem registerObject_frame {c c' : Collector} (hinv : c.HeapInv) {o : Addr} {cls : Cls}
    (h : registerObject c o cls = .ok c') :
    o ∈ c'.heapHead ∧ c'.rootsHead = c.rootsHead ∧ c'.cells = c.cells ∧
      ∀ x, Heap.FieldsEq { c.heap with cls := Function.update c.heap.cls o cls } c'.heap x := by
  obtain ⟨c1, -, -, hr, hcells, hh, -, rfl⟩ := registerObject_eq_link hinv h
  have hcls : c1.heap.cls = c.heap.cls := by rw [hh]
  refine ⟨List.mem_cons_self _ _, hr, hcells, fun x => ?_⟩
  have hf : c.heap.FieldsEq c1.heap x := by rw [hh]; exact Heap.FieldsEq.refl _ x
  exact ⟨by simp [Collector.linkObject, hcls], hf.2.1, hf.2.2.1, hf.2.2.2.1, hf.2.2.2.2.1, hf.2.2.2.2.2⟩

theorem registerObject_error {c : Collector} (hinv : c.HeapInv) (hs : c.NilSafe) {o : Addr} {cls : Cls}
    {f : Fault} (h : registerObject c o cls = .error f) :
    f = .error "register_object: object count limit reached." := by
  by_cases hcap : c.objectCount = 10000
  · obtain ⟨⟨c1, d⟩, hgc⟩ := gc_ok_of_nilSafe hinv hs
    rw [registerObject_of_cap hcap hgc] at h
    split at h <;> cases h; rfl
  · rw [registerObject_of_lt hcap] at h; cases h

structure ConsFrame where
  head : Cell
  tail : Cell

def createCons (malloc : Malloc) (fr : ConsFrame) (c : Collector) (head tail : Addr) :
    Except Fault (Collector × Addr) := do
  let c := { c with cells := Function.update (Function.update c.cells fr.head head) fr.tail tail }
  let cons := malloc c
  if cons = 0 then throw (.error "create_cons: out of memory")
  let c := { c with heap := { c.heap with head := Function.update c.heap.head cons head,
                                          tail := Function.update c.heap.tail cons tail } }
  let c ← pushRoot malloc c fr.head
  let c ← pushRoot malloc c fr.tail
  let c ← registerObject c cons .cons
  let c ← popRoot c
  let c ← popRoot c
  pure (c, cons)

def createAtom (malloc : Malloc) (c : Collector) (chars : String) : Except Fault (Collector × Addr) := do
  let atom := malloc c
  if atom = 0 then throw .outOfMemory
  let c := { c with heap := { c.heap with chars := Function.update c.heap.chars atom chars } }
  let c ← registerObject c atom .atom
  pure (c, atom)

def Malloc.Fresh (malloc : Malloc) : Prop := ∀ c, malloc c ≠ 0 → malloc c ∉ c.heapHead

def Fault.IsAllocFailure (f : Fault) : Prop :=
  f = .outOfMemory ∨ f = .error "create_cons: out of memory" ∨ f = .error "register_object: object count limit reached."

instance (f : Fault) : Decidable f.IsAllocFailure := inferInstanceAs (Decidable (_ ∨ _ ∨ _))

structure ConsFrame.Valid (fr : ConsFrame) : Prop where
  ne : fr.head ≠ fr.tail
  head_ne : fr.head ≠ nilRoot
  tail_ne : fr.tail ≠ nilRoot

section createCons

variable {malloc : Malloc} {fr : ConsFrame} {c : Collector} {head tail : Addr}

theorem createCons_spec (hmalloc : malloc.Fresh) (hfr : fr.Valid) (hinv : c.HeapInv) (hs : c.NilSafe)
    (hhead : head ∈ c.heapHead) (htail : tail ∈ c.heapHead) :
    (∀ f, createCons malloc fr c head tail = .error f → f.IsAllocFailure) ∧
    ∀ c' o, createCons malloc fr c head tail = .ok (c', o) →
      o ∉ c.heapHead ∧ o ∈ c'.heapHead ∧ c'.HeapInv ∧ c'.NilSafe ∧ c'.rootsHead = c.rootsHead ∧
      c'.cells = Function.update (Function.update c.cells fr.head head) fr.tail tail ∧
      c'.heap.cls o = .cons ∧ c'.heap.head o = head ∧ c'.heap.tail o = tail ∧
      ∀ x, x ≠ o → c.heap.FieldsEq c'.heap x := by
  unfold createCons
  dsimp only
  set c1 : Collector := { c with cells := Function.update (Function.update c.cells fr.head head) fr.tail tail }
  set o := malloc c1
  by_cases ho0 : o = 0
  · simp only [ho0, if_true]
    exact ⟨fun f h => by cases h; exact .inr (.inl rfl), fun _ _ h => by cases h⟩
  simp only [ho0, if_false, pure_bind, pushRoot_bind]
  set c2 : Collector := { c1 with heap := (c1.heap.setChild o .head head).setChild o .tail tail }
  split
  · exact ⟨fun f h => by cases h; exact .inl rfl, fun _ _ h => by cases h⟩
  split
  · exact ⟨fun f h => by cases h; exact .inl rfl, fun _ _ h => by cases h⟩
  set c3 := (c2.linkRoot fr.head).linkRoot fr.tail
  have hfresh : o ∉ c.heapHead := hmalloc c1 ho0
  have hch : Function.update (Function.update c.cells fr.head head) fr.tail tail fr.head = head ∧
      Function.update (Function.update c.cells fr.head head) fr.tail tail fr.tail = tail := by
    simp [Function.update_apply, hfr.ne]
  have hinv1 : c1.HeapInv := heapInv_setRoot (heapInv_setRoot hinv fun _ => hhead) fun _ => htail
  have hinv2 : c2.HeapInv :=
    heapInv_setChild (f := .tail) (heapInv_setChild (o := o) (f := .head) hinv1 fun _ => hhead) fun _ => htail
  have hinv3 : c3.HeapInv :=
    heapInv_linkRoot (heapInv_linkRoot hinv2 (by rw [show c2.cells fr.head = head from hch.1]; exact hhead))
      (by rw [show (c2.linkRoot fr.head).cells fr.tail = tail from hch.2]; exact htail)
  have hs3 : c3.NilSafe :=
    nilSafe_linkRoot (nilSafe_linkRoot (nilSafe_setChild (nilSafe_setChild
      (nilSafe_setRoot (nilSafe_setRoot hs hfr.head_ne head) hfr.tail_ne tail) o .head head) o .tail tail)
      fr.head) fr.tail
  refine ⟨fun f h => ?_, fun c' o' h => ?_⟩
  · rcases bind_eq_error h with h4 | ⟨c4, h4, h⟩
    · exact .inr (.inr (registerObject_error hinv3 hs3 h4))
    obtain ⟨-, hr4, -⟩ := registerObject_frame hinv3 h4
    have h5 : popRoot c4 = .ok { c4 with rootsHead := c4.rootsHead.tail } := by
      simp [popRoot, hr4, c3]; rfl
    have h6 : popRoot { c4 with rootsHead := c4.rootsHead.tail } =
        .ok { c4 with rootsHead := c4.rootsHead.tail.tail } := by
      simp [popRoot, hr4, c3]; rfl
    simp [h5, h6, bind, Except.bind, pure, Except.pure] at h
  obtain ⟨c4, h4, h⟩ := bind_eq_ok h
  obtain ⟨c5, h5, h⟩ := bind_eq_ok h
  obtain ⟨c6, h6, h⟩ := bind_eq_ok h
  cases h
  obtain ⟨ho4, hr4, hcells4, hf4⟩ := registerObject_frame hinv3 h4
  have hinv4 := heapInv_registerObject hinv3 hfresh ho0 (by
    rintro y (_ | ⟨_, _ | ⟨_, hy⟩⟩)
    · exact ⟨fr.head, by simp [c3], by simp [c3, c2, Heap.setChild, hch.1]⟩
    · exact ⟨fr.tail, by simp [c3], by simp [c3, c2, Heap.setChild, hch.2]⟩
    · cases hy) h4
  have hs4 := nilSafe_registerObject hinv3 hs3 (by decide) h4
  have hlen : 2 ≤ c.rootsHead.length + 1 := by
    obtain ⟨rest, hr⟩ := hs.bottom; simp [hr]
  have hs6 := nilSafe_popRoot (nilSafe_popRoot hs4 (by simp [hr4, c3]) h5)
    (by rw [(popRoot_eq_ok h5).2]; simp [hr4, c3, hlen]) h6
  have hinv6 := heapInv_popRoot (heapInv_popRoot hinv4 h5) h6
  obtain ⟨-, rfl⟩ := popRoot_eq_ok h5
  obtain ⟨-, rfl⟩ := popRoot_eq_ok h6
  have hc4 := hf4 o
  refine ⟨hfresh, ho4, hinv6, hs6, by simp [hr4, c3], by simp [hcells4, c3, c2, c1],
    by simpa using hc4.1, by simpa [c3, c2, Heap.setChild] using hc4.2.1,
    by simpa [c3, c2, Heap.setChild] using hc4.2.2.1, fun x hx => ?_⟩
  have hc3 : c.heap.FieldsEq c3.heap x :=
    ⟨rfl, by simp [c3, c2, Heap.setChild, Function.update_noteq hx],
      by simp [c3, c2, Heap.setChild, Function.update_noteq hx], rfl, rfl, rfl⟩
  exact hc3.trans ((Heap.FieldsEq.of_update_cls _ hx .cons).trans (hf4 x))

theorem createAtom_spec (hmalloc : malloc.Fresh) (hinv : c.HeapInv) (hs : c.NilSafe) (chars : String) :
    (∀ f, createAtom malloc c chars = .error f → f.IsAllocFailure) ∧
    ∀ c' o, createAtom malloc c chars = .ok (c', o) →
      o ∉ c.heapHead ∧ o ∈ c'.heapHead ∧ c'.HeapInv ∧ c'.NilSafe ∧ c'.rootsHead = c.rootsHead ∧
      c'.cells = c.cells ∧ c'.heap.cls o = .atom ∧ c'.heap.chars o = chars ∧
      ∀ x, x ≠ o → c.heap.FieldsEq c'.heap x := by
  unfold createAtom
  dsimp only
  set o := malloc c
  by_cases ho0 : o = 0
  · simp only [ho0, if_true]
    exact ⟨fun f h => by cases h; exact .inl rfl, fun _ _ h => by cases h⟩
  simp only [ho0, if_false]
  set c2 : Collector := { c with heap := { c.heap with chars := Function.update c.heap.chars o chars } }
  have hinv2 : c2.HeapInv :=
    ⟨⟨hinv.nodup, hinv.nonzero, hinv.unmarked, hinv.closed, hinv.roots⟩, hinv.count, hinv.bound⟩
  have hs2 : c2.NilSafe := { hs with }
  refine ⟨fun f h => ?_, fun c' o' h => ?_⟩
  · rcases bind_eq_error h with h | ⟨_, -, h⟩
    · cases h
    rcases bind_eq_error h with h3 | ⟨c3, -, h⟩
    · exact .inr (.inr (registerObject_error hinv2 hs2 h3))
    · cases h
  obtain ⟨_, -, h⟩ := bind_eq_ok h
  obtain ⟨c3, h3, h⟩ := bind_eq_ok h
  cases h
  obtain ⟨ho3, hr3, hcells3, hf3⟩ := registerObject_frame hinv2 h3
  have hc3 := hf3 o
  refine ⟨hmalloc c ho0, ho3, heapInv_registerObject hinv2 (hmalloc c ho0) ho0 (by simp [Heap.childrenAs]) h3,
    nilSafe_registerObject hinv2 hs2 (by decide) h3, hr3, hcells3, by simpa using hc3.1,
    by simpa [c2] using hc3.2.2.2.2.1, fun x hx => ?_⟩
  have hc2 : c.heap.FieldsEq c2.heap x := ⟨rfl, rfl, rfl, rfl, by simp [c2, Function.update_noteq hx], rfl⟩
  exact hc2.trans ((Heap.FieldsEq.of_update_cls _ hx .atom).trans (hf3 x))

theorem createAtom_full (hinv : c.HeapInv) (hall : ∀ x ∈ c.heapHead, c.Reachable x) (hcap : c.objectCount = 10000)
    (h0 : malloc c ≠ 0) (chars : String) :
    createAtom malloc c chars = .error (.error "register_object: object count limit reached.") := by
  have hinv2 : ({ c with heap := { c.heap with chars := Function.update c.heap.chars (malloc c) chars } } :
      Collector).HeapInv :=
    ⟨⟨hinv.nodup, hinv.nonzero, hinv.unmarked, hinv.closed, hinv.roots⟩, hinv.count, hinv.bound⟩
  simp [createAtom, h0, registerObject_full hinv2 hall hcap, bind, Except.bind, pure, Except.pure]

end createCons

inductive Within {α : Type} (μ : α → Int) (n : Int) : Except Fault α → Prop
  | error {f : Fault} : ¬f.IsAllocFailure → Within μ n (.error f)
  | ok {a : α} : μ a ≤ n → Within μ n (.ok a)

namespace Within

variable {α β : Type} {μ : α → Int} {ν : β → Int} {n m : Int}

theorem bind {x : Except Fault α} {g : α → Except Fault β} (hx : Within μ n x)
    (hg : ∀ a, μ a ≤ n → Within ν m (g a)) : Within ν m (x >>= g) := by
  cases hx with
  | error h => exact .error h
  | ok h => exact hg _ h

theorem map {x : Except Fault α} {g : α → β} (hx : Within μ n x) (hg : ∀ a, μ a ≤ n → ν (g a) ≤ m) :
    Within ν m (g <$> x) := by
  cases hx with
  | error h => exact .error h
  | ok h => exact .ok (hg _ h)

theorem mono {r : Except Fault α} (h : Within μ n r) (hn : n ≤ m) : Within μ m r := by
  cases h with
  | error h => exact .error h
  | ok h => exact .ok (Int.le_trans h hn)

theorem not_allocFailure {r : Except Fault α} (h : Within μ n r) {f : Fault} (hf : r = .error f) :
    ¬f.IsAllocFailure := by
  cases h with
  | error h => cases hf; exact h
  | ok _ => cases hf

end Within

section within

variable {malloc : Malloc} {c : Collector} {n : Int}

theorem registerObject_within (h : c.objectCount + 1 ≤ n) (hn : n ≤ 10000) (o : Addr) (cls : Cls) :
    Within Collector.objectCount n (registerObject c o cls) := by
  rw [registerObject_of_lt (by omega)]
  exact .ok h

theorem pushRoot_within (hm : malloc.NeverFails) (root : Cell) (h : c.objectCount ≤ n) :
    Within Collector.objectCount n (pushRoot malloc c root) := by
  rw [pushRoot_of_ne (hm c)]
  exact .ok h

theorem popRoot_within (h : c.objectCount ≤ n) : Within Collector.objectCount n (popRoot c) := by
  unfold popRoot
  split
  · exact .error (by decide)
  · exact .ok h

theorem createAtom_within (hm : malloc.NeverFails) (h : c.objectCount + 1 ≤ n) (hn : n ≤ 10000) (chars : String) :
    Within (·.1.objectCount) n (createAtom malloc c chars) := by
  simp only [createAtom, if_neg (hm c), pure_bind]
  exact Within.bind (registerObject_within (by exact h) hn _ _) fun _ h1 => .ok h1

theorem createCons_within (hm : malloc.NeverFails) (h : c.objectCount + 1 ≤ n) (hn : n ≤ 10000) (fr : ConsFrame)
    (head tail : Addr) : Within (·.1.objectCount) n (createCons malloc fr c head tail) := by
  simp only [createCons, if_neg (hm _), pure_bind]
  exact Within.bind (pushRoot_within hm _ (by exact Int.le_refl c.objectCount)) fun _ h1 => Within.bind (pushRoot_within hm _ h1) fun _ h2 =>
    Within.bind (registerObject_within (by omega) hn _ _) fun _ h3 =>
      Within.bind (popRoot_within h3) fun _ h4 => Within.bind (popRoot_within h4) fun _ h5 => .ok h5

end within

end GclProofs
