import GclProofs.PointerReversal

/-!
`gc` of `gcl.c`: `mark` from every root cell, then the sweep over the heap list.
-/

namespace GclProofs

abbrev Cell := Nat

inductive Fault where
  | error (msg : String)
  | outOfMemory
  | abort
  | outOfFuel
  deriving DecidableEq, Repr

theorem bind_eq_ok {ε α β : Type} {x : Except ε α} {f : α → Except ε β} {b : β}
    (h : x >>= f = .ok b) : ∃ a, x = .ok a ∧ f a = .ok b := by
  cases x with
  | error e => cases h
  | ok a => exact ⟨a, rfl, h⟩

theorem bind_eq_error {ε α β : Type} {x : Except ε α} {f : α → Except ε β} {e : ε}
    (h : x >>= f = .error e) : x = .error e ∨ ∃ a, x = .ok a ∧ f a = .error e := by
  cases x with
  | error e' => exact .inl (by cases h; rfl)
  | ok a => exact .inr ⟨a, rfl, h⟩

theorem ok_bind {ε α β : Type} (a : α) (f : α → Except ε β) : (Except.ok a >>= f) = f a := rfl

theorem error_bind {ε α β : Type} (e : ε) (f : α → Except ε β) : (Except.error e >>= f) = .error e := rfl

structure Collector where
  heap : Heap
  heapHead : List Addr
  rootsHead : List Cell
  objectCount : Int
  cells : Cell → Addr

def nilValue : Addr := 1

def Cls.dispose : Cls → Except Fault Unit
  | .nil => throw .abort
  | .cons | .atom | .function => pure ()

theorem Cls.dispose_of_ne_nil {k : Cls} (hk : k ≠ .nil) : k.dispose = pure () := by
  cases k <;> first | rfl | exact absurd rfl hk

def markRoots (fuel : Nat) (cells : Cell → Addr) (h : Heap) : List Cell → Except Fault Heap
  | [] => pure h
  | rs :: rest =>
    match mark fuel h (cells rs) with
    | some h => markRoots fuel cells h rest
    | none => throw .outOfFuel

structure Swept where
  heap : Heap
  objectCount : Int
  kept : List Addr
  disposed : List Addr

def sweep (h : Heap) (objectCount : Int) : List Addr → Except Fault Swept
  | [] => pure ⟨h, objectCount, [], []⟩
  | o :: rest =>
    if h.marked o then do
      let s ← sweep { h with marked := Function.update h.marked o false } objectCount rest
      pure { s with kept := o :: s.kept }
    else do
      let disposeFunc := (h.cls o).dispose
      disposeFunc
      let s ← sweep h (objectCount - 1) rest
      pure { s with disposed := o :: s.disposed }

def gc (c : Collector) : Except Fault (Collector × List Addr) := do
  let heap ← markRoots (5 * c.heapHead.length + 2) c.cells c.heap c.rootsHead
  let s ← sweep heap c.objectCount c.heapHead
  pure ({ c with heap := s.heap, heapHead := s.kept, objectCount := s.objectCount }, s.disposed)

namespace Collector

def Reachable (c : Collector) (x : Addr) : Prop := ∃ cell ∈ c.rootsHead, c.heap.Reaches (c.cells cell) x

structure HeapShape (c : Collector) : Prop where
  nodup : c.heapHead.Nodup
  nonzero : 0 ∉ c.heapHead
  unmarked : ∀ x ∈ c.heapHead, c.heap.marked x = false
  closed : ∀ x ∈ c.heapHead, ∀ y ∈ c.heap.children x, y ∈ c.heapHead
  roots : ∀ cell ∈ c.rootsHead, c.cells cell ∈ c.heapHead

theorem HeapShape.reachable_mem {c : Collector} (hw : c.HeapShape) {x : Addr} (hx : c.Reachable x) :
    x ∈ c.heapHead := by
  obtain ⟨cell, hc, hr⟩ := hx
  exact reaches_mem hw.closed (hw.roots cell hc) hr

end Collector

theorem markRoots_spec {L : List Addr} {cells : Cell → Addr} (hL0 : 0 ∉ L) {h : Heap}
    (hL : ∀ x ∈ L, ∀ y ∈ h.children x, y ∈ L)
    (hM : ∀ x ∈ L, h.marked x = true → ∀ y ∈ h.children x, h.marked y = true) {rs : List Cell}
    (hrs : ∀ c ∈ rs, cells c ∈ L) :
    ∃ h', markRoots (5 * L.length + 2) cells h rs = .ok h' ∧
      (∀ x, h'.marked x = true ↔ h.marked x = true ∨ ∃ c ∈ rs, h.Reaches (cells c) x) ∧
      h' = { h with marked := h'.marked, tailIsNext := h'.tailIsNext } := by
  induction rs generalizing h with
  | nil => exact ⟨h, rfl, by simp, rfl⟩
  | cons c rest ih =>
    obtain ⟨h1, hm1, hmarked1, heq1, -⟩ := mark_spec hL0 hL hM (hrs c (List.mem_cons_self _ _))
    have hch : h1.children = h.children := by rw [heq1]; rfl
    have hreach : h1.Reaches = h.Reaches := Heap.reaches_congr hch
    obtain ⟨h', hm', hmarked', heq'⟩ := @ih h1 (by rwa [hch])
      (fun x hx hmx y hy => by
        rw [hch] at hy
        rcases (hmarked1 x).1 hmx with hmx | hrx
        · exact (hmarked1 y).2 (.inl (hM x hx hmx y hy))
        · exact (hmarked1 y).2 (.inr (hrx.child hy)))
      fun c hc => hrs c (List.mem_cons_of_mem _ hc)
    refine ⟨h', by simp [markRoots, hm1, hm'], fun x => ?_, ?_⟩
    · rw [hmarked', hmarked1, hreach]
      simp only [List.mem_cons, exists_eq_or_imp]
      tauto
    · rw [heq', heq1]

theorem sweep_spec (h : Heap) (n : Int) {l : List Addr} (hnd : l.Nodup)
    (hnil : ∀ x ∈ l, h.marked x = false → h.cls x ≠ .nil) :
    ∃ s, sweep h n l = .ok s ∧ s.kept = l.filter (h.marked ·) ∧
      s.disposed = l.filter (fun x => !h.marked x) ∧
      s.objectCount = n - (l.filter fun x => !h.marked x).length ∧
      s.heap = { h with marked := s.heap.marked } ∧ ∀ x, s.heap.marked x = true ↔ x ∉ l ∧ h.marked x = true := by
  induction l generalizing h n with
  | nil => exact ⟨⟨h, n, [], []⟩, rfl, rfl, rfl, by simp, rfl, by simp⟩
  | cons o rest ih =>
    obtain ⟨ho, hnd⟩ := List.nodup_cons.1 hnd
    have hrest : ∀ x ∈ rest, x ≠ o := fun x hx h => ho (h ▸ hx)
    by_cases hm : h.marked o = true
    · set h1 : Heap := { h with marked := Function.update h.marked o false }
      have hf : ∀ p : Bool → Bool, rest.filter (fun x => p (h1.marked x)) = rest.filter fun x => p (h.marked x) :=
        fun p => List.filter_congr fun x hx => by simp [h1, Function.update_noteq (hrest x hx)]
      obtain ⟨s1, hs1, hk, hd, hn, hh, hmk⟩ := ih h1 n hnd fun x hx => by
        simpa [h1, Function.update_noteq (hrest x hx)] using hnil x (List.mem_cons_of_mem _ hx)
      refine ⟨{ s1 with kept := o :: s1.kept }, by simp [sweep, hm, hs1, h1], ?_, ?_, ?_, hh, fun x => ?_⟩
      · simp [hk, hf fun b => b, hm]
      · simp [hd, hf fun b => !b, hm]
      · simp [hn, hf fun b => !b, hm]
      · rw [hmk x]
        by_cases hx : x = o
        · subst hx; simp [h1, ho]
        · simp [h1, hx, Function.update_noteq hx]
    · simp only [Bool.not_eq_true] at hm
      have hc : h.cls o ≠ .nil := hnil o (List.mem_cons_self _ _) hm
      obtain ⟨s1, hs1, hk, hd, hn, hh, hmk⟩ :=
        ih h (n - 1) hnd fun x hx => hnil x (List.mem_cons_of_mem _ hx)
      refine ⟨{ s1 with disposed := o :: s1.disposed }, by simp [sweep, hm, Cls.dispose_of_ne_nil hc, hs1], ?_, ?_, ?_, hh,
        fun x => ?_⟩
      · simp [hk, hm]
      · simp [hd, hm]
      · simp [hn, hm]; omega
      · rw [hmk x]
        by_cases hx : x = o <;> simp [hx, hm]

theorem sweep_eq_abort {h : Heap} {n : Int} {l : List Addr} {x : Addr} (hx : x ∈ l)
    (hm : h.marked x = false) (hc : h.cls x = .nil) : sweep h n l = .error .abort := by
  induction l generalizing h n with
  | nil => cases hx
  | cons o rest ih =>
    by_cases ho : h.marked o = true
    · have hxo : x ≠ o := fun e => by rw [e, ho] at hm; cases hm
      have hrest := ih (List.mem_of_ne_of_mem hxo hx) (h := { h with marked := Function.update h.marked o false })
        (n := n) (by simp [Function.update_noteq hxo, hm]) hc
      simp [sweep, ho, hrest, bind, Except.bind]
    · by_cases hco : h.cls o = .nil
      · simp [sweep, ho, hco, Cls.dispose, bind, Except.bind, throw, throwThe, MonadExceptOf.throw]
      · have hxo : x ≠ o := fun e => hco (e ▸ hc)
        simp [sweep, ho, Cls.dispose_of_ne_nil hco, ih (List.mem_of_ne_of_mem hxo hx) hm hc, bind,
          Except.bind, pure, Except.pure]

theorem Collector.HeapShape.markRoots_ok {c : Collector} (hw : c.HeapShape) :
    ∃ h1, markRoots (5 * c.heapHead.length + 2) c.cells c.heap c.rootsHead = .ok h1 ∧
      (∀ x ∈ c.heapHead, h1.marked x = true ↔ c.Reachable x) ∧
      h1 = { c.heap with marked := h1.marked, tailIsNext := h1.tailIsNext } := by
  obtain ⟨h1, hmr, hm1, heq1⟩ := markRoots_spec hw.nonzero hw.closed
    (fun x hx hmx => by simp [hw.unmarked x hx] at hmx) hw.roots
  exact ⟨h1, hmr, fun x hx => by rw [hm1, hw.unmarked x hx]; simp [Collector.Reachable], heq1⟩

theorem gc_eq_abort {c : Collector} (hw : c.HeapShape) {x : Addr} (hx : x ∈ c.heapHead)
    (hr : ¬c.Reachable x) (hc : c.heap.cls x = .nil) : gc c = .error .abort := by
  obtain ⟨h1, hmr, hreach, heq1⟩ := hw.markRoots_ok
  have hm : h1.marked x = false := by simpa using mt (hreach x hx).1 hr
  have hc1 : h1.cls x = .nil := by rw [heq1]; exact hc
  simp [gc, hmr, sweep_eq_abort hx hm hc1, bind, Except.bind]

theorem gc_ok_nil {c : Collector} (hw : c.HeapShape) {r : Collector × List Addr} (hgc : gc c = .ok r) :
    ∀ x ∈ c.heapHead, ¬c.Reachable x → c.heap.cls x ≠ .nil :=
  fun _ hx hr hc => by rw [gc_eq_abort hw hx hr hc] at hgc; cases hgc

theorem gc_spec {c : Collector} (hw : c.HeapShape)
    (hnil : ∀ x ∈ c.heapHead, ¬c.Reachable x → c.heap.cls x ≠ .nil) :
    ∃ (m : Addr → Bool) (c' : Collector), (∀ x ∈ c.heapHead, m x = true ↔ c.Reachable x) ∧
      gc c = .ok (c', c.heapHead.filter fun x => !m x) ∧
      c'.heapHead = c.heapHead.filter m ∧
      c'.objectCount = c.objectCount - (c.heapHead.filter fun x => !m x).length ∧
      c'.rootsHead = c.rootsHead ∧ c'.cells = c.cells ∧
      c'.heap = { c.heap with marked := c'.heap.marked, tailIsNext := c'.heap.tailIsNext } ∧
      ∀ x ∈ c.heapHead, c'.heap.marked x = false := by
  obtain ⟨h1, hmr, hreach, heq1⟩ := hw.markRoots_ok
  obtain ⟨s, hs, hk, hd, hn, hh, hms⟩ := sweep_spec h1 c.objectCount hw.nodup fun x hx hmx => by
    rw [heq1]; exact hnil x hx fun hr => by simp [(hreach x hx).2 hr] at hmx
  refine ⟨h1.marked, { c with heap := s.heap, heapHead := s.kept, objectCount := s.objectCount },
    hreach, ?_, hk, by rw [hn], rfl, rfl, ?_, fun x hx => by simpa [hx] using hms x⟩
  · simp [gc, hmr, hs, hd, bind, Except.bind, Functor.map, Except.map]; rfl
  · rw [hh, heq1]

theorem gc_correct (c : Collector) (hw : c.HeapShape) (hnil : c.Reachable nilValue)
    (hnil1 : ∀ x ∈ c.heapHead, c.heap.cls x = .nil → x = nilValue) :
    ∃ c' disposed, gc c = .ok (c', disposed) ∧
      (c'.heapHead.Sublist c.heapHead ∧ ∀ x, x ∈ c'.heapHead ↔ x ∈ c.heapHead ∧ c.Reachable x) ∧
      (∀ x ∈ c'.heapHead, c'.heap.marked x = false) ∧
      c'.rootsHead = c.rootsHead ∧ c'.cells = c.cells ∧
      c'.heap = { c.heap with marked := c'.heap.marked, tailIsNext := c'.heap.tailIsNext } ∧
      (disposed.Nodup ∧ ∀ x, x ∈ disposed ↔ x ∈ c.heapHead ∧ ¬c.Reachable x) ∧
      c'.objectCount = c.objectCount - disposed.length := by
  obtain ⟨m, c', hm, hgc, hk, hn, hr, hcells, hh, hms⟩ :=
    gc_spec hw fun x hx hr hc => hr (hnil1 x hx hc ▸ hnil)
  refine ⟨c', _, hgc, ⟨hk ▸ List.filter_sublist _, fun x => ?_⟩, fun x hx => hms x ?_, hr, hcells, hh,
    ⟨hw.nodup.filter _, fun x => ?_⟩, hn⟩
  · rw [hk, List.mem_filter]
    exact ⟨fun ⟨hx, hmx⟩ => ⟨hx, (hm x hx).1 hmx⟩, fun ⟨hx, hrx⟩ => ⟨hx, (hm x hx).2 hrx⟩⟩
  · rw [hk] at hx; exact (List.mem_filter.1 hx).1
  · rw [List.mem_filter]
    constructor
    · rintro ⟨hx, hmx⟩; exact ⟨hx, fun hrx => by simp [(hm x hx).2 hrx] at hmx⟩
    · rintro ⟨hx, hrx⟩; exact ⟨hx, by simpa using mt (hm x hx).1 hrx⟩

def sampleCollector : Collector where
  heap :=
    { marked := fun _ => false
      cls := fun x => if x = 1 then .nil else if x = 3 then .atom else .cons
      tailIsNext := fun _ => false
      head := fun x => if x = 4 then 4 else 1
      tail := fun x => if x = 2 then 3 else 1
      apply := fun _ => .eval
      data := fun _ => 0
      chars := fun _ => "a" }
  heapHead := [4, 3, 2, 1]
  rootsHead := [0]
  objectCount := 4
  cells := fun _ => 2

theorem gc_correct_sample :
    (sampleCollector.HeapShape ∧ sampleCollector.Reachable nilValue ∧
      ∀ x ∈ sampleCollector.heapHead, sampleCollector.heap.cls x = .nil → x = nilValue) ∧
    ∃ c' disposed, gc sampleCollector = .ok (c', disposed) ∧
      (c'.heapHead.Sublist sampleCollector.heapHead ∧
        ∀ x, x ∈ c'.heapHead ↔ x ∈ sampleCollector.heapHead ∧ sampleCollector.Reachable x) ∧
      (∀ x ∈ c'.heapHead, c'.heap.marked x = false) ∧
      c'.rootsHead = sampleCollector.rootsHead ∧ c'.cells = sampleCollector.cells ∧
      c'.heap = { sampleCollector.heap with marked := c'.heap.marked, tailIsNext := c'.heap.tailIsNext } ∧
      (disposed.Nodup ∧ ∀ x, x ∈ disposed ↔ x ∈ sampleCollector.heapHead ∧ ¬sampleCollector.Reachable x) ∧
      c'.objectCount = sampleCollector.objectCount - disposed.length :=
  have hw : sampleCollector.HeapShape := ⟨by decide, by decide, by decide, by decide, by decide⟩
  have hnil : sampleCollector.Reachable nilValue :=
    ⟨0, List.mem_singleton_self _, Relation.ReflTransGen.single (by decide)⟩
  have hnil1 : ∀ x ∈ sampleCollector.heapHead, sampleCollector.heap.cls x = .nil → x = nilValue := by decide
  ⟨⟨hw, hnil, hnil1⟩, gc_correct sampleCollector hw hnil hnil1⟩

def strayNilCollector : Collector where
  heap :=
    { marked := fun _ => false
      cls := fun _ => .nil
      tailIsNext := fun _ => false
      head := fun _ => 0
      tail := fun _ => 0
      apply := fun _ => .eval
      data := fun _ => 0
      chars := fun _ => "" }
  heapHead := [2, 1]
  rootsHead := [0]
  objectCount := 2
  cells := fun _ => 1

theorem gc_aborts_on_stray_nil :
    strayNilCollector.HeapShape ∧ strayNilCollector.Reachable nilValue ∧
      gc strayNilCollector = .error .abort :=
  ⟨⟨by decide, by decide, by decide, by decide, by decide⟩,
    ⟨0, List.mem_singleton_self _, Relation.ReflTransGen.refl⟩, rfl⟩

end GclProofs
