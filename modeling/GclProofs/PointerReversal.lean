import GclProofs.Dfs

/-!
The Schorr–Waite encoding of the traversal stack in the child fields: `mark` is the traversal
of `Dfs` on it.
-/

namespace GclProofs

namespace Heap

def reverseLinks (h : Heap) : List Addr → Heap
  | [] => h
  | p :: rest => (h.reverseLinks rest).setCursorChild p (rest.headD 0)

def restoreLinks (h : Heap) (o : Addr) : List Addr → Heap
  | [] => h
  | p :: rest => (h.setCursorChild p o).restoreLinks p rest

def Chain (h : Heap) : Addr → List Addr → Prop
  | p, [] => p = 0
  | p, q :: rest => p = q ∧ p ≠ 0 ∧ h.Chain (h.cursorChild p) rest

section

variable (h : Heap) (stk : List Addr)

@[simp] theorem reverseLinks_marked : (h.reverseLinks stk).marked = h.marked := by
  induction stk <;> simp_all [reverseLinks]

@[simp] theorem reverseLinks_cls : (h.reverseLinks stk).cls = h.cls := by
  induction stk <;> simp_all [reverseLinks]

@[simp] theorem reverseLinks_tailIsNext : (h.reverseLinks stk).tailIsNext = h.tailIsNext := by
  induction stk <;> simp_all [reverseLinks]

@[simp] theorem reverseLinks_apply : (h.reverseLinks stk).apply = h.apply := by
  induction stk <;> simp_all [reverseLinks]

@[simp] theorem reverseLinks_chars : (h.reverseLinks stk).chars = h.chars := by
  induction stk <;> simp_all [reverseLinks]

end

theorem setCursorChild_flags (h : Heap) (m t : Addr → Bool) {p v : Addr} (ht : t p = h.tailIsNext p) :
    ({ h with marked := m, tailIsNext := t } : Heap).setCursorChild p v =
      { h.setCursorChild p v with marked := m, tailIsNext := t } := by
  unfold setCursorChild
  cases h.cls p <;> cases hb : h.tailIsNext p <;> simp [ht, hb]

theorem reverseLinks_flags (h : Heap) (m t : Addr → Bool) {stk : List Addr}
    (ht : ∀ p ∈ stk, t p = h.tailIsNext p) :
    ({ h with marked := m, tailIsNext := t } : Heap).reverseLinks stk =
      { h.reverseLinks stk with marked := m, tailIsNext := t } := by
  induction stk with
  | nil => rfl
  | cons p rest ih =>
    simp only [reverseLinks]
    rw [ih fun q hq => ht q (List.mem_cons_of_mem _ hq),
      setCursorChild_flags _ _ _ (by simpa using ht p (List.mem_cons_self _ _))]

theorem setCursorChild_fields_of_ne (h : Heap) {p q : Addr} (v : Addr) (hq : q ≠ p) :
    (h.setCursorChild p v).head q = h.head q ∧ (h.setCursorChild p v).tail q = h.tail q ∧
      (h.setCursorChild p v).data q = h.data q := by
  unfold setCursorChild
  cases h.cls p <;> cases h.tailIsNext p <;> simp [hq]

theorem reverseLinks_fields_of_not_mem (h : Heap) {stk : List Addr} {x : Addr} (hx : x ∉ stk) :
    (h.reverseLinks stk).head x = h.head x ∧ (h.reverseLinks stk).tail x = h.tail x ∧
      (h.reverseLinks stk).data x = h.data x := by
  induction stk with
  | nil => exact ⟨rfl, rfl, rfl⟩
  | cons p rest ih =>
    obtain ⟨h1, h2, h3⟩ := ih fun h' => hx (List.mem_cons_of_mem _ h')
    obtain ⟨h4, h5, h6⟩ := setCursorChild_fields_of_ne (h.reverseLinks rest) (rest.headD 0)
      (show x ≠ p from fun h' => hx (h' ▸ List.mem_cons_self _ _))
    exact ⟨h4.trans h1, h5.trans h2, h6.trans h3⟩

theorem setCursorChild_cons_true (h : Heap) {p v : Addr} (hc : h.cls p = .cons)
    (ht : h.tailIsNext p = true) : h.setCursorChild p v = { h with head := Function.update h.head p v } := by
  simp [setCursorChild, hc, ht]

theorem setCursorChild_cons_false (h : Heap) {p v : Addr} (hc : h.cls p = .cons)
    (ht : h.tailIsNext p = false) : h.setCursorChild p v = { h with tail := Function.update h.tail p v } := by
  simp [setCursorChild, hc, ht]

theorem setCursorChild_function (h : Heap) {p v : Addr} (hc : h.cls p = .function) :
    h.setCursorChild p v = { h with data := Function.update h.data p v } := by
  simp [setCursorChild, hc]

theorem cursorChild_reverseLinks_of_not_mem (h : Heap) {stk : List Addr} {x : Addr} (hx : x ∉ stk) :
    (h.reverseLinks stk).cursorChild x = h.cursorChild x := by
  induction stk with
  | nil => rfl
  | cons p rest ih =>
    rw [reverseLinks, cursorChild_setCursorChild_of_ne _ _ _ _
      (show x ≠ p from fun h' => hx (h' ▸ List.mem_cons_self _ _)),
      ih fun h' => hx (List.mem_cons_of_mem _ h')]

theorem chain_congr (h' h : Heap) {stk : List Addr} (hc : ∀ p ∈ stk, h'.cursorChild p = h.cursorChild p)
    {x : Addr} : h'.Chain x stk ↔ h.Chain x stk := by
  induction stk generalizing x with
  | nil => exact Iff.rfl
  | cons p rest ih =>
    simp only [Chain]
    constructor
    · rintro ⟨rfl, hx, hr⟩
      exact ⟨rfl, hx, hc x (List.mem_cons_self _ _) ▸ (ih fun q hq => hc q (List.mem_cons_of_mem _ hq)).1 hr⟩
    · rintro ⟨rfl, hx, hr⟩
      exact ⟨rfl, hx, (hc x (List.mem_cons_self _ _)).symm ▸
        (ih fun q hq => hc q (List.mem_cons_of_mem _ hq)).2 hr⟩

theorem reverseLinks_chain (h : Heap) {stk : List Addr} (hnd : stk.Nodup) (hnz : ∀ p ∈ stk, p ≠ 0) :
    (h.reverseLinks stk).Chain (stk.headD 0) stk := by
  induction stk with
  | nil => rfl
  | cons p rest ih =>
    obtain ⟨hp, hnd⟩ := List.nodup_cons.1 hnd
    refine ⟨rfl, hnz p (List.mem_cons_self _ _), ?_⟩
    rw [List.headD_cons, reverseLinks, cursorChild_setCursorChild_self]
    refine (chain_congr _ _ fun q hq => ?_).2 (ih hnd fun q hq => hnz q (List.mem_cons_of_mem _ hq))
    exact cursorChild_setCursorChild_of_ne _ _ _ _ fun h' => hp (h' ▸ hq)

theorem restoreLinks_reverseLinks (h : Heap) {stk : List Addr} (hnd : stk.Nodup) {o : Addr}
    (hl : h.Linked o stk) : (h.reverseLinks stk).restoreLinks o stk = h := by
  induction stk generalizing o with
  | nil => rfl
  | cons p rest ih =>
    obtain ⟨hp, hnd⟩ := List.nodup_cons.1 hnd
    obtain ⟨hpo, hl⟩ := hl
    rw [reverseLinks, restoreLinks, setCursorChild_setCursorChild, ← hpo,
      ← cursorChild_reverseLinks_of_not_mem h hp, setCursorChild_cursorChild, ih hnd hl]

end Heap

section

variable {g : Heap}

@[simp] theorem DfsState.heap_marked (a : DfsState) : (a.heap g).marked = a.marked := rfl
@[simp] theorem DfsState.heap_tailIsNext (a : DfsState) : (a.heap g).tailIsNext = a.tailIsNext := rfl
@[simp] theorem DfsState.heap_cls (a : DfsState) : (a.heap g).cls = g.cls := rfl
@[simp] theorem DfsState.heap_head (a : DfsState) : (a.heap g).head = g.head := rfl
@[simp] theorem DfsState.heap_tail (a : DfsState) : (a.heap g).tail = g.tail := rfl
@[simp] theorem DfsState.heap_data (a : DfsState) : (a.heap g).data = g.data := rfl

end

def encode (g : Heap) (a : DfsState) : MarkState :=
  ⟨⟨(a.heap g).reverseLinks a.stack, a.object, a.stack.headD 0⟩, a.pc⟩

theorem encode_init (g : Heap) (r : Addr) : encode g (dfsInit g r) = markInit g r := rfl

section

variable {g : Heap} {L : List Addr} {r : Addr}

theorem markStep_encode {a : DfsState} (hI : DfsInv g L r a) (hnz : ∀ p ∈ a.stack, p ≠ 0) :
    markStep (encode g a) = encode g (dfsStep g a) := by
  rcases hI.pc_ok with hpc | hpc | ⟨hpc, hs⟩
  · by_cases hm : a.marked a.object = true
    · simp [markStep, dfsStep, encode, hpc, hm]; rfl
    · simp only [Bool.not_eq_true] at hm
      have hno := hI.object_not_mem hm
      have hne : ∀ p ∈ a.stack, p ≠ a.object := fun p hp h => hno (h ▸ hp)
      obtain ⟨hh, -, hd⟩ := (a.heap g).reverseLinks_fields_of_not_mem hno
      cases hc : g.cls a.object with
      | cons =>
        have hR : (DfsState.heap g
            { marked := Function.update a.marked a.object true,
              tailIsNext := Function.update a.tailIsNext a.object true, stack := a.object :: a.stack,
              object := g.head a.object, pc := .startMarking }).reverseLinks a.stack =
            { (a.heap g).reverseLinks a.stack with
              marked := Function.update a.marked a.object true,
              tailIsNext := Function.update a.tailIsNext a.object true } :=
          Heap.reverseLinks_flags (a.heap g) _ _ fun p hp => Function.update_noteq (hne p hp) _ _
        simp [markStep, dfsStep, encode, hpc, hm, hc, Cls.startMarking, consStartMarking,
          Heap.reverseLinks, hR, Heap.setCursorChild_cons_true, hh]
      | function =>
        have hR : (DfsState.heap g
            { marked := Function.update a.marked a.object true, tailIsNext := a.tailIsNext,
              stack := a.object :: a.stack, object := g.data a.object,
              pc := .startMarking }).reverseLinks a.stack =
            { (a.heap g).reverseLinks a.stack with
              marked := Function.update a.marked a.object true, tailIsNext := a.tailIsNext } :=
          Heap.reverseLinks_flags (a.heap g) _ _ fun _ _ => rfl
        simp [markStep, dfsStep, encode, hpc, hm, hc, Cls.startMarking, functionStartMarking,
          Heap.reverseLinks, hR, Heap.setCursorChild_function, hd]
      | nil | atom =>
        have hR : (DfsState.heap g
            { marked := Function.update a.marked a.object true, tailIsNext := a.tailIsNext,
              stack := a.stack, object := a.object, pc := .markNext }).reverseLinks a.stack =
            { (a.heap g).reverseLinks a.stack with
              marked := Function.update a.marked a.object true, tailIsNext := a.tailIsNext } :=
          Heap.reverseLinks_flags (a.heap g) _ _ fun _ _ => rfl
        simp [markStep, dfsStep, encode, hpc, hm, hc, Cls.startMarking, nilStartMarking,
          atomStartMarking, hR]
  · cases hs : a.stack with
    | nil => simp [markStep, dfsStep, encode, hpc, hs, Heap.reverseLinks]; rfl
    | cons p rest =>
      have hp0 : p ≠ 0 := hnz p (hs ▸ List.mem_cons_self _ _)
      have hpr : p ∉ rest := (List.nodup_cons.1 (hs ▸ hI.nodup)).1
      obtain ⟨hh, ht, hd⟩ := (a.heap g).reverseLinks_fields_of_not_mem hpr
      have hl := hI.linked
      rw [hs] at hl
      have hpop : (DfsState.heap g
          { marked := a.marked, tailIsNext := a.tailIsNext, stack := rest, object := p,
            pc := .markNext }).reverseLinks rest =
          { (a.heap g).reverseLinks rest with marked := a.marked, tailIsNext := a.tailIsNext } :=
        Heap.reverseLinks_flags (a.heap g) _ _ fun _ _ => rfl
      rcases hI.stack_cls p (hs ▸ List.mem_cons_self _ _) with hc | hc
      · cases htn : a.tailIsNext p
        · have ho : a.object = g.tail p := by
            simpa [Heap.Linked, Heap.cursorChild, hc, htn] using hl.1.symm
          have hu : Function.update ((a.heap g).reverseLinks rest).tail p (g.tail p) =
              ((a.heap g).reverseLinks rest).tail := Function.update_eq_self_iff.2 ht.symm
          simp [markStep, dfsStep, encode, hpc, hs, hp0, hc, htn, Cls.markNext, consMarkNext,
            Heap.reverseLinks, Heap.setCursorChild_cons_false, ho, hu, hpop]
        · have ho : a.object = g.head p := by
            simpa [Heap.Linked, Heap.cursorChild, hc, htn] using hl.1.symm
          have hu : Function.update ((a.heap g).reverseLinks rest).head p (g.head p) =
              ((a.heap g).reverseLinks rest).head := Function.update_eq_self_iff.2 hh.symm
          have hR : (DfsState.heap g
              { marked := a.marked, tailIsNext := Function.update a.tailIsNext p false,
                stack := p :: rest, object := g.tail p, pc := .startMarking }).reverseLinks rest =
              { (a.heap g).reverseLinks rest with
                marked := a.marked, tailIsNext := Function.update a.tailIsNext p false } :=
            Heap.reverseLinks_flags (a.heap g) _ _ fun q hq =>
              Function.update_noteq (show q ≠ p from fun h => hpr (h ▸ hq)) _ _
          simp [markStep, dfsStep, encode, hpc, hs, hp0, hc, htn, Cls.markNext, consMarkNext,
            Heap.reverseLinks, Heap.setCursorChild_cons_true, Heap.setCursorChild_cons_false, ho,
            hu, hR, ht]
      · have ho : a.object = g.data p := by
          simpa [Heap.Linked, Heap.cursorChild, hc] using hl.1.symm
        have hu : Function.update ((a.heap g).reverseLinks rest).data p (g.data p) =
            ((a.heap g).reverseLinks rest).data := Function.update_eq_self_iff.2 hd.symm
        simp [markStep, dfsStep, encode, hpc, hs, hp0, hc, Cls.markNext, functionMarkNext,
          Heap.reverseLinks, Heap.setCursorChild_function, ho, hu, hpop]
  · simp [markStep, dfsStep, encode, hpc]

theorem DfsInv.stack_ne_zero {a : DfsState} (hI : DfsInv g L r a) (hL0 : 0 ∉ L)
    (hL : ∀ x ∈ L, ∀ y ∈ g.children x, y ∈ L) (hr : r ∈ L) : ∀ p ∈ a.stack, p ≠ 0 :=
  fun _ hp h => hL0 (h ▸ reaches_mem hL hr (hI.stack_reach hp))

theorem markRun_encode (hL0 : 0 ∉ L) (hL : ∀ x ∈ L, ∀ y ∈ g.children x, y ∈ L) (hr : r ∈ L)
    {a : DfsState} (hI : DfsInv g L r a) (n : Nat) :
    markRun n (encode g a) = encode g (dfsRun g n a) := by
  induction n generalizing a with
  | zero => rfl
  | succ n ih => rw [markRun, markStep_encode hI (hI.stack_ne_zero hL0 hL hr), ih (dfsInv_step hI)]; rfl

end

theorem mark_spec {g : Heap} {L : List Addr} {r : Addr} (hL0 : 0 ∉ L)
    (hL : ∀ x ∈ L, ∀ y ∈ g.children x, y ∈ L)
    (hM : ∀ x ∈ L, g.marked x = true → ∀ y ∈ g.children x, g.marked y = true) (hr : r ∈ L) :
    ∃ h', mark (5 * L.length + 2) g r = some h' ∧
      (∀ x, h'.marked x = true ↔ g.marked x = true ∨ g.Reaches r x) ∧
      h' = { g with marked := h'.marked, tailIsNext := h'.tailIsNext } ∧
      ∀ x, h'.tailIsNext x ≠ g.tailIsNext x → g.Reaches r x ∧ g.marked x = false ∧ g.cls x = .cons := by
  have hI := dfsInv_init (r := r) hM
  set a := dfsRun g ((dfsInit g r).potential g L) (dfsInit g r)
  have hret : a.pc = .returned := dfs_returns hL hr hI
  have hIa : DfsInv g L r a := dfsInv_run hI _
  have hs : a.stack = [] := by rcases hIa.pc_ok with h | h | h <;> simp_all
  have hrun : markRun ((dfsInit g r).potential g L) (markInit g r) = encode g a := by
    rw [← encode_init, markRun_encode hL0 hL hr hI]
  have hle : (dfsInit g r).potential g L ≤ 5 * L.length + 2 := by
    have hc : L.countP (fun x => !g.marked x) ≤ L.length := List.countP_le_length _
    simp only [DfsState.potential, dfsInit, Pc.rank, stackWeight]
    omega
  refine ⟨a.heap g, ?_, hIa.returned_marked hL hr hret, rfl, fun x hx => ?_⟩
  · rw [mark_of_returned (by rw [hrun]; exact hret) hle, hrun]
    simp [encode, hs, Heap.reverseLinks]
  · exact ⟨(hIa.frame x (.inr hx)).1, (hIa.frame x (.inr hx)).2, hIa.tail_frame x hx⟩

theorem mark_correct (h : Heap) (L : List Addr) (r : Addr) (hL0 : 0 ∉ L)
    (hL : ∀ x ∈ L, ∀ y ∈ h.children x, y ∈ L)
    (hM : ∀ x ∈ L, h.marked x = true → ∀ y ∈ h.children x, h.marked y = true) (hr : r ∈ L) :
    ∃ n h', mark n h r = some h' ∧
      (∀ x, h'.marked x = true ↔ h.marked x = true ∨ h.Reaches r x) ∧
      h'.head = h.head ∧ h'.tail = h.tail ∧ h'.data = h.data ∧
      h' = { h with marked := h'.marked, tailIsNext := h'.tailIsNext } ∧
      ∀ x, h'.tailIsNext x ≠ h.tailIsNext x → h.Reaches r x ∧ h.marked x = false ∧ h.cls x = .cons := by
  obtain ⟨h', hm, hmarked, heq, htail⟩ := mark_spec hL0 hL hM hr
  exact ⟨_, h', hm, hmarked, heq ▸ rfl, heq ▸ rfl, heq ▸ rfl, heq, htail⟩

def sampleHeap : Heap where
  marked _ := false
  cls x := if x = 3 then .atom else if x = 4 then .function else .cons
  tailIsNext _ := false
  head x := if x = 1 then 2 else if x = 2 then 1 else 0
  tail x := if x = 1 then 1 else if x = 2 then 4 else 0
  apply _ := .eval
  data x := if x = 4 then 3 else 0
  chars _ := ""

theorem mark_correct_sample :
    (0 ∉ [1, 2, 3, 4] ∧ (∀ x ∈ [1, 2, 3, 4], ∀ y ∈ sampleHeap.children x, y ∈ [1, 2, 3, 4])) ∧
    ∃ n h', mark n sampleHeap 1 = some h' ∧
      (∀ x, h'.marked x = true ↔ sampleHeap.marked x = true ∨ sampleHeap.Reaches 1 x) ∧
      h'.head = sampleHeap.head ∧ h'.tail = sampleHeap.tail ∧ h'.data = sampleHeap.data ∧
      h' = { sampleHeap with marked := h'.marked, tailIsNext := h'.tailIsNext } ∧
      ∀ x, h'.tailIsNext x ≠ sampleHeap.tailIsNext x →
        sampleHeap.Reaches 1 x ∧ sampleHeap.marked x = false ∧ sampleHeap.cls x = .cons :=
  ⟨⟨by decide, by decide⟩,
    mark_correct sampleHeap [1, 2, 3, 4] 1 (by decide) (by decide) (by decide) (by decide)⟩

theorem mark_reversed_stack (h : Heap) (L : List Addr) (r : Addr) (hL0 : 0 ∉ L)
    (hL : ∀ x ∈ L, ∀ y ∈ h.children x, y ∈ L)
    (hM : ∀ x ∈ L, h.marked x = true → ∀ y ∈ h.children x, h.marked y = true) (hr : r ∈ L)
    (n : Nat) :
    let s := markRun n (markInit h r)
    s.pc ≠ .assertFailed ∧
    (s.pc = .markNext → s.parent ≠ 0 → s.heap.cls s.parent = .cons ∨ s.heap.cls s.parent = .function) ∧
    ∃ chain : List Addr, chain.Nodup ∧
      (∀ p ∈ chain, p ≠ 0 ∧ s.heap.marked p = true ∧
        (s.heap.cls p = .cons ∨ s.heap.cls p = .function)) ∧
      s.heap.Chain s.parent chain ∧
      s.heap.restoreLinks s.object chain =
        { h with marked := s.heap.marked, tailIsNext := s.heap.tailIsNext } ∧
      (s.parent ≠ 0 → ({ h with tailIsNext := s.heap.tailIsNext } : Heap).cursorChild s.parent = s.object) := by
  have hI := dfsInv_run (dfsInv_init (r := r) hM) n
  intro s
  have hs : s = encode h (dfsRun h n (dfsInit h r)) := by
    simp only [s]; rw [← encode_init, markRun_encode hL0 hL hr (dfsInv_init hM)]
  set a := dfsRun h n (dfsInit h r)
  have hnz := hI.stack_ne_zero hL0 hL hr
  have htop : ∀ p rest, a.stack = p :: rest →
      s.parent = p ∧ (h.cls p = .cons ∨ h.cls p = .function) ∧ (a.heap h).cursorChild p = a.object :=
    fun p rest hst => by
      have hl := hI.linked
      rw [hst] at hl
      exact ⟨by simp [hs, encode, hst], hI.stack_cls p (hst ▸ List.mem_cons_self _ _), hl.1⟩
  refine ⟨?_, fun _ hp0 => ?_, a.stack, hI.nodup, fun p hp => ?_, ?_, ?_, fun hp0 => ?_⟩
  · rcases hI.pc_ok with h' | h' | h' <;> simp [hs, encode, h']
  · cases hst : a.stack with
    | nil => simp [hs, encode, hst] at hp0
    | cons p rest => obtain ⟨hpar, hc, -⟩ := htop p rest hst; simpa [hs, encode, hst] using hc
  · exact ⟨hnz p hp, by simpa [hs, encode] using hI.stack_marked p hp, by simpa [hs, encode] using hI.stack_cls p hp⟩
  · simpa [hs, encode] using (a.heap h).reverseLinks_chain hI.nodup hnz
  · simp only [hs, encode]
    rw [Heap.restoreLinks_reverseLinks _ hI.nodup hI.linked]
    simp [DfsState.heap]
  · cases hst : a.stack with
    | nil => simp [hs, encode, hst] at hp0
    | cons p rest =>
      obtain ⟨hpar, -, hcc⟩ := htop p rest hst
      simpa [hs, encode, hst, DfsState.heap, Heap.cursorChild] using hcc

theorem mark_reversed_stack_sample :
    (0 ∉ [1, 2, 3, 4] ∧ (∀ x ∈ [1, 2, 3, 4], ∀ y ∈ sampleHeap.children x, y ∈ [1, 2, 3, 4])) ∧
    let s := markRun 5 (markInit sampleHeap 1)
    s.pc ≠ .assertFailed ∧
    (s.pc = .markNext → s.parent ≠ 0 → s.heap.cls s.parent = .cons ∨ s.heap.cls s.parent = .function) ∧
    ∃ chain : List Addr, chain.Nodup ∧
      (∀ p ∈ chain, p ≠ 0 ∧ s.heap.marked p = true ∧
        (s.heap.cls p = .cons ∨ s.heap.cls p = .function)) ∧
      s.heap.Chain s.parent chain ∧
      s.heap.restoreLinks s.object chain =
        { sampleHeap with marked := s.heap.marked, tailIsNext := s.heap.tailIsNext } ∧
      (s.parent ≠ 0 →
        ({ sampleHeap with tailIsNext := s.heap.tailIsNext } : Heap).cursorChild s.parent = s.object) :=
  ⟨⟨by decide, by decide⟩,
    mark_reversed_stack sampleHeap [1, 2, 3, 4] 1 (by decide) (by decide) (by decide) (by decide) 5⟩

theorem mark_returns_within (h : Heap) (L : List Addr) (r : Addr) (hL0 : 0 ∉ L)
    (hL : ∀ x ∈ L, ∀ y ∈ h.children x, y ∈ L)
    (hM : ∀ x ∈ L, h.marked x = true → ∀ y ∈ h.children x, h.marked y = true) (hr : r ∈ L) :
    (markRun (5 * L.length + 2) (markInit h r)).pc = .returned := by
  obtain ⟨h', hm, -⟩ := mark_spec hL0 hL hM hr
  simp only [mark] at hm
  split at hm
  · assumption
  · cases hm

theorem mark_returns_within_sample :
    (0 ∉ [1, 2, 3, 4] ∧ (∀ x ∈ [1, 2, 3, 4], ∀ y ∈ sampleHeap.children x, y ∈ [1, 2, 3, 4])) ∧
    (markRun (5 * [1, 2, 3, 4].length + 2) (markInit sampleHeap 1)).pc = .returned :=
  ⟨⟨by decide, by decide⟩, mark_returns_within sampleHeap [1, 2, 3, 4] 1 (by decide) (by decide) (by decide) (by decide)⟩

end GclProofs
