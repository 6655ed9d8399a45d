import GclProofs.Mark

/-!
The traversal `mark` performs, with its stack kept as a list instead of in reversed child fields.
-/

namespace GclProofs

structure DfsState where
  marked : Addr → Bool
  tailIsNext : Addr → Bool
  stack : List Addr
  object : Addr
  pc : Pc

def Heap.Linked (h : Heap) : Addr → List Addr → Prop
  | _, [] => True
  | o, p :: rest => h.cursorChild p = o ∧ h.Linked p rest

theorem Heap.linked_congr (h' h : Heap) {stk : List Addr}
    (hc : ∀ p ∈ stk, h'.cursorChild p = h.cursorChild p) {o : Addr} : h'.Linked o stk ↔ h.Linked o stk := by
  induction stk generalizing o with
  | nil => exact Iff.rfl
  | cons p rest ih =>
    simp only [Heap.Linked, hc p (List.mem_cons_self _ _),
      ih fun q hq => hc q (List.mem_cons_of_mem _ hq)]

theorem Heap.cursorChild_mem_children (h : Heap) {p : Addr}
    (hc : h.cls p = .cons ∨ h.cls p = .function) : h.cursorChild p ∈ h.children p := by
  rcases hc with hc | hc <;> simp only [Heap.cursorChild, Heap.children, Heap.childrenAs, hc] <;>
    (try split) <;> simp

theorem update_true_eq_true {m : Addr → Bool} {o x : Addr} :
    Function.update m o true x = true ↔ x = o ∨ m x = true := by
  by_cases h : x = o <;> simp [Function.update_apply, h]

section

variable (g : Heap)

def DfsState.heap (a : DfsState) : Heap := { g with marked := a.marked, tailIsNext := a.tailIsNext }

def dfsStep (a : DfsState) : DfsState :=
  match a.pc with
  | .startMarking =>
    if a.marked a.object then { a with pc := .markNext }
    else
      let marked := Function.update a.marked a.object true
      match g.cls a.object with
      | .cons =>
        { a with marked, tailIsNext := Function.update a.tailIsNext a.object true,
                 stack := a.object :: a.stack, object := g.head a.object }
      | .function => { a with marked, stack := a.object :: a.stack, object := g.data a.object }
      | .nil | .atom => { a with marked, pc := .markNext }
  | .markNext =>
    match a.stack with
    | [] => { a with pc := .returned }
    | p :: rest =>
      match g.cls p with
      | .cons =>
        if a.tailIsNext p then
          { a with tailIsNext := Function.update a.tailIsNext p false, object := g.tail p,
                   pc := .startMarking }
        else { a with stack := rest, object := p }
      | .function => { a with stack := rest, object := p }
      | .nil | .atom => { a with pc := .assertFailed }
  | .returned | .assertFailed => a

def dfsRun : Nat → DfsState → DfsState
  | 0, a => a
  | n + 1, a => dfsRun n (dfsStep g a)

def dfsInit (r : Addr) : DfsState := ⟨g.marked, g.tailIsNext, [], r, .startMarking⟩

theorem dfsRun_add (m n : Nat) (a : DfsState) : dfsRun g (m + n) a = dfsRun g n (dfsRun g m a) := by
  induction m generalizing a with
  | zero => simp [dfsRun]
  | succ m ih => rw [Nat.succ_add, dfsRun, dfsRun, ih]

theorem dfsRun_returned (n : Nat) {a : DfsState} (h : a.pc = .returned) : dfsRun g n a = a := by
  induction n with
  | zero => rfl
  | succ n ih => simp only [dfsRun, dfsStep, h, ih]

variable (L : List Addr) (r : Addr)

structure DfsInv (a : DfsState) : Prop where
  frame : ∀ x, (a.marked x ≠ g.marked x ∨ a.tailIsNext x ≠ g.tailIsNext x) →
    g.Reaches r x ∧ g.marked x = false
  tail_frame : ∀ x, a.tailIsNext x ≠ g.tailIsNext x → g.cls x = .cons
  nodup : a.stack.Nodup
  stack_marked : ∀ p ∈ a.stack, a.marked p = true
  stack_fresh : ∀ p ∈ a.stack, g.marked p = false
  stack_cls : ∀ p ∈ a.stack, g.cls p = .cons ∨ g.cls p = .function
  linked : (a.heap g).Linked a.object a.stack
  bottom : a.stack.getLastD a.object = r
  object_reach : g.Reaches r a.object
  object_marked : a.pc ≠ .startMarking → a.marked a.object = true
  pc_ok : a.pc = .startMarking ∨ a.pc = .markNext ∨ (a.pc = .returned ∧ a.stack = [])
  closed : ∀ x ∈ L, a.marked x = true → x ∉ a.stack → ∀ y ∈ g.children x, a.marked y = true
  head_done : ∀ p ∈ a.stack, g.cls p = .cons → a.tailIsNext p = false → a.marked (g.head p) = true

def frameWeight (t : Addr → Bool) (p : Addr) : Nat := if g.cls p = .cons ∧ t p = true then 4 else 2

def Pc.rank : Pc → Nat
  | .startMarking => 2
  | .markNext => 1
  | .returned | .assertFailed => 0

def stackWeight (t : Addr → Bool) : List Addr → Nat
  | [] => 0
  | p :: rest => frameWeight g t p + stackWeight t rest

def DfsState.potential (a : DfsState) : Nat :=
  5 * L.countP (fun x => !a.marked x) + stackWeight g a.tailIsNext a.stack + a.pc.rank

variable {g L r}

theorem DfsInv.stack_reach {a : DfsState} (hI : DfsInv g L r a) {p : Addr} (hp : p ∈ a.stack) :
    g.Reaches r p :=
  (hI.frame p (.inl (by rw [hI.stack_marked p hp, hI.stack_fresh p hp]; decide))).1

theorem DfsInv.object_fresh {a : DfsState} (hI : DfsInv g L r a) (hm : a.marked a.object = false) :
    g.marked a.object = false := by
  cases hg : g.marked a.object
  · rfl
  · exact absurd (hI.frame _ (.inl (by rw [hm, hg]; decide))).2 (by rw [hg]; decide)

theorem DfsInv.object_not_mem {a : DfsState} (hI : DfsInv g L r a) (hm : a.marked a.object = false) :
    a.object ∉ a.stack := fun h => by simp [hI.stack_marked _ h] at hm

theorem dfsInv_init (hM : ∀ x ∈ L, g.marked x = true → ∀ y ∈ g.children x, g.marked y = true) :
    DfsInv g L r (dfsInit g r) where
  frame x hx := by simp [dfsInit] at hx
  tail_frame x hx := by simp [dfsInit] at hx
  nodup := List.nodup_nil
  stack_marked := by simp [dfsInit]
  stack_fresh := by simp [dfsInit]
  stack_cls := by simp [dfsInit]
  linked := trivial
  bottom := rfl
  object_reach := Relation.ReflTransGen.refl
  object_marked h := absurd rfl h
  pc_ok := .inl rfl
  closed x hx hm _ := hM x hx hm
  head_done := by simp [dfsInit]

theorem DfsInv.skip {a : DfsState} (hI : DfsInv g L r a) (hm : a.marked a.object = true) :
    DfsInv g L r { a with pc := .markNext } :=
  { hI with object_marked := fun _ => hm, pc_ok := .inr (.inl rfl) }

theorem DfsInv.finish {a : DfsState} (hI : DfsInv g L r a) (hpc : a.pc = .markNext) (hs : a.stack = []) :
    DfsInv g L r { a with pc := .returned } :=
  { hI with object_marked := fun _ => hI.object_marked (by simp [hpc]), pc_ok := .inr (.inr ⟨rfl, hs⟩) }

theorem DfsInv.leaf {a : DfsState} (hI : DfsInv g L r a) (hm : a.marked a.object = false)
    (hc : g.children a.object = []) :
    DfsInv g L r { a with marked := Function.update a.marked a.object true, pc := .markNext } where
  frame x hx := by
    by_cases h : x = a.object
    · exact h ▸ ⟨hI.object_reach, hI.object_fresh hm⟩
    · exact hI.frame x (by simpa [Function.update_noteq h] using hx)
  tail_frame := hI.tail_frame
  nodup := hI.nodup
  stack_marked p hp := update_true_eq_true.2 (.inr (hI.stack_marked p hp))
  stack_fresh := hI.stack_fresh
  stack_cls := hI.stack_cls
  linked := by refine (Heap.linked_congr _ (a.heap g) ?_).2 hI.linked; exact fun _ _ => rfl
  bottom := hI.bottom
  object_reach := hI.object_reach
  object_marked _ := by simp
  pc_ok := .inr (.inl rfl)
  closed x hx hmx hxs y hy := by
    dsimp only at hmx hxs ⊢
    by_cases h : x = a.object
    · simp [h, hc] at hy
    · rw [Function.update_noteq h] at hmx
      exact update_true_eq_true.2 (.inr (hI.closed x hx hmx hxs y hy))
  head_done p hp hcp ht := update_true_eq_true.2 (.inr (hI.head_done p hp hcp ht))

theorem DfsInv.push {a : DfsState} (hI : DfsInv g L r a) (hm : a.marked a.object = false)
    (hc : g.cls a.object = .cons ∨ g.cls a.object = .function) (t : Addr → Bool)
    (ht : ∀ x ≠ a.object, t x = a.tailIsNext x) (hto : g.cls a.object = .cons → t a.object = true)
    (htf : g.cls a.object = .function → t a.object = a.tailIsNext a.object) :
    DfsInv g L r ⟨Function.update a.marked a.object true, t, a.object :: a.stack,
      ({ g with tailIsNext := t } : Heap).cursorChild a.object, .startMarking⟩ where
  frame x hx := by
    by_cases h : x = a.object
    · exact h ▸ ⟨hI.object_reach, hI.object_fresh hm⟩
    · exact hI.frame x (by simpa [Function.update_noteq h, ht x h] using hx)
  tail_frame x hx := by
    by_cases h : x = a.object
    · subst h
      rcases hc with hc | hc
      · exact hc
      · exact hI.tail_frame _ (by simpa [htf hc] using hx)
    · exact hI.tail_frame x (by simpa [ht x h] using hx)
  nodup := List.nodup_cons.2 ⟨hI.object_not_mem hm, hI.nodup⟩
  stack_marked p hp := update_true_eq_true.2 <| by
    rcases List.mem_cons.1 hp with rfl | hp
    · exact .inl rfl
    · exact .inr (hI.stack_marked p hp)
  stack_fresh p hp := by
    rcases List.mem_cons.1 hp with rfl | hp
    · exact hI.object_fresh hm
    · exact hI.stack_fresh p hp
  stack_cls p hp := by
    rcases List.mem_cons.1 hp with rfl | hp
    · exact hc
    · exact hI.stack_cls p hp
  linked := ⟨rfl, (Heap.linked_congr _ (a.heap g) fun p hp => by
    simp [DfsState.heap, Heap.cursorChild, ht p (fun h => hI.object_not_mem hm (h ▸ hp))]).2 hI.linked⟩
  bottom := by rw [List.getLastD_cons, hI.bottom]
  object_reach := hI.object_reach.child (({ g with tailIsNext := t } : Heap).cursorChild_mem_children hc)
  object_marked h := absurd rfl h
  pc_ok := .inl rfl
  closed x hx hmx hxs y hy := by
    dsimp only at hmx hxs ⊢
    have hxo : x ≠ a.object := fun h => hxs (h ▸ List.mem_cons_self _ _)
    rw [Function.update_noteq hxo] at hmx
    exact update_true_eq_true.2 (.inr (hI.closed x hx hmx (fun h => hxs (List.mem_cons_of_mem _ h)) y hy))
  head_done p hp hcp htp := by
    dsimp only at hp htp ⊢
    rcases List.mem_cons.1 hp with rfl | hp'
    · simp [hto hcp] at htp
    · have hpo : p ≠ a.object := fun h => hI.object_not_mem hm (h ▸ hp')
      exact update_true_eq_true.2 (.inr (hI.head_done p hp' hcp (ht p hpo ▸ htp)))

theorem DfsInv.advance {a : DfsState} (hI : DfsInv g L r a) (hpc : a.pc = .markNext)
    {p : Addr} {rest : List Addr} (hs : a.stack = p :: rest) (hc : g.cls p = .cons)
    (ht : a.tailIsNext p = true) :
    DfsInv g L r { a with tailIsNext := Function.update a.tailIsNext p false, object := g.tail p,
                          pc := .startMarking } where
  frame x hx := by
    by_cases h : x = p
    · have hp : p ∈ a.stack := hs ▸ List.mem_cons_self _ _
      exact h ▸ ⟨hI.stack_reach hp, hI.stack_fresh p hp⟩
    · exact hI.frame x (by simpa [Function.update_noteq h] using hx)
  tail_frame x hx := by
    by_cases h : x = p
    · exact h ▸ hc
    · exact hI.tail_frame x (by simpa [Function.update_noteq h] using hx)
  nodup := hI.nodup
  stack_marked := hI.stack_marked
  stack_fresh := hI.stack_fresh
  stack_cls := hI.stack_cls
  linked := by
    have hl := hI.linked
    have hp : p ∉ rest := (List.nodup_cons.1 (hs ▸ hI.nodup)).1
    dsimp only
    rw [hs] at hl ⊢
    refine ⟨by simp [Heap.cursorChild, DfsState.heap, hc], (Heap.linked_congr _ (a.heap g) ?_).2 hl.2⟩
    intro q hq
    simp [Heap.cursorChild, DfsState.heap, Function.update_noteq (show q ≠ p from fun h => hp (h ▸ hq))]
  bottom := by
    have hb := hI.bottom
    dsimp only
    rw [hs, List.getLastD_cons] at hb ⊢
    exact hb
  object_reach := (hI.stack_reach (hs ▸ List.mem_cons_self _ _)).child (by
    simp [Heap.children, Heap.childrenAs, hc])
  object_marked h := absurd rfl h
  pc_ok := .inl rfl
  closed := hI.closed
  head_done q hq hcq htq := by
    dsimp only at hq htq ⊢
    by_cases h : q = p
    · subst h
      have hl := hI.linked
      rw [hs] at hl
      have hh : g.head q = a.object := by simpa [Heap.cursorChild, DfsState.heap, hc, ht] using hl.1
      exact hh ▸ hI.object_marked (by simp [hpc])
    · exact hI.head_done q hq hcq (by simpa [Function.update_noteq h] using htq)

theorem DfsInv.pop {a : DfsState} (hI : DfsInv g L r a) (hpc : a.pc = .markNext)
    {p : Addr} {rest : List Addr} (hs : a.stack = p :: rest)
    (hc : g.cls p = .function ∨ (g.cls p = .cons ∧ a.tailIsNext p = false)) :
    DfsInv g L r { a with stack := rest, object := p } where
  frame := hI.frame
  tail_frame := hI.tail_frame
  nodup := (List.nodup_cons.1 (hs ▸ hI.nodup)).2
  stack_marked q hq := hI.stack_marked q (hs ▸ List.mem_cons_of_mem _ hq)
  stack_fresh q hq := hI.stack_fresh q (hs ▸ List.mem_cons_of_mem _ hq)
  stack_cls q hq := hI.stack_cls q (hs ▸ List.mem_cons_of_mem _ hq)
  linked := by
    have hl := hI.linked
    rw [hs] at hl
    exact hl.2
  bottom := by
    have hb := hI.bottom
    rw [hs, List.getLastD_cons] at hb
    exact hb
  object_reach := hI.stack_reach (hs ▸ List.mem_cons_self _ _)
  object_marked _ := hI.stack_marked p (hs ▸ List.mem_cons_self _ _)
  pc_ok := .inr (.inl hpc)
  closed x hx hmx hxs y hy := by
    dsimp only at hmx hxs ⊢
    by_cases h : x = p
    · subst h
      have hl := hI.linked
      rw [hs] at hl
      have hobj := hI.object_marked (by simp [hpc])
      rcases hc with hc | ⟨hc, ht⟩
      · simp only [Heap.children, Heap.childrenAs, hc, List.mem_singleton] at hy
        simp only [Heap.Linked, Heap.cursorChild, DfsState.heap, hc] at hl
        exact hy ▸ hl.1 ▸ hobj
      · simp only [Heap.children, Heap.childrenAs, hc, List.mem_cons, List.mem_singleton,
          List.not_mem_nil, or_false] at hy
        rcases hy with rfl | rfl
        · exact hI.head_done x (hs ▸ List.mem_cons_self _ _) hc ht
        · simp only [Heap.Linked, Heap.cursorChild, DfsState.heap, hc, ht, Bool.false_eq_true,
            if_false] at hl
          exact hl.1 ▸ hobj
    · refine hI.closed x hx hmx (fun hm => ?_) y hy
      rw [hs] at hm
      exact (List.mem_cons.1 hm).elim h hxs
  head_done q hq := hI.head_done q (hs ▸ List.mem_cons_of_mem _ hq)

theorem dfsInv_step {a : DfsState} (hI : DfsInv g L r a) : DfsInv g L r (dfsStep g a) := by
  rcases hI.pc_ok with hpc | hpc | ⟨hpc, -⟩
  · by_cases hm : a.marked a.object = true
    · simpa [dfsStep, hpc, hm] using hI.skip hm
    · simp only [Bool.not_eq_true] at hm
      cases hc : g.cls a.object with
      | nil => simpa [dfsStep, hpc, hm, hc] using hI.leaf hm (by simp [Heap.children, Heap.childrenAs, hc])
      | atom => simpa [dfsStep, hpc, hm, hc] using hI.leaf hm (by simp [Heap.children, Heap.childrenAs, hc])
      | cons =>
        simpa [dfsStep, hpc, hm, hc, Heap.cursorChild] using hI.push hm (.inl hc)
          (Function.update a.tailIsNext a.object true) (fun x hx => Function.update_noteq hx _ _)
          (fun _ => by simp) (fun h => by simp [hc] at h)
      | function =>
        simpa [dfsStep, hpc, hm, hc, Heap.cursorChild] using
          hI.push hm (.inr hc) a.tailIsNext (fun _ _ => rfl) (by simp [hc]) fun _ => rfl
  · cases hs : a.stack with
    | nil => simpa [dfsStep, hpc, hs] using hI.finish hpc hs
    | cons p rest =>
      rcases hI.stack_cls p (hs ▸ List.mem_cons_self _ _) with hc | hc
      · cases ht : a.tailIsNext p
        · simpa [dfsStep, hpc, hs, hc, ht] using hI.pop hpc hs (.inr ⟨hc, ht⟩)
        · simpa [dfsStep, hpc, hs, hc, ht] using hI.advance hpc hs hc ht
      · simpa [dfsStep, hpc, hs, hc] using hI.pop hpc hs (.inl hc)
  · simpa [dfsStep, hpc] using hI

theorem dfsInv_run {a : DfsState} (hI : DfsInv g L r a) (n : Nat) : DfsInv g L r (dfsRun g n a) := by
  induction n generalizing a with
  | zero => exact hI
  | succ n ih => exact ih (dfsInv_step hI)

theorem reaches_mem (hL : ∀ x ∈ L, ∀ y ∈ g.children x, y ∈ L) (hr : r ∈ L) {x : Addr}
    (hx : g.Reaches r x) : x ∈ L :=
  Heap.Reaches.closed hr (fun y hy z hz => hL y hy z hz) hx

theorem DfsInv.returned_marked {a : DfsState} (hI : DfsInv g L r a)
    (hL : ∀ x ∈ L, ∀ y ∈ g.children x, y ∈ L) (hr : r ∈ L) (hpc : a.pc = .returned) (x : Addr) :
    a.marked x = true ↔ g.marked x = true ∨ g.Reaches r x := by
  have hs : a.stack = [] := by rcases hI.pc_ok with h | h | h <;> simp_all
  constructor
  · intro hm
    cases hg : g.marked x
    · exact .inr (hI.frame x (.inl (by rw [hm, hg]; decide))).1
    · exact .inl rfl
  · rintro (hg | hx')
    · by_contra hm
      exact absurd (hI.frame x (.inl (by simp_all))).2 (by simp [hg])
    · have hro : a.object = r := by simpa [hs] using hI.bottom
      refine (Heap.Reaches.closed (P := fun y => y ∈ L ∧ a.marked y = true)
        ⟨hr, hro ▸ hI.object_marked (by simp [hpc])⟩
        (fun y hy z hz => ⟨hL y hy.1 z hz, hI.closed y hy.1 hy.2 (by simp [hs]) z hz⟩) hx').2

theorem countP_update_lt {m : Addr → Bool} {o : Addr} (ho : o ∈ L) (hm : m o = false) :
    L.countP (fun x => !Function.update m o true x) < L.countP (fun x => !m x) := by
  induction L with
  | nil => simp at ho
  | cons x L ih =>
    simp only [List.countP_cons]
    by_cases hx : x = o
    · subst hx
      have hle : L.countP (fun y => !Function.update m x true y) ≤ L.countP (fun y => !m y) :=
        List.countP_mono_left fun y _ hy => by
          by_cases h : y = x <;> simp_all [Function.update_apply]
      simp [hm]
      omega
    · have := ih ((List.mem_cons.1 ho).resolve_left (Ne.symm hx))
      simp only [Function.update_noteq hx]
      omega

theorem weight_congr (g : Heap) {t t' : Addr → Bool} {stk : List Addr} (h : ∀ p ∈ stk, t' p = t p) :
    stackWeight g t' stk = stackWeight g t stk := by
  induction stk with
  | nil => rfl
  | cons p rest ih =>
    simp only [stackWeight, frameWeight, h p (List.mem_cons_self _ _),
      ih fun q hq => h q (List.mem_cons_of_mem _ hq)]

theorem potential_step_lt {a : DfsState} (hI : DfsInv g L r a)
    (hL : ∀ x ∈ L, ∀ y ∈ g.children x, y ∈ L) (hr : r ∈ L) (hpc : a.pc ≠ .returned) :
    (dfsStep g a).potential g L < a.potential g L := by
  rcases hI.pc_ok with hpc' | hpc' | ⟨hpc', -⟩
  · by_cases hm : a.marked a.object = true
    · simp [dfsStep, DfsState.potential, hpc', hm, Pc.rank]
    · simp only [Bool.not_eq_true] at hm
      have hlt := countP_update_lt (reaches_mem hL hr hI.object_reach) hm
      have hno := hI.object_not_mem hm
      have hw : stackWeight g (Function.update a.tailIsNext a.object true) a.stack =
          stackWeight g a.tailIsNext a.stack :=
        weight_congr g fun p hp => Function.update_noteq (show p ≠ a.object from fun h => hno (h ▸ hp)) _ _
      cases hc : g.cls a.object <;>
        simp [dfsStep, DfsState.potential, hpc', hm, hc, Pc.rank, stackWeight, frameWeight, hw] <;> omega
  · cases hs : a.stack with
    | nil => simp [dfsStep, DfsState.potential, hpc', hs, Pc.rank]
    | cons p rest =>
      have hp : p ∉ rest := (List.nodup_cons.1 (hs ▸ hI.nodup)).1
      have hw : stackWeight g (Function.update a.tailIsNext p false) rest =
          stackWeight g a.tailIsNext rest :=
        weight_congr g fun q hq => Function.update_noteq (show q ≠ p from fun h => hp (h ▸ hq)) _ _
      cases hc : g.cls p <;> (try cases ht : a.tailIsNext p) <;>
        simp [dfsStep, DfsState.potential, hpc', hs, hc, Pc.rank, stackWeight, frameWeight, hw, *]
      omega
  · exact absurd hpc' hpc

theorem dfs_returns (hL : ∀ x ∈ L, ∀ y ∈ g.children x, y ∈ L) (hr : r ∈ L) {a : DfsState}
    (hI : DfsInv g L r a) : (dfsRun g (a.potential g L) a).pc = .returned := by
  suffices h : ∀ n a, DfsInv g L r a → a.potential g L = n → (dfsRun g n a).pc = .returned from
    h _ a hI rfl
  intro n
  induction n using Nat.strong_induction_on with
  | _ n ih =>
    intro a hI hn
    by_cases hpc : a.pc = .returned
    · rw [dfsRun_returned g _ hpc, hpc]
    · have hlt := hn ▸ potential_step_lt hI hL hr hpc
      obtain ⟨k, rfl⟩ := Nat.exists_eq_add_of_lt hlt
      rw [show (dfsStep g a).potential g L + k + 1 = 1 + ((dfsStep g a).potential g L + k) by omega,
        dfsRun_add, dfsRun, dfsRun, dfsRun_add,
        dfsRun_returned g _ (ih _ hlt _ (dfsInv_step hI) rfl)]
      exact ih _ hlt _ (dfsInv_step hI) rfl

end

end GclProofs
