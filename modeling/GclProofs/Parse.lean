import GclProofs.Reader

/-!
`parse` of `gcl.c` on the collected heap: each of its steps is a step of the reader, unless an
allocation fails.
-/

namespace GclProofs

namespace Heap

def Repr (h : Heap) : Expr → Addr → Prop
  | .symbol text, x => h.cls x = .atom ∧ h.chars x = text
  | .pair a b, x => h.cls x = .cons ∧ h.Repr a (h.head x) ∧ h.Repr b (h.tail x)

instance decRepr (h : Heap) : (e : Expr) → (x : Addr) → Decidable (h.Repr e x)
  | .symbol _, _ => inferInstanceAs (Decidable (_ ∧ _))
  | .pair a b, x =>
    have := decRepr h a (h.head x)
    have := decRepr h b (h.tail x)
    inferInstanceAs (Decidable (_ ∧ _ ∧ _))

def nodes (h : Heap) : Expr → Addr → List Addr
  | .symbol _, x => [x]
  | .pair a b, x => x :: (h.nodes a (h.head x) ++ h.nodes b (h.tail x))

def Pending (h : Heap) : List (Option Expr) → Addr → Prop
  | [], p => p = nilValue
  | none :: stk, p => h.cls p = .cons ∧ h.head p = nilValue ∧ h.Pending stk (h.tail p)
  | some a :: stk, p => h.cls p = .cons ∧ h.Repr a (h.head p) ∧ h.Pending stk (h.tail p)

def pendingNodes (h : Heap) : List (Option Expr) → Addr → List Addr
  | [], _ => []
  | none :: stk, p => p :: h.pendingNodes stk (h.tail p)
  | some a :: stk, p => p :: (h.nodes a (h.head p) ++ h.pendingNodes stk (h.tail p))

theorem self_mem_nodes (h : Heap) (e : Expr) (x : Addr) : x ∈ h.nodes e x := by
  cases e <;> simp [nodes]

theorem repr_congr {h h' : Heap} {e : Expr} {x : Addr} (hf : ∀ y ∈ h.nodes e x, h.FieldsEq h' y) :
    (h'.Repr e x ↔ h.Repr e x) ∧ h'.nodes e x = h.nodes e x := by
  induction e generalizing x with
  | symbol t =>
    obtain ⟨hc, -, -, -, hch, -⟩ := hf x (by simp [nodes])
    simp [Repr, nodes, hc, hch]
  | pair a b iha ihb =>
    obtain ⟨hc, hh, ht, -⟩ := hf x (by simp [nodes])
    have ha := @iha (h.head x) fun y hy => hf y (by simp [nodes, hy])
    have hb := @ihb (h.tail x) fun y hy => hf y (by simp [nodes, hy])
    simp only [Repr, nodes, hc, hh, ht, ha.1, hb.1, ha.2, hb.2, and_self]

theorem pending_congr {h h' : Heap} {stk : List (Option Expr)} {p : Addr}
    (hf : ∀ y ∈ h.pendingNodes stk p, h.FieldsEq h' y) :
    (h'.Pending stk p ↔ h.Pending stk p) ∧ h'.pendingNodes stk p = h.pendingNodes stk p := by
  induction stk generalizing p with
  | nil => simp [Pending, pendingNodes]
  | cons f stk ih =>
    obtain ⟨hc, hh, ht, -⟩ := hf p (by cases f <;> simp [pendingNodes])
    cases f with
    | none =>
      have hs := @ih (h.tail p) fun y hy => hf y (by simp [pendingNodes, hy])
      simp only [Pending, pendingNodes, hc, hh, ht, hs.1, hs.2, and_self]
    | some a =>
      have ha := @repr_congr h h' a (h.head p) fun y hy => hf y (by simp [pendingNodes, hy])
      have hs := @ih (h.tail p) fun y hy => hf y (by simp [pendingNodes, hy])
      simp only [Pending, pendingNodes, hc, hh, ht, ha.1, ha.2, hs.1, hs.2, and_self]

theorem nodes_reaches {h : Heap} {e : Expr} {x : Addr} (hr : h.Repr e x) : ∀ y ∈ h.nodes e x, h.Reaches x y := by
  induction e generalizing x with
  | symbol t => simp only [nodes, List.mem_singleton]; rintro y rfl; exact .refl
  | pair a b iha ihb =>
    obtain ⟨hc, ha, hb⟩ := hr
    simp only [nodes, List.mem_cons, List.mem_append]
    rintro y (rfl | hy | hy)
    · exact .refl
    · exact .head (by simp [children, childrenAs, hc]) (iha ha y hy)
    · exact .head (by simp [children, childrenAs, hc]) (ihb hb y hy)

theorem pendingNodes_reaches {h : Heap} {stk : List (Option Expr)} {p : Addr} (hp : h.Pending stk p) :
    ∀ y ∈ h.pendingNodes stk p, h.Reaches p y := by
  induction stk generalizing p with
  | nil => simp [pendingNodes]
  | cons f stk ih =>
    cases f with
    | none =>
      obtain ⟨hc, -, hs⟩ := hp
      simp only [pendingNodes, List.mem_cons]
      rintro y (rfl | hy)
      · exact .refl
      · exact .head (by simp [children, childrenAs, hc]) (ih hs y hy)
    | some a =>
      obtain ⟨hc, ha, hs⟩ := hp
      simp only [pendingNodes, List.mem_cons, List.mem_append]
      rintro y (rfl | hy | hy)
      · exact .refl
      · exact .head (by simp [children, childrenAs, hc]) (nodes_reaches ha y hy)
      · exact .head (by simp [children, childrenAs, hc]) (ih hs y hy)

end Heap

structure Tracked (c0 c : Collector) (N : List Addr) : Prop where
  nodup : N.Nodup
  fresh : ∀ y ∈ N, ¬c0.Reachable y
  listed : ∀ y ∈ N, y ∈ c.heapHead
  frame : ∀ y, y ∉ N → c0.heap.FieldsEq c.heap y

namespace Tracked

variable {c0 c c' : Collector} {N N' : List Addr}

theorem perm (ht : Tracked c0 c N) (hp : N.Perm N') : Tracked c0 c N' :=
  ⟨hp.nodup_iff.1 ht.nodup, fun y hy => ht.fresh y (hp.mem_iff.2 hy), fun y hy => ht.listed y (hp.mem_iff.2 hy),
    fun y hy => ht.frame y (mt hp.mem_iff.1 hy)⟩

theorem congr (ht : Tracked c0 c N) (hh : c'.heap = c.heap) (hl : c'.heapHead = c.heapHead) : Tracked c0 c' N :=
  ⟨ht.nodup, ht.fresh, fun y hy => hl ▸ ht.listed y hy, fun y hy => hh ▸ ht.frame y hy⟩

theorem write (ht : Tracked c0 c N) {p : Addr} (hp : p ∈ N) (hf : ∀ y, y ≠ p → c.heap.FieldsEq c'.heap y)
    (hl : c'.heapHead = c.heapHead) : Tracked c0 c' N :=
  ⟨ht.nodup, ht.fresh, fun y hy => hl ▸ ht.listed y hy,
    fun y hy => (ht.frame y hy).trans (hf y fun e => hy (e ▸ hp))⟩

theorem alloc (ht : Tracked c0 c N) {o : Addr} (ho : o ∉ c.heapHead) (hR : ∀ y, c0.Reachable y → y ∈ c.heapHead)
    (hf : ∀ y, y ≠ o → c.heap.FieldsEq c'.heap y) (hl : ∀ y ∈ o :: N, y ∈ c'.heapHead) :
    Tracked c0 c' (o :: N) where
  nodup := List.nodup_cons.2 ⟨fun h => ho (ht.listed o h), ht.nodup⟩
  fresh := by
    rintro y (_ | ⟨_, hy⟩)
    · exact fun hr => ho (hR _ hr)
    · exact ht.fresh y hy
  listed := hl
  frame y hy := (ht.frame y fun h => hy (List.mem_cons_of_mem _ h)).trans (hf y fun e => hy (e ▸ List.mem_cons_self _ _))

theorem reachable (ht : Tracked c0 c N) (hroots : ∀ cell ∈ c0.rootsHead, cell ∈ c.rootsHead ∧ c.cells cell = c0.cells cell)
    {y : Addr} (hy : c0.Reachable y) : c.Reachable y := by
  obtain ⟨cell, hc, hr⟩ := hy
  obtain ⟨hc', hcell⟩ := hroots cell hc
  refine ⟨cell, hc', hcell ▸ ?_⟩
  induction hr with
  | refl => exact .refl
  | @tail b z hr' hz ih =>
    have hb : b ∉ N := fun hb => ht.fresh b hb ⟨cell, hc, hr'⟩
    exact ih.tail (by rw [(ht.frame b hb).children]; exact hz)

end Tracked

structure ParseFrame where
  parent : Cell
  expr : Cell
  cons : ConsFrame

inductive ParsePc where
  | loop
  | attach
  | returned (result : Addr)
  deriving DecidableEq, Repr

structure ParseState where
  col : Collector
  tokens : List Token
  pc : ParsePc

def parseStep (malloc : Malloc) (fr : ParseFrame) (s : ParseState) : Except Fault ParseState :=
  match s.pc with
  | .loop =>
    match nextToken s.tokens with
    | (.symbol text, tokens) => do
      let (c, atom) ← createAtom malloc s.col text
      let c := { c with cells := Function.update c.cells fr.expr atom }
      let c ← pushRoot malloc c fr.expr
      pure ⟨c, tokens, .attach⟩
    | (.lparen, tokens) => do
      let (c, cons) ← createCons malloc fr.cons s.col nilValue (s.col.cells fr.parent)
      pure ⟨setRoot c fr.parent cons, tokens, .loop⟩
    | _ => throw (.error "Syntax error: expected symbol or '('")
  | .attach =>
    let c := s.col
    let parent := c.cells fr.parent
    if parent = nilValue then do
      let c ← popRoot c
      let c ← popRoot c
      pure ⟨c, s.tokens, .returned (c.cells fr.expr)⟩
    else if c.heap.cls parent ≠ .cons then throw .abort
    else if c.heap.head parent = nilValue then do
      let c := { c with heap := c.heap.setChild parent .head (c.cells fr.expr) }
      let c ← popRoot c
      pure ⟨c, s.tokens, .loop⟩
    else do
      let newParent := c.heap.tail parent
      let c := { c with heap := c.heap.setChild parent .tail (c.cells fr.expr) }
      let c := setRoot c fr.expr parent
      let c := setRoot c fr.parent newParent
      let (newToken, tokens) := nextToken s.tokens
      if newToken ≠ .rparen then throw (.error "Syntax error: pair: missing ')'")
      pure ⟨c, tokens, .attach⟩
  | .returned _ => pure s

def parseRun (malloc : Malloc) (fr : ParseFrame) : Nat → ParseState → Except Fault ParseState
  | 0, s => pure s
  | n + 1, s => parseStep malloc fr s >>= parseRun malloc fr n

def parse (malloc : Malloc) (fr : ParseFrame) (c : Collector) (tokens : List Token) : Except Fault ParseState := do
  let c ← pushRoot malloc { c with cells := Function.update c.cells fr.parent nilValue } fr.parent
  parseRun malloc fr (2 * tokens.length + 1) ⟨c, tokens, .loop⟩

def ReadPc.current : ReadPc → Option Expr
  | .loop => none
  | .attach e | .returned e => some e

def ReadPc.frameRoots (fr : ParseFrame) : ReadPc → List Cell
  | .loop => [fr.parent]
  | .attach _ => [fr.expr, fr.parent]
  | .returned _ => []

def ReadPc.toParsePc (result : Addr) : ReadPc → ParsePc
  | .loop => .loop
  | .attach _ => .attach
  | .returned _ => .returned result

def Heap.currentNodes (h : Heap) : Option Expr → Addr → List Addr
  | none, _ => []
  | some e, x => h.nodes e x

def Heap.Holds (h : Heap) (a : Reading) (p x : Addr) : Prop :=
  h.Pending a.pending p ∧ ∀ e, a.pc.current = some e → h.Repr e x

def Heap.readingNodes (h : Heap) (a : Reading) (p x : Addr) : List Addr :=
  h.pendingNodes a.pending p ++ h.currentNodes a.pc.current x

structure ParseFrame.Valid (fr : ParseFrame) (c0 : Collector) : Prop where
  nodup : [fr.parent, fr.expr, fr.cons.head, fr.cons.tail].Nodup
  own : ∀ cell ∈ [fr.parent, fr.expr, fr.cons.head, fr.cons.tail], cell ∉ c0.rootsHead

structure ParseRel (fr : ParseFrame) (c0 : Collector) (s : ParseState) (a : Reading) : Prop where
  tokens : s.tokens = a.tokens
  pc : s.pc = a.pc.toParsePc (s.col.cells fr.expr)
  roots : s.col.rootsHead = a.pc.frameRoots fr ++ c0.rootsHead
  inv : s.col.HeapInv
  nilSafe : s.col.NilSafe
  holds : s.col.heap.Holds a (s.col.cells fr.parent) (s.col.cells fr.expr)
  tracked : Tracked c0 s.col (s.col.heap.readingNodes a (s.col.cells fr.parent) (s.col.cells fr.expr))
  cells : ∀ cell ∈ c0.rootsHead, s.col.cells cell = c0.cells cell

section refinement

variable {malloc : Malloc} {fr : ParseFrame} {c0 : Collector} {s : ParseState} {a : Reading}

theorem ParseFrame.Valid.ne (hfr : fr.Valid c0) :
    fr.parent ≠ fr.expr ∧ fr.parent ≠ fr.cons.head ∧ fr.parent ≠ fr.cons.tail ∧ fr.expr ≠ fr.cons.head ∧
      fr.expr ≠ fr.cons.tail ∧ fr.cons.head ≠ fr.cons.tail := by
  have h := hfr.nodup
  simp only [List.nodup_cons, List.mem_cons, List.mem_singleton, not_or, List.not_mem_nil, not_false_eq_true,
    List.nodup_nil, and_true] at h
  exact ⟨h.1.1, h.1.2.1, h.1.2.2, h.2.1.1, h.2.1.2, h.2.2⟩

theorem ParseFrame.Valid.ne_nilRoot (hfr : fr.Valid c0) (hs0 : c0.NilSafe) {cell : Cell}
    (hc : cell ∈ [fr.parent, fr.expr, fr.cons.head, fr.cons.tail]) : cell ≠ nilRoot := by
  obtain ⟨rest, hr⟩ := hs0.bottom
  rintro rfl
  exact hfr.own _ hc (by simp [hr])

theorem ParseFrame.Valid.consValid (hfr : fr.Valid c0) (hs0 : c0.NilSafe) : fr.cons.Valid :=
  ⟨hfr.ne.2.2.2.2.2, hfr.ne_nilRoot hs0 (by simp), hfr.ne_nilRoot hs0 (by simp)⟩

theorem ParseRel.caller_listed (hrel : ParseRel fr c0 s a) {y : Addr} (hy : c0.Reachable y) :
    y ∈ s.col.heapHead :=
  hrel.inv.reachable_mem (hrel.tracked.reachable
    (fun cell hc => ⟨by rw [hrel.roots]; exact List.mem_append_right _ hc, hrel.cells cell hc⟩) hy)

theorem ParseRel.step_symbol (hmalloc : malloc.Fresh) (hfr : fr.Valid c0) (hs0 : c0.NilSafe)
    (hrel : ParseRel fr c0 s a) (hpc : a.pc = .loop) {text : String} {ts : List Token}
    (ht : nextToken a.tokens = (.symbol text, ts)) :
    (∃ f, parseStep malloc fr s = .error f ∧ f.IsAllocFailure) ∨
    ∃ s', parseStep malloc fr s = .ok s' ∧ ParseRel fr c0 s' ⟨a.pending, ts, .attach (.symbol text)⟩ := by
  have hspc : s.pc = .loop := by rw [hrel.pc, hpc]; rfl
  have hst : nextToken s.tokens = (.symbol text, ts) := hrel.tokens ▸ ht
  obtain ⟨herr, hok⟩ := createAtom_spec hmalloc hrel.inv hrel.nilSafe text
  cases hca : createAtom malloc s.col text with
  | error f =>
    exact .inl ⟨f, by simp [parseStep, hspc, hst, hca, bind, Except.bind], herr f hca⟩
  | ok r =>
    obtain ⟨c', o⟩ := r
    obtain ⟨ho, hol, hinv', hs', hr', hcells', hcls', hchars', hf'⟩ := hok c' o hca
    set c2 : Collector := { c' with cells := Function.update c'.cells fr.expr o } with hc2
    have hstep : parseStep malloc fr s = (fun c => ⟨c, ts, .attach⟩) <$> pushRoot malloc c2 fr.expr := by
      simp [parseStep, hspc, hst, hca, ok_bind, hc2]
    by_cases hm : malloc c2 = 0
    · exact .inl ⟨.outOfMemory, by rw [hstep, pushRoot, if_pos hm]; rfl, .inl rfl⟩
    refine .inr ⟨⟨c2.linkRoot fr.expr, ts, .attach⟩, by rw [hstep, pushRoot_of_ne hm]; rfl, ?_⟩
    have hN := hrel.tracked
    simp only [Heap.readingNodes, hpc, ReadPc.current, Heap.currentNodes, List.append_nil] at hN
    have hp : Function.update c'.cells fr.expr o fr.parent = s.col.cells fr.parent := by
      rw [Function.update_noteq hfr.ne.1, hcells']
    have hne : ∀ y ∈ s.col.heap.pendingNodes a.pending (s.col.cells fr.parent), y ≠ o :=
      fun y hy e => ho (e ▸ hN.listed y hy)
    have hpend := @Heap.pending_congr _ c'.heap _ _ fun y hy => hf' y (hne y hy)
    have hholds : c'.heap.Pending a.pending (s.col.cells fr.parent) := hpend.1.2 hrel.holds.1
    refine ⟨rfl, rfl, by simp [c2, hr', hrel.roots, hpc, ReadPc.frameRoots], ?_, ?_, ?_, ?_, ?_⟩
    · exact heapInv_linkRoot (heapInv_setRoot hinv' fun _ => hol) (by simpa [setRoot] using hol)
    · exact nilSafe_linkRoot (nilSafe_setRoot hs' (hfr.ne_nilRoot hs0 (by simp)) o) _
    · refine ⟨by simpa [c2, hp] using hholds, fun e he => ?_⟩
      cases he
      simpa [c2, Heap.Repr] using ⟨hcls', hchars'⟩
    · have hl : ∀ y ∈ o :: s.col.heap.pendingNodes a.pending (s.col.cells fr.parent), y ∈ c'.heapHead := by
        rintro y (_ | ⟨_, hy⟩)
        · exact hol
        · rw [← hpend.2] at hy
          refine hinv'.reachable_mem ⟨fr.parent, ?_, ?_⟩
          · rw [hr', hrel.roots, hpc]; simp [ReadPc.frameRoots]
          · rw [hcells']; exact Heap.pendingNodes_reaches hholds y hy
      have ht' := (hN.alloc ho (fun y hy => hrel.caller_listed hy) hf' hl).perm
        (List.perm_append_singleton o _).symm
      refine Tracked.congr (ht'.perm ?_) rfl rfl
      simp [Heap.readingNodes, c2, hp, ReadPc.current, Heap.currentNodes, Heap.nodes, hpend.2]
    · intro cell hc
      have hce : cell ≠ fr.expr := fun e => hfr.own fr.expr (by simp) (e ▸ hc)
      simp [c2, Function.update_noteq hce, hcells', hrel.cells cell hc]

theorem ParseRel.step_lparen (hmalloc : malloc.Fresh) (hfr : fr.Valid c0) (hs0 : c0.NilSafe)
    (hrel : ParseRel fr c0 s a) (hpc : a.pc = .loop) {ts : List Token} (ht : nextToken a.tokens = (.lparen, ts)) :
    (∃ f, parseStep malloc fr s = .error f ∧ f.IsAllocFailure) ∨
    ∃ s', parseStep malloc fr s = .ok s' ∧ ParseRel fr c0 s' ⟨none :: a.pending, ts, .loop⟩ := by
  have hspc : s.pc = .loop := by rw [hrel.pc, hpc]; rfl
  have hst : nextToken s.tokens = (.lparen, ts) := hrel.tokens ▸ ht
  have hpm : fr.parent ∈ s.col.rootsHead := by rw [hrel.roots, hpc]; simp [ReadPc.frameRoots]
  obtain ⟨herr, hok⟩ := createCons_spec hmalloc (hfr.consValid hs0) hrel.inv hrel.nilSafe
    (hrel.inv.reachable_mem hrel.nilSafe.reachable) (hrel.inv.roots _ hpm)
  cases hcc : createCons malloc fr.cons s.col nilValue (s.col.cells fr.parent) with
  | error f =>
    exact .inl ⟨f, by simp [parseStep, hspc, hst, hcc, bind, Except.bind], herr f hcc⟩
  | ok r =>
    obtain ⟨c', o⟩ := r
    obtain ⟨ho, hol, hinv', hs', hr', hcells', hcls', hhead', htail', hf'⟩ := hok c' o hcc
    refine .inr ⟨⟨setRoot c' fr.parent o, ts, .loop⟩,
      by simp [parseStep, hspc, hst, hcc, bind, Except.bind, pure, Except.pure], ?_⟩
    have hN := hrel.tracked
    simp only [Heap.readingNodes, hpc, ReadPc.current, Heap.currentNodes, List.append_nil] at hN
    have hc' : ∀ cell, cell ≠ fr.cons.head → cell ≠ fr.cons.tail → c'.cells cell = s.col.cells cell := by
      intro cell h1 h2; rw [hcells', Function.update_noteq h2, Function.update_noteq h1]
    have hpc' := hc' fr.parent hfr.ne.2.1 hfr.ne.2.2.1
    have hne : ∀ y ∈ s.col.heap.pendingNodes a.pending (s.col.cells fr.parent), y ≠ o :=
      fun y hy e => ho (e ▸ hN.listed y hy)
    have hpend := @Heap.pending_congr _ c'.heap _ _ fun y hy => hf' y (hne y hy)
    have hholds : c'.heap.Pending a.pending (s.col.cells fr.parent) := hpend.1.2 hrel.holds.1
    refine ⟨rfl, rfl, by simp [setRoot, hr', hrel.roots, hpc, ReadPc.frameRoots], heapInv_setRoot hinv' fun _ => hol,
      nilSafe_setRoot hs' (hfr.ne_nilRoot hs0 (by simp)) o, ?_, ?_, ?_⟩
    · refine ⟨?_, fun e he => by cases he⟩
      simpa [setRoot, Heap.Pending, hcls', hhead', htail'] using hholds
    · have hl : ∀ y ∈ o :: s.col.heap.pendingNodes a.pending (s.col.cells fr.parent), y ∈ c'.heapHead := by
        rintro y (_ | ⟨_, hy⟩)
        · exact hol
        · rw [← hpend.2] at hy
          refine hinv'.reachable_mem ⟨fr.parent, by rw [hr']; exact hpm, ?_⟩
          rw [hpc']; exact Heap.pendingNodes_reaches hholds y hy
      refine Tracked.congr ((hN.alloc ho (fun y hy => hrel.caller_listed hy) hf' hl).perm ?_) rfl rfl
      simp [Heap.readingNodes, setRoot, ReadPc.current, Heap.currentNodes, Heap.pendingNodes, htail', hpend.2]
    · intro cell hc
      have hown : ∀ c ∈ [fr.parent, fr.expr, fr.cons.head, fr.cons.tail], cell ≠ c :=
        fun c hm e => hfr.own c hm (e ▸ hc)
      simp [setRoot, Function.update_noteq (hown fr.parent (by simp)),
        hc' cell (hown fr.cons.head (by simp)) (hown fr.cons.tail (by simp)), hrel.cells cell hc]

theorem ParseRel.attach_roots (hrel : ParseRel fr c0 s a) {e : Expr} (hpc : a.pc = .attach e) :
    s.col.rootsHead = fr.expr :: fr.parent :: c0.rootsHead := by
  rw [hrel.roots, hpc]; rfl

theorem ParseRel.ne_nilValue (hs0 : c0.NilSafe) (hrel : ParseRel fr c0 s a) {y : Addr}
    (hy : y ∈ s.col.heap.readingNodes a (s.col.cells fr.parent) (s.col.cells fr.expr)) : y ≠ nilValue :=
  fun e => hrel.tracked.fresh y hy (e ▸ hs0.reachable)

theorem ParseRel.step_done (hs0 : c0.NilSafe) (hrel : ParseRel fr c0 s a) {e : Expr} (hpc : a.pc = .attach e)
    (hstk : a.pending = []) :
    ∃ s', parseStep malloc fr s = .ok s' ∧ ParseRel fr c0 s' ⟨[], a.tokens, .returned e⟩ := by
  have hspc : s.pc = .attach := by rw [hrel.pc, hpc]; rfl
  have hp : s.col.cells fr.parent = nilValue := by
    have := hrel.holds.1; rw [hstk] at this; exact this
  have hroots := hrel.attach_roots hpc
  have h1 : popRoot s.col = .ok { s.col with rootsHead := fr.parent :: c0.rootsHead } := by
    simp [popRoot, hroots]; rfl
  have h2 : popRoot { s.col with rootsHead := fr.parent :: c0.rootsHead } = .ok { s.col with rootsHead := c0.rootsHead } := by
    simp [popRoot]; rfl
  have hlen : 2 ≤ (fr.parent :: c0.rootsHead).length := by
    obtain ⟨rest, hr⟩ := hs0.bottom; simp [hr]
  refine ⟨⟨{ s.col with rootsHead := c0.rootsHead }, s.tokens, .returned (s.col.cells fr.expr)⟩,
    by simp [parseStep, hspc, hp, h1, h2, bind, Except.bind, pure, Except.pure], ?_⟩
  refine ⟨hrel.tokens, rfl, rfl, heapInv_popRoot (heapInv_popRoot hrel.inv h1) h2,
    nilSafe_popRoot (nilSafe_popRoot hrel.nilSafe (by simp [hroots]) h1) hlen h2, ?_, ?_, hrel.cells⟩
  · exact ⟨by simpa [Heap.Pending] using hp, fun e' he' => by cases he'; exact hrel.holds.2 e (by simp [hpc, ReadPc.current])⟩
  · refine Tracked.congr (hrel.tracked.perm ?_) rfl rfl
    simp [Heap.readingNodes, hstk, hpc, ReadPc.current, Heap.currentNodes, Heap.pendingNodes]

theorem ParseRel.step_first (hs0 : c0.NilSafe) (hrel : ParseRel fr c0 s a) {e : Expr} (hpc : a.pc = .attach e)
    {stk : List (Option Expr)} (hstk : a.pending = none :: stk) :
    ∃ s', parseStep malloc fr s = .ok s' ∧ ParseRel fr c0 s' ⟨some e :: stk, a.tokens, .loop⟩ := by
  have hspc : s.pc = .attach := by rw [hrel.pc, hpc]; rfl
  have hroots := hrel.attach_roots hpc
  have hN := hrel.tracked
  set p := s.col.cells fr.parent with hp
  set x := s.col.cells fr.expr with hx
  set h := s.col.heap with hh
  obtain ⟨hcls, hhead, hpend⟩ : h.cls p = .cons ∧ h.head p = nilValue ∧ h.Pending stk (h.tail p) := by
    have := hrel.holds.1; rw [hstk] at this; exact this
  have hrepr : h.Repr e x := hrel.holds.2 e (by simp [hpc, ReadPc.current])
  have hnodes : h.readingNodes a p x = p :: (h.pendingNodes stk (h.tail p) ++ h.nodes e x) := by
    simp [Heap.readingNodes, hstk, hpc, ReadPc.current, Heap.currentNodes, Heap.pendingNodes]
  have hpnil : p ≠ nilValue := hrel.ne_nilValue hs0 (by rw [hnodes]; exact List.mem_cons_self _ _)
  rw [hnodes] at hN
  have hpnd := (List.nodup_cons.1 hN.nodup).1
  set h' := h.setChild p .head x
  have hf : ∀ y, y ≠ p → h.FieldsEq h' y := fun y hy => Heap.FieldsEq.of_setChild _ hy _ _
  have he := @Heap.repr_congr h h' e x fun y hy =>
    hf y (by rintro rfl; exact hpnd (List.mem_append_right _ hy))
  have hs := @Heap.pending_congr h h' stk (h.tail p) fun y hy =>
    hf y (by rintro rfl; exact hpnd (List.mem_append_left _ hy))
  have h1 : popRoot { s.col with heap := h' } = .ok { s.col with heap := h', rootsHead := fr.parent :: c0.rootsHead } := by
    simp [popRoot, hroots]; rfl
  have hxl : x ∈ s.col.heapHead := hrel.inv.roots _ (by simp [hroots])
  refine ⟨⟨{ s.col with heap := h', rootsHead := fr.parent :: c0.rootsHead }, s.tokens, .loop⟩,
    by simp [parseStep, hspc, ← hp, ← hx, ← hh, hpnil, hcls, hhead, h1, bind, Except.bind, pure, Except.pure], ?_⟩
  refine ⟨hrel.tokens, rfl, rfl, heapInv_popRoot (heapInv_setChild hrel.inv fun _ => hxl) h1,
    nilSafe_popRoot (nilSafe_setChild hrel.nilSafe p .head x) (by simp [hroots]) h1, ?_, ?_, hrel.cells⟩
  · refine ⟨?_, fun e' he' => by cases he'⟩
    show h'.Pending (some e :: stk) p
    simp only [Heap.Pending, h', Heap.setChild_cls, hcls, true_and]
    exact ⟨by simpa [Heap.setChild] using he.1.2 hrepr, by simpa [Heap.setChild] using hs.1.2 hpend⟩
  · have hw : Tracked c0 { s.col with heap := h' } _ := hN.write (List.mem_cons_self _ _) hf rfl
    refine Tracked.congr (hw.perm ?_) rfl rfl
    show List.Perm _ (h'.readingNodes ⟨some e :: stk, a.tokens, .loop⟩ p x)
    simp only [Heap.readingNodes, ReadPc.current, Heap.currentNodes, Heap.pendingNodes, List.append_nil]
    have hh' : h'.head p = x := by simp [h', Heap.setChild]
    have ht' : h'.tail p = h.tail p := by simp [h', Heap.setChild]
    rw [hh', ht', he.2, hs.2]
    exact List.perm_append_comm.cons p

theorem ParseRel.step_second (hfr : fr.Valid c0) (hs0 : c0.NilSafe) (hrel : ParseRel fr c0 s a) {e first : Expr}
    (hpc : a.pc = .attach e) {stk : List (Option Expr)} (hstk : a.pending = some first :: stk) :
    (∃ f, parseStep malloc fr s = .error f ∧ readStep a = .error f) ∨
    ∃ s' a', parseStep malloc fr s = .ok s' ∧ readStep a = .ok a' ∧ ParseRel fr c0 s' a' := by
  have hspc : s.pc = .attach := by rw [hrel.pc, hpc]; rfl
  have hroots := hrel.attach_roots hpc
  have hN := hrel.tracked
  set p := s.col.cells fr.parent with hp
  set x := s.col.cells fr.expr with hx
  set h := s.col.heap with hh
  obtain ⟨hcls, hfirst, hpend⟩ : h.cls p = .cons ∧ h.Repr first (h.head p) ∧ h.Pending stk (h.tail p) := by
    have := hrel.holds.1; rw [hstk] at this; exact this
  have hrepr : h.Repr e x := hrel.holds.2 e (by simp [hpc, ReadPc.current])
  have hnodes : h.readingNodes a p x =
      p :: (h.nodes first (h.head p) ++ (h.pendingNodes stk (h.tail p) ++ h.nodes e x)) := by
    simp [Heap.readingNodes, hstk, hpc, ReadPc.current, Heap.currentNodes, Heap.pendingNodes]
  have hpnil : p ≠ nilValue := hrel.ne_nilValue hs0 (by rw [hnodes]; exact List.mem_cons_self _ _)
  have hhnil : h.head p ≠ nilValue := hrel.ne_nilValue hs0 (by rw [hnodes]; simp [Heap.self_mem_nodes])
  rw [hnodes] at hN
  have hpnd := (List.nodup_cons.1 hN.nodup).1
  set h' := h.setChild p .tail x
  have hf : ∀ y, y ≠ p → h.FieldsEq h' y := fun y hy => Heap.FieldsEq.of_setChild _ hy _ _
  have hfi := @Heap.repr_congr h h' first (h.head p) fun y hy => hf y (by rintro rfl; exact hpnd (by simp [hy]))
  have he := @Heap.repr_congr h h' e x fun y hy => hf y (by rintro rfl; exact hpnd (by simp [hy]))
  have hs := @Heap.pending_congr h h' stk (h.tail p) fun y hy => hf y (by rintro rfl; exact hpnd (by simp [hy]))
  have hst : nextToken s.tokens = nextToken a.tokens := by rw [hrel.tokens]
  rcases ht : nextToken a.tokens with ⟨t, ts⟩
  rw [ht] at hst
  cases t
  case rparen =>
    right
    refine ⟨⟨setRoot (setRoot { s.col with heap := h' } fr.expr p) fr.parent (h.tail p), ts, .attach⟩,
      ⟨stk, ts, .attach (.pair first e)⟩,
      by simp [parseStep, hspc, ← hp, ← hx, ← hh, hpnil, hcls, hhnil, hst, bind, Except.bind, pure, Except.pure],
      by simp [readStep, hpc, hstk, ht, pure, Except.pure], ?_⟩
    have hpl : p ∈ s.col.heapHead := hrel.inv.roots _ (by simp [hroots])
    have hql : h.tail p ∈ s.col.heapHead :=
      hrel.inv.reachable_mem ⟨fr.parent, by simp [hroots],
        .head (show h.tail p ∈ h.children p by simp [Heap.children, Heap.childrenAs, hcls]) .refl⟩
    have hxl : x ∈ s.col.heapHead := hrel.inv.roots _ (by simp [hroots])
    have hcp : (setRoot (setRoot { s.col with heap := h' } fr.expr p) fr.parent (h.tail p)).cells fr.parent = h.tail p := by
      simp [setRoot]
    have hce : (setRoot (setRoot { s.col with heap := h' } fr.expr p) fr.parent (h.tail p)).cells fr.expr = p := by
      simp [setRoot, Function.update_noteq hfr.ne.1.symm]
    have hh' : h'.head p = h.head p := by simp [h', Heap.setChild]
    have ht' : h'.tail p = x := by simp [h', Heap.setChild]
    refine ⟨rfl, rfl, by simp [setRoot, hroots, ReadPc.frameRoots],
      heapInv_setRoot (heapInv_setRoot (heapInv_setChild hrel.inv fun _ => hxl) fun _ => hpl) fun _ => hql,
      nilSafe_setRoot (nilSafe_setRoot (nilSafe_setChild hrel.nilSafe p .tail x) (hfr.ne_nilRoot hs0 (by simp)) p)
        (hfr.ne_nilRoot hs0 (by simp)) _, ?_, ?_, ?_⟩
    · rw [hcp, hce]
      refine ⟨hs.1.2 hpend, fun e' he' => ?_⟩
      cases he'
      exact ⟨by simp [setRoot, h', hcls], hh' ▸ hfi.1.2 hfirst, ht' ▸ he.1.2 hrepr⟩
    · have hw : Tracked c0 { s.col with heap := h' } _ := hN.write (List.mem_cons_self _ _) hf rfl
      refine Tracked.congr (hw.perm ?_) rfl rfl
      rw [hcp, hce]
      show List.Perm _ (h'.pendingNodes stk (h.tail p) ++ (p :: (h'.nodes first (h'.head p) ++ h'.nodes e (h'.tail p))))
      rw [hh', ht', hfi.2, he.2, hs.2]
      exact ((List.perm_append_comm_assoc _ _ _).cons p).trans List.perm_middle.symm
    · intro cell hc
      have hown : ∀ c ∈ [fr.parent, fr.expr, fr.cons.head, fr.cons.tail], cell ≠ c :=
        fun c hm e => hfr.own c hm (e ▸ hc)
      simp [setRoot, Function.update_noteq (hown fr.parent (by simp)), Function.update_noteq (hown fr.expr (by simp)),
        hrel.cells cell hc]
  all_goals
    exact .inl ⟨.error "Syntax error: pair: missing ')'",
      by simp [parseStep, hspc, ← hp, ← hh, hpnil, hcls, hhnil, hst, bind, Except.bind, throw, throwThe, MonadExceptOf.throw],
      by simp [readStep, hpc, hstk, ht, throw, throwThe, MonadExceptOf.throw]⟩

theorem parseStep_refines (hmalloc : malloc.Fresh) (hfr : fr.Valid c0) (hs0 : c0.NilSafe) (hrel : ParseRel fr c0 s a) :
    (∃ f, parseStep malloc fr s = .error f ∧ f.IsAllocFailure) ∨
    (∃ f, parseStep malloc fr s = .error f ∧ readStep a = .error f) ∨
    ∃ s' a', parseStep malloc fr s = .ok s' ∧ readStep a = .ok a' ∧ ParseRel fr c0 s' a' := by
  cases hpc : a.pc with
  | loop =>
    have hspc : s.pc = .loop := by rw [hrel.pc, hpc]; rfl
    rcases ht : nextToken a.tokens with ⟨t, ts⟩
    have hst : nextToken s.tokens = (t, ts) := hrel.tokens ▸ ht
    cases t with
    | symbol text =>
      rcases hrel.step_symbol hmalloc hfr hs0 hpc ht with h | ⟨s', h1, h2⟩
      · exact .inl h
      · exact .inr (.inr ⟨s', _, h1, by simp [readStep, hpc, ht, pure, Except.pure], h2⟩)
    | lparen =>
      rcases hrel.step_lparen hmalloc hfr hs0 hpc ht with h | ⟨s', h1, h2⟩
      · exact .inl h
      · exact .inr (.inr ⟨s', _, h1, by simp [readStep, hpc, ht, pure, Except.pure], h2⟩)
    | rparen | other =>
      exact .inr (.inl ⟨.error "Syntax error: expected symbol or '('",
        by simp [parseStep, hspc, hst, throw, throwThe, MonadExceptOf.throw],
        by simp [readStep, hpc, ht, throw, throwThe, MonadExceptOf.throw]⟩)
  | attach e =>
    rcases hstk : a.pending with _ | ⟨_ | first, stk⟩
    · obtain ⟨s', h1, h2⟩ : ∃ s', parseStep malloc fr s = .ok s' ∧ ParseRel fr c0 s' _ := hrel.step_done hs0 hpc hstk
      exact .inr (.inr ⟨s', _, h1, by simp [readStep, hpc, hstk, pure, Except.pure], h2⟩)
    · obtain ⟨s', h1, h2⟩ : ∃ s', parseStep malloc fr s = .ok s' ∧ ParseRel fr c0 s' _ := hrel.step_first hs0 hpc hstk
      exact .inr (.inr ⟨s', _, h1, by simp [readStep, hpc, hstk, pure, Except.pure], h2⟩)
    · exact .inr (hrel.step_second hfr hs0 hpc hstk)
  | returned e =>
    have hspc : s.pc = .returned (s.col.cells fr.expr) := by rw [hrel.pc, hpc]; rfl
    exact .inr (.inr ⟨s, a, by simp [parseStep, hspc, pure, Except.pure],
      by simp [readStep, hpc, pure, Except.pure], hrel⟩)

theorem parseRun_refines (hmalloc : malloc.Fresh) (hfr : fr.Valid c0) (hs0 : c0.NilSafe) (n : Nat)
    (hrel : ParseRel fr c0 s a) :
    (∃ f, parseRun malloc fr n s = .error f ∧ f.IsAllocFailure) ∨
    (∃ f, parseRun malloc fr n s = .error f ∧ readRun n a = .error f) ∨
    ∃ s' a', parseRun malloc fr n s = .ok s' ∧ readRun n a = .ok a' ∧ ParseRel fr c0 s' a' := by
  induction n generalizing s a with
  | zero => exact .inr (.inr ⟨s, a, rfl, rfl, hrel⟩)
  | succ n ih =>
    rcases parseStep_refines hmalloc hfr hs0 hrel with ⟨f, h1, hf⟩ | ⟨f, h1, h2⟩ | ⟨s', a', h1, h2, hrel'⟩
    · exact .inl ⟨f, by simp [parseRun, h1, bind, Except.bind], hf⟩
    · exact .inr (.inl ⟨f, by simp [parseRun, h1, bind, Except.bind], by simp [readRun, h2, bind, Except.bind]⟩)
    · rw [parseRun, readRun, h1, h2]
      exact ih hrel'

theorem parseRel_init (hfr : fr.Valid c0) (hinv : c0.HeapInv) (hs0 : c0.NilSafe) (tokens : List Token) :
    ParseRel fr c0 ⟨({ c0 with cells := Function.update c0.cells fr.parent nilValue } : Collector).linkRoot fr.parent,
      tokens, .loop⟩ ⟨[], tokens, .loop⟩ := by
  have hnil : nilValue ∈ c0.heapHead := hinv.reachable_mem hs0.reachable
  refine ⟨rfl, rfl, rfl, heapInv_linkRoot (heapInv_setRoot hinv fun _ => hnil) (by simpa [setRoot] using hnil),
    nilSafe_linkRoot (nilSafe_setRoot hs0 (hfr.ne_nilRoot hs0 (by simp)) nilValue) _,
    ⟨by simp [Heap.Pending], fun e he => by cases he⟩,
    ⟨List.nodup_nil, by simp [Heap.readingNodes, Heap.pendingNodes, Heap.currentNodes, ReadPc.current],
      by simp [Heap.readingNodes, Heap.pendingNodes, Heap.currentNodes, ReadPc.current],
      fun y _ => Heap.FieldsEq.refl _ _⟩, fun cell hc => ?_⟩
  have hne : cell ≠ fr.parent := fun e => hfr.own fr.parent (by simp) (e ▸ hc)
  simp [Function.update_noteq hne]

structure ParseResult (fr : ParseFrame) (c0 : Collector) (e : Expr) (s : ParseState) : Prop where
  pc : s.pc = .returned (s.col.cells fr.expr)
  repr : s.col.heap.Repr e (s.col.cells fr.expr)
  tracked : Tracked c0 s.col (s.col.heap.nodes e (s.col.cells fr.expr))
  roots : s.col.rootsHead = c0.rootsHead
  inv : s.col.HeapInv
  nilSafe : s.col.NilSafe

theorem ParseRel.result {rest : List Token} {e : Expr} (hrel : ParseRel fr c0 s ⟨[], rest, .returned e⟩) :
    ParseResult fr c0 e s :=
  ⟨hrel.pc, hrel.holds.2 e rfl, by simpa [Heap.readingNodes, Heap.pendingNodes, Heap.currentNodes, ReadPc.current]
    using hrel.tracked, by simpa [ReadPc.frameRoots] using hrel.roots, hrel.inv, hrel.nilSafe⟩

end refinement

section within

variable {malloc : Malloc} {fr : ParseFrame}

def ParseState.budget (s : ParseState) : Int := s.col.objectCount + s.tokens.length

theorem nextToken_length_le (ts : List Token) : (nextToken ts).2.length ≤ ts.length := by
  cases ts <;> simp [nextToken]

theorem parseStep_within (hm : malloc.NeverFails) (s : ParseState) (hs : s.budget ≤ 10000) :
    Within ParseState.budget s.budget (parseStep malloc fr s) := by
  unfold ParseState.budget at hs ⊢
  unfold parseStep
  split
  · rcases hts : s.tokens with _ | ⟨t, ts⟩
    · exact .error (by decide)
    rw [hts, List.length_cons] at hs
    cases t with
    | symbol text =>
      exact Within.bind (createAtom_within hm (by exact Int.le_refl _) (by omega) text) fun r h1 =>
        Within.map (pushRoot_within hm fr.expr (by exact h1)) fun c h2 => by simp only [List.length_cons] at h2 ⊢; omega
    | lparen =>
      exact Within.bind (createCons_within hm (by exact Int.le_refl _) (by omega) fr.cons _ _) fun r h1 =>
        .ok (by simp only [setRoot, List.length_cons] at h1 ⊢; omega)
    | rparen | other => exact .error (by decide)
  · dsimp only
    split
    · exact Within.bind (popRoot_within (by exact Int.le_refl _)) fun _ h1 =>
        Within.bind (popRoot_within h1) fun _ h2 => .ok (by simp only; omega)
    split
    · exact .error (by decide)
    split
    · exact Within.bind (popRoot_within (by exact Int.le_refl s.col.objectCount)) fun _ h1 => .ok (by simp only; omega)
    · have := nextToken_length_le s.tokens
      split
      · exact .error (by decide)
      · exact .ok (by simp only [setRoot]; omega)
  · exact .ok (Int.le_refl _)

theorem parseRun_within (hm : malloc.NeverFails) (n : Nat) (s : ParseState) {b : Int} (hs : s.budget ≤ b)
    (hb : b ≤ 10000) : Within ParseState.budget b (parseRun malloc fr n s) := by
  induction n generalizing s with
  | zero => exact .ok hs
  | succ n ih => exact Within.bind (parseStep_within hm s (by omega)) fun s' h => ih s' (by omega)

theorem parse_within (hm : malloc.NeverFails) {c0 : Collector} {tokens : List Token}
    (hroom : c0.objectCount + tokens.length ≤ 10000) :
    Within ParseState.budget (c0.objectCount + tokens.length) (parse malloc fr c0 tokens) := by
  unfold parse
  rw [pushRoot_of_ne (hm _), ok_bind]
  exact parseRun_within hm _ _ (Int.le_refl _) hroom

end within

section parse

variable {malloc : Malloc} {fr : ParseFrame} {c0 : Collector}

theorem parse_spec (hmalloc : malloc.Fresh) (hfr : fr.Valid c0) (hinv : c0.HeapInv) (hs0 : c0.NilSafe)
    (tokens : List Token) :
    (∀ e rest, tokens = e.tokens ++ rest →
      (∃ f, parse malloc fr c0 tokens = .error f ∧ f.IsAllocFailure) ∨
      ∃ s, parse malloc fr c0 tokens = .ok s ∧ s.tokens = rest ∧ ParseResult fr c0 e s) ∧
    (∀ s, parse malloc fr c0 tokens = .ok s →
      ∃ e, tokens = e.tokens ++ s.tokens ∧ ParseResult fr c0 e s ∧
        ∀ e' rest, tokens = e'.tokens ++ rest → e' = e ∧ rest = s.tokens) ∧
    (∀ f, parse malloc fr c0 tokens = .error f →
      f.IsAllocFailure ∨ (∀ (e : Expr) rest, tokens ≠ e.tokens ++ rest) ∧
        (f = .error "Syntax error: expected symbol or '('" ∨ f = .error "Syntax error: pair: missing ')'")) := by
  have hn : 2 * tokens.length + 1 ≤ 2 * tokens.length + 1 := le_refl _
  have hstart : ∀ e rest, tokens = e.tokens ++ rest →
      readRun (2 * tokens.length + 1) ⟨[], tokens, .loop⟩ = .ok ⟨[], rest, .returned e⟩ := by
    rintro e rest rfl
    refine readRun_expr_of_le e rest ?_
    have := e.steps_le
    simp only [List.length_append]
    omega
  unfold parse
  rw [pushRoot_bind]
  split
  · exact ⟨fun _ _ _ => .inl ⟨_, rfl, .inl rfl⟩, (fun _ h => by cases h), fun _ h => by cases h; exact .inl (.inl rfl)⟩
  have hrun := parseRun_refines hmalloc hfr hs0 (2 * tokens.length + 1) (parseRel_init hfr hinv hs0 tokens)
  refine ⟨fun e rest ht => ?_, fun s hs => ?_, fun f hf => ?_⟩
  · rcases hrun with h | ⟨f, -, h2⟩ | ⟨s', a', h1, h2, hrel⟩
    · exact .inl h
    · rw [hstart e rest ht] at h2; cases h2
    · rw [hstart e rest ht] at h2; cases h2
      exact .inr ⟨s', h1, hrel.tokens, hrel.result⟩
  · rcases hrun with ⟨f, h1, -⟩ | ⟨f, h1, -⟩ | ⟨s', ⟨pend, rest, pc⟩, h1, h2, hrel⟩
    · rw [hs] at h1; cases h1
    · rw [hs] at h1; cases h1
    rw [hs] at h1; cases h1
    obtain ⟨e, hp, hpc, ht⟩ := readRun_sound hn h2
    simp only at hp hpc ht
    subst hp hpc
    refine ⟨e, hrel.tokens ▸ ht, hrel.result, fun e' r' h' => ?_⟩
    have := Expr.tokens_append_inj (ht.symm.trans h')
    exact ⟨this.1.symm, this.2.symm.trans hrel.tokens.symm⟩
  · rcases hrun with ⟨f', h1, hf'⟩ | ⟨f', h1, h2⟩ | ⟨s', a', h1, -, -⟩
    · rw [hf] at h1; cases h1; exact .inl hf'
    · rw [hf] at h1; cases h1
      exact .inr ⟨fun e rest ht => (by rw [hstart e rest ht] at h2; cases h2), readRun_error h2⟩
    · rw [hf] at h1; cases h1

theorem parse_correct (hmalloc : malloc.Fresh) (hfr : fr.Valid c0) (hinv : c0.HeapInv) (hs0 : c0.NilSafe)
    (tokens : List Token) :
    (∀ e rest, tokens = e.tokens ++ rest →
      (∃ f, parse malloc fr c0 tokens = .error f ∧ f.IsAllocFailure) ∨
      ∃ s, parse malloc fr c0 tokens = .ok s ∧ s.tokens = rest ∧ ParseResult fr c0 e s) ∧
    (∀ s, parse malloc fr c0 tokens = .ok s →
      ∃ e, tokens = e.tokens ++ s.tokens ∧ ParseResult fr c0 e s ∧
        ∀ e' rest, tokens = e'.tokens ++ rest → e' = e ∧ rest = s.tokens) ∧
    (∀ f, parse malloc fr c0 tokens = .error f →
      f.IsAllocFailure ∨ (∀ (e : Expr) rest, tokens ≠ e.tokens ++ rest) ∧
        (f = .error "Syntax error: expected symbol or '('" ∨ f = .error "Syntax error: pair: missing ')'")) ∧
    (malloc.NeverFails → c0.objectCount + tokens.length ≤ 10000 →
      (∀ e rest, tokens = e.tokens ++ rest →
        ∃ s, parse malloc fr c0 tokens = .ok s ∧ s.tokens = rest ∧ ParseResult fr c0 e s) ∧
      ∀ f, parse malloc fr c0 tokens = .error f →
        f = .error "Syntax error: expected symbol or '('" ∨ f = .error "Syntax error: pair: missing ')'") := by
  obtain ⟨hexpr, hok, herr⟩ := parse_spec hmalloc hfr hinv hs0 tokens
  refine ⟨hexpr, hok, herr, fun hm hroom => ⟨fun e rest ht => ?_, fun f hf => ?_⟩⟩
  · exact (hexpr e rest ht).resolve_left fun ⟨_, hf, ha⟩ => (parse_within hm hroom).not_allocFailure hf ha
  · exact ((herr f hf).resolve_left ((parse_within hm hroom).not_allocFailure hf)).2

def bumpMalloc : Malloc := fun c => c.heapHead.foldr max 0 + 1

theorem le_foldr_max {x : Addr} {l : List Addr} (h : x ∈ l) : x ≤ l.foldr max 0 := by
  induction l with
  | nil => cases h
  | cons y l ih =>
    rcases List.mem_cons.1 h with rfl | h
    · exact le_max_left _ _
    · exact (ih h).trans (le_max_right _ _)

theorem bumpMalloc_fresh : bumpMalloc.Fresh := fun _ _ h => Nat.not_succ_le_self _ (le_foldr_max h)

theorem bumpMalloc_ne_zero (c : Collector) : bumpMalloc c ≠ 0 := Nat.succ_ne_zero _

def parseSampleFrame : ParseFrame := ⟨3, 4, ⟨5, 6⟩⟩

theorem parse_correct_sample :
    ∃ c, initGlobals bumpMalloc (Collector.initial zeroHeap fun _ => 0) = .ok c ∧
      bumpMalloc.Fresh ∧ parseSampleFrame.Valid c ∧ c.HeapInv ∧ c.NilSafe ∧
      let tokens := [.lparen, .symbol "a", .symbol "b", .rparen]
      (∀ e rest, tokens = e.tokens ++ rest →
        (∃ f, parse bumpMalloc parseSampleFrame c tokens = .error f ∧ f.IsAllocFailure) ∨
        ∃ s, parse bumpMalloc parseSampleFrame c tokens = .ok s ∧ s.tokens = rest ∧ ParseResult parseSampleFrame c e s) ∧
      (∀ s, parse bumpMalloc parseSampleFrame c tokens = .ok s →
        ∃ e, tokens = e.tokens ++ s.tokens ∧ ParseResult parseSampleFrame c e s ∧
          ∀ e' rest, tokens = e'.tokens ++ rest → e' = e ∧ rest = s.tokens) ∧
      (∀ f, parse bumpMalloc parseSampleFrame c tokens = .error f →
        f.IsAllocFailure ∨ (∀ (e : Expr) rest, tokens ≠ e.tokens ++ rest) ∧
          (f = .error "Syntax error: expected symbol or '('" ∨ f = .error "Syntax error: pair: missing ')'")) ∧
      (bumpMalloc.NeverFails → c.objectCount + tokens.length ≤ 10000 →
        (∀ e rest, tokens = e.tokens ++ rest →
          ∃ s, parse bumpMalloc parseSampleFrame c tokens = .ok s ∧ s.tokens = rest ∧
            ParseResult parseSampleFrame c e s) ∧
        ∀ f, parse bumpMalloc parseSampleFrame c tokens = .error f →
          f = .error "Syntax error: expected symbol or '('" ∨ f = .error "Syntax error: pair: missing ')'") :=
  have hinit := initGlobals_initial bumpMalloc_ne_zero zeroHeap fun _ => 0
  have hfr : parseSampleFrame.Valid _ := ⟨by decide, by decide⟩
  ⟨_, hinit, bumpMalloc_fresh, hfr, heapInv_initial _ _ hinit, nilSafe_initial _ _ hinit,
    parse_correct bumpMalloc_fresh hfr (heapInv_initial _ _ hinit) (nilSafe_initial _ _ hinit) _⟩

def fullHeap : Heap where
  marked := fun _ => false
  cls := fun x => if x = nilValue then .nil else .cons
  tailIsNext := fun _ => false
  head := fun _ => nilValue
  tail := fun x => if x < 10000 then x + 1 else nilValue
  apply := fun _ => .eval
  data := fun _ => 0
  chars := fun _ => ""

def fullCollector : Collector where
  heap := fullHeap
  heapHead := List.range' 1 10000
  rootsHead := [contStack, nilRoot]
  objectCount := 10000
  cells := fun cell => if cell = contStack then 2 else nilValue

theorem fullHeap_reaches (k : Nat) (hk : k ≤ 9998) : fullHeap.Reaches 2 (2 + k : Nat) := by
  induction k with
  | zero => exact .refl
  | succ k ih =>
    refine (ih (by omega)).tail ?_
    simp [Heap.children, Heap.childrenAs, fullHeap, nilValue, show 2 + k ≠ 1 by omega,
      show 2 + k < 10000 by omega]
    dsimp only [Addr]
    omega

theorem mem_fullCollector {x : Nat} : x ∈ fullCollector.heapHead ↔ 1 ≤ x ∧ x ≤ 10000 := by
  simp only [fullCollector, List.mem_range'_1]; omega

theorem fullCollector_heapInv : fullCollector.HeapInv := by
  refine ⟨⟨List.nodup_range' _ _, by simp [mem_fullCollector], fun _ _ => rfl, fun (x : Nat) hx (y : Nat) hy => ?_,
    fun cell hc => ?_⟩, ?_, by decide⟩
  · rw [mem_fullCollector] at hx ⊢
    by_cases hx1 : x = 1
    · simp [Heap.children, Heap.childrenAs, fullCollector, fullHeap, nilValue, hx1] at hy
    · simp only [Heap.children, Heap.childrenAs, fullCollector, fullHeap, nilValue, if_neg hx1, List.mem_cons,
        List.mem_singleton, List.not_mem_nil, or_false] at hy
      dsimp only [Addr] at hy
      split at hy <;> omega
  · simp only [fullCollector, List.mem_cons, List.mem_singleton, List.not_mem_nil, or_false] at hc
    rw [mem_fullCollector]
    rcases hc with rfl | rfl <;> decide
  · show (10000 : Int) = ((List.range' 1 10000).length : Nat)
    rw [List.length_range']; rfl

theorem fullCollector_nilSafe : fullCollector.NilSafe :=
  ⟨⟨[contStack], rfl⟩, by decide, fun x _ hx => by
    simp only [fullCollector, fullHeap] at hx; split at hx <;> simp_all⟩

def fullParseStart : Collector :=
  ({ fullCollector with cells := Function.update fullCollector.cells 3 nilValue } : Collector).linkRoot 3

theorem fullParseStart_reachable : ∀ x ∈ fullParseStart.heapHead, fullParseStart.Reachable x := fun (x : Nat) hx => by
  have hx' : 1 ≤ x ∧ x ≤ 10000 := mem_fullCollector.1 hx
  rcases Nat.lt_or_ge x 2 with h | h
  · obtain rfl : x = 1 := by omega
    exact ⟨nilRoot, by decide, .refl⟩
  · refine ⟨contStack, by decide, ?_⟩
    have := fullHeap_reaches (x - 2) (by omega)
    rwa [Nat.add_sub_cancel' h] at this

theorem fullParseStart_heapInv : fullParseStart.HeapInv :=
  have hnil : nilValue ∈ fullCollector.heapHead := mem_fullCollector.2 (by decide)
  heapInv_linkRoot (heapInv_setRoot fullCollector_heapInv fun _ => hnil) hnil

theorem parse_fails_at_cap :
    bumpMalloc.Fresh ∧ parseSampleFrame.Valid fullCollector ∧ fullCollector.HeapInv ∧ fullCollector.NilSafe ∧
      [Token.symbol "a"] = (Expr.symbol "a").tokens ++ [] ∧
      parse bumpMalloc parseSampleFrame fullCollector [.symbol "a"] =
        .error (.error "register_object: object count limit reached.") := by
  refine ⟨bumpMalloc_fresh, ⟨by decide, by decide⟩, fullCollector_heapInv, fullCollector_nilSafe, rfl, ?_⟩
  rw [parse, pushRoot_of_ne (bumpMalloc_ne_zero _), ok_bind]
  show parseRun _ _ 3 ⟨fullParseStart, _, .loop⟩ = _
  simp only [parseRun, parseStep, nextToken]
  rw [createAtom_full fullParseStart_heapInv fullParseStart_reachable rfl (bumpMalloc_ne_zero _)]
  rfl

end parse

end GclProofs
