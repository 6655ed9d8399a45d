import GclProofs.Machine

/-!
Each continuation and builtin of the interpreter carries out its step of the abstract machine.
-/

namespace GclProofs

open Collector

variable {malloc : Malloc} {c : Collector} {K : List Cont} {S : List Value}
  {forms : List (String × Form)} {env : Env} {O : List String}

section eval

theorem eval_symbol {apply : Machine → Addr → Except Fault Machine} (hmalloc : malloc.Fresh) (hrel : c.HoldsStacks K S)
    (hun : c.LocalsUnrooted) {t : String} {d : Addr} (hd : c.heap.DataRepr forms env (.symbol t) d) (hdl : d ∈ c.heapHead) :
    Refines c (eval malloc apply ⟨c, O⟩ d) (AState.evalExpr ⟨K, S, O⟩ forms env (.symbol t)) := by
  obtain ⟨hdc, ⟨hec, -, hen⟩, hsym⟩ := hd
  have hw := hrel.inv.toHeapShape
  have henl : c.heap.tail (c.heap.head d) ∈ c.heapHead :=
    reaches_mem hw.closed hdl ((Heap.reaches_head hdc).trans (Heap.reaches_tail hec))
  obtain ⟨r, hr, hres⟩ := assoc_spec hrel.nil_ne_cons hsym (Heap.envRepr_iff.1 hen) (n := assocFuel c)
    (Nat.lt_succ_of_le (Heap.ListRepr.length_le hw hrel.nil_ne_cons henl (Heap.envRepr_iff.1 hen)))
  simp only [eval, destructCons_of_cons hdc, destructCons_of_cons hec, ok_bind, hsym.1, if_true, hr]
  rcases hres with ⟨hnone, rfl⟩ | ⟨v, hv, hvr, hreach⟩
  · simp only [AState.evalExpr, Env.lookup, hnone, if_true]
    exact .error
  have hrl : r ∈ c.heapHead := reaches_mem hw.closed henl hreach
  have hr0 : r ≠ 0 := fun e => hw.nonzero (e ▸ hrl)
  simp only [hr0, if_false, pure_bind, AState.evalExpr, Env.lookup, hv]
  exact push_refines hmalloc hrel hun hvr hrl

theorem evalApplication_refines (hmalloc : malloc.Fresh) (hrel : c.HoldsStacks K S) (hun : c.LocalsUnrooted)
    {f x : Expr} {envs fExpr argExpr : Addr} (henvs : c.heap.EnvsRepr forms env envs) (hf : c.heap.Repr f fExpr)
    (hx : c.heap.Repr x argExpr) (hl : ∀ y ∈ [envs, fExpr, argExpr], y ∈ c.heapHead) :
    Refines c (evalApplication malloc ⟨c, O⟩ envs fExpr argExpr)
      (.ok ⟨.eval forms env x :: .eval forms env f :: .popApply :: K, S, O⟩) := by
  have hnil := hrel.inv.reachable_mem hrel.nilSafe.reachable
  unfold evalApplication
  refine Refines.bind_pushRoot (Refines.bind_pushRoot (Refines.bind_pushRoot ?_))
  set c1 := (setRoot c evalEnvs envs).linkRoot evalEnvs with hc1
  set c2 := (setRoot c1 evalFExpr fExpr).linkRoot evalFExpr with hc2
  set c3 := (setRoot c2 evalArgExpr argExpr).linkRoot evalArgExpr with hc3
  have hg03 : c.Grows [envs, fExpr, argExpr] c3 [] := linkRoot3_grows hrel.inv hrel.nilSafe hun (by decide) (by decide) hl
  have hr3 : c3.rootsHead = [evalArgExpr, evalFExpr, evalEnvs] ++ c.rootsHead := rfl
  have hcells3 : ∀ cell, c3.cells cell = if cell = evalArgExpr then argExpr else if cell = evalFExpr then fExpr
      else if cell = evalEnvs then envs else c.cells cell := fun cell => by
    simp only [hc3, hc2, hc1, Collector.linkRoot_cells, setRoot, Function.update_apply]
  have hrel3 : c3.HoldsStacks K S := hrel.grow hg03 (by simp [hr3, hrel.operand]) (by simp [hr3, hrel.cont])
    (by rw [hcells3]; rfl) (by rw [hcells3]; rfl)
  have h4 := createFunction_grows hmalloc hrel3.inv hrel3.nilSafe hnil
    (hun.not_mem _ hr3 (by decide) (by decide) (by decide)) .popApply
  refine Refines.bind h4.1 fun ⟨c4, fn⟩ e4 => ?_
  obtain ⟨hg4, hr4, hcells4, hcls4, hap4, -⟩ := h4.2 c4 fn e4
  have hg4' := hg4.forget_locals
  have hrel4 : c4.HoldsStacks K S := hrel3.grow hg4' (hr4 ▸ hrel3.operand) (hr4 ▸ hrel3.cont)
    (by rw [hcells4]; rfl) (by rw [hcells4]; rfl)
  have h5 := pushCont_holds hmalloc hrel4 (k := .popApply) ⟨hun.not_mem _ (hr4.trans hr3) (by decide) (by decide) (by decide),
    hun.not_mem _ (hr4.trans hr3) (by decide) (by decide) (by decide)⟩ ⟨hcls4, hap4⟩ (hg4.listed fn (by simp))
  refine Refines.bind h5.1 fun c5 e5 => ?_
  obtain ⟨hrel5, hg5, hr5, hcells5⟩ := h5.2 c5 e5
  have hr5' : c5.rootsHead = [evalArgExpr, evalFExpr, evalEnvs] ++ c.rootsHead := hr5.trans (hr4.trans hr3)
  have hg05 : c.Grows [envs, fExpr, argExpr] c5 [] := hg03.trans (hg4'.trans hg5)
  have hcells05 : ∀ cell, cell ≠ contStack → cell ≠ consFrame.head → cell ≠ consFrame.tail → cell ≠ functionData →
      c5.cells cell = c3.cells cell := fun cell h1 h2 h3 h4 => by
    rw [hcells5 cell h1 h2 h3, hcells4, Function.update_noteq h4]
  have he5 : c5.cells evalEnvs = envs := (hcells05 _ (by decide) (by decide) (by decide) (by decide)).trans rfl
  have hf5 : c5.cells evalFExpr = fExpr := (hcells05 _ (by decide) (by decide) (by decide) (by decide)).trans rfl
  have hx5 : c5.cells evalArgExpr = argExpr := (hcells05 _ (by decide) (by decide) (by decide) (by decide)).trans rfl
  have hown5 := fun cell (h1 : consFrame.head ≤ cell) (h2 : cell ≤ mapConsValue) (hpre : cell ∉ _) =>
    hun.not_mem _ hr5' h1 h2 hpre
  refine pushEval_holds (P := (Refines _ · _)) (fun _ => .allocFails) hmalloc hrel5 ⟨hown5 _ le_rfl (by decide) (by decide), hown5 _ (by decide) (by decide) (by decide),
      hown5 _ (by decide) (by decide) (by decide)⟩ (he5 ▸ (hg05.keeps.agree (.of_mem (by simp))).envsRepr henvs)
    (hf5 ▸ (hg05.keeps.agree (.of_mem (by simp))).repr hf) (hrel5.inv.roots _ (by simp [hr5']))
    (hrel5.inv.roots _ (by simp [hr5'])) fun c6 hrel6 hg6 hr6 hcells6 => ?_
  have hr6' : c6.rootsHead = [evalArgExpr, evalFExpr, evalEnvs] ++ c.rootsHead := hr6.trans hr5'
  have he6 : c6.cells evalEnvs = envs := (hcells6 _ (by simp [hr5']) (by decide)).trans he5
  have hx6 : c6.cells evalArgExpr = argExpr := (hcells6 _ (by simp [hr5']) (by decide)).trans hx5
  have hown6 := fun cell (h1 : consFrame.head ≤ cell) (h2 : cell ≤ mapConsValue) (hpre : cell ∉ _) =>
    hun.not_mem _ hr6' h1 h2 hpre
  have hag6 : ∀ cell ∈ [evalEnvs, evalArgExpr], c.heap.Agree c6.heap (c5.cells cell) := fun cell hc =>
    (hg05.keeps.agree (.of_mem (by simp at hc; rcases hc with rfl | rfl <;> simp [he5, hx5]))).trans
      (hg6.keeps.agree (.of_root (by simp [hr5'] at hc ⊢; tauto)))
  refine pushEval_holds (P := (Refines _ · _)) (fun _ => .allocFails) hmalloc hrel6 ⟨hown6 _ le_rfl (by decide) (by decide), hown6 _ (by decide) (by decide) (by decide),
      hown6 _ (by decide) (by decide) (by decide)⟩ (he6 ▸ he5 ▸ (hag6 evalEnvs (by simp)).envsRepr (he5 ▸ henvs))
    (hx6 ▸ hx5 ▸ (hag6 evalArgExpr (by simp)).repr (hx5 ▸ hx)) (hrel6.inv.roots _ (by simp [hr6']))
    (hrel6.inv.roots _ (by simp [hr6'])) fun c7 hrel7 hg7 hr7 hcells7 => ?_
  have hr7' : c7.rootsHead = [evalArgExpr, evalFExpr, evalEnvs] ++ c.rootsHead := hr7.trans hr6'
  rw [popRoot3_bind hr7']
  have hu := unroot_grows hrel7.inv hrel7.nilSafe hr7' hrel.nilSafe.bottom (L := []) (by simp)
  have hmain : ∀ cell ∈ c.rootsHead, cell ≠ contStack → c7.cells cell = c.cells cell := fun cell hc hne => by
    have h3 : c3.cells cell = c.cells cell := by
      rw [hcells3, if_neg (ne_of_mem_of_not_mem hc (hun.own (by decide) (by decide))),
        if_neg (ne_of_mem_of_not_mem hc (hun.own (by decide) (by decide))),
        if_neg (ne_of_mem_of_not_mem hc (hun.own (by decide) (by decide)))]
    rw [hcells7 cell (by simp [hr6', hc]) hne, hcells6 cell (by simp [hr5', hc]) hne,
      hcells05 cell hne (ne_of_mem_of_not_mem hc (hun.own le_rfl (by decide)))
        (ne_of_mem_of_not_mem hc (hun.own (by decide) (by decide)))
        (ne_of_mem_of_not_mem hc (hun.own (by decide) (by decide))), h3]
  have hg := ((hg05.trans hg6.forget_locals).trans hg7.forget_locals).trans hu
  exact .ok ⟨hrel7.grow hu hrel.operand hrel.cont rfl rfl, hun, rfl⟩ (hg.keepsMain rfl fun cell hc _ => hmain cell hc)

def Form.builtin (malloc : Malloc) : Form → Machine → Addr → Except Fault Machine
  | .quote => quoteFunction malloc
  | .fun => funFunction malloc

theorem apply_form {m : Machine} {fn : Addr} {fm : Form} (n : Nat) (hform : m.col.heap.FormRepr fm fn) :
    apply malloc (n + 1) m fn = fm.builtin malloc m (m.col.heap.data fn) := by
  obtain ⟨hc, ha⟩ := hform
  cases fm <;> simp [apply, hc, ha, Form.apply, Form.builtin]

theorem evalSpecialForm_spec {r : Except Fault AState} (hmalloc : malloc.Fresh) (hrel : c.HoldsStacks K S)
    (hun : c.LocalsUnrooted) {x : Expr} {fm : Form} {form envs argExpr : Addr}
    (hform : c.heap.FormRepr fm form) (henvs : c.heap.EnvsRepr forms env envs) (hx : c.heap.Repr x argExpr)
    (hl : ∀ y ∈ [form, envs, argExpr], y ∈ c.heapHead) (n : Nat)
    (hk : ∀ c4 c5 value d, pop c4 = .ok (c5, value) → c5.HoldsStacks K S → c5.rootsHead = c.rootsHead →
      c.KeepsCells mainCells c5 → c5.heap.DataRepr forms env x value → value ∈ c5.heapHead →
      Refines c (fm.builtin malloc ⟨c4, O⟩ d) r) :
    Refines c (evalSpecialForm malloc (apply malloc (n + 1)) ⟨c, O⟩ form envs argExpr) r := by
  unfold evalSpecialForm
  refine Refines.bind_pushRoot ?_
  set c1 := (setRoot c evalForm form).linkRoot evalForm with hc1
  have hr1 : c1.rootsHead = [evalForm] ++ c.rootsHead := rfl
  have hg1 : c.Grows [form, envs, argExpr] c1 [envs, argExpr] :=
    linkRoot_grows hrel.inv hrel.nilSafe (hun.own (by decide) (by decide)) (by decide) (hl form (by simp))
      fun y hy => hl y (by simp_all)
  have h2 := createCons_grows hmalloc hg1.inv hg1.nilSafe (hg1.listed envs (by simp)) (hg1.listed argExpr (by simp))
    ⟨hun.not_mem _ hr1 le_rfl (by decide) (by decide), hun.not_mem _ hr1 (by decide) (by decide) (by decide)⟩
  refine Refines.bind h2.1 fun ⟨c2, value⟩ e2 => ?_
  obtain ⟨hg2, hr2, hcells2, hcls2, hh2, ht2⟩ := h2.2 c2 value e2
  have hr2' : c2.rootsHead = [evalForm] ++ c.rootsHead := hr2.trans hr1
  have h3 := pushOn_grows hmalloc hg2.inv hg2.nilSafe (show operandStack ∈ c2.rootsHead by simp [hr2', hrel.operand])
    (by decide)
    ⟨hun.not_mem _ hr2' le_rfl (by decide) (by decide), hun.not_mem _ hr2' (by decide) (by decide) (by decide)⟩
    (hg2.listed value (by simp))
  refine Refines.bind h3.1 fun c3 e3 => ?_
  obtain ⟨hg3, hr3, hcls3, hh3, ht3, hcells3⟩ := h3.2 c3 e3
  have hr3' : c3.rootsHead = [evalForm] ++ c.rootsHead := hr3.trans hr2'
  rw [popRoot_bind (show c3.rootsHead = evalForm :: c.rootsHead from hr3')]
  have hcells13 : ∀ cell, cell ≠ operandStack → cell ≠ consFrame.head → cell ≠ consFrame.tail → cell ≠ evalForm →
      c3.cells cell = c.cells cell := fun cell h1 h2 h3 h4 => by
    rw [hcells3 cell h1 h2 h3, hcells2, Function.update_noteq h3, Function.update_noteq h2, hc1]
    exact Function.update_noteq h4 _ _
  have hg03 := (hg1.trans hg2).trans hg3
  have hag : ∀ y ∈ [form, envs, argExpr], c.heap.Agree c3.heap y := fun y hy => hg03.keeps.agree (.of_mem hy)
  have hform3 : c3.cells evalForm = form := by
    rw [hcells3 evalForm (by decide) (by decide) (by decide), hcells2, Function.update_noteq (by decide),
      Function.update_noteq (by decide)]
    simp [hc1, setRoot]
  have hf3 : c3.heap.FormRepr fm (c3.cells evalForm) := by
    rw [hform3]
    exact ⟨(hag form (by simp)).fields.1.trans hform.1, (hag form (by simp)).fields.2.2.2.2.2.trans hform.2⟩
  rw [apply_form n (m := ⟨{ c3 with rootsHead := c.rootsHead }, O⟩) hf3]
  have hu := unroot_grows hg3.inv hg3.nilSafe hr3' hrel.nilSafe.bottom (L := []) (by simp)
  have hv3 := (hg3.keeps value (.of_mem (by simp))).2
  have hop3 := hg3.inv.roots operandStack (by simp [hr3', hrel.operand])
  have hc1 : c3.heap.tail (c3.cells operandStack) = c.cells operandStack := by
    rw [ht3, hcells2, Function.update_noteq (by decide), Function.update_noteq (by decide)]; rfl
  set c5 := setRoot { c3 with rootsHead := c.rootsHead } operandStack (c3.heap.tail (c3.cells operandStack)) with hc5
  have hrel5 : c5.HoldsStacks K S := hrel.transfer (heapInv_setRoot hu.inv fun _ =>
      reaches_mem hg3.inv.closed hop3 (Heap.reaches_tail hcls3)) (nilSafe_setRoot hu.nilSafe (by decide) _)
    (fun cell hc => hg03.keeps.agree (.of_root hc)) hrel.operand hrel.cont (by simp [hc5, setRoot, hc1])
    (by simp only [hc5, setRoot]; rw [Function.update_noteq (by decide)]; exact hcells13 _ (by decide) (by decide) (by decide) (by decide))
  refine hk _ c5 value _ (by rw [pop_of_cons (c := { c3 with rootsHead := c.rootsHead }) hcls3, hh3]) hrel5 rfl
    (fun cell hc hr => ⟨hr, ?_, hg03.keeps.agree (.of_root hr)⟩)
    ⟨hv3.1.trans hcls2, hv3.2.1 ▸ hh2 ▸ (hag envs (by simp)).envsRepr henvs,
      hv3.2.2.1 ▸ ht2 ▸ (hag argExpr (by simp)).repr hx⟩
    (hh3 ▸ reaches_mem hg3.inv.closed hop3 (Heap.reaches_head hcls3))
  simp only [hc5, setRoot]
  rw [Function.update_noteq (ne_of_mem_mainCells hc (by decide))]
  exact hcells13 cell (ne_of_mem_mainCells hc (by decide)) (ne_of_mem_mainCells hc (by decide))
    (ne_of_mem_mainCells hc (by decide)) (ne_of_mem_mainCells hc (by decide))

theorem quoteFunction_refines (hmalloc : malloc.Fresh) {c4 c5 : Collector} {value d : Addr}
    (hpop : pop c4 = .ok (c5, value)) (hrel : c5.HoldsStacks K S) (hun : c5.LocalsUnrooted) {x : Expr}
    (hd : c5.heap.DataRepr forms env x value) (hvl : value ∈ c5.heapHead) :
    Refines c5 (quoteFunction malloc ⟨c4, O⟩ d) (.ok ⟨K, .expr x :: S, O⟩) := by
  obtain ⟨hc, -, hx⟩ := hd
  simp only [quoteFunction, hpop, ok_bind, destructCons_of_cons hc]
  exact push_refines hmalloc hrel hun hx (reaches_mem hrel.inv.closed hvl (Heap.reaches_tail hc))

theorem funFunction_refines (hmalloc : malloc.Fresh) {c4 c5 : Collector} {value d : Addr}
    (hpop : pop c4 = .ok (c5, value)) (hrel : c5.HoldsStacks K S) (hun : c5.LocalsUnrooted) {x : Expr}
    (hd : c5.heap.DataRepr forms env x value) (hvl : value ∈ c5.heapHead) :
    Refines c5 (funFunction malloc ⟨c4, O⟩ d) (.ok ⟨K, .closure forms env x :: S, O⟩) := by
  simp only [funFunction, hpop, ok_bind]
  have h6 := createFunction_grows hmalloc hrel.inv hrel.nilSafe hvl (hun.own (by decide) (by decide)) .funApplyFunction
  refine Refines.bind h6.1 fun ⟨c6, fn⟩ e6 => ?_
  obtain ⟨hg, hr, hcells, hcls, hap, hdata⟩ := h6.2 c6 fn e6
  have hsame : ∀ cell, cell ≠ functionData → c6.cells cell = c5.cells cell := fun cell h => by
    rw [hcells, Function.update_noteq h]
  refine Refines.start (hg.keepsMain hr fun cell hc _ _ => hsame cell (ne_of_mem_of_not_mem hc
    (hun.own (by decide) (by decide)))) (push_refines hmalloc (hrel.grow hg (hr ▸ hrel.operand) (hr ▸ hrel.cont)
      (hsame _ (by decide)) (hsame _ (by decide))) (fun cell hc => hun cell (hr ▸ hc)) (Heap.valueRepr_closure.2 ⟨hcls, hap, ?_⟩)
    (hg.listed fn (by simp)))
  rw [hdata]
  exact (hg.keeps.agree (.of_mem (by simp))).dataRepr hd

theorem evalSpecialForm_refines (hmalloc : malloc.Fresh) (hrel : c.HoldsStacks K S) (hun : c.LocalsUnrooted)
    {f x : Expr} {fm : Form} (hf : formOf forms f = some fm) {form envs argExpr : Addr}
    (hform : c.heap.FormRepr fm form) (henvs : c.heap.EnvsRepr forms env envs) (hx : c.heap.Repr x argExpr)
    (hl : ∀ y ∈ [form, envs, argExpr], y ∈ c.heapHead) (n : Nat) :
    Refines c (evalSpecialForm malloc (apply malloc (n + 1)) ⟨c, O⟩ form envs argExpr)
      (AState.evalExpr ⟨K, S, O⟩ forms env (.pair f x)) :=
  evalSpecialForm_spec hmalloc hrel hun hform henvs hx hl n fun _ _ _ _ hpop hrel5 hr5 hkeep hd hvl => by
    have hun5 : Collector.LocalsUnrooted _ := fun cell hc => hun cell (hr5 ▸ hc)
    cases fm with
    | quote =>
      simp only [AState.evalExpr, hf, Form.builtin]
      exact Refines.start hkeep (quoteFunction_refines hmalloc hpop hrel5 hun5 hd hvl)
    | «fun» =>
      simp only [AState.evalExpr, hf, Form.builtin]
      exact Refines.start hkeep (funFunction_refines hmalloc hpop hrel5 hun5 hd hvl)

theorem eval_pair (hmalloc : malloc.Fresh) (hrel : c.HoldsStacks K S) (hun : c.LocalsUnrooted) {f x : Expr} {d : Addr}
    (hd : c.heap.DataRepr forms env (.pair f x) d) (hdl : d ∈ c.heapHead) (n : Nat) :
    Refines c (eval malloc (apply malloc (n + 1)) ⟨c, O⟩ d) (AState.evalExpr ⟨K, S, O⟩ forms env (.pair f x)) := by
  obtain ⟨hdc, henvs, hec, hf, hx⟩ := hd
  have hw := hrel.inv.toHeapShape
  have hmem : ∀ y, c.heap.Reaches d y → y ∈ c.heapHead := fun y hy => reaches_mem hw.closed hdl hy
  have hel : c.heap.head d ∈ c.heapHead := hmem _ (Heap.reaches_head hdc)
  have hxl : ∀ y ∈ [c.heap.head (c.heap.tail d), c.heap.tail (c.heap.tail d)], y ∈ c.heapHead := by
    simp only [List.mem_cons, List.mem_singleton, List.not_mem_nil, or_false]
    rintro y (rfl | rfl)
    · exact hmem _ ((Heap.reaches_tail hdc).tail (by simp [Heap.children, Heap.childrenAs, hec]))
    · exact hmem _ ((Heap.reaches_tail hdc).tail (by simp [Heap.children, Heap.childrenAs, hec]))
  simp only [eval, destructCons_of_cons hdc, destructCons_of_cons henvs.1, ok_bind, hec, destructCons_of_cons hec,
    if_neg (show Cls.cons ≠ .atom by decide), if_true, pure_bind]
  have happ : formOf forms f = none → Refines c (evalApplication malloc ⟨c, O⟩ (c.heap.head d)
      (c.heap.head (c.heap.tail d)) (c.heap.tail (c.heap.tail d))) (AState.evalExpr ⟨K, S, O⟩ forms env (.pair f x)) :=
    fun hnone => by
      simp only [AState.evalExpr, hnone]
      exact evalApplication_refines hmalloc hrel hun henvs hf hx (by simpa [hel] using hxl)
  cases f with
  | pair a b =>
    simp only [show c.heap.cls (c.heap.head (c.heap.tail d)) ≠ .atom by rw [hf.1]; decide, if_false, pure_bind]
    exact happ rfl
  | symbol t =>
    have hfl : c.heap.head (c.heap.head d) ∈ c.heapHead :=
      hmem _ ((Heap.reaches_head hdc).tail (by simp [Heap.children, Heap.childrenAs, henvs.1]))
    obtain ⟨r, hr, hres⟩ := assoc_spec hrel.nil_ne_cons hf henvs.2.1 (n := assocFuel c)
      (Nat.lt_succ_of_le (Heap.ListRepr.length_le hw hrel.nil_ne_cons hfl henvs.2.1))
    simp only [hf.1, if_true, hr, ok_bind, pure_bind]
    rcases hres with ⟨hnone, rfl⟩ | ⟨fm, hfm, hform, hreach⟩
    · exact happ hnone
    have hrl : r ∈ c.heapHead := reaches_mem hw.closed hfl hreach
    simp only [show r ≠ 0 from fun e => hw.nonzero (e ▸ hrl), ne_eq, not_false_eq_true, decide_True, if_true]
    refine evalSpecialForm_refines hmalloc hrel hun (show formOf forms (.symbol t) = some fm from hfm) hform henvs hx
      (fun y hy => ?_) n
    simp only [List.mem_cons, List.mem_singleton, List.not_mem_nil, or_false] at hy
    rcases hy with rfl | rfl | rfl
    exacts [hrl, hel, hxl _ (by simp)]

theorem eval_refines (hmalloc : malloc.Fresh) (hrel : c.HoldsStacks K S) (hun : c.LocalsUnrooted) {e : Expr}
    {d : Addr} (hd : c.heap.DataRepr forms env e d) (hdl : d ∈ c.heapHead) (n : Nat) :
    Refines c (eval malloc (apply malloc (n + 1)) ⟨c, O⟩ d) (AState.evalExpr ⟨K, S, O⟩ forms env e) := by
  cases e with
  | symbol t => exact eval_symbol hmalloc hrel hun hd hdl
  | pair f x => exact eval_pair hmalloc hrel hun hd hdl n

end eval

section apply

theorem printAtom_refines (hmalloc : malloc.Fresh) (hrel : c.HoldsStacks K S) (hun : c.LocalsUnrooted) {d : Addr} :
    Refines c (printAtom malloc ⟨c, O⟩ d) (AState.applyValue ⟨K, S, O⟩ .printAtom) := by
  rcases S with _ | ⟨va, S⟩
  · simp only [printAtom, hrel.pop_empty, error_bind]
    exact .error
  obtain ⟨hpop, hrel1, hva, -⟩ := hrel.pop
  set c1 := setRoot c operandStack (c.heap.tail (c.cells operandStack))
  refine Refines.start (show c.KeepsCells mainCells c1 from keepsMain_setRoot (by decide) _) ?_
  have hva1 : c1.heap.ValueRepr va (c.heap.head (c.cells operandStack)) := hva
  simp only [printAtom, hpop, ok_bind]
  rcases va with (t | ⟨a, b⟩) | _ | _ | _
  · obtain ⟨hc, ht⟩ := hva1
    simp only [hc, ht, ne_eq, not_true_eq_false, if_false, pure_bind, AState.applyValue]
    exact push_refines hmalloc hrel1 hun rfl (hrel1.inv.reachable_mem hrel1.nilSafe.reachable)
  all_goals
    simp only [AState.applyValue, if_pos (Heap.valueRepr_cls_ne_atom hrel1.nilCls hva1 fun t h => by cases h)]
    exact .error

theorem funApplyFunction_refines (hmalloc : malloc.Fresh) (hrel : c.HoldsStacks K S) (hun : c.LocalsUnrooted)
    {x : Expr} {d : Addr} (hd : c.heap.DataRepr forms env x d) (hdl : d ∈ c.heapHead) :
    Refines c (funApplyFunction malloc ⟨c, O⟩ d) (AState.applyValue ⟨K, S, O⟩ (.closure forms env x)) := by
  rcases S with _ | ⟨va, S⟩
  · simp only [funApplyFunction, hrel.pop_empty, error_bind]
    exact .error
  obtain ⟨hpop, hrel1, hva, hargl⟩ := hrel.pop
  set c1 := setRoot c operandStack (c.heap.tail (c.cells operandStack)) with hc1
  set arg := c.heap.head (c.cells operandStack)
  refine Refines.start (show c.KeepsCells mainCells c1 from keepsMain_setRoot (by decide) _) ?_
  have hun1 : c1.LocalsUnrooted := hun
  have hva1 : c1.heap.ValueRepr va arg := hva
  have hmem : ∀ y, c1.heap.Reaches d y → y ∈ c1.heapHead := fun y hy => reaches_mem hrel.inv.closed hdl hy
  have hd1 : c1.heap.DataRepr forms env x d := hd
  obtain ⟨hdc, ⟨hec, hforms, henv⟩, hxr⟩ := hd1
  simp only [funApplyFunction, hpop, ok_bind, destructCons_of_cons hdc, destructCons_of_cons hec]
  rcases x with t | ⟨_ | ⟨a, b⟩, body⟩
  · simp only [destructCons_of_not_cons (show c1.heap.cls (c1.heap.tail d) ≠ .cons by rw [hxr.1]; decide),
      error_bind, AState.applyValue]
    exact .error
  swap
  · simp only [destructCons_of_cons hxr.1, ok_bind, show c1.heap.cls (c1.heap.head (c1.heap.tail d)) ≠ .atom by
      rw [hxr.2.1.1]; decide, ne_eq, not_false_eq_true, if_true, AState.applyValue]
    exact .error
  rename_i p
  obtain ⟨hxc, hp, hbody⟩ := hxr
  simp only [destructCons_of_cons hxc, ok_bind, hp.1, ne_eq, not_true_eq_false, if_false, pure_bind,
    AState.applyValue]
  set envA := c1.heap.tail (c1.heap.head d)
  set formsA := c1.heap.head (c1.heap.head d)
  set param := c1.heap.head (c1.heap.tail d)
  set bodyA := c1.heap.tail (c1.heap.tail d)
  refine Refines.bind_pushRoot (Refines.bind_pushRoot (Refines.bind_pushRoot ?_))
  set c4 := (setRoot ((setRoot ((setRoot c1 applyNewEnv envA).linkRoot applyNewEnv) applyForms formsA).linkRoot
    applyForms) applyBody bodyA).linkRoot applyBody with hc4
  have hl : ∀ y ∈ [envA, formsA, bodyA, param, arg], y ∈ c1.heapHead := by
    simp only [List.mem_cons, List.mem_singleton, List.not_mem_nil, or_false]
    rintro y (rfl | rfl | rfl | rfl | rfl)
    · exact hmem _ ((Heap.reaches_head hdc).trans (Heap.reaches_tail hec))
    · exact hmem _ ((Heap.reaches_head hdc).trans (Heap.reaches_head hec))
    · exact hmem _ ((Heap.reaches_tail hdc).trans (Heap.reaches_tail hxc))
    · exact hmem _ ((Heap.reaches_tail hdc).trans (Heap.reaches_head hxc))
    · exact hargl
  have hg4 : c1.Grows [envA, formsA, bodyA, param, arg] c4 [param, arg] :=
    linkRoot3_grows hrel1.inv hrel1.nilSafe hun1 (by decide) (by decide) hl
  have hr4 : c4.rootsHead = [applyBody, applyForms, applyNewEnv] ++ c1.rootsHead := rfl
  have hcells4 : ∀ cell, c4.cells cell = if cell = applyBody then bodyA else if cell = applyForms then formsA
      else if cell = applyNewEnv then envA else c1.cells cell := fun cell => by
    simp only [hc4, Collector.linkRoot_cells, setRoot, Function.update_apply]
  have hc4b : c4.cells applyBody = bodyA := rfl
  have hc4f : c4.cells applyForms = formsA := rfl
  have hc4e : c4.cells applyNewEnv = envA := rfl
  have hrel4 : c4.HoldsStacks K S := hrel1.grow hg4 (by simp [hr4, hrel1.operand]) (by simp [hr4, hrel1.cont])
    (by rw [hcells4]; rfl) (by rw [hcells4]; rfl)
  have h5 := mapCons_grows hmalloc hg4.inv hg4.nilSafe (show applyNewEnv ∈ c4.rootsHead by simp [hr4]) (by decide)
    ⟨hun1.not_mem _ hr4 le_rfl (by decide) (by decide), hun1.not_mem _ hr4 (by decide) (by decide) (by decide)⟩
    (hg4.listed param (by simp)) (hg4.listed arg (by simp))
  refine Refines.bind h5.1 fun c5 e5 => ?_
  obtain ⟨hg5, hr5, hcls5, htl5, hecls5, hkey5, hval5, hcells5⟩ := h5.2 c5 e5
  have hr5' : c5.rootsHead = [applyBody, applyForms, applyNewEnv] ++ c1.rootsHead := hr5.trans hr4
  have hcells15 : ∀ cell, cell ≠ applyNewEnv → cell ≠ consFrame.head → cell ≠ consFrame.tail →
      c5.cells cell = c4.cells cell := hcells5
  have h6 := createCons_grows hmalloc hg5.inv hg5.nilSafe (hg5.inv.roots applyForms (by simp [hr5']))
    (hg5.inv.roots applyNewEnv (by simp [hr5']))
    ⟨hun1.not_mem _ hr5' le_rfl (by decide) (by decide), hun1.not_mem _ hr5' (by decide) (by decide) (by decide)⟩
  refine Refines.bind h6.1 fun ⟨c6, newEnvs⟩ e6 => ?_
  obtain ⟨hg6, hr6, hcells6, hcls6, hh6, ht6⟩ := h6.2 c6 newEnvs e6
  have hr6' : c6.rootsHead = [applyBody, applyForms, applyNewEnv] ++ c1.rootsHead := hr6.trans hr5'
  have hcells46 : ∀ cell, cell ≠ applyNewEnv → cell ≠ consFrame.head → cell ≠ consFrame.tail →
      c6.cells cell = c4.cells cell := fun cell h1 h2 h3 => by
    rw [hcells6, Function.update_noteq h3, Function.update_noteq h2, hcells5 cell h1 h2 h3]
  have hg15 := hg4.trans hg5
  have hg16 := hg15.trans hg6.forget_locals
  have hrel6 : c6.HoldsStacks K S := hrel1.grow hg16 (by simp [hr6', hrel1.operand]) (by simp [hr6', hrel1.cont])
    ((hcells46 _ (by decide) (by decide) (by decide)).trans (by rw [hcells4]; rfl))
    ((hcells46 _ (by decide) (by decide) (by decide)).trans (by rw [hcells4]; rfl))
  have hne5 : c5.heap.EnvRepr (.bind p va env) (c5.cells applyNewEnv) := by
    refine Heap.envRepr_bind.2 ⟨hcls5, ⟨hecls5, ?_, ?_⟩, ?_⟩
    · rw [hkey5]; exact (hg15.keeps.agree (.of_mem (by simp))).repr hp
    · rw [hval5]; exact (hg15.keeps.agree (.of_mem (by simp))).valueRepr hva1
    · rw [htl5, hc4e]; exact (hg15.keeps.agree (.of_mem (by simp))).envRepr henv
  have henvs6 : c6.heap.EnvsRepr forms (.bind p va env) newEnvs := by
    refine ⟨hcls6, ?_, ?_⟩
    · rw [hh6, hcells15 _ (by decide) (by decide) (by decide), hc4f]
      exact (hg16.keeps.agree (.of_mem (by simp))).formsRepr hforms
    · rw [ht6]; exact (hg6.keeps.agree (.of_root (by simp [hr5']))).envRepr hne5
  have hbody6 : c6.heap.Repr body (c6.cells applyBody) := by
    rw [hcells46 _ (by decide) (by decide) (by decide), hc4b]
    exact (hg16.keeps.agree (.of_mem (by simp))).repr hbody
  refine pushEval_holds (P := (Refines _ · _)) (fun _ => .allocFails) hmalloc hrel6 ⟨hun1.not_mem _ hr6' le_rfl (by decide) (by decide),
      hun1.not_mem _ hr6' (by decide) (by decide) (by decide), hun1.not_mem _ hr6' (by decide) (by decide) (by decide)⟩
    henvs6 hbody6 (hg6.listed newEnvs (by simp)) (hrel6.inv.roots _ (by simp [hr6']))
    fun c9 hrel9 hg9 hr9 hcells9 => ?_
  have hr9' : c9.rootsHead = [applyBody, applyForms, applyNewEnv] ++ c1.rootsHead := hr9.trans hr6'
  rw [popRoot3_bind hr9']
  have hu := unroot_grows hrel9.inv hrel9.nilSafe hr9' hrel1.nilSafe.bottom (L := []) (by simp)
  have hmain : ∀ cell ∈ c1.rootsHead, cell ≠ contStack → c9.cells cell = c1.cells cell := fun cell hc hne => by
    rw [hcells9 cell (by simp [hr6', hc]) hne, hcells46 cell (hun1.ne_of_mem hc (by decide) (by decide))
      (hun1.ne_of_mem hc le_rfl (by decide)) (hun1.ne_of_mem hc (by decide) (by decide)), hcells4,
      if_neg (hun1.ne_of_mem hc (by decide) (by decide)), if_neg (hun1.ne_of_mem hc (by decide) (by decide)),
      if_neg (hun1.ne_of_mem hc (by decide) (by decide))]
  exact .ok ⟨hrel9.grow hu hrel1.operand hrel1.cont rfl rfl, hun1, rfl⟩
    (((hg16.trans (hg9.narrow (by simp))).trans hu).keepsMain rfl fun cell hc _ => hmain cell hc)

theorem applyValue_refines (hmalloc : malloc.Fresh) (hrel : c.HoldsStacks K S) (hun : c.LocalsUnrooted) {vf : Value}
    {fn : Addr} (hv : c.heap.ValueRepr vf fn) (hfl : fn ∈ c.heapHead) (n : Nat) :
    Refines c (apply malloc (n + 1) ⟨c, O⟩ fn) (AState.applyValue ⟨K, S, O⟩ vf) := by
  cases vf with
  | printAtom =>
    simp only [apply, hv.1, hv.2, ne_eq, not_true_eq_false, if_false]
    exact printAtom_refines hmalloc hrel hun
  | closure forms env x =>
    obtain ⟨hc, ha, hd⟩ := Heap.valueRepr_closure.1 hv
    simp only [apply, hc, ha, ne_eq, not_true_eq_false, if_false]
    exact funApplyFunction_refines hmalloc hrel hun hd (reaches_mem hrel.inv.closed hfl (Heap.reaches_data hc))
  | expr e =>
    have hc : c.heap.cls fn ≠ .function := by cases e <;> (rw [hv.1]; decide)
    simp only [apply, hc, ne_eq, not_false_eq_true, if_true, AState.applyValue]
    exact .error
  | nil =>
    have hc : c.heap.cls fn ≠ .function := by rw [show fn = nilValue from hv, hrel.nilCls]; decide
    simp only [apply, hc, ne_eq, not_false_eq_true, if_true, AState.applyValue]
    exact .error

end apply

end GclProofs
