import GclProofs.Trampoline
import GclProofs.Session
import GclProofs.Budget

/-!
Every run of `main` refines the run of `main`'s loop at the level of values, unless an
allocation fails.
-/

namespace GclProofs

open Collector

namespace Collector

variable {c c' : Collector}

structure MainEnvs (c : Collector) : Prop where
  root : mainEnvs ∈ c.rootsHead
  repr : c.heap.EnvsRepr mainFormsList mainEnvValue (c.cells mainEnvs)

theorem MainEnvs.keeps (h : c.MainEnvs) (hk : c.KeepsCells mainCells c') : c'.MainEnvs :=
  have ⟨hr, he, ha⟩ := hk mainEnvs (by simp [mainCells]) h.root
  ⟨hr, he ▸ ha.envsRepr h.repr⟩

theorem HoldsStacks.linkMain {K : List Cont} {S : List Value} (h : c.HoldsStacks K S) {cell : Cell}
    (hmain : cell ∈ mainCells) (hcell : cell ∉ c.rootsHead) {v : Addr} (hv : v ∈ c.heapHead) :
    ((setRoot c cell v).linkRoot cell).HoldsStacks K S ∧ c.Grows [v] ((setRoot c cell v).linkRoot cell) [] := by
  have hg := linkRoot_grows h.inv h.nilSafe hcell (ne_of_mem_mainCells hmain (by decide)) hv (L := []) (by simp)
  exact ⟨h.grow hg (List.mem_cons_of_mem _ h.operand) (List.mem_cons_of_mem _ h.cont)
    (Function.update_noteq (ne_of_mem_mainCells hmain (by decide)).symm _ _)
    (Function.update_noteq (ne_of_mem_mainCells hmain (by decide)).symm _ _), hg⟩

theorem LocalsUnrooted.linkRoot (hun : c.LocalsUnrooted) {cell : Cell} (h : mapConsValue < cell) (v : Addr) :
    ((setRoot c cell v).linkRoot cell).LocalsUnrooted := by
  rintro cell' (_ | ⟨_, hc⟩)
  · exact .inr h
  · exact hun cell' hc

end Collector

def AllocOr {α : Type} (P : α → Prop) : Except Fault α → Prop
  | .error f => f.IsAllocFailure
  | .ok a => P a

inductive IfOk {α : Type} (P : α → Prop) : Except Fault α → Prop
  | error (f : Fault) : IfOk P (.error f)
  | ok {a : α} : P a → IfOk P (.ok a)

theorem ifOk_of {α : Type} {P : α → Prop} {r : Except Fault α} (h : ∀ a, r = .ok a → P a) : IfOk P r := by
  cases r with
  | error f => exact .error f
  | ok a => exact .ok (h a rfl)

section init

variable {malloc : Malloc} {c : Collector} {K : List Cont} {S : List Value}

theorem initGlobals_holds (heap : Heap) (cells : Cell → Addr) {c : Collector}
    (h : initGlobals malloc (Collector.initial heap cells) = .ok c) :
    c.HoldsStacks [] [] ∧ c.rootsHead = [contStack, operandStack, nilRoot] := by
  have hinv := heapInv_initial heap cells h
  have hs := nilSafe_initial heap cells h
  obtain rfl := initGlobals_eq_ok h
  exact ⟨⟨hinv, hs, by simp [Collector.linkObject], by simp, by simp,
    by simp [Heap.ListRepr, Collector.linkObject, Collector.initial, operandStack, contStack],
    by simp [Heap.ListRepr, Collector.linkObject, Collector.initial]⟩, rfl⟩

theorem mapConsSFuncNil_holds {β : Type} {P : Except Fault β → Prop} (hfail : ∀ f, f.IsAllocFailure → P (.error f))
    (hmalloc : malloc.Fresh) (hrel : c.HoldsStacks K S) (hun : c.LocalsUnrooted) {map : Cell}
    (hmap : map ∈ c.rootsHead) (hmain : map ∈ mainCells) (key : String) (fn : ApplyFunc)
    {k : Collector → Except Fault β}
    (hk : ∀ c', c'.HoldsStacks K S → c.Grows [] c' [] → c'.rootsHead = c.rootsHead →
      (∀ cell ∈ c.rootsHead, cell ≠ map → c'.cells cell = c.cells cell) →
      c'.heap.cls (c'.cells map) = .cons → c'.heap.tail (c'.cells map) = c.cells map →
      c'.heap.EntryRepr (fun fn x => c'.heap.cls x = .function ∧ c'.heap.apply x = fn) (key, fn)
        (c'.heap.head (c'.cells map)) → P (k c')) :
    P (mapConsSFuncNil malloc c key fn map >>= k) := by
  have hinv := hrel.inv
  have hs := hrel.nilSafe
  simp only [mapConsSFuncNil, mapConsS, bind_assoc]
  have h1 := createFunction_grows hmalloc hinv hs (hinv.reachable_mem hs.reachable) (hun.own (by decide) (by decide)) fn
  refine bind_of_allocFailure hfail h1.1 fun ⟨c1, func⟩ e1 => ?_
  obtain ⟨hg1, hr1, hcells1, hcls1, hap1, -⟩ := h1.2 c1 func e1
  dsimp only
  refine bind_pushRoot (P := P) (hfail _ (.inl rfl)) ?_
  set c2 := (setRoot c1 mapConsValue func).linkRoot mapConsValue with hc2
  have hg2 : c1.Grows [func] c2 [] := linkRoot_grows hg1.inv hg1.nilSafe (hr1 ▸ hun.own (by decide) le_rfl)
    (by decide) (hg1.listed func (by simp)) (by simp)
  have h3 := createAtom_grows hmalloc hg2.inv hg2.nilSafe key
  refine bind_of_allocFailure hfail h3.1 fun ⟨c3, atom⟩ e3 => ?_
  obtain ⟨hg3, hr3, hcells3, hcls3, hch3⟩ := h3.2 c3 atom e3
  have hr3' : c3.rootsHead = mapConsValue :: c.rootsHead := hr3.trans (congrArg (mapConsValue :: ·) hr1)
  dsimp only
  rw [popRoot_bind hr3']
  have hu := unroot_grows hg3.inv hg3.nilSafe (show c3.rootsHead = [mapConsValue] ++ c.rootsHead from hr3')
    hs.bottom (show ∀ l ∈ [atom], l ∈ c3.heapHead by simpa using hg3.listed atom (by simp))
  have hsame : ∀ cell ∈ c.rootsHead, c3.cells cell = c.cells cell := fun cell hc => by
    rw [hcells3, hc2]
    simp only [Collector.linkRoot_cells, setRoot]
    rw [Function.update_noteq (hun.ne_of_mem hc (by decide) le_rfl), hcells1,
      Function.update_noteq (hun.ne_of_mem hc (by decide) (by decide))]
  have hfunc : c3.cells mapConsValue = func := by rw [hcells3, hc2]; simp [setRoot]
  have h5 := mapCons_grows hmalloc hu.inv hu.nilSafe (show map ∈ c.rootsHead from hmap)
    (ne_of_mem_mainCells hmain (by decide)) ⟨hun.own le_rfl (by decide), hun.own (by decide) (by decide)⟩
    (hu.listed atom (by simp)) (hu.listed (c3.cells mapConsValue) (by simp))
  refine bind_of_allocFailure hfail h5.1 fun c5 e5 => ?_
  obtain ⟨hg5, hr5, hcls5, htl5, hecls5, hkey5, hval5, hcells5⟩ := h5.2 c5 e5
  have hg15 : c1.Grows [func] c5 [] := ((hg2.trans hg3).trans hu).trans (hg5.narrow (by simp))
  have hfa := (hg15.keeps.agree (.of_mem (List.mem_singleton_self func))).fields
  have hsame5 : ∀ cell ∈ c.rootsHead, cell ≠ map → c5.cells cell = c.cells cell := fun cell hc hne => by
    rw [hcells5 cell hne (hun.ne_of_mem hc le_rfl (by decide)) (hun.ne_of_mem hc (by decide) (by decide))]
    exact hsame cell hc
  have hg : c.Grows [] c5 [] := (hg1.trans hg15).forget_locals
  refine hk c5 (hrel.grow hg (hr5 ▸ hrel.operand) (hr5 ▸ hrel.cont)
      (hsame5 _ hrel.operand (ne_of_mem_mainCells hmain (by decide)).symm)
      (hsame5 _ hrel.cont (ne_of_mem_mainCells hmain (by decide)).symm))
    hg hr5 hsame5 hcls5 (htl5.trans (hsame map hmap))
    ⟨hecls5, hkey5 ▸ (hg5.keeps.agree (.of_mem (by simp))).repr ⟨hcls3, hch3⟩, ?_, ?_⟩
  · rw [hval5]; exact hfunc ▸ hfa.1.trans hcls1
  · rw [hval5]; exact hfunc ▸ hfa.2.2.2.2.2.trans hap1

theorem mainInit_holds (hmalloc : malloc.Fresh) (heap : Heap) (cells : Cell → Addr) :
    AllocOr (fun c => MachineRel ⟨c, []⟩ ⟨[], [], []⟩ ∧ c.MainEnvs) (mainInit malloc (Collector.initial heap cells)) := by
  simp only [mainInit]
  cases h0 : initGlobals malloc (Collector.initial heap cells) with
  | error f => exact .inl (initGlobals_eq_error h0)
  | ok c0 =>
  obtain ⟨hrel0, hr0⟩ := initGlobals_holds heap cells h0
  rw [ok_bind]
  refine bind_pushRoot (P := AllocOr _) (.inl rfl) ?_
  obtain ⟨hrel1, hg1⟩ := hrel0.linkMain (show mainForms ∈ mainCells by decide) (by rw [hr0]; decide)
    (hrel0.inv.reachable_mem hrel0.nilSafe.reachable)
  have hr1 : ((setRoot c0 mainForms nilValue).linkRoot mainForms).rootsHead =
      [mainForms, contStack, operandStack, nilRoot] :=
    congrArg (mainForms :: ·) hr0
  refine mapConsSFuncNil_holds (P := AllocOr _) (fun _ h => h) hmalloc hrel1 (by rw [LocalsUnrooted, hr1]; decide)
    (by rw [hr1]; decide) (by decide) "quote" .quoteFunction fun c2 hrel2 hg2 hr2 hcells2 hcls2 htl2 hent2 => ?_
  have hf2 : c2.heap.FormsRepr [("quote", .quote)] (c2.cells mainForms) := ⟨hcls2, hent2, htl2.trans (by simp [setRoot])⟩
  rw [hr1] at hr2
  refine mapConsSFuncNil_holds (P := AllocOr _) (fun _ h => h) hmalloc hrel2 (by rw [LocalsUnrooted, hr2]; decide)
    (by rw [hr2]; decide) (by decide) "fun" .funFunction fun c3 hrel3 hg3 hr3 hcells3 hcls3 htl3 hent3 => ?_
  have hf3 : c3.heap.FormsRepr mainFormsList (c3.cells mainForms) :=
    ⟨hcls3, hent3, htl3 ▸ (hg3.keeps.agree (.of_root (by rw [hr2]; decide))).formsRepr hf2⟩
  rw [hr2] at hr3
  refine bind_pushRoot (P := AllocOr _) (.inl rfl) ?_
  obtain ⟨hrel4, hg4⟩ := hrel3.linkMain (show mainEnv ∈ mainCells by decide) (by rw [hr3]; decide)
    (hrel3.inv.reachable_mem hrel3.nilSafe.reachable)
  have hr4 : ((setRoot c3 mainEnv nilValue).linkRoot mainEnv).rootsHead =
      [mainEnv, mainForms, contStack, operandStack, nilRoot] := congrArg (mainEnv :: ·) hr3
  refine mapConsSFuncNil_holds (P := AllocOr _) (fun _ h => h) hmalloc hrel4 (by rw [LocalsUnrooted, hr4]; decide)
    (by rw [hr4]; decide) (by decide) "print_atom" .printAtom fun c5 hrel5 hg5 hr5 hcells5 hcls5 htl5 hent5 => ?_
  rw [hr4] at hr5
  have he5 : c5.heap.EnvRepr mainEnvValue (c5.cells mainEnv) :=
    Heap.envRepr_bind.2 ⟨hcls5, hent5, htl5.trans (by simp [setRoot])⟩
  have hforms5 : mainForms ∈ c5.rootsHead := by rw [hr5]; decide
  have hf5 : c5.heap.FormsRepr mainFormsList (c5.cells mainForms) := by
    rw [hcells5 mainForms (by rw [hr4]; decide) (by decide)]
    exact ((hg4.trans hg5).keeps.agree (.of_root (by rw [hr3]; decide))).formsRepr hf3
  have henv5 : mainEnv ∈ c5.rootsHead := by rw [hr5]; decide
  have h6 := createCons_grows hmalloc hrel5.inv hrel5.nilSafe (hrel5.inv.roots _ hforms5) (hrel5.inv.roots _ henv5)
    (by rw [hr5]; decide)
  refine bind_of_allocFailure (P := AllocOr _) (fun _ h => h) h6.1 fun ⟨c6, o⟩ e6 => ?_
  obtain ⟨hg6, hr6, hcells6, hcls6, hh6, ht6⟩ := h6.2 c6 o e6
  rw [hr5] at hr6
  have hrel6 : c6.HoldsStacks [] [] := hrel5.grow hg6 (by rw [hr6]; decide) (by rw [hr6]; decide)
    (by rw [hcells6]; rfl) (by rw [hcells6]; rfl)
  obtain ⟨hrel7, -⟩ := hrel6.linkMain (show mainEnvs ∈ mainCells by decide) (by rw [hr6]; decide) (hg6.listed o (by simp))
  unfold pushRoot
  split
  · exact .inl rfl
  refine ⟨⟨hrel7, (show c6.LocalsUnrooted by rw [LocalsUnrooted, hr6]; decide).linkRoot (by decide) o, rfl⟩,
    List.mem_cons_self _ _, ?_⟩
  show c6.heap.EnvsRepr _ _ (Function.update c6.cells mainEnvs o mainEnvs)
  rw [Function.update_same]
  exact ⟨hcls6, hh6 ▸ (hg6.keeps.agree (.of_root hforms5)).formsRepr hf5,
    ht6 ▸ (hg6.keeps.agree (.of_root henv5)).envRepr he5⟩

end init

namespace Tracked

variable {c0 c : Collector} {N : List Addr}

theorem agree (ht : Tracked c0 c N) {cell : Cell} (hc : cell ∈ c0.rootsHead) : c0.heap.Agree c.heap (c0.cells cell) :=
  fun y hy => ht.frame y fun hyN => ht.fresh y hyN ⟨cell, hc, hy⟩

theorem keepsCells (ht : Tracked c0 c N) (hr : c.rootsHead = c0.rootsHead)
    (hcells : ∀ cell ∈ c0.rootsHead, c.cells cell = c0.cells cell) (cells : List Cell) : c0.KeepsCells cells c :=
  fun cell _ hc => ⟨hr ▸ hc, hcells cell hc, ht.agree hc⟩

end Tracked

theorem Collector.LocalsUnrooted.parseFrame_valid {c : Collector} (hun : c.LocalsUnrooted) : parseFrame.Valid c := by
  have hb : ∀ cell ∈ [parseFrame.parent, parseFrame.expr, parseFrame.cons.head, parseFrame.cons.tail],
      consFrame.head ≤ cell ∧ cell ≤ mapConsValue := by decide
  exact ⟨by decide, fun cell hc => hun.own (hb cell hc).1 (hb cell hc).2⟩

structure MainRel (s : MainState) (t : AMain) : Prop where
  machine : MachineRel s.m t.a
  envs : s.m.col.MainEnvs
  tokens : s.tokens = t.tokens
  pc : s.pc = t.pc

inductive MainRefines : Except Fault MainState → Except Fault AMain → Prop
  | allocFails {f : Fault} {r : Except Fault AMain} : f.IsAllocFailure → MainRefines (.error f) r
  | error {f : Fault} : MainRefines (.error f) (.error f)
  | ok {s : MainState} {t : AMain} : MainRel s t → MainRefines (.ok s) (.ok t)

section loop

variable {malloc : Malloc} {m : Machine} {a : AState} {tokens : List Token}

theorem mainStep_parse (hmalloc : malloc.Fresh) (hm : MachineRel m a) (henvs : m.col.MainEnvs) :
    MainRefines (mainStep malloc ⟨m, tokens, .parse⟩) (AMain.step ⟨a, tokens, .parse⟩) := by
  obtain ⟨c, O⟩ := m
  have hfr := hm.unrooted.parseFrame_valid
  have hrun := parseRun_refines hmalloc hfr hm.holds.nilSafe (2 * tokens.length + 1)
    (parseRel_init hfr hm.holds.inv hm.holds.nilSafe tokens)
  simp only [mainStep, AMain.step, parse, bind_assoc]
  refine bind_pushRoot (P := (MainRefines · _)) (.allocFails (.inl rfl)) ?_
  rcases hrun with ⟨f, h1, hf⟩ | ⟨f, h1, h2⟩ | ⟨s', a', h1, h2, hrel⟩
  · rw [h1]; exact .allocFails hf
  · rw [h1, h2]; exact .error
  obtain ⟨e, hp, hpc, -⟩ := readRun_sound le_rfl h2
  obtain ⟨pending, rest, pc⟩ := a'
  simp only at hp hpc
  subst hp hpc
  have hres := hrel.result
  simp only [h1, h2, ok_bind, hres.pc]
  have hrel1 : s'.col.HoldsStacks a.conts a.stack := hm.holds.transfer hres.inv hres.nilSafe
    (fun _ hc => hres.tracked.agree hc) (hres.roots ▸ hm.holds.operand) (hres.roots ▸ hm.holds.cont)
    (hrel.cells _ hm.holds.operand) (hrel.cells _ hm.holds.cont)
  have henvs1 := henvs.keeps (hres.tracked.keepsCells hres.roots hrel.cells mainCells)
  refine pushEval_holds (P := (MainRefines · _)) (fun _ => .allocFails) hmalloc hrel1
    (by rw [hres.roots]; exact ⟨hm.unrooted.own le_rfl (by decide), hm.unrooted.own (by decide) (by decide),
      hm.unrooted.own (by decide) (by decide)⟩)
    henvs1.repr hres.repr (hres.inv.roots _ henvs1.root) (hres.tracked.listed _ (Heap.self_mem_nodes _ _ _))
    fun c' hh hg hr hcells => .ok ⟨⟨hh, fun cell hc => hm.unrooted cell (hres.roots ▸ hr ▸ hc), hm.out⟩,
      henvs1.keeps (hg.keepsMain hr fun cell hc _ hne => hcells cell hc hne), hrel.tokens, rfl⟩

theorem mainStep_run (hmalloc : malloc.Fresh) (hm : MachineRel m a) (henvs : m.col.MainEnvs) :
    MainRefines (mainStep malloc ⟨m, tokens, .run⟩) (AMain.step ⟨a, tokens, .run⟩) := by
  rcases trampolineStep_refines hmalloc hm with ⟨ha, hstep⟩ | ⟨r, r', ha, hstep, hr⟩
  · obtain ⟨K, S, O⟩ := a
    obtain rfl : K = [] := AState.conts_of_step_none ha
    simp only [mainStep, AMain.step, hstep, ha]
    rcases S with _ | ⟨v, S⟩
    · rw [hm.holds.pop_empty]; exact .error
    · obtain ⟨hpop, hrel, -, -⟩ := hm.holds.pop
      rw [hpop]
      exact .ok ⟨⟨hrel, hm.unrooted, hm.out⟩, henvs.keeps (keepsMain_setRoot (by decide) _), rfl, rfl⟩
  · simp only [mainStep, AMain.step, hstep, ha]
    cases hr with
    | allocFails hf => exact .allocFails hf
    | error => exact .error
    | ok hrel hk => exact .ok ⟨hrel, henvs.keeps hk, rfl, rfl⟩

theorem mainStep_refines (hmalloc : malloc.Fresh) {s : MainState} {t : AMain} (h : MainRel s t) :
    MainRefines (mainStep malloc s) t.step := by
  obtain ⟨m, _, pc⟩ := s
  obtain ⟨a, _, _⟩ := t
  obtain ⟨hm, henvs, rfl, rfl⟩ := h
  cases pc with
  | parse => exact mainStep_parse hmalloc hm henvs
  | run => exact mainStep_run hmalloc hm henvs

theorem mainRun_refines (hmalloc : malloc.Fresh) :
    ∀ (n : Nat) {s : MainState} {t : AMain}, MainRel s t → MainRefines (mainRun malloc n s) (t.run n)
  | 0, _, _, h => .ok h
  | n + 1, s, t, h => by
    have hs := mainStep_refines hmalloc h
    simp only [mainRun, AMain.run]
    generalize mainStep malloc s = r at hs ⊢
    generalize t.step = r' at hs ⊢
    cases hs with
    | allocFails hf => exact .allocFails hf
    | error => exact .error
    | ok h' => exact mainRun_refines hmalloc n h'

theorem main_refines (hmalloc : malloc.Fresh) (heap : Heap) (cells : Cell → Addr) (tokens : List Token) (n : Nat) :
    MainRefines (main malloc heap cells tokens n) ((AMain.start tokens).run n) := by
  have hi := mainInit_holds hmalloc heap cells
  unfold main
  cases h : mainInit malloc (Collector.initial heap cells) with
  | error f => rw [h] at hi; exact .allocFails hi
  | ok c => rw [h] at hi; exact mainRun_refines hmalloc n ⟨hi.1, hi.2, rfl, rfl⟩

theorem main_error (hmalloc : malloc.Fresh) {heap : Heap} {cells : Cell → Addr} {n : Nat} {f : Fault}
    (h : main malloc heap cells tokens n = .error f) :
    f.IsAllocFailure ∨ ∃ msg ∈ syntaxErrors ++ evalErrors, f = .error msg := by
  have hr := main_refines hmalloc heap cells tokens n
  rw [h] at hr
  generalize hrun : (AMain.start tokens).run n = r at hr
  cases hr with
  | allocFails hf => exact .inl hf
  | error =>
    obtain ⟨_, _, hm, hs⟩ := AMain.run_error hrun
    exact .inr (AMain.session_of_run hm hs).error_mem

theorem main_heapInv (hmalloc : malloc.Fresh) (heap : Heap) (cells : Cell → Addr) (tokens : List Token) (n : Nat) :
    IfOk (fun s => s.m.col.HeapInv ∧ s.m.col.NilSafe ∧ ∃ r, gc s.m.col = .ok r) (main malloc heap cells tokens n) ∧
      main malloc heap cells tokens n ≠ .error .abort ∧ main malloc heap cells tokens n ≠ .error .outOfFuel := by
  refine ⟨ifOk_of fun s hs => ?_, fun h => ?_, fun h => ?_⟩
  · have hr := main_refines hmalloc heap cells tokens n
    rw [hs] at hr
    generalize (AMain.start tokens).run n = r at hr
    cases hr with
    | ok hrel =>
      have hh := hrel.machine.holds
      exact ⟨hh.inv, hh.nilSafe, gc_ok_of_nilSafe hh.inv hh.nilSafe⟩
  all_goals
    rcases main_error hmalloc h with hf | ⟨_, -, hf⟩
    · exact absurd hf (by decide)
    · cases hf

theorem main_heapInv_sample :
    IfOk (fun s => s.m.col.HeapInv ∧ s.m.col.NilSafe ∧ ∃ r, gc s.m.col = .ok r)
        (main bumpMalloc zeroHeap (fun _ => 0) helloTokens 20) ∧
      main bumpMalloc zeroHeap (fun _ => 0) helloTokens 20 ≠ .error .abort ∧
      main bumpMalloc zeroHeap (fun _ => 0) helloTokens 20 ≠ .error .outOfFuel :=
  main_heapInv bumpMalloc_fresh zeroHeap (fun _ => 0) helloTokens 20

theorem main_at_parse (hmalloc : malloc.Fresh) (heap : Heap) (cells : Cell → Addr) (tokens : List Token) (n : Nat) :
    IfOk (fun s => s.pc = .parse → s.m.col.cells operandStack = nilValue ∧ s.m.col.cells contStack = nilValue ∧
      Evaluated tokens s.m.out s.tokens) (main malloc heap cells tokens n) := by
  refine ifOk_of fun s hs hpc => ?_
  have hr := main_refines hmalloc heap cells tokens n
  rw [hs] at hr
  generalize hrun : (AMain.start tokens).run n = r at hr
  cases hr with
  | @ok _ t hrel =>
    obtain ⟨hk, hsk, he⟩ := (AMain.run_inv (AMain.inv_start tokens) hrun).parse (hrel.pc ▸ hpc)
    have hh := hrel.machine.holds
    rw [hk, hsk] at hh
    exact ⟨hh.stack, hh.conts, hrel.machine.out ▸ hrel.tokens ▸ he⟩

theorem main_at_parse_sample :
    IfOk (fun s => s.pc = .parse → s.m.col.cells operandStack = nilValue ∧ s.m.col.cells contStack = nilValue ∧
      Evaluated helloTokens s.m.out s.tokens) (main bumpMalloc zeroHeap (fun _ => 0) helloTokens 20) :=
  main_at_parse bumpMalloc_fresh zeroHeap (fun _ => 0) helloTokens 20

end loop

end GclProofs
