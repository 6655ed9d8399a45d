import GclProofs.Builtins

/-!
`main`'s inner loop refines the run of the abstract machine.
-/

namespace GclProofs

open Collector

variable {malloc : Malloc}

theorem trampolineStep_refines (hmalloc : malloc.Fresh) {m : Machine} {a : AState} (h : MachineRel m a) :
    (a.step = none ∧ trampolineStep malloc m = none) ∨
      ∃ r r', a.step = some r ∧ trampolineStep malloc m = some r' ∧ Refines m.col r' r := by
  obtain ⟨c, O⟩ := m
  obtain ⟨K, S, O'⟩ := a
  obtain ⟨hrel, hun, rfl⟩ := h
  rcases K with _ | ⟨k, K⟩
  · exact .inl ⟨rfl, by simp [trampolineStep, hrel.popCont_empty]⟩
  obtain ⟨hpc, hrel1, hk, hkl⟩ := hrel.popCont
  set c1 := setRoot c contStack (c.heap.tail (c.cells contStack))
  set fn := c.heap.head (c.cells contStack)
  have hne : fn ≠ 0 := fun e => hrel.inv.nonzero (e ▸ hkl)
  have hstep : trampolineStep malloc ⟨c, O⟩ = some (apply malloc applyDepth ⟨c1, O⟩ fn) := by
    simp only [trampolineStep, hpc, hne, if_false]
  have hkeep : c.KeepsCells mainCells c1 := keepsMain_setRoot (by decide) _
  have hk1 : c1.heap.ContRepr k fn := hk
  have hun1 : c1.LocalsUnrooted := hun
  cases k with
  | eval forms env e =>
    refine .inr ⟨_, _, rfl, hstep, Refines.start hkeep ?_⟩
    obtain ⟨hc, ha, hd⟩ := hk1
    simp only [applyDepth, apply, hc, ha, ne_eq, not_true_eq_false, if_false]
    exact eval_refines hmalloc hrel1 hun1 hd (reaches_mem hrel.inv.closed hkl (Heap.reaches_data hc)) 0
  | popApply =>
    refine .inr ⟨_, _, rfl, hstep, Refines.start hkeep ?_⟩
    obtain ⟨hc, ha⟩ := hk1
    simp only [applyDepth, apply, hc, ha, ne_eq, not_true_eq_false, if_false, popApply]
    rcases S with _ | ⟨vf, S⟩
    · simp only [hrel1.pop_empty, error_bind]
      exact .error
    obtain ⟨hpop, hrel2, hv, hvl⟩ := hrel1.pop
    simp only [hpop, ok_bind]
    exact Refines.start (keepsMain_setRoot (by decide) _) (applyValue_refines hmalloc hrel2 hun1 hv hvl 0)

theorem trampolineRun_refines (hmalloc : malloc.Fresh) :
    ∀ (n : Nat) {m : Machine} {a : AState}, MachineRel m a → Refines m.col (trampolineRun malloc n m) (a.run n)
  | 0, _, _, h => .ok h (.refl _ _)
  | n + 1, m, a, h => by
    rcases trampolineStep_refines hmalloc h with ⟨ha, hm⟩ | ⟨r, r', ha, hm, hr⟩
    · simp only [trampolineRun, hm, AState.run, ha]
      exact .ok h (.refl _ _)
    simp only [trampolineRun, hm, AState.run, ha]
    cases hr with
    | allocFails hf => exact .allocFails hf
    | error => exact .error
    | ok hrel hk => exact Refines.start hk (trampolineRun_refines hmalloc n hrel)

end GclProofs
