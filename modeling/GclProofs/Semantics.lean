import GclProofs.Reader

/-!
The language `gcl.c` interprets: the big-step semantics read off `eval` and the builtins, and
the machine that `main`'s trampoline runs.
-/

namespace GclProofs

inductive Form where
  | quote
  | fun
  deriving DecidableEq, Repr

mutual

inductive Value where
  | expr (e : Expr)
  | nil
  | printAtom
  | closure (forms : List (String × Form)) (env : Env) (x : Expr)
  deriving DecidableEq, Repr

inductive Env where
  | empty
  | bind (name : String) (value : Value) (rest : Env)
  deriving DecidableEq, Repr

end

def Env.toList : Env → List (String × Value)
  | .empty => []
  | .bind name v rest => (name, v) :: rest.toList

def Env.lookup (t : String) (env : Env) : Option Value := env.toList.lookup t

def formOf (forms : List (String × Form)) : Expr → Option Form
  | .symbol t => forms.lookup t
  | .pair _ _ => none

def Value.applyAlone : Value → Fault
  | .printAtom | .closure _ _ _ => .error "pop: stack underflow"
  | .expr _ | .nil => .error "apply: not a function"

inductive Cont where
  | eval (forms : List (String × Form)) (env : Env) (e : Expr)
  | popApply
  deriving DecidableEq, Repr

structure AState where
  conts : List Cont
  stack : List Value
  out : List String
  deriving DecidableEq, Repr

namespace AState

def applyValue (a : AState) : Value → Except Fault AState
  | .printAtom =>
    match a.stack with
    | [] => throw (.error "pop: stack underflow")
    | .expr (.symbol t) :: stack => pure ⟨a.conts, .nil :: stack, a.out ++ [t]⟩
    | _ :: _ => throw (.error "print_atom: argument is not an atom")
  | .closure forms env x =>
    match a.stack with
    | [] => throw (.error "pop: stack underflow")
    | arg :: stack =>
      match x with
      | .symbol _ => throw (.error "cons expected")
      | .pair (.pair _ _) _ => throw (.error "fun: param should be an atom")
      | .pair (.symbol param) body => pure ⟨.eval forms (.bind param arg env) body :: a.conts, stack, a.out⟩
  | .expr _ | .nil => throw (.error "apply: not a function")

def evalExpr (a : AState) (forms : List (String × Form)) (env : Env) : Expr → Except Fault AState
  | .symbol t =>
    match env.lookup t with
    | none => throw (.error "eval: no such binding")
    | some v => pure { a with stack := v :: a.stack }
  | .pair f x =>
    match formOf forms f with
    | some .quote => pure { a with stack := .expr x :: a.stack }
    | some .fun => pure { a with stack := .closure forms env x :: a.stack }
    | none => pure { a with conts := .eval forms env x :: .eval forms env f :: .popApply :: a.conts }

def step (a : AState) : Option (Except Fault AState) :=
  match a.conts with
  | [] => none
  | .eval forms env e :: conts => some (evalExpr ⟨conts, a.stack, a.out⟩ forms env e)
  | .popApply :: conts =>
    some (match a.stack with
      | [] => throw (.error "pop: stack underflow")
      | f :: stack => applyValue ⟨conts, stack, a.out⟩ f)

def run : Nat → AState → Except Fault AState
  | 0, a => pure a
  | n + 1, a =>
    match a.step with
    | none => pure a
    | some r => r >>= run n

theorem run_of_step_none {a : AState} (h : a.step = none) (n : Nat) : run n a = pure a := by
  cases n <;> simp [run, h]

theorem conts_of_step_none {a : AState} (h : a.step = none) : a.conts = [] := by
  obtain ⟨_ | ⟨_ | _, _⟩, _, _⟩ := a <;> first | rfl | cases h

theorem run_add (m n : Nat) (a : AState) : run (m + n) a = run m a >>= run n := by
  induction m generalizing a with
  | zero => simp [run, bind, Except.bind, pure, Except.pure]
  | succ m ih =>
    rw [Nat.succ_add, run, run]
    cases h : a.step with
    | none => exact (run_of_step_none h n).symm
    | some r =>
      cases r with
      | error e => rfl
      | ok a' => exact ih a'

theorem run_add_of_ok {m : Nat} {a b : AState} (h : run m a = .ok b) (n : Nat) : run (m + n) a = run n b := by
  rw [run_add, h]; rfl

end AState

inductive Task where
  | eval (forms : List (String × Form)) (env : Env) (e : Expr)
  | apply (vf va : Value)

inductive BigStep : Task → List String → Except Fault Value → Prop
  | bound {forms env t v} : env.lookup t = some v → BigStep (.eval forms env (.symbol t)) [] (.ok v)
  | unbound {forms env t} : env.lookup t = none →
      BigStep (.eval forms env (.symbol t)) [] (.error (.error "eval: no such binding"))
  | quote {forms env f x} : formOf forms f = some .quote → BigStep (.eval forms env (.pair f x)) [] (.ok (.expr x))
  | fun {forms env f x} : formOf forms f = some .fun →
      BigStep (.eval forms env (.pair f x)) [] (.ok (.closure forms env x))
  | argFails {forms env f x o e} : formOf forms f = none → BigStep (.eval forms env x) o (.error e) →
      BigStep (.eval forms env (.pair f x)) o (.error e)
  | funFails {forms env f x o1 o2 va e} : formOf forms f = none → BigStep (.eval forms env x) o1 (.ok va) →
      BigStep (.eval forms env f) o2 (.error e) → BigStep (.eval forms env (.pair f x)) (o1 ++ o2) (.error e)
  | app {forms env f x o1 o2 o3 va vf r} : formOf forms f = none → BigStep (.eval forms env x) o1 (.ok va) →
      BigStep (.eval forms env f) o2 (.ok vf) → BigStep (.apply vf va) o3 r →
      BigStep (.eval forms env (.pair f x)) (o1 ++ o2 ++ o3) r
  | print {t} : BigStep (.apply .printAtom (.expr (.symbol t))) [t] (.ok .nil)
  | printNotAtom {va} : (∀ t, va ≠ .expr (.symbol t)) →
      BigStep (.apply .printAtom va) [] (.error (.error "print_atom: argument is not an atom"))
  | closure {forms env param body va o r} : BigStep (.eval forms (.bind param va env) body) o r →
      BigStep (.apply (.closure forms env (.pair (.symbol param) body)) va) o r
  | closureParam {forms env a b body va} :
      BigStep (.apply (.closure forms env (.pair (.pair a b) body)) va) []
        (.error (.error "fun: param should be an atom"))
  | closureNotPair {forms env t va} :
      BigStep (.apply (.closure forms env (.symbol t)) va) [] (.error (.error "cons expected"))
  | notFunction {vf va} : (vf = .nil ∨ ∃ e, vf = .expr e) →
      BigStep (.apply vf va) [] (.error (.error "apply: not a function"))

theorem BigStep.deterministic {t : Task} {o o' : List String} {r r' : Except Fault Value} (h : BigStep t o r)
    (h' : BigStep t o' r') : o = o' ∧ r = r' := by
  induction h generalizing o' r' with
  | bound hl =>
    cases h' with
    | bound hl' => rw [hl] at hl'; cases hl'; exact ⟨rfl, rfl⟩
    | unbound hl' => rw [hl] at hl'; cases hl'
  | unbound hl =>
    cases h' with
    | bound hl' => rw [hl] at hl'; cases hl'
    | unbound => exact ⟨rfl, rfl⟩
  | quote hf =>
    cases h' with
    | quote => exact ⟨rfl, rfl⟩
    | «fun» hf' | argFails hf' | funFails hf' | app hf' => rw [hf] at hf'; cases hf'
  | «fun» hf =>
    cases h' with
    | «fun» => exact ⟨rfl, rfl⟩
    | quote hf' | argFails hf' | funFails hf' | app hf' => rw [hf] at hf'; cases hf'
  | argFails hf _ ihx =>
    cases h' with
    | quote hf' | «fun» hf' => rw [hf] at hf'; cases hf'
    | argFails _ hx' => exact ihx hx'
    | funFails _ hx' | app _ hx' => cases (ihx hx').2
  | funFails hf _ _ ihx ihf =>
    cases h' with
    | quote hf' | «fun» hf' => rw [hf] at hf'; cases hf'
    | argFails _ hx' => cases (ihx hx').2
    | funFails _ hx' hf' =>
      obtain ⟨rfl, ⟨⟩⟩ := ihx hx'
      obtain ⟨rfl, he⟩ := ihf hf'
      exact ⟨rfl, he⟩
    | app _ hx' hf' =>
      obtain ⟨rfl, ⟨⟩⟩ := ihx hx'
      cases (ihf hf').2
  | app hf _ _ _ ihx ihf iha =>
    cases h' with
    | quote hf' | «fun» hf' => rw [hf] at hf'; cases hf'
    | argFails _ hx' => cases (ihx hx').2
    | funFails _ hx' hf' =>
      obtain ⟨rfl, ⟨⟩⟩ := ihx hx'
      cases (ihf hf').2
    | app _ hx' hf' ha' =>
      obtain ⟨rfl, ⟨⟩⟩ := ihx hx'
      obtain ⟨rfl, ⟨⟩⟩ := ihf hf'
      obtain ⟨rfl, he⟩ := iha ha'
      exact ⟨rfl, he⟩
  | print =>
    cases h' with
    | print => exact ⟨rfl, rfl⟩
    | printNotAtom h => exact absurd rfl (h _)
    | notFunction h => rcases h with h | ⟨_, h⟩ <;> cases h
  | printNotAtom h =>
    cases h' with
    | print => exact absurd rfl (h _)
    | printNotAtom => exact ⟨rfl, rfl⟩
    | notFunction h => rcases h with h | ⟨_, h⟩ <;> cases h
  | closure _ ih =>
    cases h' with
    | closure h' => exact ih h'
    | notFunction h => rcases h with h | ⟨_, h⟩ <;> cases h
  | closureParam | closureNotPair =>
    cases h' with
    | notFunction h => rcases h with h | ⟨_, h⟩ <;> cases h
    | _ => exact ⟨rfl, rfl⟩
  | notFunction h =>
    cases h' with
    | notFunction => exact ⟨rfl, rfl⟩
    | _ => rcases h with h | ⟨_, h⟩ <;> cases h

inductive BigConts : List Cont → List Value → List String → Except Fault (List Value) → Prop
  | nil {S} : BigConts [] S [] (.ok S)
  | eval {forms env e o1 o2 v K S r} : BigStep (.eval forms env e) o1 (.ok v) → BigConts K (v :: S) o2 r →
      BigConts (.eval forms env e :: K) S (o1 ++ o2) r
  | evalFails {forms env e o f K S} : BigStep (.eval forms env e) o (.error f) →
      BigConts (.eval forms env e :: K) S o (.error f)
  | apply {vf va o1 o2 v K S r} : BigStep (.apply vf va) o1 (.ok v) → BigConts K (v :: S) o2 r →
      BigConts (.popApply :: K) (vf :: va :: S) (o1 ++ o2) r
  | applyFails {vf va o f K S} : BigStep (.apply vf va) o (.error f) →
      BigConts (.popApply :: K) (vf :: va :: S) o (.error f)
  | popEmpty {K} : BigConts (.popApply :: K) [] [] (.error (.error "pop: stack underflow"))
  | popOne {vf K} : BigConts (.popApply :: K) [vf] [] (.error vf.applyAlone)

def Task.start (K : List Cont) (S : List Value) (O : List String) : Task → AState
  | .eval forms env e => ⟨.eval forms env e :: K, S, O⟩
  | .apply vf va => ⟨.popApply :: K, vf :: va :: S, O⟩

namespace AState

def returns (K : List Cont) (S : List Value) (O o : List String) (r : Except Fault Value) : Except Fault AState :=
  r.map fun v => ⟨K, v :: S, O ++ o⟩

theorem run_trans {m n : Nat} {a b : AState} {r : Except Fault AState} (h1 : run m a = .ok b) (h2 : run n b = r) :
    run (m + n) a = r :=
  (run_add_of_ok h1 n).trans h2

theorem run_one_of_step {a : AState} {r : Except Fault AState} (h : a.step = some r) : run 1 a = r := by
  simp only [run, h]
  cases r <;> rfl

theorem run_app {forms : List (String × Form)} {env : Env} {f x : Expr} (h : formOf forms f = none)
    (K : List Cont) (S : List Value) (O : List String) :
    run 1 ⟨.eval forms env (.pair f x) :: K, S, O⟩ =
      .ok ⟨.eval forms env x :: .eval forms env f :: .popApply :: K, S, O⟩ :=
  run_one_of_step (by simp [step, evalExpr, h]; rfl)

theorem run_of_bigStep {t : Task} {o : List String} {r : Except Fault Value} (h : BigStep t o r)
    (K : List Cont) (S : List Value) (O : List String) : ∃ n, run n (t.start K S O) = returns K S O o r := by
  induction h generalizing K S O with
  | bound h => exact ⟨1, run_one_of_step (by simp [Task.start, step, evalExpr, h, returns, Except.map]; rfl)⟩
  | unbound h => exact ⟨1, run_one_of_step (by simp [Task.start, step, evalExpr, h]; rfl)⟩
  | quote h => exact ⟨1, run_one_of_step (by simp [Task.start, step, evalExpr, h, returns, Except.map]; rfl)⟩
  | «fun» h => exact ⟨1, run_one_of_step (by simp [Task.start, step, evalExpr, h, returns, Except.map]; rfl)⟩
  | argFails h _ ihx =>
    obtain ⟨n, hn⟩ := ihx (.eval _ _ _ :: .popApply :: K) S O
    exact ⟨1 + n, run_trans (run_app h K S O) hn⟩
  | funFails h _ _ ihx ihf =>
    obtain ⟨n1, h1⟩ := ihx (.eval _ _ _ :: .popApply :: K) S O
    obtain ⟨n2, h2⟩ := ihf (.popApply :: K) _ (O ++ _)
    exact ⟨1 + n1 + n2, run_trans (run_trans (run_app h K S O) h1) h2⟩
  | app h _ _ _ ihx ihf iha =>
    obtain ⟨n1, h1⟩ := ihx (.eval _ _ _ :: .popApply :: K) S O
    obtain ⟨n2, h2⟩ := ihf (.popApply :: K) _ (O ++ _)
    obtain ⟨n3, h3⟩ := iha K S (O ++ _ ++ _)
    exact ⟨1 + n1 + n2 + n3, (run_trans (run_trans (run_trans (run_app h K S O) h1) h2) h3).trans
      (by simp only [returns, List.append_assoc])⟩
  | print => exact ⟨1, run_one_of_step rfl⟩
  | @printNotAtom va h =>
    refine ⟨1, run_one_of_step ?_⟩
    rcases va with (_ | _) | _ | _ | _
    · exact absurd rfl (h _)
    all_goals rfl
  | closure _ ih =>
    obtain ⟨n, hn⟩ := ih K S O
    exact ⟨1 + n, run_trans (run_one_of_step rfl) hn⟩
  | closureParam => exact ⟨1, run_one_of_step rfl⟩
  | closureNotPair => exact ⟨1, run_one_of_step rfl⟩
  | notFunction h =>
    refine ⟨1, run_one_of_step ?_⟩
    rcases h with rfl | ⟨e, rfl⟩ <;> rfl

theorem step_eq_ok {a a' : AState} (h : a.step = some (.ok a')) :
    (∃ forms env t v K, a.conts = .eval forms env (.symbol t) :: K ∧ env.lookup t = some v ∧
      a' = ⟨K, v :: a.stack, a.out⟩) ∨
    (∃ forms env f x K, a.conts = .eval forms env (.pair f x) :: K ∧ formOf forms f = some .quote ∧
      a' = ⟨K, .expr x :: a.stack, a.out⟩) ∨
    (∃ forms env f x K, a.conts = .eval forms env (.pair f x) :: K ∧ formOf forms f = some .fun ∧
      a' = ⟨K, .closure forms env x :: a.stack, a.out⟩) ∨
    (∃ forms env f x K, a.conts = .eval forms env (.pair f x) :: K ∧ formOf forms f = none ∧
      a' = ⟨.eval forms env x :: .eval forms env f :: .popApply :: K, a.stack, a.out⟩) ∨
    (∃ t S K, a.conts = .popApply :: K ∧ a.stack = .printAtom :: .expr (.symbol t) :: S ∧
      a' = ⟨K, .nil :: S, a.out ++ [t]⟩) ∨
    (∃ forms env param body va S K, a.conts = .popApply :: K ∧
      a.stack = .closure forms env (.pair (.symbol param) body) :: va :: S ∧
      a' = ⟨.eval forms (.bind param va env) body :: K, S, a.out⟩) := by
  obtain ⟨conts, S, O⟩ := a
  rcases conts with _ | ⟨_ | _, K⟩
  · cases h
  · rename_i forms env e
    rcases e with t | ⟨f, x⟩
    · cases hl : env.lookup t with
      | none => simp [step, evalExpr, hl] at h
      | some v =>
        simp [step, evalExpr, hl, pure, Except.pure] at h
        exact .inl ⟨_, _, _, _, _, rfl, hl, h.symm⟩
    · rcases hf : formOf forms f with _ | _ | _ <;>
        simp [step, evalExpr, hf, pure, Except.pure] at h
      · exact .inr (.inr (.inr (.inl ⟨_, _, _, _, _, rfl, hf, h.symm⟩)))
      · exact .inr (.inl ⟨_, _, _, _, _, rfl, hf, h.symm⟩)
      · exact .inr (.inr (.inl ⟨_, _, _, _, _, rfl, hf, h.symm⟩))
  · rcases S with _ | ⟨vf, _ | ⟨va, S⟩⟩
    · cases h
    · cases vf <;> cases h
    · cases vf with
      | printAtom =>
        rcases va with (t | _) | _ | _ | _ <;> simp [step, applyValue, pure, Except.pure] at h
        exact .inr (.inr (.inr (.inr (.inl ⟨_, _, _, rfl, rfl, h.symm⟩))))
      | closure forms env x =>
        rcases x with _ | ⟨_ | _, body⟩ <;> simp [step, applyValue, pure, Except.pure] at h
        exact .inr (.inr (.inr (.inr (.inr ⟨_, _, _, _, _, _, _, rfl, rfl, h.symm⟩))))
      | expr => cases h
      | nil => cases h

theorem bigConts_of_step {a a' : AState} (h : a.step = some (.ok a')) {o : List String}
    {r : Except Fault (List Value)} (hc : BigConts a'.conts a'.stack o r) :
    ∃ d, a'.out = a.out ++ d ∧ BigConts a.conts a.stack (d ++ o) r := by
  rcases step_eq_ok h with ⟨forms, env, t, v, K, hk, hl, rfl⟩ | ⟨forms, env, f, x, K, hk, hf, rfl⟩ |
    ⟨forms, env, f, x, K, hk, hf, rfl⟩ | ⟨forms, env, f, x, K, hk, hf, rfl⟩ | ⟨t, S, K, hk, hs, rfl⟩ |
    ⟨forms, env, param, body, va, S, K, hk, hs, rfl⟩ <;> rw [hk]
  · exact ⟨[], by simp, .eval (.bound hl) hc⟩
  · exact ⟨[], by simp, .eval (.quote hf) hc⟩
  · exact ⟨[], by simp, .eval (.fun hf) hc⟩
  · refine ⟨[], by simp, ?_⟩
    rw [List.nil_append]
    rcases hc with _ | ⟨hx, hc⟩ | hx
    · rcases hc with _ | ⟨hf', hc⟩ | hf'
      · rcases hc with _ | _ | _ | ⟨ha, hc⟩ | ha
        · simpa [List.append_assoc] using BigConts.eval (.app hf hx hf' ha) hc
        · simpa [List.append_assoc] using BigConts.evalFails (.app hf hx hf' ha)
      · exact .evalFails (.funFails hf hx hf')
    · exact .evalFails (.argFails hf hx)
  · rw [hs]
    exact ⟨[t], rfl, .apply .print hc⟩
  · rw [hs]
    refine ⟨[], by simp, ?_⟩
    rw [List.nil_append]
    rcases hc with _ | ⟨hb, hc⟩ | hb
    · exact .apply (.closure hb) hc
    · exact .applyFails (.closure hb)

theorem bigConts_of_step_error {a : AState} {f : Fault} (h : a.step = some (.error f)) :
    BigConts a.conts a.stack [] (.error f) := by
  obtain ⟨conts, S, O⟩ := a
  rcases conts with _ | ⟨_ | _, K⟩
  · cases h
  · rename_i forms env e
    rcases e with t | ⟨g, x⟩
    · cases hl : env.lookup t with
      | none => simp [step, evalExpr, hl] at h; cases h; exact .evalFails (.unbound hl)
      | some v => simp [step, evalExpr, hl, pure, Except.pure] at h
    · rcases hg : formOf forms g with _ | _ | _ <;> simp [step, evalExpr, hg, pure, Except.pure] at h
  · rcases S with _ | ⟨vf, _ | ⟨va, S⟩⟩
    · cases h; exact .popEmpty
    · cases vf <;> cases h <;> exact .popOne
    · cases vf with
      | expr e => cases h; exact .applyFails (.notFunction (.inr ⟨e, rfl⟩))
      | nil => cases h; exact .applyFails (.notFunction (.inl rfl))
      | printAtom =>
        rcases va with (_ | _) | _ | _ | _ <;> simp [step, applyValue, pure, Except.pure] at h <;> cases h <;>
          exact .applyFails (.printNotAtom fun _ h => by cases h)
      | closure forms env x =>
        rcases x with _ | ⟨_ | _, body⟩ <;> simp [step, applyValue, pure, Except.pure] at h <;> cases h
        · exact .applyFails .closureNotPair
        · exact .applyFails .closureParam

theorem bigConts_of_run (n : Nat) (a : AState) :
    (∀ a', run n a = .ok a' → a'.conts = [] → ∃ o, BigConts a.conts a.stack o (.ok a'.stack) ∧ a'.out = a.out ++ o) ∧
    (∀ f, run n a = .error f → ∃ o, BigConts a.conts a.stack o (.error f)) := by
  induction n generalizing a with
  | zero =>
    refine ⟨fun a' h hk => ?_, fun f h => by cases h⟩
    cases h
    exact ⟨[], by rw [hk]; exact .nil, by simp⟩
  | succ n ih =>
    cases hs : a.step with
    | none =>
      have hk := conts_of_step_none hs
      rw [run_of_step_none hs]
      exact ⟨fun a' h _ => (by cases h; exact ⟨[], by rw [hk]; exact .nil, by simp⟩), fun f h => by cases h⟩
    | some r =>
      rcases r with f | b
      · have hr : run (n + 1) a = .error f := by simp only [run, hs]; rfl
        rw [hr]
        exact ⟨fun a' h => (by cases h), fun f' h => by cases h; exact ⟨[], bigConts_of_step_error hs⟩⟩
      · have hr : run (n + 1) a = run n b := by simp only [run, hs]; rfl
        rw [hr]
        obtain ⟨ih1, ih2⟩ := ih b
        refine ⟨fun a' h hk => ?_, fun f h => ?_⟩
        · obtain ⟨o, hc, ho⟩ := ih1 a' h hk
          obtain ⟨d, hd, hc'⟩ := bigConts_of_step hs hc
          exact ⟨d ++ o, hc', by rw [ho, hd, List.append_assoc]⟩
        · obtain ⟨o, hc⟩ := ih2 f h
          obtain ⟨d, -, hc'⟩ := bigConts_of_step hs hc
          exact ⟨d ++ o, hc'⟩

theorem bigConts_of_run_step_error {n : Nat} {a b : AState} {f : Fault} (h : run n a = .ok b)
    (hs : b.step = some (.error f)) : ∃ o, BigConts a.conts a.stack o (.error f) ∧ b.out = a.out ++ o := by
  induction n generalizing a with
  | zero => cases h; exact ⟨[], bigConts_of_step_error hs, by simp⟩
  | succ n ih =>
    cases ha : a.step with
    | none =>
      rw [run_of_step_none ha] at h
      cases h
      rw [ha] at hs
      cases hs
    | some r =>
      rcases r with g | a'
      · simp only [run, ha] at h
        cases h
      · have hr : run (n + 1) a = run n a' := by simp only [run, ha]; rfl
        obtain ⟨o, hc, ho⟩ := ih (hr ▸ h)
        obtain ⟨d, hd, hc'⟩ := bigConts_of_step ha hc
        exact ⟨d ++ o, hc', by rw [ho, hd, List.append_assoc]⟩

theorem bigStep_of_run {forms : List (String × Form)} {env : Env} {e : Expr} {n : Nat} {S : List Value}
    {O : List String} {a : AState} (h : run n ⟨[.eval forms env e], S, O⟩ = .ok a) (hk : a.conts = []) :
    ∃ o v, BigStep (.eval forms env e) o (.ok v) ∧ a = ⟨[], v :: S, O ++ o⟩ := by
  obtain ⟨conts, stack, out⟩ := a
  obtain ⟨o, hc, ho⟩ := (bigConts_of_run n _).1 _ h hk
  rcases hc with _ | ⟨hb, hc⟩
  rcases hc
  cases hk
  exact ⟨_, _, hb, by simpa using ho⟩

end AState

end GclProofs
