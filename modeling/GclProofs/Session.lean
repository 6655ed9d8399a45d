import GclProofs.Interp
import GclProofs.Semantics

/-!
`main`'s loop at the level of values, and the semantics of a token stream it carries out.
-/

namespace GclProofs

def mainFormsList : List (String × Form) := [("fun", .fun), ("quote", .quote)]

def mainEnvValue : Env := .bind "print_atom" .printAtom .empty

structure AMain where
  a : AState
  tokens : List Token
  pc : MainPc
  deriving DecidableEq, Repr

namespace AMain

def start (tokens : List Token) : AMain := ⟨⟨[], [], []⟩, tokens, .parse⟩

def step (t : AMain) : Except Fault AMain :=
  match t.pc with
  | .parse => do
    let r ← readRun (2 * t.tokens.length + 1) ⟨[], t.tokens, .loop⟩
    let .returned e := r.pc | throw .outOfFuel
    pure ⟨{ t.a with conts := .eval mainFormsList mainEnvValue e :: t.a.conts }, r.tokens, .run⟩
  | .run =>
    match t.a.step with
    | none =>
      match t.a.stack with
      | [] => throw (.error "pop: stack underflow")
      | _ :: stack => pure ⟨{ t.a with stack := stack }, t.tokens, .parse⟩
    | some r => do
      let a ← r
      pure ⟨a, t.tokens, .run⟩

def run : Nat → AMain → Except Fault AMain
  | 0, t => pure t
  | n + 1, t => t.step >>= run n

theorem run_add (m n : Nat) (t : AMain) : run (m + n) t = run m t >>= run n := by
  induction m generalizing t with
  | zero => simp [run, bind, Except.bind, pure, Except.pure]
  | succ m ih =>
    rw [Nat.succ_add, run, run]
    cases t.step with
    | error e => rfl
    | ok t' => exact ih t'

theorem run_trans {m n : Nat} {t t' : AMain} {r : Except Fault AMain} (h1 : run m t = .ok t') (h2 : run n t' = r) :
    run (m + n) t = r := by
  rw [run_add, h1]; exact h2

theorem run_one {t t' : AMain} (h : t.step = .ok t') : run 1 t = .ok t' := by
  simp only [run, h]; rfl

theorem run_error {n : Nat} {t : AMain} {f : Fault} (h : run n t = .error f) :
    ∃ m t', run m t = .ok t' ∧ t'.step = .error f := by
  induction n generalizing t with
  | zero => cases h
  | succ n ih =>
    rcases bind_eq_error h with h | ⟨t', ht', h⟩
    · exact ⟨0, t, rfl, h⟩
    · obtain ⟨m, t'', h1, h2⟩ := ih h
      exact ⟨1 + m, t'', run_trans (run_one ht') h1, h2⟩

theorem step_read (a : AState) (e : Expr) (rest : List Token) :
    step ⟨a, e.tokens ++ rest, .parse⟩ =
      .ok ⟨{ a with conts := .eval mainFormsList mainEnvValue e :: a.conts }, rest, .run⟩ := by
  have hn : e.steps + 1 ≤ 2 * (e.tokens ++ rest).length + 1 := by
    have := e.steps_le
    simp only [List.length_append]
    omega
  simp only [step, readRun_expr_of_le e rest hn]
  rfl

theorem run_machine {n : Nat} {a a' : AState} (h : a.run n = .ok a') (ts : List Token) :
    ∃ m, run m ⟨a, ts, .run⟩ = .ok ⟨a', ts, .run⟩ := by
  induction n generalizing a with
  | zero => cases h; exact ⟨0, rfl⟩
  | succ n ih =>
    cases ha : a.step with
    | none => rw [AState.run_of_step_none ha] at h; cases h; exact ⟨0, rfl⟩
    | some r =>
      rcases r with g | b
      · simp only [AState.run, ha] at h
        cases h
      · have hr : a.run (n + 1) = b.run n := by simp only [AState.run, ha]; rfl
        obtain ⟨m, hm⟩ := ih (hr ▸ h)
        exact ⟨1 + m, run_trans (run_one (by simp only [step, ha]; rfl)) hm⟩

theorem run_machine_error {n : Nat} {a : AState} {f : Fault} (h : a.run n = .error f) (ts : List Token) :
    run n ⟨a, ts, .run⟩ = .error f := by
  induction n generalizing a with
  | zero => cases h
  | succ n ih =>
    cases ha : a.step with
    | none => rw [AState.run_of_step_none ha] at h; cases h
    | some r =>
      rcases r with g | b
      · simp only [AState.run, ha] at h
        cases h
        simp only [run, step, ha]; rfl
      · have hr : a.run (n + 1) = b.run n := by simp only [AState.run, ha]; rfl
        simp only [run, step, ha]
        exact ih (hr ▸ h)

end AMain

inductive Evaluated (ts : List Token) : List String → List Token → Prop
  | nil : Evaluated ts [] ts
  | next {o o' : List String} {e : Expr} {rest : List Token} {v : Value} :
      Evaluated ts o (e.tokens ++ rest) → BigStep (.eval mainFormsList mainEnvValue e) o' (.ok v) →
      Evaluated ts (o ++ o') rest

inductive Session : List Token → List String → Fault → Prop
  | parseFails {ts : List Token} {f : Fault} : readRun (2 * ts.length + 1) ⟨[], ts, .loop⟩ = .error f →
      Session ts [] f
  | evalFails {e : Expr} {rest : List Token} {o : List String} {f : Fault} :
      BigStep (.eval mainFormsList mainEnvValue e) o (.error f) → Session (e.tokens ++ rest) o f
  | next {e : Expr} {rest : List Token} {o o' : List String} {v : Value} {f : Fault} :
      BigStep (.eval mainFormsList mainEnvValue e) o (.ok v) → Session rest o' f → Session (e.tokens ++ rest) (o ++ o') f

def syntaxErrors : List String := ["Syntax error: expected symbol or '('", "Syntax error: pair: missing ')'"]

def evalErrors : List String :=
  ["eval: no such binding", "apply: not a function", "print_atom: argument is not an atom", "cons expected",
    "fun: param should be an atom"]

theorem BigStep.error_mem {t : Task} {o : List String} {f : Fault} (h : BigStep t o (.error f)) :
    ∃ msg ∈ evalErrors, f = .error msg := by
  generalize hr : Except.error f = r at h
  induction h generalizing f with
  | bound | quote | «fun» | print => cases hr
  | unbound | printNotAtom | closureParam | closureNotPair | notFunction => cases hr; simp [evalErrors]
  | argFails _ _ ih | funFails _ _ _ _ ih | app _ _ _ _ _ _ ih | closure _ ih => exact ih hr

theorem Session.error_mem {ts : List Token} {o : List String} {f : Fault} (h : Session ts o f) :
    ∃ msg ∈ syntaxErrors ++ evalErrors, f = .error msg := by
  induction h with
  | parseFails hr => rcases readRun_error hr with rfl | rfl <;> simp [syntaxErrors]
  | evalFails hb =>
    obtain ⟨msg, hm, rfl⟩ := hb.error_mem
    exact ⟨msg, List.mem_append_right _ hm, rfl⟩
  | next _ _ ih => exact ih

theorem Evaluated.session {ts rest : List Token} {o o' : List String} {f : Fault} (h : Evaluated ts o rest)
    (hs : Session rest o' f) : Session ts (o ++ o') f := by
  induction h generalizing o' with
  | nil => exact hs
  | next _ hb ih => rw [List.append_assoc]; exact ih (.next hb hs)

theorem Session.deterministic {ts : List Token} {o o' : List String} {f f' : Fault} (h : Session ts o f)
    (h' : Session ts o' f') : o = o' ∧ f = f' := by
  have hread : ∀ (e : Expr) rest g, readRun (2 * (e.tokens ++ rest).length + 1) ⟨[], e.tokens ++ rest, .loop⟩ ≠ .error g :=
    fun e rest g hg => by
      rw [readRun_expr_of_le e rest (by have := e.steps_le; simp only [List.length_append]; omega)] at hg
      cases hg
  induction h generalizing o' f' with
  | parseFails hr =>
    cases h' with
    | parseFails hr' => rw [hr] at hr'; cases hr'; exact ⟨rfl, rfl⟩
    | evalFails | next => exact absurd hr (hread _ _ _)
  | @evalFails e rest o f hb =>
    generalize hts : e.tokens ++ rest = ts at h'
    cases h' with
    | parseFails hr' => subst hts; exact absurd hr' (hread _ _ _)
    | evalFails hb' =>
      obtain ⟨rfl, rfl⟩ := Expr.tokens_append_inj hts
      obtain ⟨rfl, he⟩ := BigStep.deterministic hb hb'
      cases he
      exact ⟨rfl, rfl⟩
    | next hb' =>
      obtain ⟨rfl, rfl⟩ := Expr.tokens_append_inj hts
      cases (BigStep.deterministic hb hb').2
  | @next e rest o o2 v f hb _ ih =>
    generalize hts : e.tokens ++ rest = ts at h'
    cases h' with
    | parseFails hr' => subst hts; exact absurd hr' (hread _ _ _)
    | evalFails hb' =>
      obtain ⟨rfl, rfl⟩ := Expr.tokens_append_inj hts
      cases (BigStep.deterministic hb hb').2
    | next hb' hs' =>
      obtain ⟨rfl, rfl⟩ := Expr.tokens_append_inj hts
      obtain ⟨rfl, -⟩ := BigStep.deterministic hb hb'
      obtain ⟨rfl, rfl⟩ := ih hs'
      exact ⟨rfl, rfl⟩

namespace AMain

def Inv (ts : List Token) (t : AMain) : Prop :=
  match t.pc with
  | .parse => t.a.conts = [] ∧ t.a.stack = [] ∧ Evaluated ts t.a.out t.tokens
  | .run => ∃ o e n, Evaluated ts o (e.tokens ++ t.tokens) ∧
      AState.run n ⟨[.eval mainFormsList mainEnvValue e], [], o⟩ = .ok t.a

variable {ts : List Token} {t t' : AMain} {f : Fault}

theorem inv_start (ts : List Token) : Inv ts (start ts) := ⟨rfl, rfl, .nil⟩

theorem Inv.parse (hi : Inv ts t) (hpc : t.pc = .parse) :
    t.a.conts = [] ∧ t.a.stack = [] ∧ Evaluated ts t.a.out t.tokens := by
  unfold Inv at hi
  rw [hpc] at hi
  exact hi

theorem step_inv (hi : Inv ts t) (h : t.step = .ok t') : Inv ts t' := by
  obtain ⟨a, tokens, pc⟩ := t
  cases pc with
  | parse =>
    obtain ⟨hk, hs, he⟩ := hi
    obtain ⟨K, S, O⟩ := a
    simp only at hk hs he
    subst hk hs
    simp only [step] at h
    obtain ⟨r, hr, h⟩ := bind_eq_ok h
    obtain ⟨e, -, hpc, ht⟩ := readRun_sound le_rfl hr
    simp only [hpc] at h
    cases h
    exact ⟨O, e, 0, ht ▸ he, rfl⟩
  | run =>
    obtain ⟨o, e, n, he, hrun⟩ := hi
    cases ha : a.step with
    | none =>
      obtain ⟨o', v, hb, rfl⟩ := AState.bigStep_of_run hrun (AState.conts_of_step_none ha)
      simp only [step, ha] at h
      cases h
      exact ⟨rfl, rfl, .next he hb⟩
    | some r =>
      simp only [step, ha] at h
      obtain ⟨a', hr, h⟩ := bind_eq_ok h
      cases h
      exact ⟨o, e, n + 1, he, AState.run_trans hrun (AState.run_one_of_step (hr ▸ ha))⟩

theorem run_inv {n : Nat} (hi : Inv ts t) (h : run n t = .ok t') : Inv ts t' := by
  induction n generalizing t with
  | zero => cases h; exact hi
  | succ n ih =>
    obtain ⟨t1, h1, h⟩ := bind_eq_ok h
    exact ih (step_inv hi h1) h

theorem session_of_step_error (hi : Inv ts t) (h : t.step = .error f) : Session ts t.a.out f := by
  obtain ⟨a, tokens, pc⟩ := t
  cases pc with
  | parse =>
    obtain ⟨-, -, he⟩ := hi
    simp only [step] at h
    rcases bind_eq_error h with hr | ⟨r, hr, h⟩
    · simpa using he.session (.parseFails hr)
    · obtain ⟨e, -, hpc, -⟩ := readRun_sound le_rfl hr
      simp only [hpc] at h
      cases h
  | run =>
    obtain ⟨o, e, n, he, hrun⟩ := hi
    cases ha : a.step with
    | none =>
      obtain ⟨o', v, hb, rfl⟩ := AState.bigStep_of_run hrun (AState.conts_of_step_none ha)
      simp only [step, ha] at h
      cases h
    | some r =>
      simp only [step, ha] at h
      rcases bind_eq_error h with rfl | ⟨a', -, h⟩
      · obtain ⟨o', hc, ho⟩ := AState.bigConts_of_run_step_error hrun ha
        rcases hc with _ | ⟨-, hc⟩ | hb
        · cases hc
        · rw [ho]
          exact he.session (.evalFails hb)
      · cases h

theorem run_of_session {o : List String} (h : Session ts o f) (O : List String) :
    ∃ n, run n ⟨⟨[], [], O⟩, ts, .parse⟩ = .error f := by
  induction h generalizing O with
  | parseFails hr => exact ⟨1, by simp only [run, step, hr]; rfl⟩
  | evalFails hb =>
    obtain ⟨n, hn⟩ := AState.run_of_bigStep hb [] [] O
    exact ⟨1 + n, run_trans (run_one (step_read _ _ _)) (run_machine_error hn _)⟩
  | @next e rest o o' v f hb _ ih =>
    obtain ⟨n, hn⟩ := AState.run_of_bigStep hb [] [] O
    obtain ⟨m, hm⟩ := run_machine hn rest
    obtain ⟨k, hk⟩ := ih (O ++ o)
    exact ⟨1 + m + 1 + k, run_trans (run_trans (run_trans (run_one (step_read _ _ _)) hm) (run_one rfl)) hk⟩

theorem session_of_run {n : Nat} (hr : (start ts).run n = .ok t) (hs : t.step = .error f) :
    Session ts t.a.out f :=
  session_of_step_error (run_inv (inv_start ts) hr) hs

theorem stop_of_session {o : List String} (h : Session ts o f) :
    ∃ n t, (start ts).run n = .ok t ∧ t.a.out = o ∧ t.step = .error f := by
  obtain ⟨n, hn⟩ := run_of_session h []
  obtain ⟨m, t, hr, hs⟩ := run_error hn
  exact ⟨m, t, hr, (Session.deterministic (session_of_run hr hs) h).1, hs⟩

theorem session_iff (ts : List Token) (o : List String) (f : Fault) :
    Session ts o f ↔ ∃ n t, (start ts).run n = .ok t ∧ t.a.out = o ∧ t.step = .error f :=
  ⟨stop_of_session, fun ⟨_, _, hr, ho, hs⟩ => ho ▸ session_of_run hr hs⟩

end AMain

def helloTokens : List Token :=
  [.lparen, .symbol "print_atom", .lparen, .symbol "quote", .symbol "hello", .rparen, .rparen]

example : Session helloTokens ["hello"] (.error "Syntax error: expected symbol or '('") :=
  show Session ((Expr.pair (.symbol "print_atom") (.pair (.symbol "quote") (.symbol "hello"))).tokens ++ [])
    ([] ++ [] ++ ["hello"] ++ []) _ from .next (.app rfl (.quote rfl) (.bound rfl) .print) (.parseFails rfl)

end GclProofs
