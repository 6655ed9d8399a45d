import GclProofs.Objects

/-!
The grammar `parse` reads, `EXPR ::= SYMBOL | '(' EXPR EXPR ')'`, and a reader for it with the
control of `parse` and the open pairs on a stack.
-/

namespace GclProofs

inductive Token where
  | symbol (text : String)
  | lparen
  | rparen
  | other
  deriving DecidableEq, Repr

def nextToken : List Token → Token × List Token
  | [] => (.other, [])
  | t :: ts => (t, ts)

inductive Expr where
  | symbol (text : String)
  | pair (first second : Expr)
  deriving DecidableEq, Repr

def Expr.tokens : Expr → List Token
  | .symbol text => [.symbol text]
  | .pair a b => .lparen :: (a.tokens ++ b.tokens ++ [.rparen])

def Expr.steps : Expr → Nat
  | .symbol _ => 1
  | .pair a b => a.steps + b.steps + 3

theorem Expr.steps_le (e : Expr) : e.steps + 1 ≤ 2 * e.tokens.length := by
  induction e with
  | symbol => simp [steps, tokens]
  | pair a b iha ihb => simp only [steps, tokens, List.length_cons, List.length_append, List.length_singleton]; omega

theorem Expr.tokens_append_inj {e e' : Expr} {r r' : List Token} (h : e.tokens ++ r = e'.tokens ++ r') :
    e = e' ∧ r = r' := by
  induction e generalizing e' r r' with
  | symbol t =>
    cases e' with
    | symbol t' => simp_all [tokens]
    | pair => simp [tokens] at h
  | pair a b iha ihb =>
    cases e' with
    | symbol => simp [tokens] at h
    | pair a' b' =>
      simp only [tokens, List.cons_append, List.cons.injEq, true_and, List.append_assoc,
        List.singleton_append] at h
      obtain ⟨ha, h⟩ := iha h
      obtain ⟨hb, h⟩ := ihb h
      simp only [List.cons.injEq, true_and] at h
      exact ⟨ha ▸ hb ▸ rfl, h⟩

inductive ReadPc where
  | loop
  | attach (e : Expr)
  | returned (e : Expr)
  deriving DecidableEq, Repr

structure Reading where
  pending : List (Option Expr)
  tokens : List Token
  pc : ReadPc
  deriving DecidableEq, Repr

def readStep (a : Reading) : Except Fault Reading :=
  match a.pc, a.pending with
  | .loop, stk =>
    match nextToken a.tokens with
    | (.symbol text, ts) => pure ⟨stk, ts, .attach (.symbol text)⟩
    | (.lparen, ts) => pure ⟨none :: stk, ts, .loop⟩
    | _ => throw (.error "Syntax error: expected symbol or '('")
  | .attach e, [] => pure ⟨[], a.tokens, .returned e⟩
  | .attach e, none :: stk => pure ⟨some e :: stk, a.tokens, .loop⟩
  | .attach e, some first :: stk =>
    match nextToken a.tokens with
    | (.rparen, ts) => pure ⟨stk, ts, .attach (.pair first e)⟩
    | _ => throw (.error "Syntax error: pair: missing ')'")
  | .returned _, _ => pure a

def readRun : Nat → Reading → Except Fault Reading
  | 0, a => pure a
  | n + 1, a => readStep a >>= readRun n

theorem readRun_add (m n : Nat) (a : Reading) : readRun (m + n) a = readRun m a >>= readRun n := by
  induction m generalizing a with
  | zero => simp [readRun, bind, Except.bind, pure, Except.pure]
  | succ m ih =>
    rw [Nat.succ_add, readRun, readRun]
    cases readStep a with
    | error e => rfl
    | ok a' => exact ih a'

theorem readRun_add_of_ok {m : Nat} {a b : Reading} (h : readRun m a = .ok b) (n : Nat) :
    readRun (m + n) a = readRun n b := by
  rw [readRun_add, h]; rfl

theorem readRun_returned (n : Nat) {a : Reading} {e : Expr} (h : a.pc = .returned e) : readRun n a = .ok a := by
  induction n with
  | zero => rfl
  | succ n ih => simp only [readRun, readStep, h]; exact ih

theorem readRun_tokens (e : Expr) (stk : List (Option Expr)) (rest : List Token) :
    readRun e.steps ⟨stk, e.tokens ++ rest, .loop⟩ = .ok ⟨stk, rest, .attach e⟩ := by
  induction e generalizing stk rest with
  | symbol t => rfl
  | pair a b iha ihb =>
    have h : Expr.steps (.pair a b) = 1 + (a.steps + (1 + (b.steps + 1))) := by simp only [Expr.steps]; omega
    have ht : (Expr.pair a b).tokens ++ rest = .lparen :: (a.tokens ++ (b.tokens ++ .rparen :: rest)) := by
      simp [Expr.tokens]
    rw [h, ht, readRun_add_of_ok (by rfl), readRun_add_of_ok (iha _ _), readRun_add_of_ok (by rfl),
      readRun_add_of_ok (ihb _ _)]
    rfl

theorem readRun_expr (e : Expr) (rest : List Token) :
    readRun (e.steps + 1) ⟨[], e.tokens ++ rest, .loop⟩ = .ok ⟨[], rest, .returned e⟩ := by
  rw [readRun_add, readRun_tokens]; rfl

def Reading.pendingTokens : List (Option Expr) → List Token
  | [] => []
  | none :: stk => pendingTokens stk ++ [.lparen]
  | some a :: stk => pendingTokens stk ++ (.lparen :: a.tokens)

def ReadPc.tokens : ReadPc → List Token
  | .loop => []
  | .attach e | .returned e => e.tokens

def Reading.consumed (a : Reading) : List Token := Reading.pendingTokens a.pending ++ a.pc.tokens

def Reading.Inv (ts : List Token) (a : Reading) : Prop :=
  a.consumed ++ a.tokens = ts ∧ ∀ e, a.pc = .returned e → a.pending = []

theorem readStep_inv {ts : List Token} {a a' : Reading} (h : readStep a = .ok a') (hi : a.Inv ts) : a'.Inv ts := by
  obtain ⟨stk, rest, pc⟩ := a
  obtain ⟨hc, hr⟩ := hi
  cases pc with
  | loop =>
    cases rest with
    | nil => cases h
    | cons t rest =>
      cases t <;> simp only [readStep, nextToken] at h <;> cases h <;>
        simp_all [Reading.Inv, Reading.consumed, Reading.pendingTokens, ReadPc.tokens, Expr.tokens]
  | attach e =>
    cases stk with
    | nil => cases h; simp_all [Reading.Inv, Reading.consumed, ReadPc.tokens]
    | cons f stk =>
      cases f with
      | none => cases h; simp_all [Reading.Inv, Reading.consumed, Reading.pendingTokens, ReadPc.tokens]
      | some first =>
        cases rest with
        | nil => cases h
        | cons t rest =>
          cases t <;> simp only [readStep, nextToken] at h <;> cases h
          simp_all [Reading.Inv, Reading.consumed, Reading.pendingTokens, ReadPc.tokens, Expr.tokens]
  | returned e => cases h; exact ⟨hc, hr⟩

theorem readRun_inv {ts : List Token} (n : Nat) {a a' : Reading} (h : readRun n a = .ok a') (hi : a.Inv ts) :
    a'.Inv ts := by
  induction n generalizing a with
  | zero => cases h; exact hi
  | succ n ih =>
    obtain ⟨b, hb, h⟩ := bind_eq_ok h
    exact ih h (readStep_inv hb hi)

def Reading.potential (a : Reading) : Nat :=
  match a.pc with
  | .loop => 2 * a.tokens.length + 1
  | .attach _ => 2 * a.tokens.length + 2
  | .returned _ => 0

theorem readStep_potential {a a' : Reading} (h : readStep a = .ok a') (hpc : ∀ e, a.pc ≠ .returned e) :
    a'.potential < a.potential := by
  obtain ⟨stk, rest, pc⟩ := a
  cases pc with
  | loop =>
    cases rest with
    | nil => cases h
    | cons t rest =>
      cases t <;> simp only [readStep, nextToken] at h <;> cases h <;>
        simp [Reading.potential]; omega
  | attach e =>
    cases stk with
    | nil => cases h; simp [Reading.potential]
    | cons f stk =>
      cases f with
      | none => cases h; simp [Reading.potential]
      | some first =>
        cases rest with
        | nil => cases h
        | cons t rest =>
          cases t <;> simp only [readStep, nextToken] at h <;> cases h
          simp [Reading.potential]
  | returned e => exact absurd rfl (hpc e)

theorem readRun_done (n : Nat) {a a' : Reading} (hn : a.potential ≤ n) (h : readRun n a = .ok a') :
    ∃ e, a'.pc = .returned e := by
  induction n generalizing a with
  | zero =>
    cases h
    revert hn
    unfold Reading.potential
    split <;> simp_all
  | succ n ih =>
    by_cases hr : ∃ e, a.pc = .returned e
    · obtain ⟨e, he⟩ := hr
      rw [readRun_returned _ he] at h
      cases h
      exact ⟨e, he⟩
    · push_neg at hr
      obtain ⟨b, hb, h⟩ := bind_eq_ok h
      exact ih (by have := readStep_potential hb hr; omega) h

theorem readRun_expr_of_le (e : Expr) (rest : List Token) {n : Nat} (hn : e.steps + 1 ≤ n) :
    readRun n ⟨[], e.tokens ++ rest, .loop⟩ = .ok ⟨[], rest, .returned e⟩ := by
  obtain ⟨k, rfl⟩ := Nat.exists_eq_add_of_le hn
  rw [readRun_add_of_ok (readRun_expr e rest), readRun_returned k rfl]

theorem readRun_sound {ts : List Token} {n : Nat} (hn : 2 * ts.length + 1 ≤ n) {a : Reading}
    (h : readRun n ⟨[], ts, .loop⟩ = .ok a) :
    ∃ e, a.pending = [] ∧ a.pc = .returned e ∧ ts = e.tokens ++ a.tokens := by
  obtain ⟨e, he⟩ := readRun_done n (by simpa [Reading.potential] using hn) h
  obtain ⟨hc, hr⟩ := readRun_inv n h (show Reading.Inv ts _ from
    ⟨by simp [Reading.consumed, Reading.pendingTokens, ReadPc.tokens], fun _ h => by cases h⟩)
  refine ⟨e, hr e he, he, ?_⟩
  rw [← hc]
  simp [Reading.consumed, hr e he, he, Reading.pendingTokens, ReadPc.tokens]

theorem readStep_error {a : Reading} {f : Fault} (h : readStep a = .error f) :
    f = .error "Syntax error: expected symbol or '('" ∨ f = .error "Syntax error: pair: missing ')'" := by
  obtain ⟨stk, ts, pc⟩ := a
  rcases pc with _ | e | e <;> simp only [readStep] at h
  · split at h <;> cases h; exact .inl rfl
  · rcases stk with _ | ⟨_ | first, stk⟩ <;> simp only at h
    · cases h
    · cases h
    · split at h <;> cases h; exact .inr rfl
  · cases h

theorem readRun_error {n : Nat} {a : Reading} {f : Fault} (h : readRun n a = .error f) :
    f = .error "Syntax error: expected symbol or '('" ∨ f = .error "Syntax error: pair: missing ')'" := by
  induction n generalizing a with
  | zero => cases h
  | succ n ih =>
    rcases bind_eq_error h with h | ⟨b, -, h⟩
    · exact readStep_error h
    · exact ih h

end GclProofs
