import GclProofs.Parse

/-!
The interpreter of `gcl.c` on the collected heap. Each local whose address the C code takes is a
cell of its own: no function is active twice at once.
-/

namespace GclProofs

def consFrame : ConsFrame := ⟨3, 4⟩

def functionData : Cell := 5

def parseFrame : ParseFrame := ⟨6, 7, consFrame⟩

def evalEnvs : Cell := 8

def evalFExpr : Cell := 9

def evalArgExpr : Cell := 10

def evalForm : Cell := 11

def applyNewEnv : Cell := 12

def applyForms : Cell := 13

def applyBody : Cell := 14

def mapConsValue : Cell := 15

def mainForms : Cell := 16

def mainEnv : Cell := 17

def mainEnvs : Cell := 18

structure Machine where
  col : Collector
  out : List String

section

variable (malloc : Malloc)

def createFunction (c : Collector) (apply : ApplyFunc) (data : Addr) : Except Fault (Collector × Addr) := do
  let c := setRoot c functionData data
  let function := malloc c
  if function = 0 then throw .outOfMemory
  let c := { c with heap := { c.heap with apply := Function.update c.heap.apply function apply,
                                          data := Function.update c.heap.data function data } }
  let c ← pushRoot malloc c functionData
  let c ← registerObject c function .function
  let c ← popRoot c
  pure (c, function)

def destructCons (c : Collector) (object : Addr) : Except Fault (Addr × Addr) :=
  if c.heap.cls object ≠ .cons then throw (.error "cons expected")
  else pure (c.heap.head object, c.heap.tail object)

def pushOn (stack : Cell) (c : Collector) (object : Addr) : Except Fault Collector := do
  let (c, cons) ← createCons malloc consFrame c object (c.cells stack)
  pure (setRoot c stack cons)

def push (c : Collector) (object : Addr) : Except Fault Collector := pushOn malloc operandStack c object

def pop (c : Collector) : Except Fault (Collector × Addr) :=
  let old := c.cells operandStack
  if c.heap.cls old ≠ .cons then throw (.error "pop: stack underflow")
  else pure (setRoot c operandStack (c.heap.tail old), c.heap.head old)

def pushCont (c : Collector) (object : Addr) : Except Fault Collector := pushOn malloc contStack c object

def popCont (c : Collector) : Collector × Addr :=
  let old := c.cells contStack
  if c.heap.cls old ≠ .cons then (c, 0)
  else (setRoot c contStack (c.heap.tail old), c.heap.head old)

def atomEquals (c : Collector) (object1 object2 : Addr) : Except Fault Bool :=
  if object1 = object2 then pure true
  else if c.heap.cls object1 ≠ .atom ∨ c.heap.cls object2 ≠ .atom then throw (.error "atom_equals: atoms expected")
  else pure (c.heap.chars object1 == c.heap.chars object2)

def assoc (c : Collector) (key : Addr) : Nat → Addr → Except Fault Addr
  | 0, _ => throw .outOfFuel
  | fuel + 1, map =>
    if map = nilValue then pure 0
    else do
      let (mapHead, mapTail) ← destructCons c map
      let (entryHead, entryTail) ← destructCons c mapHead
      if ← atomEquals c key entryHead then pure entryTail
      else assoc c key fuel mapTail

def assocFuel (c : Collector) : Nat := c.heapHead.length + 1

def mapCons (c : Collector) (key value : Addr) (map : Cell) : Except Fault Collector := do
  let (c, entry) ← createCons malloc consFrame c key value
  let (c, cons) ← createCons malloc consFrame c entry (c.cells map)
  pure (setRoot c map cons)

def mapConsS (c : Collector) (key : String) (value : Addr) (map : Cell) : Except Fault Collector := do
  let c ← pushRoot malloc (setRoot c mapConsValue value) mapConsValue
  let (c, atom) ← createAtom malloc c key
  let c ← popRoot c
  mapCons malloc c atom (c.cells mapConsValue) map

def mapConsSFuncNil (c : Collector) (key : String) (function : ApplyFunc) (map : Cell) :
    Except Fault Collector := do
  let (c, func) ← createFunction malloc c function nilValue
  mapConsS malloc c key func map

def printAtom (m : Machine) (_data : Addr) : Except Fault Machine := do
  let (c, arg) ← pop m.col
  if c.heap.cls arg ≠ .atom then throw (.error "print_atom: argument is not an atom")
  let out := m.out ++ [c.heap.chars arg]
  let c ← push malloc c nilValue
  pure ⟨c, out⟩

def quoteFunction (m : Machine) (_data : Addr) : Except Fault Machine := do
  let (c, arg) ← pop m.col
  let (_envs, body) ← destructCons c arg
  let c ← push malloc c body
  pure ⟨c, m.out⟩

def funApplyFunction (m : Machine) (data : Addr) : Except Fault Machine := do
  let (c, arg) ← pop m.col
  let (envs, expr) ← destructCons c data
  let (forms, env) ← destructCons c envs
  let (param, body) ← destructCons c expr
  if c.heap.cls param ≠ .atom then throw (.error "fun: param should be an atom")
  let c ← pushRoot malloc (setRoot c applyNewEnv env) applyNewEnv
  let c ← pushRoot malloc (setRoot c applyForms forms) applyForms
  let c ← pushRoot malloc (setRoot c applyBody body) applyBody
  let c ← mapCons malloc c param arg applyNewEnv
  let (c, newEnvs) ← createCons malloc consFrame c (c.cells applyForms) (c.cells applyNewEnv)
  let (c, newData) ← createCons malloc consFrame c newEnvs (c.cells applyBody)
  let (c, newFunction) ← createFunction malloc c .eval newData
  let c ← pushCont malloc c newFunction
  let c ← popRoot c
  let c ← popRoot c
  let c ← popRoot c
  pure ⟨c, m.out⟩

def funFunction (m : Machine) (_data : Addr) : Except Fault Machine := do
  let (c, arg) ← pop m.col
  let (c, newFunction) ← createFunction malloc c .funApplyFunction arg
  let c ← push malloc c newFunction
  pure ⟨c, m.out⟩

def popApply (apply : Machine → Addr → Except Fault Machine) (m : Machine) (_data : Addr) :
    Except Fault Machine := do
  let (c, f) ← pop m.col
  apply ⟨c, m.out⟩ f

def evalSpecialForm (apply : Machine → Addr → Except Fault Machine) (m : Machine) (form envs argExpr : Addr) :
    Except Fault Machine := do
  let c ← pushRoot malloc (setRoot m.col evalForm form) evalForm
  let (c, value) ← createCons malloc consFrame c envs argExpr
  let c ← push malloc c value
  let c ← popRoot c
  apply ⟨c, m.out⟩ (c.cells evalForm)

def evalApplication (m : Machine) (envs fExpr argExpr : Addr) : Except Fault Machine := do
  let c ← pushRoot malloc (setRoot m.col evalEnvs envs) evalEnvs
  let c ← pushRoot malloc (setRoot c evalFExpr fExpr) evalFExpr
  let c ← pushRoot malloc (setRoot c evalArgExpr argExpr) evalArgExpr
  let (c, function) ← createFunction malloc c .popApply nilValue
  let c ← pushCont malloc c function
  let (c, functionData) ← createCons malloc consFrame c (c.cells evalEnvs) (c.cells evalFExpr)
  let (c, function) ← createFunction malloc c .eval functionData
  let c ← pushCont malloc c function
  let (c, functionData) ← createCons malloc consFrame c (c.cells evalEnvs) (c.cells evalArgExpr)
  let (c, function) ← createFunction malloc c .eval functionData
  let c ← pushCont malloc c function
  let c ← popRoot c
  let c ← popRoot c
  let c ← popRoot c
  pure ⟨c, m.out⟩

def eval (apply : Machine → Addr → Except Fault Machine) (m : Machine) (data : Addr) :
    Except Fault Machine := do
  let c := m.col
  let (envs, expr) ← destructCons c data
  let (forms, env) ← destructCons c envs
  if c.heap.cls expr = .atom then
    let value ← assoc c expr (assocFuel c) env
    if value = 0 then throw (.error "eval: no such binding")
    let c ← push malloc c value
    pure ⟨c, m.out⟩
  else if c.heap.cls expr = .cons then
    let (fExpr, argExpr) ← destructCons c expr
    let (form, isForm) ←
      if c.heap.cls fExpr = .atom then do
        let value ← assoc c fExpr (assocFuel c) forms
        pure (value, decide (value ≠ 0))
      else pure (nilValue, false)
    if isForm then evalSpecialForm malloc apply m form envs argExpr
    else evalApplication malloc m envs fExpr argExpr
  else throw (.error "Cannot evaluate: not an atom or a cons.")

def apply : Nat → Machine → Addr → Except Fault Machine
  | 0, _, _ => throw .outOfFuel
  | depth + 1, m, function =>
    if m.col.heap.cls function ≠ .function then throw (.error "apply: not a function")
    else
      let data := m.col.heap.data function
      match m.col.heap.apply function with
      | .popApply => popApply (apply depth) m data
      | .eval => eval malloc (apply depth) m data
      | .printAtom => printAtom malloc m data
      | .quoteFunction => quoteFunction malloc m data
      | .funFunction => funFunction malloc m data
      | .funApplyFunction => funApplyFunction malloc m data

def applyDepth : Nat := 2

def trampolineStep (m : Machine) : Option (Except Fault Machine) :=
  let (c, object) := popCont m.col
  if object = 0 then none else some (apply malloc applyDepth ⟨c, m.out⟩ object)

def trampolineRun : Nat → Machine → Except Fault Machine
  | 0, m => pure m
  | n + 1, m =>
    match trampolineStep malloc m with
    | none => pure m
    | some r => r >>= trampolineRun n

inductive MainPc where
  | parse
  | run
  deriving DecidableEq, Repr

structure MainState where
  m : Machine
  tokens : List Token
  pc : MainPc

def mainInit (c : Collector) : Except Fault Collector := do
  let c ← initGlobals malloc c
  let c ← pushRoot malloc (setRoot c mainForms nilValue) mainForms
  let c ← mapConsSFuncNil malloc c "quote" .quoteFunction mainForms
  let c ← mapConsSFuncNil malloc c "fun" .funFunction mainForms
  let c ← pushRoot malloc (setRoot c mainEnv nilValue) mainEnv
  let c ← mapConsSFuncNil malloc c "print_atom" .printAtom mainEnv
  let (c, object) ← createCons malloc consFrame c (c.cells mainForms) (c.cells mainEnv)
  pushRoot malloc (setRoot c mainEnvs object) mainEnvs

def mainStep (s : MainState) : Except Fault MainState :=
  match s.pc with
  | .parse => do
    let p ← parse malloc parseFrame s.m.col s.tokens
    let .returned expr := p.pc | throw .outOfFuel
    let (c, data) ← createCons malloc consFrame p.col (p.col.cells mainEnvs) expr
    let (c, cont) ← createFunction malloc c .eval data
    let c ← pushCont malloc c cont
    pure ⟨⟨c, s.m.out⟩, p.tokens, .run⟩
  | .run =>
    match trampolineStep malloc s.m with
    | none => do
      let (c, _) ← pop s.m.col
      pure ⟨⟨c, s.m.out⟩, s.tokens, .parse⟩
    | some r => do
      let m ← r
      pure ⟨m, s.tokens, .run⟩

def mainRun : Nat → MainState → Except Fault MainState
  | 0, s => pure s
  | n + 1, s => mainStep malloc s >>= mainRun n

def main (heap : Heap) (cells : Cell → Addr) (tokens : List Token) (n : Nat) : Except Fault MainState := do
  let c ← mainInit malloc (Collector.initial heap cells)
  mainRun malloc n ⟨⟨c, []⟩, tokens, .parse⟩

end

end GclProofs
