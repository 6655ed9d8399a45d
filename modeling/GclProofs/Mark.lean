import GclProofs.Heap

/-!
`mark` of `gcl.c`, the Schorr–Waite traversal, with the marking callbacks of the four classes.
-/

namespace GclProofs

structure Marking where
  heap : Heap
  object : Addr
  parent : Addr

def nilStartMarking (v : Marking) : Bool × Marking := (false, v)

def nilMarkNext (_ : Marking) : Option (Bool × Marking) := none

def consStartMarking (v : Marking) : Bool × Marking :=
  let cons := v.object
  let object := v.heap.head cons
  let heap := { v.heap with head := Function.update v.heap.head cons v.parent }
  let heap := { heap with tailIsNext := Function.update heap.tailIsNext cons true }
  (true, ⟨heap, object, cons⟩)

def consMarkNext (v : Marking) : Option (Bool × Marking) :=
  let cons := v.parent
  if v.heap.tailIsNext cons then
    let grandparent := v.heap.head cons
    let heap := { v.heap with head := Function.update v.heap.head cons v.object }
    let object := heap.tail cons
    let heap := { heap with tail := Function.update heap.tail cons grandparent }
    let heap := { heap with tailIsNext := Function.update heap.tailIsNext cons false }
    some (true, ⟨heap, object, cons⟩)
  else
    let parent := v.heap.tail cons
    let heap := { v.heap with tail := Function.update v.heap.tail cons v.object }
    some (false, ⟨heap, cons, parent⟩)

def atomStartMarking (v : Marking) : Bool × Marking := (false, v)

def atomMarkNext (_ : Marking) : Option (Bool × Marking) := none

def functionStartMarking (v : Marking) : Bool × Marking :=
  let function := v.object
  let object := v.heap.data function
  let heap := { v.heap with data := Function.update v.heap.data function v.parent }
  (true, ⟨heap, object, function⟩)

def functionMarkNext (v : Marking) : Option (Bool × Marking) :=
  let function := v.parent
  let parent := v.heap.data function
  let heap := { v.heap with data := Function.update v.heap.data function v.object }
  some (false, ⟨heap, function, parent⟩)

def Cls.startMarking : Cls → Marking → Bool × Marking
  | .nil => nilStartMarking
  | .cons => consStartMarking
  | .atom => atomStartMarking
  | .function => functionStartMarking

def Cls.markNext : Cls → Marking → Option (Bool × Marking)
  | .nil => nilMarkNext
  | .cons => consMarkNext
  | .atom => atomMarkNext
  | .function => functionMarkNext

inductive Pc where
  | startMarking
  | markNext
  | returned
  | assertFailed
  deriving DecidableEq, Repr

structure MarkState extends Marking where
  pc : Pc

def markStep (s : MarkState) : MarkState :=
  match s.pc with
  | .startMarking =>
    if s.heap.marked s.object then { s with pc := .markNext }
    else
      let startMarkingFunc := (s.heap.cls s.object).startMarking
      let heap := { s.heap with marked := Function.update s.heap.marked s.object true }
      let (b, v) := startMarkingFunc { s.toMarking with heap }
      ⟨v, if b then .startMarking else .markNext⟩
  | .markNext =>
    if s.parent = 0 then { s with pc := .returned }
    else
      let markNextFunc := (s.heap.cls s.parent).markNext
      match markNextFunc s.toMarking with
      | some (b, v) => ⟨v, if b then .startMarking else .markNext⟩
      | none => { s with pc := .assertFailed }
  | .returned => s
  | .assertFailed => s

def markRun : Nat → MarkState → MarkState
  | 0, s => s
  | n + 1, s => markRun n (markStep s)

def markInit (heap : Heap) (object : Addr) : MarkState := ⟨⟨heap, object, 0⟩, .startMarking⟩

def mark (fuel : Nat) (heap : Heap) (object : Addr) : Option Heap :=
  let s := markRun fuel (markInit heap object)
  if s.pc = .returned then some s.heap else none

theorem markRun_add (m n : Nat) (s : MarkState) : markRun (m + n) s = markRun n (markRun m s) := by
  induction m generalizing s with
  | zero => simp [markRun]
  | succ m ih => rw [Nat.succ_add, markRun, markRun, ih]

theorem markRun_returned (n : Nat) {s : MarkState} (h : s.pc = .returned) : markRun n s = s := by
  induction n with
  | zero => rfl
  | succ n ih => simp only [markRun, markStep, h, ih]

theorem mark_of_returned {n : Nat} {heap : Heap} {object : Addr}
    (h : (markRun n (markInit heap object)).pc = .returned) {m : Nat} (hm : n ≤ m) :
    mark m heap object = some (markRun n (markInit heap object)).heap := by
  obtain ⟨k, rfl⟩ := Nat.exists_eq_add_of_le hm
  simp only [mark, markRun_add, markRun_returned k h, h, if_true]

end GclProofs
