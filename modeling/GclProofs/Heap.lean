import Mathlib.Logic.Function.Basic
import Mathlib.Logic.Relation
import Mathlib.Data.List.Basic

/-!
The memory of `gcl.c`'s collector, one map per field of its object structs; the `next` links
are the list `Collector.heapHead`.
-/

namespace GclProofs

abbrev Addr := Nat

inductive Cls where
  | nil
  | cons
  | atom
  | function
  deriving DecidableEq, Repr

inductive ApplyFunc where
  | popApply
  | eval
  | printAtom
  | quoteFunction
  | funFunction
  | funApplyFunction
  deriving DecidableEq, Repr

structure Heap where
  marked : Addr → Bool
  cls : Addr → Cls
  tailIsNext : Addr → Bool
  head : Addr → Addr
  tail : Addr → Addr
  apply : Addr → ApplyFunc
  data : Addr → Addr
  chars : Addr → String

namespace Heap

def childrenAs (h : Heap) (c : Cls) (x : Addr) : List Addr :=
  match c with
  | .nil => []
  | .cons => [h.head x, h.tail x]
  | .atom => []
  | .function => [h.data x]

def children (h : Heap) (x : Addr) : List Addr := h.childrenAs (h.cls x) x

def Reaches (h : Heap) : Addr → Addr → Prop := Relation.ReflTransGen fun x y => y ∈ h.children x

theorem Reaches.child {h : Heap} {r x y : Addr} (hx : h.Reaches r x) (hy : y ∈ h.children x) :
    h.Reaches r y := Relation.ReflTransGen.tail hx hy

theorem Reaches.closed {h : Heap} {r x : Addr} {P : Addr → Prop} (hr : P r)
    (hc : ∀ y, P y → ∀ z ∈ h.children y, P z) (hx : h.Reaches r x) : P x := by
  induction hx with
  | refl => exact hr
  | tail _ hz ih => exact hc _ ih _ hz

theorem reaches_congr {h h' : Heap} (hc : h'.children = h.children) : h'.Reaches = h.Reaches := by
  simp only [Reaches, hc]

@[simp] theorem children_flags (h : Heap) (m t : Addr → Bool) :
    ({ h with marked := m, tailIsNext := t } : Heap).children = h.children := rfl

def cursorChild (h : Heap) (p : Addr) : Addr :=
  match h.cls p with
  | .cons => if h.tailIsNext p then h.head p else h.tail p
  | _ => h.data p

def setCursorChild (h : Heap) (p v : Addr) : Heap :=
  match h.cls p with
  | .cons =>
    if h.tailIsNext p then { h with head := Function.update h.head p v }
    else { h with tail := Function.update h.tail p v }
  | _ => { h with data := Function.update h.data p v }

section CursorChild

variable (h : Heap) (p q v : Addr)

@[simp] theorem setCursorChild_marked : (h.setCursorChild p v).marked = h.marked := by
  unfold setCursorChild; cases h.cls p <;> cases h.tailIsNext p <;> rfl

@[simp] theorem setCursorChild_cls : (h.setCursorChild p v).cls = h.cls := by
  unfold setCursorChild; cases h.cls p <;> cases h.tailIsNext p <;> rfl

@[simp] theorem setCursorChild_tailIsNext : (h.setCursorChild p v).tailIsNext = h.tailIsNext := by
  unfold setCursorChild; cases h.cls p <;> cases h.tailIsNext p <;> rfl

@[simp] theorem setCursorChild_apply : (h.setCursorChild p v).apply = h.apply := by
  unfold setCursorChild; cases h.cls p <;> cases h.tailIsNext p <;> rfl

@[simp] theorem setCursorChild_chars : (h.setCursorChild p v).chars = h.chars := by
  unfold setCursorChild; cases h.cls p <;> cases h.tailIsNext p <;> rfl

@[simp] theorem cursorChild_setCursorChild_self : (h.setCursorChild p v).cursorChild p = v := by
  unfold setCursorChild cursorChild
  cases hc : h.cls p <;> cases ht : h.tailIsNext p <;> simp [hc, ht]

theorem cursorChild_setCursorChild_of_ne (hq : q ≠ p) :
    (h.setCursorChild p v).cursorChild q = h.cursorChild q := by
  unfold setCursorChild cursorChild
  cases h.cls p <;> cases h.tailIsNext p <;> simp [hq]

theorem setCursorChild_cursorChild : h.setCursorChild p (h.cursorChild p) = h := by
  unfold setCursorChild cursorChild
  cases hc : h.cls p <;> cases ht : h.tailIsNext p <;> simp [hc, ht]

@[simp] theorem setCursorChild_setCursorChild :
    (h.setCursorChild p v).setCursorChild p q = h.setCursorChild p q := by
  unfold setCursorChild
  cases hc : h.cls p <;> cases ht : h.tailIsNext p <;> simp [hc, ht]

end CursorChild

end Heap

end GclProofs
