import Mathlib.Data.List.Nodup
import GclProofs.Frame
import GclProofs.Semantics

/-!
How the heap holds the values of the language; each representation survives every change that
keeps the objects it reads.
-/

namespace GclProofs

def Form.apply : Form → ApplyFunc
  | .quote => .quoteFunction
  | .fun => .funFunction

namespace Heap

def ListRepr {α : Type} (h : Heap) (P : α → Addr → Prop) : List α → Addr → Prop
  | [], x => x = nilValue
  | a :: l, x => h.cls x = .cons ∧ P a (h.head x) ∧ h.ListRepr P l (h.tail x)

def EntryRepr {α : Type} (h : Heap) (P : α → Addr → Prop) (entry : String × α) (x : Addr) : Prop :=
  h.cls x = .cons ∧ h.Repr (.symbol entry.1) (h.head x) ∧ P entry.2 (h.tail x)

def FormRepr (h : Heap) (form : Form) (x : Addr) : Prop := h.cls x = .function ∧ h.apply x = form.apply

def FormsRepr (h : Heap) : List (String × Form) → Addr → Prop := h.ListRepr (h.EntryRepr h.FormRepr)

mutual

def ValueRepr (h : Heap) : Value → Addr → Prop
  | .expr e, x => h.Repr e x
  | .nil, x => x = nilValue
  | .printAtom, x => h.cls x = .function ∧ h.apply x = .printAtom
  | .closure forms env e, x => h.cls x = .function ∧ h.apply x = .funApplyFunction ∧
      h.cls (h.data x) = .cons ∧ (h.cls (h.head (h.data x)) = .cons ∧
        h.FormsRepr forms (h.head (h.head (h.data x))) ∧ h.EnvRepr env (h.tail (h.head (h.data x)))) ∧
      h.Repr e (h.tail (h.data x))

def EnvRepr (h : Heap) : Env → Addr → Prop
  | .empty, x => x = nilValue
  | .bind name v rest, x => h.cls x = .cons ∧
      (h.cls (h.head x) = .cons ∧ h.Repr (.symbol name) (h.head (h.head x)) ∧ h.ValueRepr v (h.tail (h.head x))) ∧
      h.EnvRepr rest (h.tail x)

end

def EnvsRepr (h : Heap) (forms : List (String × Form)) (env : Env) (x : Addr) : Prop :=
  h.cls x = .cons ∧ h.FormsRepr forms (h.head x) ∧ h.EnvRepr env (h.tail x)

def DataRepr (h : Heap) (forms : List (String × Form)) (env : Env) (e : Expr) (d : Addr) : Prop :=
  h.cls d = .cons ∧ h.EnvsRepr forms env (h.head d) ∧ h.Repr e (h.tail d)

def ContRepr (h : Heap) : Cont → Addr → Prop
  | .eval forms env e, x => h.cls x = .function ∧ h.apply x = .eval ∧ h.DataRepr forms env e (h.data x)
  | .popApply, x => h.cls x = .function ∧ h.apply x = .popApply

variable {h h' : Heap} {x : Addr}

theorem valueRepr_closure {forms : List (String × Form)} {env : Env} {e : Expr} :
    h.ValueRepr (.closure forms env e) x ↔
      h.cls x = .function ∧ h.apply x = .funApplyFunction ∧ h.DataRepr forms env e (h.data x) := by
  rw [ValueRepr]; rfl

theorem envRepr_iff : ∀ {env : Env} {x : Addr}, h.EnvRepr env x ↔ h.ListRepr (h.EntryRepr h.ValueRepr) env.toList x
  | .empty, _ => by rw [EnvRepr]; rfl
  | .bind _ _ _, _ => by rw [EnvRepr, envRepr_iff]; rfl

theorem envRepr_bind {name : String} {v : Value} {rest : Env} :
    h.EnvRepr (.bind name v rest) x ↔
      h.cls x = .cons ∧ h.EntryRepr h.ValueRepr (name, v) (h.head x) ∧ h.EnvRepr rest (h.tail x) := by
  rw [EnvRepr]; rfl

theorem valueRepr_cls_ne_atom (hnil : h.cls nilValue = .nil) :
    ∀ {v : Value} {x : Addr}, h.ValueRepr v x → (∀ t, v ≠ .expr (.symbol t)) → h.cls x ≠ .atom
  | .expr (.symbol t), _, _, hv => absurd rfl (hv t)
  | .expr (.pair _ _), _, hx, _ => by rw [hx.1]; decide
  | .nil, _, hx, _ => by rw [show _ = nilValue from hx, hnil]; decide
  | .printAtom, _, hx, _ => by rw [hx.1]; decide
  | .closure _ _ _, _, hx, _ => by rw [hx.1]; decide

namespace Agree

theorem repr {e : Expr} (ha : h.Agree h' x) (hr : h.Repr e x) : h'.Repr e x :=
  (repr_congr fun y hy => ha y (nodes_reaches hr y hy)).1.2 hr

theorem listRepr {α : Type} {P P' : α → Addr → Prop} (hP : ∀ a y, h.Agree h' y → P a y → P' a y) :
    ∀ {l : List α} {x : Addr}, h.Agree h' x → h.ListRepr P l x → h'.ListRepr P' l x
  | [], _, _, hx => hx
  | a :: _, _, ha, ⟨hc, hp, hl⟩ => by
    obtain ⟨hc', hh', ht', -⟩ := ha.fields
    exact ⟨hc'.trans hc, hh' ▸ hP a _ (ha.head hc) hp, ht' ▸ listRepr hP (ha.tail hc) hl⟩

theorem entryRepr {α : Type} {P P' : α → Addr → Prop} (hP : ∀ a y, h.Agree h' y → P a y → P' a y)
    {entry : String × α} (ha : h.Agree h' x) (he : h.EntryRepr P entry x) : h'.EntryRepr P' entry x := by
  obtain ⟨hc, hk, hv⟩ := he
  obtain ⟨hc', hh', ht', -⟩ := ha.fields
  exact ⟨hc'.trans hc, hh' ▸ (ha.head hc).repr hk, ht' ▸ hP _ _ (ha.tail hc) hv⟩

theorem formsRepr {forms : List (String × Form)} (ha : h.Agree h' x) (hf : h.FormsRepr forms x) :
    h'.FormsRepr forms x :=
  ha.listRepr (fun _ _ ha' he => ha'.entryRepr (fun _ _ ha'' ⟨hc, hp⟩ =>
    ⟨ha''.fields.1.trans hc, ha''.fields.2.2.2.2.2.trans hp⟩) he) hf

mutual

theorem valueRepr : ∀ {v : Value} {x : Addr}, h.Agree h' x → h.ValueRepr v x → h'.ValueRepr v x
  | .expr _, _, ha, hv => ha.repr hv
  | .nil, _, _, hv => hv
  | .printAtom, _, ha, ⟨hc, hp⟩ => ⟨ha.fields.1.trans hc, ha.fields.2.2.2.2.2.trans hp⟩
  | .closure _ _ _, x, ha, ⟨hc, hp, hd, ⟨he, hf, hen⟩, hb⟩ => by
    obtain ⟨hc', -, -, hdata', -, hp'⟩ := ha.fields
    have had := ha.data hc
    obtain ⟨hdc', hdh', hdt', -⟩ := had.fields
    have hae := had.head hd
    obtain ⟨hec', heh', het', -⟩ := hae.fields
    refine ⟨hc'.trans hc, hp'.trans hp, ?_⟩
    rw [hdata', hdc', hdh', hdt', hec', heh', het']
    exact ⟨hd, ⟨he, (hae.head he).formsRepr hf, envRepr (hae.tail he) hen⟩, (had.tail hd).repr hb⟩

theorem envRepr : ∀ {env : Env} {x : Addr}, h.Agree h' x → h.EnvRepr env x → h'.EnvRepr env x
  | .empty, _, _, hx => hx
  | .bind _ _ _, x, ha, ⟨hc, ⟨hec, hk, hv⟩, hr⟩ => by
    obtain ⟨hc', hh', ht', -⟩ := ha.fields
    have hae := ha.head hc
    obtain ⟨hec', heh', het', -⟩ := hae.fields
    rw [EnvRepr, hc', hh', ht', hec', heh', het']
    exact ⟨hc, ⟨hec, (hae.head hec).repr hk, valueRepr (hae.tail hec) hv⟩, envRepr (ha.tail hc) hr⟩

end

theorem envsRepr {forms : List (String × Form)} {env : Env} (ha : h.Agree h' x) (he : h.EnvsRepr forms env x) :
    h'.EnvsRepr forms env x := by
  obtain ⟨hc, hf, hen⟩ := he
  obtain ⟨hc', hh', ht', -⟩ := ha.fields
  exact ⟨hc'.trans hc, hh' ▸ (ha.head hc).formsRepr hf, ht' ▸ (ha.tail hc).envRepr hen⟩

theorem dataRepr {forms : List (String × Form)} {env : Env} {e : Expr} (ha : h.Agree h' x)
    (hd : h.DataRepr forms env e x) : h'.DataRepr forms env e x := by
  obtain ⟨hc, he, hb⟩ := hd
  obtain ⟨hc', hh', ht', -⟩ := ha.fields
  exact ⟨hc'.trans hc, hh' ▸ (ha.head hc).envsRepr he, ht' ▸ (ha.tail hc).repr hb⟩

theorem contRepr {k : Cont} (ha : h.Agree h' x) (hk : h.ContRepr k x) : h'.ContRepr k x := by
  obtain ⟨hc', -, -, hd', -, hp'⟩ := ha.fields
  cases k with
  | eval => exact ⟨hc'.trans hk.1, hp'.trans hk.2.1, hd' ▸ (ha.data hk.1).dataRepr hk.2.2⟩
  | popApply => exact ⟨hc'.trans hk.1, hp'.trans hk.2⟩

theorem stackRepr {S : List Value} (ha : h.Agree h' x) (hs : h.ListRepr h.ValueRepr S x) :
    h'.ListRepr h'.ValueRepr S x :=
  ha.listRepr (fun _ _ ha' hv => ha'.valueRepr hv) hs

theorem contsRepr {K : List Cont} (ha : h.Agree h' x) (hk : h.ListRepr h.ContRepr K x) :
    h'.ListRepr h'.ContRepr K x :=
  ha.listRepr (fun _ _ ha' hc => ha'.contRepr hc) hk

end Agree

section ListRepr

variable {α β : Type} {P : α → Addr → Prop} {Q : β → Addr → Prop}

theorem ListRepr.length_eq (hnil : h.cls nilValue ≠ .cons) :
    ∀ {l : List α} {l' : List β} {x : Addr}, h.ListRepr P l x → h.ListRepr Q l' x → l.length = l'.length
  | [], [], _, _, _ => rfl
  | [], _ :: _, _, hx, hc => absurd (hx ▸ hc.1) hnil
  | _ :: _, [], _, hc, hx => absurd (hx ▸ hc.1) hnil
  | _ :: _, _ :: _, _, ⟨_, _, hl⟩, ⟨_, _, hl'⟩ => congrArg (· + 1) (ListRepr.length_eq hnil hl hl')

theorem ListRepr.drop : ∀ {l : List α} {x : Addr} {k : Nat}, h.ListRepr P l x → k ≤ l.length →
    h.ListRepr P (l.drop k) (h.tail^[k] x)
  | _, _, 0, hl, _ => hl
  | _ :: _, _, _ + 1, ⟨_, _, hl⟩, hk => by
    simpa only [List.drop_succ_cons, Function.iterate_succ_apply] using ListRepr.drop hl (Nat.le_of_succ_le_succ hk)

theorem ListRepr.reaches_iterate : ∀ {l : List α} {x : Addr} {k : Nat}, h.ListRepr P l x → k ≤ l.length →
    h.Reaches x (h.tail^[k] x)
  | _, _, 0, _, _ => .refl
  | _ :: _, x, _ + 1, ⟨hc, _, hl⟩, hk => by
    rw [Function.iterate_succ_apply]
    exact .head (show h.tail x ∈ h.children x by simp [children, childrenAs, hc])
      (ListRepr.reaches_iterate hl (Nat.le_of_succ_le_succ hk))

theorem ListRepr.length_le {c : Collector} (hw : c.HeapShape) (hnil : c.heap.cls nilValue ≠ .cons) {l : List α}
    {x : Addr} (hx : x ∈ c.heapHead) (hl : c.heap.ListRepr P l x) : l.length ≤ c.heapHead.length := by
  have hinj : ∀ i ∈ List.range l.length, ∀ j ∈ List.range l.length,
      c.heap.tail^[i] x = c.heap.tail^[j] x → i = j := by
    intro i hi j hj e
    rw [List.mem_range] at hi hj
    have := ListRepr.length_eq hnil (hl.drop hi.le) (e ▸ hl.drop hj.le)
    simp only [List.length_drop] at this
    omega
  have hsub : ((List.range l.length).map fun k => c.heap.tail^[k] x) ⊆ c.heapHead := by
    intro y hy
    obtain ⟨k, hk, rfl⟩ := List.mem_map.1 hy
    exact reaches_mem hw.closed hx (hl.reaches_iterate (List.mem_range.1 hk).le)
  simpa using (List.subperm_of_subset ((List.nodup_range _).map_on hinj) hsub).length_le

end ListRepr

end Heap

section assoc

variable {c : Collector}

theorem destructCons_of_cons {x : Addr} (hc : c.heap.cls x = .cons) :
    destructCons c x = .ok (c.heap.head x, c.heap.tail x) := by
  simp [destructCons, hc, pure, Except.pure]

theorem destructCons_of_not_cons {x : Addr} (hc : c.heap.cls x ≠ .cons) :
    destructCons c x = .error (.error "cons expected") := by
  simp [destructCons, hc, throw, throwThe, MonadExceptOf.throw]

theorem atomEquals_of_repr {x y : Addr} {t t' : String} (hx : c.heap.Repr (.symbol t) x)
    (hy : c.heap.Repr (.symbol t') y) : atomEquals c x y = .ok (t == t') := by
  obtain ⟨hxc, rfl⟩ := hx
  obtain ⟨hyc, rfl⟩ := hy
  by_cases e : x = y
  · subst e; simp [atomEquals, pure, Except.pure]
  · simp [atomEquals, e, hxc, hyc, pure, Except.pure]

theorem assoc_spec {α : Type} {P : α → Addr → Prop} (hnil : c.heap.cls nilValue ≠ .cons) {key : Addr} {t : String}
    (hkey : c.heap.Repr (.symbol t) key) :
    ∀ {l : List (String × α)} {map : Addr} {n : Nat}, c.heap.ListRepr (c.heap.EntryRepr P) l map → l.length < n →
      ∃ r, assoc c key n map = .ok r ∧
        (l.lookup t = none ∧ r = 0 ∨ ∃ a, l.lookup t = some a ∧ P a r ∧ c.heap.Reaches map r)
  | [], _, _ + 1, hl, _ => ⟨0, by simp [assoc, show _ = nilValue from hl, pure, Except.pure], .inl ⟨rfl, rfl⟩⟩
  | (name, a) :: l, map, n + 1, ⟨hc, ⟨hec, hk, hv⟩, hl⟩, hn => by
    have hne : map ≠ nilValue := fun e => hnil (e ▸ hc)
    have hstep : assoc c key (n + 1) map =
        if (t == name) then .ok (c.heap.tail (c.heap.head map)) else assoc c key n (c.heap.tail map) := by
      simp only [assoc, hne, if_false, destructCons_of_cons hc, destructCons_of_cons hec, atomEquals_of_repr hkey hk,
        bind, Except.bind, pure, Except.pure]
    have hmap : c.heap.Reaches map (c.heap.head map) := .single (by simp [Heap.children, Heap.childrenAs, hc])
    cases ht : t == name
    · obtain ⟨r, hr, hres⟩ := assoc_spec hnil hkey hl (show l.length < n by simp at hn; omega)
      refine ⟨r, by rw [hstep, ht]; exact hr, ?_⟩
      simp only [List.lookup_cons, ht]
      exact hres.imp_right fun ⟨a, hla, hp, hreach⟩ =>
        ⟨a, hla, hp, .head (by simp [Heap.children, Heap.childrenAs, hc]) hreach⟩
    · refine ⟨_, by rw [hstep, ht]; rfl, .inr ⟨a, by simp [List.lookup_cons, ht], hv, hmap.tail ?_⟩⟩
      simp [Heap.children, Heap.childrenAs, hec]

end assoc

end GclProofs
