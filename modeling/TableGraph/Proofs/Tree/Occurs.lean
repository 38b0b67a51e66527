import TableGraph.Proofs.Dump.Plain
import TableGraph.Tree.Basic

namespace TableGraph.Tree

inductive Occurs (s : Tree) : Tree → Prop
  | self : Occurs s s
  | child : c ∈ t.children → Occurs s c → Occurs s t

def Everywhere (P : Tree → Prop) (t : Tree) : Prop := ∀ s, Occurs s t → P s

theorem everywhere_iff {P : Tree → Prop} {t : Tree} :
    t.Everywhere P ↔ P t ∧ ∀ c ∈ t.children, c.Everywhere P := by
  constructor
  · intro h
    exact ⟨h t .self, fun c hc s hs => h s (.child hc hs)⟩
  · intro ⟨ht, hc⟩ s hs
    cases hs with
    | self => exact ht
    | child hm hs => exact hc _ hm s hs

@[simp] theorem everywhere_tagged {P : Tree → Prop} {tag : String} {children : List Tree} :
    (tagged tag children).Everywhere P ↔
      P (.tagged tag children) ∧ ∀ c ∈ children, c.Everywhere P := everywhere_iff

@[simp] theorem everywhere_list {P : Tree → Prop} {items : List Tree} :
    (list items).Everywhere P ↔ P (.list items) ∧ ∀ t ∈ items, t.Everywhere P := everywhere_iff

theorem everywhere_leaf {P : Tree → Prop} {t : Tree} (ht : t.children = []) :
    t.Everywhere P ↔ P t := by
  rw [everywhere_iff, ht]
  simp

@[simp] theorem everywhere_symbol {P : Tree → Prop} {text : String} :
    (symbol text).Everywhere P ↔ P (.symbol text) := everywhere_leaf rfl

@[simp] theorem everywhere_str {P : Tree → Prop} {text : String} :
    (str text).Everywhere P ↔ P (.str text) := everywhere_leaf rfl

@[simp] theorem everywhere_int {P : Tree → Prop} {value : Int64} :
    (int value).Everywhere P ↔ P (.int value) := everywhere_leaf rfl

@[simp] theorem everywhere_bool {P : Tree → Prop} {value : Bool} :
    (bool value).Everywhere P ↔ P (.bool value) := everywhere_leaf rfl

@[simp] theorem everywhere_nil {P : Tree → Prop} : nil.Everywhere P ↔ P .nil :=
  everywhere_leaf rfl

theorem everywhere_and {P Q : Tree → Prop} {t : Tree} :
    t.Everywhere (fun s => P s ∧ Q s) ↔ t.Everywhere P ∧ t.Everywhere Q := by
  simp [Everywhere, forall_and]

def IsFloat : Tree → Prop
  | .float _ => True
  | _ => False

def IsSymbol : Tree → Prop
  | .symbol _ => True
  | _ => False

theorem ofItems_cons {t : Tree} (h : ¬t.IsSymbol) (items : List Tree) :
    ofItems (t :: items) = .list (t :: items) := by
  cases t with
  | symbol => exact absurd trivial h
  | _ => rfl

/-- A list that begins with a symbol looks like a tagged tree. -/
def LooksTagged : Tree → Prop
  | .list (t :: _) => t.IsSymbol
  | _ => False

theorem ofItems_eq_list {items : List Tree} (h : ¬(list items).LooksTagged) :
    ofItems items = .list items := by
  cases items with
  | nil => rfl
  | cons t ts => exact ofItems_cons h ts

def IsPlain : Tree → Prop
  | .tagged tag _ => Dump.IsPlain tag
  | .symbol text => Dump.IsPlain text
  | _ => True

def Readable (t : Tree) : Prop :=
  t.Everywhere fun s => ¬s.IsFloat ∧ s.IsPlain ∧ ¬s.LooksTagged

theorem readable_of_plain {t : Tree} (ht : t.Everywhere fun s => ¬s.IsFloat ∧ ¬s.LooksTagged)
    (hp : t.Everywhere IsPlain) : t.Readable := by
  intro s hs
  exact ⟨(ht s hs).1, hp s hs, (ht s hs).2⟩

@[simp] theorem readable_tagged {tag : String} {children : List Tree} :
    (tagged tag children).Readable ↔ Dump.IsPlain tag ∧ ∀ c ∈ children, c.Readable := by
  simp [Readable, IsFloat, IsPlain, LooksTagged]

theorem readable_list {items : List Tree} (h : ∀ t ∈ items, ¬t.IsSymbol ∧ t.Readable) :
    (list items).Readable := by
  refine everywhere_iff.mpr ⟨⟨id, trivial, ?_⟩, fun t ht => (h t ht).2⟩
  cases items with
  | nil => exact id
  | cons t ts => exact (h t List.mem_cons_self).1

@[simp] theorem readable_str {text : String} : (str text).Readable := by
  simp [Readable, IsFloat, IsPlain, LooksTagged]

@[simp] theorem readable_int {value : Int64} : (int value).Readable := by
  simp [Readable, IsFloat, IsPlain, LooksTagged]

@[simp] theorem readable_bool {value : Bool} : (bool value).Readable := by
  simp [Readable, IsFloat, IsPlain, LooksTagged]

@[simp] theorem readable_nil : nil.Readable := by
  simp [Readable, IsFloat, IsPlain, LooksTagged]

end TableGraph.Tree
