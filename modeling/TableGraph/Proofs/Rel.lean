import Mathlib.Data.List.Forall2

namespace TableGraph

variable {α β γ δ ε : Type}

@[simp] theorem ok_bind (a : α) (f : α → Except ε β) : (.ok a : Except ε α) >>= f = f a := rfl

@[simp] theorem error_bind (e : ε) (f : α → Except ε β) :
    (.error e : Except ε α) >>= f = .error e := rfl

@[simp] theorem pure_eq_ok (a : α) : (pure a : Except ε α) = .ok a := rfl

@[simp] theorem ok_map (f : α → β) (a : α) : (.ok a : Except ε α).map f = .ok (f a) := rfl

@[simp] theorem error_map (f : α → β) (e : ε) :
    (.error e : Except ε α).map f = .error e := rfl

theorem bind_eq_ok {x : Except ε α} {f : α → Except ε β} {b : β} :
    x >>= f = .ok b ↔ ∃ a, x = .ok a ∧ f a = .ok b := by
  cases x <;> simp

theorem map_eq_ok {x : Except ε α} {f : α → β} {b : β} :
    x.map f = .ok b ↔ ∃ a, x = .ok a ∧ f a = b := by
  cases x <;> simp

theorem eq_error_of_ne_ok {x : Except ε α} (h : ∀ a, x ≠ .ok a) : ∃ e, x = .error e := by
  cases x with
  | error e => exact ⟨e, rfl⟩
  | ok a => exact absurd rfl (h a)

variable {R : α → β → Prop}

theorem rel_iff {o : Option α} {p : Option β} :
    Option.Rel R o p ↔ o = none ∧ p = none ∨ ∃ a b, o = some a ∧ p = some b ∧ R a b := by
  constructor
  · intro h
    cases h with
    | none => exact .inl ⟨rfl, rfl⟩
    | some h => exact .inr ⟨_, _, rfl, rfl, h⟩
  · rintro (⟨rfl, rfl⟩ | ⟨a, b, rfl, rfl, h⟩)
    · exact .none
    · exact .some h

theorem rel_imp {S : α → β → Prop} {o : Option α} {p : Option β} (h : Option.Rel R o p)
    (hs : ∀ {a b}, R a b → S a b) : Option.Rel S o p := by
  cases h with
  | none => exact .none
  | some h => exact .some (hs h)

theorem rel_refl {R : α → α → Prop} (h : ∀ a, R a a) (o : Option α) : Option.Rel R o o := by
  cases o with
  | none => exact .none
  | some a => exact .some (h a)

theorem rel_bind {S : γ → δ → Prop} {o : Option α} {p : Option β} (h : Option.Rel R o p)
    {f : α → Option γ} {g : β → Option δ} (hf : ∀ {a b}, R a b → Option.Rel S (f a) (g b)) :
    Option.Rel S (o.bind f) (p.bind g) := by
  cases h with
  | none => exact .none
  | some h => exact hf h

theorem bind_eq_of_rel {o : Option α} {p : Option β} (h : Option.Rel R o p) {f : α → Option γ}
    {g : β → Option γ} (hf : ∀ {a b}, R a b → f a = g b) : o.bind f = p.bind g := by
  cases h with
  | none => rfl
  | some h => exact hf h

theorem rel_filter {o : Option α} {p : Option β} (h : Option.Rel R o p) {f : α → Bool}
    {g : β → Bool} (hf : ∀ {a b}, R a b → f a = g b) :
    Option.Rel (fun a b => R a b ∧ f a) (o.filter f) (p.filter g) := by
  cases h with
  | none => exact .none
  | some h =>
    rename_i a b
    rw [Option.filter_some, Option.filter_some, ← hf h]
    split
    · exact .some ⟨h, ‹_›⟩
    · exact .none

theorem forall₂_of_getElem? {as : List α} {bs : List β}
    (h : ∀ i : Nat, Option.Rel R as[i]? bs[i]?) : List.Forall₂ R as bs := by
  induction as generalizing bs with
  | nil =>
    cases bs with
    | nil => exact .nil
    | cons b bs => cases h 0
  | cons a as ih =>
    cases bs with
    | nil => cases h 0
    | cons b bs =>
      cases h 0 with
      | some hab => exact .cons hab (ih fun i => h (i + 1))

theorem rel_getElem? {as : List α} {bs : List β} (h : List.Forall₂ R as bs) (i : Nat) :
    Option.Rel R as[i]? bs[i]? := by
  induction h generalizing i with
  | nil => exact .none
  | cons hab _ ih =>
    cases i with
    | zero => exact .some hab
    | succ i => exact ih i

theorem forall₂_filter {as : List α} {bs : List β} (h : List.Forall₂ R as bs) {f : α → Bool}
    {g : β → Bool} (hf : ∀ {a b}, R a b → f a = g b) :
    List.Forall₂ (fun a b => R a b ∧ f a) (as.filter f) (bs.filter g) := by
  induction h with
  | nil => exact .nil
  | cons hab _ ih =>
    rw [List.filter_cons, List.filter_cons, ← hf hab]
    split
    · exact .cons ⟨hab, ‹_›⟩ ih
    · exact ih

theorem rel_find? {as : List α} {bs : List β} (h : List.Forall₂ R as bs) {f : α → Bool}
    {g : β → Bool} (hf : ∀ {a b}, R a b → f a = g b) :
    Option.Rel (fun a b => R a b ∧ f a) (as.find? f) (bs.find? g) := by
  induction h with
  | nil => exact .none
  | cons hab _ ih =>
    rw [List.find?_cons, List.find?_cons, ← hf hab]
    split
    · exact .some ⟨hab, ‹_›⟩
    · exact ih

theorem exists_of_forall₂ {as : List α} {bs : List β} (h : List.Forall₂ R as bs) {a : α}
    (ha : a ∈ as) : ∃ b, R a b := by
  induction h with
  | nil => cases ha
  | cons hab _ ih =>
    cases ha with
    | head => exact ⟨_, hab⟩
    | tail _ ha => exact ih ha

theorem exists_forall₂ {as : List α} (h : ∀ a ∈ as, ∃ b, R a b) : ∃ bs, List.Forall₂ R as bs := by
  induction as with
  | nil => exact ⟨[], .nil⟩
  | cons a as ih =>
    rw [List.forall_mem_cons] at h
    obtain ⟨b, hb⟩ := h.1
    obtain ⟨bs, hbs⟩ := ih h.2
    exact ⟨b :: bs, .cons hb hbs⟩

theorem rel_getLast? {as : List α} {bs : List β} (h : List.Forall₂ R as bs) :
    Option.Rel R as.getLast? bs.getLast? := by
  rw [List.getLast?_eq_getElem?, List.getLast?_eq_getElem?, h.length_eq]
  exact rel_getElem? h _

theorem mapM_eq_of_forall₂ {m : Type → Type} [Monad m] [LawfulMonad m] {as : List α} {bs : List β}
    (h : List.Forall₂ R as bs) {f : α → m γ} {g : β → m γ} (hf : ∀ {a b}, R a b → f a = g b) :
    as.mapM f = bs.mapM g := by
  induction h with
  | nil => rfl
  | cons hab _ ih => rw [List.mapM_cons, List.mapM_cons, hf hab, ih]

theorem mapM_eq_some {f : α → Option β} {as : List α} {bs : List β} :
    as.mapM f = some bs ↔ List.Forall₂ (fun a b => f a = some b) as bs := by
  induction as generalizing bs with
  | nil => cases bs <;> simp
  | cons a as ih => cases bs <;> simp [List.mapM_cons, Option.bind_eq_some_iff, ih]

theorem mapM_eq_ok {f : α → Except ε β} {as : List α} {bs : List β} :
    as.mapM f = .ok bs ↔ List.Forall₂ (fun a b => f a = .ok b) as bs := by
  induction as generalizing bs with
  | nil => cases bs <;> simp
  | cons a as ih => cases bs <;> simp [List.mapM_cons, bind_eq_ok, ih]

inductive Agree (R : α → β → Prop) : Except ε α → Except ε β → Prop
  | ok : R a b → Agree R (.ok a) (.ok b)
  | error : Agree R (.error e) (.error e)

theorem agree_iff {x : Except ε α} {y : Except ε β} :
    Agree R x y ↔
      (∃ e, x = .error e ∧ y = .error e) ∨ ∃ a b, x = .ok a ∧ y = .ok b ∧ R a b := by
  constructor
  · intro h
    cases h with
    | ok h => exact .inr ⟨_, _, rfl, rfl, h⟩
    | error => exact .inl ⟨_, rfl, rfl⟩
  · rintro (⟨e, rfl, rfl⟩ | ⟨a, b, rfl, rfl, h⟩)
    · exact .error
    · exact .ok h

theorem Agree.refl {R : α → α → Prop} (h : ∀ a, R a a) (x : Except ε α) : Agree R x x := by
  cases x with
  | error e => exact .error
  | ok a => exact .ok (h a)

theorem Agree.map {S : γ → δ → Prop} {x : Except ε α} {y : Except ε β} (h : Agree R x y)
    {f : α → γ} {g : β → δ} (hf : ∀ {a b}, R a b → S (f a) (g b)) :
    Agree S (x.map f) (y.map g) := by
  cases h with
  | ok h => exact .ok (hf h)
  | error => exact .error

theorem Agree.bind {S : γ → δ → Prop} {x : Except ε α} {y : Except ε β} (h : Agree R x y)
    {f : α → Except ε γ} {g : β → Except ε δ} (hf : ∀ {a b}, R a b → Agree S (f a) (g b)) :
    Agree S (x >>= f) (y >>= g) := by
  cases h with
  | ok h => exact hf h
  | error => exact .error

theorem Agree.bind_eq {x : Except ε α} {y : Except ε β} (h : Agree R x y)
    {f : α → Except ε γ} {g : β → Except ε γ} (hf : ∀ {a b}, R a b → f a = g b) :
    x >>= f = y >>= g := by
  cases h with
  | ok h => exact hf h
  | error => rfl

end TableGraph
