import Mathlib.Data.List.Induction
import TableGraph.Extraction.Reading
import TableGraph.Proofs.Schema.Outline

namespace TableGraph.Extraction

def Event.ofColumn (table : String) (c : Column) : Event := .column table c.type c.name?

def Event.Quiet : Event → Prop
  | .column _ _ _ | .replaced _ | .registered _ _ | .referenced _ _ => False
  | _ => True

namespace Log

/-- The columns at the end of a log, each by its table, its type and its name, or a dash for an
index. The log is given with the last event first. -/
def columnsBack : List Event → List (String × String × String)
  | .column table type name :: earlier => (table, type, name.getD "-") :: columnsBack earlier
  | _ => []

/-- The columns just before a registration that follows this log. A last event that a table is
replaced does not count. -/
def run (log : List Event) : List (String × String × String) :=
  match log.reverse with
  | .replaced _ :: earlier => (columnsBack earlier).reverse
  | earlier => (columnsBack earlier).reverse

def replayBack : List Event → List Outline
  | [] => []
  | .registered name _ :: earlier =>
    Outline.register ⟨name, (run earlier.reverse).map Prod.snd, none⟩ (replayBack earlier)
  | .referenced source target :: earlier => Outline.refer source target (replayBack earlier)
  | _ :: earlier => replayBack earlier

def replay (log : List Event) : List Outline := replayBack log.reverse

def Registered (log : List Event) (name : String) : Prop := ∃ count, .registered name count ∈ log

/-- Whether an event belongs where it stands. The columns before a registration are those of its
table, which is said to be replaced if it has been registered before, and then only. -/
def Fits (before : List Event) (e : Event) (after : List Event) : Prop :=
  match e with
  | .registered name count =>
    (∀ c ∈ run before, c.1 = name) ∧ (run before).length = count ∧
      (before.getLast? = some (.replaced name) ↔ Registered before name)
  | .replaced name =>
    Registered before name ∧ ∃ count rest, after = .registered name count :: rest
  | .referenced source _ => Registered before source
  | _ => True

def Orderly (log : List Event) : Prop :=
  ∀ before e after, log = before ++ e :: after → Fits before e after

structure Settled (log : List Event) : Prop where
  column : ∀ table type name, log.getLast? ≠ some (.column table type name)
  replaced : ∀ name, log.getLast? ≠ some (.replaced name)

theorem settled_concat {e : Event} (hc : ∀ table type name, e ≠ .column table type name)
    (hr : ∀ name, e ≠ .replaced name) (log : List Event) : Settled (log ++ [e]) where
  column table type name := by
    rw [List.getLast?_concat]
    exact fun h => hc table type name (Option.some.inj h)
  replaced name := by
    rw [List.getLast?_concat]
    exact fun h => hr name (Option.some.inj h)

theorem columnsBack_append {columns : List Column} {earlier : List Event} (table : String)
    (h : columnsBack earlier = []) :
    columnsBack (columns.map (Event.ofColumn table) ++ earlier) =
      columns.map fun c => (table, c.type, c.name?.getD "-") := by
  induction columns with
  | nil => exact h
  | cons c cs ih =>
    rw [List.map_cons, List.cons_append, Event.ofColumn, columnsBack, ih]
    rfl

theorem Settled.columnsBack {log : List Event} (h : Settled log) :
    columnsBack log.reverse = [] := by
  induction log using List.reverseRecOn with
  | nil => rfl
  | append_singleton log e _ =>
    rw [List.reverse_append]
    cases e with
    | column table type name => exact absurd List.getLast?_concat (h.column table type name)
    | _ => rfl

theorem run_replaced (log : List Event) (name : String) :
    run (log ++ [.replaced name]) = (columnsBack log.reverse).reverse := by
  rw [run, List.reverse_append]
  rfl

theorem run_of_not_replaced {log : List Event} (h : ∀ name, log.getLast? ≠ some (.replaced name)) :
    run log = (columnsBack log.reverse).reverse := by
  rw [run]
  split
  · next name earlier hl =>
    rw [List.getLast?_eq_head?_reverse, hl] at h
    exact absurd rfl (h name)
  · rfl

section

variable {log : List Event} (h : Settled log) (table : String) (columns : List Column)

include h

theorem columnsBack_columns :
    columnsBack (log ++ columns.map (Event.ofColumn table)).reverse =
      (columns.map fun c => (table, c.type, c.name?.getD "-")).reverse := by
  rw [List.reverse_append, ← List.map_reverse, columnsBack_append table h.columnsBack,
    List.map_reverse]

theorem getLast?_columns (name : String) :
    (log ++ columns.map (Event.ofColumn table)).getLast? ≠ some (.replaced name) := by
  rw [List.getLast?_append, List.getLast?_map]
  cases columns.getLast? with
  | none => exact h.replaced name
  | some c => exact fun hc => Event.noConfusion (Option.some.inj hc)

theorem run_columns :
    run (log ++ columns.map (Event.ofColumn table)) =
      columns.map fun c => (table, c.type, c.name?.getD "-") := by
  rw [run_of_not_replaced (getLast?_columns h table columns), columnsBack_columns h,
    List.reverse_reverse]

theorem run_columns_replaced (name : String) :
    run (log ++ columns.map (Event.ofColumn table) ++ [.replaced name]) =
      columns.map fun c => (table, c.type, c.name?.getD "-") := by
  rw [run_replaced, columnsBack_columns h, List.reverse_reverse]

end

theorem replay_registered (log : List Event) (name : String) (count : Nat) :
    replay (log ++ [.registered name count]) =
      Outline.register ⟨name, (run log).map Prod.snd, none⟩ (replay log) := by
  rw [replay, List.reverse_append, List.reverse_singleton, List.singleton_append, replayBack,
    List.reverse_reverse]
  rfl

theorem replay_referenced (log : List Event) (source target : String) :
    replay (log ++ [.referenced source target]) = Outline.refer source target (replay log) := by
  rw [replay, List.reverse_append]
  rfl

theorem replay_append {events : List Event} (hr : ∀ name count, .registered name count ∉ events)
    (ht : ∀ source target, .referenced source target ∉ events) (log : List Event) :
    replay (log ++ events) = replay log := by
  induction events using List.reverseRecOn with
  | nil => rw [List.append_nil]
  | append_singleton events e ih =>
    simp only [List.mem_append, not_or, List.mem_singleton] at hr ht
    rw [← ih (fun name count => (hr name count).1) fun source target => (ht source target).1,
      ← List.append_assoc, replay, List.reverse_append]
    cases e with
    | registered name count => exact absurd rfl (hr name count).2
    | referenced source target => exact absurd rfl (ht source target).2
    | _ => rfl

theorem Fits.append {before after : List Event} {e : Event} (h : Fits before e after)
    (more : List Event) : Fits before e (after ++ more) := by
  cases e with
  | replaced name =>
    obtain ⟨hr, count, rest, rfl⟩ := h
    exact ⟨hr, count, rest ++ more, rfl⟩
  | _ => exact h

theorem Orderly.append {log events : List Event} (h : Orderly log)
    (he : ∀ before e after, events = before ++ e :: after → Fits (log ++ before) e after) :
    Orderly (log ++ events) := by
  intro before e after hs
  obtain ⟨middle, rfl, hm⟩ | ⟨middle, rfl, hm⟩ := List.append_eq_append_iff.mp hs
  · exact he middle e after hm
  · cases middle with
    | nil => simpa using he [] e after hm.symm
    | cons d middle =>
      cases hm
      exact (h before e middle rfl).append events

theorem Orderly.concat {log : List Event} (h : Orderly log) {e : Event} (he : Fits log e []) :
    Orderly (log ++ [e]) := by
  apply h.append
  intro before d after hs
  cases before with
  | nil =>
    cases hs
    rwa [List.append_nil]
  | cons b bs => simp at hs

end Log

end TableGraph.Extraction
