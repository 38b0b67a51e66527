import TableGraph.Extraction.Reading
import TableGraph.Proofs.Definition.Table

namespace TableGraph.Extraction

open Definition

abbrev Outcome := Except Malformed Directive

def command? (statement : Tree) : Option String :=
  if statement.isTagged "command" then (statement.child? 0).bind Tree.tokenText? else none

def blockCommand? (statement : Tree) : Option String :=
  if statement.isTagged "method_add_block" then (statement.child? 0).bind command? else none

theorem command?_eq_some {statement : Tree} {name : String} : command? statement = some name ↔
    statement.isTagged "command" ∧ (statement.child? 0).bind Tree.tokenText? = some name := by
  simp [command?]

theorem blockCommand?_eq_some {statement : Tree} {name : String} :
    blockCommand? statement = some name ↔ statement.isTagged "method_add_block" ∧
      ∃ command, statement.child? 0 = some command ∧ command? command = some name := by
  simp [blockCommand?, Option.bind_eq_some_iff]

def Creates (statement : Tree) : Prop :=
  command? statement = some "create_table" ∨ blockCommand? statement = some "create_table"

def Refers (statement : Tree) : Prop := command? statement = some "add_foreign_key"

inductive Says (statement : Tree) : Outcome → Prop
  | create : Creates statement → t.references = none → Says statement (.ok (.create t))
  | reference : Refers statement → ForeignKey statement source target →
      Says statement (.ok (.reference source target))
  | malformed : Creates statement ∨ Refers statement → Says statement (.error m)
  | other : ¬Creates statement → ¬Refers statement → Says statement (.ok .other)

theorem eq_of_readHeader {command : Tree} {t : Table}
    (h : Definition.readHeader command = .ok t) : t = { name := t.name, comment := t.comment } := by
  simp only [Definition.readHeader, bind_eq_ok, pure_eq_ok] at h
  obtain ⟨_, _, _, _, _, _, _, _, h⟩ := h
  cases h
  rfl

theorem references_readHeader {command : Tree} {t : Table}
    (h : Definition.readHeader command = .ok t) : t.references = none := by
  rw [eq_of_readHeader h]

theorem ofTable_eq_ok {call statement : Tree} {d : Directive} :
    (Reading.ofTable call statement).outcome = .ok d ↔
      ∃ header statements columns, readHeader call = .ok header ∧
        blockStatements (.columnOf header.name) statement = .ok statements ∧
        readColumns (.columnOf header.name) statements = (columns, none) ∧
        .create { header with columns := columns } = d := by
  rw [Reading.ofTable]
  constructor
  · intro h
    split at h
    · cases h
    next header hh =>
      split at h
      · cases h
      next statements hs =>
        generalize hr : readColumns (.columnOf header.name) statements = r at h
        obtain ⟨columns, fault⟩ := r
        cases fault with
        | some m => cases h
        | none =>
          cases h
          exact ⟨header, statements, columns, hh, hs, hr, rfl⟩
  · rintro ⟨header, statements, columns, hh, hs, hr, rfl⟩
    simp only [hh, hs, hr]

theorem says_ofTable {statement : Tree} (hs : Creates statement) (call : Tree) :
    Says statement (Reading.ofTable call statement).outcome := by
  rw [Reading.ofTable]
  split
  · exact .malformed (.inl hs)
  next t ht =>
    split
    · exact .malformed (.inl hs)
    · simp only
      split
      · exact .malformed (.inl hs)
      · have hr : t.references = none := references_readHeader ht
        exact .create hs hr

theorem says_ofCommand {statement : Tree} (hs : statement.tag? = some "command") :
    Says statement (Reading.ofCommand statement).outcome := by
  have hb : blockCommand? statement = none := by simp [blockCommand?, Tree.isTagged, hs]
  have hc : command? statement = (statement.child? 0).bind Tree.tokenText? := by
    simp [command?, Tree.isTagged, hs]
  rw [Reading.ofCommand, ← hc]
  split
  · next hn => exact .other (by simp [Creates, hb, hn]) (by simp [Refers, hn])
  next name hn =>
    split
    · next hk =>
      have hr : Refers statement := by rw [Refers, hn, hk]
      cases hv : readForeignKey statement with
      | error m => exact .malformed (.inr hr)
      | ok v => exact .reference hr (readForeignKey_eq_ok.mp hv)
    split
    · next hk =>
      have hr : Creates statement := .inl (by rw [hn, hk])
      cases ht : readHeader statement with
      | error m => exact .malformed (.inl hr)
      | ok t => exact .create hr (references_readHeader ht)
    · next hf hk => exact .other (by simp [Creates, hb, hn, hk]) (by simp [Refers, hn, hf])

theorem says_ofBlock {statement : Tree} (hs : statement.tag? = some "method_add_block") :
    Says statement (Reading.ofBlock statement).outcome := by
  have hc : command? statement = none := by simp [command?, Tree.isTagged, hs]
  have hb : blockCommand? statement = ((statement.child? 0).filter (·.isTagged "command")).bind
      fun call => (call.child? 0).bind Tree.tokenText? := by
    rw [blockCommand?, Tree.isTagged, hs]
    cases statement.child? 0 with
    | none => rfl
    | some call => cases ht : call.isTagged "command" <;> simp [command?, ht, Option.filter]
  have hr : ¬Refers statement := by simp [Refers, hc]
  rw [Reading.ofBlock]
  split
  · next hf =>
    rw [hf] at hb
    exact .other (by simp [Creates, hc, hb]) hr
  next call hf =>
    rw [hf, Option.bind_some] at hb
    split
    · next hn => exact .other (by simp [Creates, hc, hb, hn]) hr
    next name hn =>
      split
      · next hk => exact says_ofTable (.inr (by rw [hb, hn, hk])) call
      · next hk => exact .other (by simp [Creates, hc, hb, hn, hk]) hr

theorem says_ofStatement (statement : Tree) :
    Says statement (Reading.ofStatement statement).outcome := by
  have ho : ∀ {tag}, statement.tag? = tag → tag ≠ some "command" → tag ≠ some "method_add_block" →
      Says statement (.ok .other) := by
    intro tag ht hc hb
    have hc : command? statement = none := by simp [command?, Tree.isTagged, ht, hc]
    have hb : blockCommand? statement = none := by simp [blockCommand?, Tree.isTagged, ht, hb]
    exact .other (by simp [Creates, hc, hb]) (by simp [Refers, hc])
  rw [Reading.ofStatement]
  split
  · next ht => exact says_ofCommand ht
  · next ht => exact says_ofBlock ht
  · next ht => exact ho ht (by simp) (by simp)
  · next hc hb _ => exact ho rfl hc hb

theorem ofStatement_refers {statement : Tree} (h : Refers statement) :
    Reading.ofStatement statement =
      ⟨[], (readForeignKey statement).map fun (source, target) => .reference source target⟩ := by
  obtain ⟨ht, hn⟩ := command?_eq_some.mp h
  simp [Reading.ofStatement, Tree.isTagged_iff.mp ht, Reading.ofCommand, hn]

def outcomes (statements : List Tree) : List Outcome :=
  statements.map fun s => (Reading.ofStatement s).outcome

def Directive.Bare (d : Directive) : Prop := ∀ t, d = .create t → t.references = none

theorem Says.bare {statement : Tree} {d : Directive} (h : Says statement (.ok d)) : d.Bare := by
  intro t ht
  cases h with
  | create _ hr =>
    cases ht
    exact hr
  | reference => cases ht
  | other => cases ht

theorem bare_of_mem_outcomes {statements : List Tree} {d : Directive}
    (h : .ok d ∈ outcomes statements) : d.Bare := by
  obtain ⟨statement, _, hs⟩ := List.mem_map.mp h
  exact Says.bare (hs ▸ says_ofStatement statement)

end TableGraph.Extraction
