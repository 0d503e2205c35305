import FieldNote.GuardedRuns
import FieldNote.JobRecords
import FieldNote.ReadCommitted

/-!
# Concurrent replacements of one report

`replaceReport` and `replaceReportScoped` statement by statement, over the
`report_sections` and `findings` tables at READ COMMITTED. A delete statement takes its
snapshot, selects rows and then deletes them one by one in any order; the rows of deleted
sections go through the foreign key's cascade. A transaction may fail at any statement (an
unowned job, a deadlock, a lost connection) and is then rolled back.

A transaction is overlooked when no committed transaction's delete of the sections has seen
it committed. The stored tree consists of what the overlooked transactions have inserted.
-/
namespace FieldNote.ReportTransactions
open ReadCommitted GuardedRuns CallPool

structure SectionRow where
  id : String
  jobId : String
  title : String
  sortOrder : ℕ
deriving DecidableEq, Repr

structure FindingRow where
  sectionId : String
  finding : Finding
deriving DecidableEq, Repr

/-- Where a transaction stands, with the positions its running statement has yet to visit
and the sections whose findings have yet to be cascaded to. -/
inductive Pc where
  | findOwned
  | deleteFindings
  | deletingFindings (rows : List ℕ)
  | deleteSections
  | deletingSections (rows : List ℕ) (deleted : List String)
  | cascading (deleted : List String) (rows : List ℕ)
  | createSection (s : ℕ)
  | createFindings (s : ℕ)
  | updateJob
  | commit
  | committed
  | aborted
deriving DecidableEq, Repr

/-- A call of `replaceReportScoped` or of `replaceReport`, with the row ids that the
database will generate for it. -/
structure Request where
  ownerChecked : Bool
  sections : List ReportSectionInput
  rowId : ℕ → ℕ → String

/-- Transactions are numbered; `none` stands for everything before them. -/
abbrev TxId := Option ℕ

/-- A transaction with the snapshots of its two delete statements. -/
structure Tx where
  request : Request
  pc : Pc
  findingsSeen : Snapshot TxId
  sectionsSeen : Snapshot TxId

structure World where
  sections : List (Version TxId SectionRow)
  findings : List (Version TxId FindingRow)
  txs : List Tx

def Pc.outcome : Pc → Outcome
  | .committed => .committed
  | .aborted => .aborted
  | _ => .running

/-- The findings that the running statement has yet to visit. -/
def Pc.findingRows : Pc → List ℕ
  | .deletingFindings rows => rows
  | .cascading _ rows => rows
  | _ => []

/-- The sections that the running statement has yet to visit. -/
def Pc.sectionRows : Pc → List ℕ
  | .deletingSections rows _ => rows
  | _ => []

/-- The deleted sections that the cascade has yet to reach. -/
def Pc.deletedIds : Pc → List String
  | .deletingSections _ deleted => deleted
  | .cascading deleted _ => deleted
  | _ => []

/-- The delete of the sections has begun. -/
def Pc.begun : Pc → Bool
  | .findOwned | .deleteFindings | .deletingFindings _ | .deleteSections | .aborted => false
  | _ => true

/-- The tables before the transactions, with their primary and foreign keys. -/
structure Prior where
  sections : List SectionRow
  findings : List FindingRow
  ids : (sections.map SectionRow.id).Nodup
  refs : ∀ f ∈ findings, ∃ s ∈ sections, s.id = f.sectionId

/-- A transaction before its first statement; only the scoped one checks the owner. -/
def Request.tx (r : Request) : Tx :=
  ⟨r, if r.ownerChecked then .findOwned else .deleteFindings, fun _ => false, fun _ => false⟩

def start (prior : Prior) (requests : List Request) : World where
  sections := prior.sections.map fun row => ⟨row, none, none⟩
  findings := prior.findings.map fun row => ⟨row, none, none⟩
  txs := requests.map Request.tx

namespace World

def outcome (w : World) : TxId → Outcome
  | none => .committed
  | some i =>
      match w.txs[i]? with
      | some t => t.pc.outcome
      | none => .aborted

def put (w : World) (i : ℕ) (t : Tx) : World := { w with txs := w.txs.set i t }

def goto (w : World) (i : ℕ) (t : Tx) (pc : Pc) : World := w.put i { t with pc := pc }

end World

inductive Action where
  | next (i : ℕ)
  | visit (i k : ℕ)
  | abort (i : ℕ)
deriving DecidableEq, Repr

section
variable (jobId : String)

/-- `where: { section: { jobId } }`. -/
def ofJob (w : World) (seen : Snapshot TxId) (me : TxId) (v : Version TxId FindingRow) : Bool :=
  w.sections.any fun u => u.visible seen me && u.row.id = v.row.sectionId && u.row.jobId = jobId

/-- The next statement of transaction `i`, or the end of a delete statement that has no rows
left. An insertion under an id that is taken fails. -/
def next (w : World) (i : ℕ) (t : Tx) : Option World :=
  let seen := snapshot w.outcome
  match t.pc with
  | .findOwned => some (w.goto i t .deleteFindings)
  | .deleteFindings =>
      let rows := matching w.findings fun v =>
        v.visible seen (some i) && ofJob jobId w seen (some i) v
      some (w.put i { t with
        pc := .deletingFindings rows
        findingsSeen := seen })
  | .deletingFindings rows => if rows = [] then some (w.goto i t .deleteSections) else none
  | .deleteSections =>
      let rows := matching w.sections fun u => u.visible seen (some i) && u.row.jobId = jobId
      some (w.put i { t with
        pc := .deletingSections rows []
        sectionsSeen := seen })
  | .deletingSections rows deleted =>
      if rows = [] then some (w.goto i t (.cascading deleted [])) else none
  | .cascading deleted rows =>
      if rows = [] then
        match deleted with
        | [] => some (w.goto i t (.createSection 0))
        | id :: rest =>
            some (w.goto i t (.cascading rest (matching w.findings fun v =>
              v.visible seen (some i) && v.row.sectionId = id)))
      else none
  | .createSection s =>
      match t.request.sections[s]? with
      | none => some (w.goto i t (if t.request.ownerChecked then .updateJob else .commit))
      | some sec =>
          let row : SectionRow := ⟨t.request.rowId s 0, jobId, sec.title, s⟩
          if w.sections.any fun u => u.row.id = row.id then none
          else some { w.goto i t (.createFindings s) with
            sections := w.sections ++ [row].map fun row => ⟨row, some i, none⟩ }
  | .createFindings s =>
      t.request.sections[s]?.map fun sec =>
        let rows := insertFindings (fun k => t.request.rowId s (k + 1)) sec.findings
        { w.goto i t (.createSection (s + 1)) with
          findings := w.findings ++
            (rows.map fun f => ⟨t.request.rowId s 0, f⟩).map fun row => ⟨row, some i, none⟩ }
  | .updateJob => some (w.goto i t .commit)
  | .commit => some (w.goto i t .committed)
  | .committed => none
  | .aborted => none

/-- Deletion of a finding that the running statement of transaction `i` selected. -/
def deleteFinding (w : World) (i k : ℕ) (t : Tx) (pc : Pc) : Option World :=
  w.findings[k]?.bind fun v =>
    (v.delete w.outcome (some i)).map fun v' =>
      { w.goto i t pc with findings := w.findings.set k v' }

/-- Transaction `i` visits row `k` of its running delete statement. -/
def visit (w : World) (i k : ℕ) (t : Tx) : Option World :=
  match t.pc with
  | .deletingFindings rows =>
      if k ∈ rows then deleteFinding w i k t (.deletingFindings (rows.erase k)) else none
  | .deletingSections rows deleted =>
      if k ∈ rows then
        w.sections[k]?.bind fun u =>
          (u.delete w.outcome (some i)).map fun u' =>
            { w.goto i t (.deletingSections (rows.erase k)
                (if u'.deleter = some (some i) then deleted ++ [u.row.id] else deleted)) with
              sections := w.sections.set k u' }
      else none
  | .cascading deleted rows =>
      if k ∈ rows then deleteFinding w i k t (.cascading deleted (rows.erase k)) else none
  | _ => none

def step (w : World) : Action → Option World
  | .next i => w.txs[i]?.bind fun t => next jobId w i t
  | .visit i k => w.txs[i]?.bind fun t => visit w i k t
  | .abort i =>
      w.txs[i]?.bind fun t =>
        if t.pc.outcome = .running then some (w.goto i t .aborted) else none

/-- Sections with the findings that refer to them. -/
def tree (sections : List SectionRow) (findings : List FindingRow) : List ReportSection :=
  sections.map fun s => ⟨s.id, s.title, s.sortOrder,
    (findings.filter fun f => f.sectionId = s.id).map FindingRow.finding⟩

/-- The committed tree of the job, in table order. -/
def persisted (w : World) : List ReportSection :=
  tree ((liveRows w.outcome w.sections).filter fun s => s.jobId = jobId)
    (liveRows w.outcome w.findings)

end

variable {jobId : String} {w w' : World}

/-- The transitions that touch no row. -/
inductive Moves (w : World) (i : ℕ) (t : Tx) : Pc → Prop where
  | owned (pc : t.pc = .findOwned) : Moves w i t .deleteFindings
  | visited (pc : t.pc = .deletingFindings []) : Moves w i t .deleteSections
  | triggers (deleted : List String) (pc : t.pc = .deletingSections [] deleted) :
      Moves w i t (.cascading deleted [])
  | cascades (id : String) (rest : List String) (pc : t.pc = .cascading (id :: rest) []) :
      Moves w i t (.cascading rest (matching w.findings fun v =>
        v.visible (snapshot w.outcome) (some i) && v.row.sectionId = id))
  | cleared (pc : t.pc = .cascading [] []) : Moves w i t (.createSection 0)
  | inserted (s : ℕ) (pc : t.pc = .createSection s) (last : t.request.sections[s]? = none) :
      Moves w i t (if t.request.ownerChecked then .updateJob else .commit)
  | updated (pc : t.pc = .updateJob) : Moves w i t .commit
  | commits (pc : t.pc = .commit) : Moves w i t .committed
  | aborts (running : t.pc.outcome = .running) : Moves w i t .aborted

/-- A visit to a row takes it off the list of the running statement. -/
inductive Visits (k : ℕ) : Pc → Pc → Prop where
  | selected (rows : List ℕ) :
      Visits k (.deletingFindings rows) (.deletingFindings (rows.erase k))
  | cascaded (deleted : List String) (rows : List ℕ) :
      Visits k (.cascading deleted rows) (.cascading deleted (rows.erase k))

/-- Everything one step can do. -/
inductive Effect (jobId : String) (w : World) : World → Prop where
  | moved (i : ℕ) (t : Tx) (pc : Pc) (tx : w.txs[i]? = some t) (moves : Moves w i t pc) :
      Effect jobId w (w.goto i t pc)
  | sawFindings (i : ℕ) (t : Tx) (tx : w.txs[i]? = some t) (pc : t.pc = .deleteFindings) :
      Effect jobId w (w.put i { t with
        pc := .deletingFindings (matching w.findings fun v =>
          v.visible (snapshot w.outcome) (some i) &&
            ofJob jobId w (snapshot w.outcome) (some i) v)
        findingsSeen := snapshot w.outcome })
  | sawSections (i : ℕ) (t : Tx) (tx : w.txs[i]? = some t) (pc : t.pc = .deleteSections) :
      Effect jobId w (w.put i { t with
        pc := .deletingSections (matching w.sections fun u =>
          u.visible (snapshot w.outcome) (some i) && u.row.jobId = jobId) []
        sectionsSeen := snapshot w.outcome })
  | deletedFinding (i k : ℕ) (t : Tx) (pc : Pc) (v v' : Version TxId FindingRow)
      (tx : w.txs[i]? = some t) (visits : Visits k t.pc pc) (mem : k ∈ t.pc.findingRows)
      (row : w.findings[k]? = some v) (delete : v.delete w.outcome (some i) = some v') :
      Effect jobId w { w.goto i t pc with findings := w.findings.set k v' }
  | deletedSection (i k : ℕ) (t : Tx) (rows : List ℕ) (deleted : List String)
      (u u' : Version TxId SectionRow) (tx : w.txs[i]? = some t)
      (pc : t.pc = .deletingSections rows deleted) (mem : k ∈ rows)
      (row : w.sections[k]? = some u) (delete : u.delete w.outcome (some i) = some u') :
      Effect jobId w { w.goto i t (.deletingSections (rows.erase k)
          (if u'.deleter = some (some i) then deleted ++ [u.row.id] else deleted)) with
        sections := w.sections.set k u' }
  | createdSection (i s : ℕ) (t : Tx) (sec : ReportSectionInput) (tx : w.txs[i]? = some t)
      (pc : t.pc = .createSection s) (input : t.request.sections[s]? = some sec)
      (free : ∀ u ∈ w.sections, u.row.id ≠ t.request.rowId s 0) :
      Effect jobId w { w.goto i t (.createFindings s) with
        sections := w.sections ++
          [SectionRow.mk (t.request.rowId s 0) jobId sec.title s].map
            fun row => ⟨row, some i, none⟩ }
  | createdFindings (i s : ℕ) (t : Tx) (sec : ReportSectionInput) (tx : w.txs[i]? = some t)
      (pc : t.pc = .createFindings s) (input : t.request.sections[s]? = some sec) :
      Effect jobId w { w.goto i t (.createSection (s + 1)) with
        findings := w.findings ++
          ((insertFindings (fun k => t.request.rowId s (k + 1)) sec.findings).map fun f =>
            (⟨t.request.rowId s 0, f⟩ : FindingRow)).map fun row => ⟨row, some i, none⟩ }

theorem deleteFinding_effect {i k : ℕ} {t : Tx} {pc : Pc} (hi : w.txs[i]? = some t)
    (hvisit : Visits k t.pc pc) (hk : k ∈ t.pc.findingRows)
    (hs : deleteFinding w i k t pc = some w') : Effect jobId w w' := by
  obtain ⟨v, hv, hs⟩ := Option.bind_eq_some_iff.mp hs
  obtain ⟨v', hv', rfl⟩ := Option.map_eq_some_iff.mp hs
  exact .deletedFinding i k t pc v v' hi hvisit hk hv hv'

theorem next_effect {i : ℕ} {t : Tx} (hi : w.txs[i]? = some t)
    (hs : next jobId w i t = some w') : Effect jobId w w' := by
  unfold next at hs
  dsimp only at hs
  split at hs
  · rename_i hpc
    cases hs
    exact .moved i t _ hi (.owned hpc)
  · rename_i hpc
    cases hs
    exact .sawFindings i t hi hpc
  · rename_i rows hpc
    split_ifs at hs with hrows
    subst hrows
    cases hs
    exact .moved i t _ hi (.visited hpc)
  · rename_i hpc
    cases hs
    exact .sawSections i t hi hpc
  · rename_i rows deleted hpc
    split_ifs at hs with hrows
    subst hrows
    cases hs
    exact .moved i t _ hi (.triggers deleted hpc)
  · rename_i deleted rows hpc
    split_ifs at hs with hrows
    subst hrows
    split at hs
    · cases hs
      exact .moved i t _ hi (.cleared hpc)
    · rename_i id rest
      cases hs
      exact .moved i t _ hi (.cascades id rest hpc)
  · rename_i s hpc
    split at hs
    · rename_i hlast
      cases hs
      exact .moved i t _ hi (.inserted s hpc hlast)
    · rename_i sec hsec
      split_ifs at hs with htaken
      cases hs
      refine .createdSection i s t sec hi hpc hsec ?_
      simpa using htaken
  · rename_i s hpc
    obtain ⟨sec, hsec, rfl⟩ := Option.map_eq_some_iff.mp hs
    exact .createdFindings i s t sec hi hpc hsec
  · rename_i hpc
    cases hs
    exact .moved i t _ hi (.updated hpc)
  · rename_i hpc
    cases hs
    exact .moved i t _ hi (.commits hpc)
  · cases hs
  · cases hs

theorem visit_effect {i k : ℕ} {t : Tx} (hi : w.txs[i]? = some t)
    (hs : visit w i k t = some w') : Effect jobId w w' := by
  unfold visit at hs
  split at hs
  · rename_i rows hpc
    split_ifs at hs with hk
    refine deleteFinding_effect hi ?_ ?_ hs
    · rw [hpc]
      exact .selected rows
    · rwa [hpc]
  · rename_i rows deleted hpc
    split_ifs at hs with hk
    obtain ⟨u, hu, hs⟩ := Option.bind_eq_some_iff.mp hs
    obtain ⟨u', hu', rfl⟩ := Option.map_eq_some_iff.mp hs
    exact .deletedSection i k t rows deleted u u' hi hpc hk hu hu'
  · rename_i deleted rows hpc
    split_ifs at hs with hk
    refine deleteFinding_effect hi ?_ ?_ hs
    · rw [hpc]
      exact .cascaded deleted rows
    · rwa [hpc]
  · cases hs

theorem step_effect {a : Action} (hs : step jobId w a = some w') : Effect jobId w w' := by
  cases a with
  | next i =>
      obtain ⟨t, hi, hs⟩ := Option.bind_eq_some_iff.mp hs
      exact next_effect hi hs
  | visit i k =>
      obtain ⟨t, hi, hs⟩ := Option.bind_eq_some_iff.mp hs
      exact visit_effect hi hs
  | abort i =>
      obtain ⟨t, hi, hs⟩ := Option.bind_eq_some_iff.mp hs
      split_ifs at hs with hrun
      cases hs
      exact .moved i t .aborted hi (.aborts hrun)

end FieldNote.ReportTransactions
