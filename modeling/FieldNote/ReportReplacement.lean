import FieldNote.ReportTransactions

/-!
# What concurrent replacements leave

The rows of a transaction are a prefix of what it was given. Its delete of the sections
reaches exactly the rows whose creators it saw committed, so the committed tree of the job
consists of the rows of the committed transactions that no committed one has seen. It is one
submitted list exactly when at most one of them submitted sections.
-/
namespace FieldNote.ReportReplacement
open ReadCommitted ReportTransactions GuardedRuns CallPool

/-- The section rows of the first `n` sections of a request. -/
def sectionRows (jobId : String) (r : Request) (n : ℕ) : List SectionRow :=
  (r.sections.take n).mapIdx fun s sec => ⟨r.rowId s 0, jobId, sec.title, s⟩

/-- The finding rows of section `s` of a request. -/
def newFindings (r : Request) (s : ℕ) (sec : ReportSectionInput) : List FindingRow :=
  (insertFindings (fun k => r.rowId s (k + 1)) sec.findings).map fun f => ⟨r.rowId s 0, f⟩

/-- The finding rows of the first `n` sections of a request. -/
def findingRows (r : Request) (n : ℕ) : List FindingRow :=
  ((r.sections.take n).mapIdx (newFindings r)).flatten

/-- How many section rows, and of how many sections the findings, are inserted. -/
def inserted (t : Tx) : ℕ × ℕ :=
  match t.pc with
  | .createSection s => (s, s)
  | .createFindings s => (s + 1, s)
  | .updateJob | .commit | .committed => (t.request.sections.length, t.request.sections.length)
  | _ => (0, 0)

/-- What the tables contain, apart from deletions. -/
structure Rows (jobId : String) (w : World) : Prop where
  ids : (w.sections.map fun u => u.row.id).Nodup
  refs : ∀ v ∈ w.findings, ∃ u ∈ w.sections, u.row.id = v.row.sectionId ∧ u.creator = v.creator
  sections : ∀ (i : ℕ) t, w.txs[i]? = some t → t.pc ≠ .aborted →
    createdBy w.sections (some i) = sectionRows jobId t.request (inserted t).1
  findings : ∀ (i : ℕ) t, w.txs[i]? = some t → t.pc ≠ .aborted →
    createdBy w.findings (some i) = findingRows t.request (inserted t).2

variable {jobId : String} {w w' : World}

theorem take_next {s : ℕ} {sec : ReportSectionInput} {sections : List ReportSectionInput}
    (h : sections[s]? = some sec) :
    sections.take (s + 1) = sections.take s ++ [sec] ∧ (sections.take s).length = s := by
  have hlt : s < sections.length := lt_of_getElem? h
  refine ⟨?_, by simp; omega⟩
  rw [List.take_add_one, h]
  rfl

theorem sectionRows_next {r : Request} {s : ℕ} {sec : ReportSectionInput}
    (h : r.sections[s]? = some sec) : sectionRows jobId r (s + 1) =
      sectionRows jobId r s ++ [⟨r.rowId s 0, jobId, sec.title, s⟩] := by
  obtain ⟨htake, hlen⟩ := take_next h
  simp [sectionRows, htake, List.mapIdx_concat, hlen]

theorem findingRows_next {r : Request} {s : ℕ} {sec : ReportSectionInput}
    (h : r.sections[s]? = some sec) :
    findingRows r (s + 1) = findingRows r s ++ newFindings r s sec := by
  obtain ⟨htake, hlen⟩ := take_next h
  simp [findingRows, htake, List.mapIdx_concat, hlen]

theorem sectionRows_last {r : Request} {s : ℕ} (h : r.sections[s]? = none) :
    sectionRows jobId r s = sectionRows jobId r r.sections.length ∧
      findingRows r s = findingRows r r.sections.length := by
  have hle : r.sections.length ≤ s := List.getElem?_eq_none_iff.mp h
  simp [sectionRows, findingRows, List.take_of_length_le hle]

/-- A step that keeps the transaction's request moves from one prefix to the next. -/
theorem moves_rows {i : ℕ} {t : Tx} {pc : Pc} (h : Moves w i t pc) (hpc : pc ≠ .aborted) :
    t.pc ≠ .aborted ∧
      sectionRows jobId t.request (inserted { t with pc := pc }).1 =
        sectionRows jobId t.request (inserted t).1 ∧
      findingRows t.request (inserted { t with pc := pc }).2 =
        findingRows t.request (inserted t).2 := by
  cases h with
  | inserted s pc last =>
      have hlast : sectionRows jobId t.request s =
          sectionRows jobId t.request t.request.sections.length ∧
            findingRows t.request s = findingRows t.request t.request.sections.length :=
        sectionRows_last last
      refine ⟨by simp [pc], ?_⟩
      cases t.request.ownerChecked <;> simp [inserted, pc, hlast.1, hlast.2]
  | aborts running => exact (hpc rfl).elim
  | triggers deleted pc => simp [inserted, pc]
  | cascades id rest pc => simp [inserted, pc]
  | _ pc => simp [inserted, pc]

/-- What a step leaves of the other transactions. -/
theorem tx_cases {i j : ℕ} {t' tj : Tx}
    (hj : (w.put i t').txs[j]? = some tj) : (j = i ∧ tj = t') ∨ (j ≠ i ∧ w.txs[j]? = some tj) :=
  getElem?_set_cases hj

theorem visits_inserted {k : ℕ} {t : Tx} {pc : Pc} (h : Visits k t.pc pc) :
    t.pc ≠ .aborted ∧ inserted { t with pc := pc } = inserted t := by
  generalize hpc : t.pc = pc₀ at h
  cases h with
  | selected rows => simp [inserted, hpc]
  | cascaded deleted rows => simp [inserted, hpc]

/-- A step of transaction `i` that keeps what it has inserted. -/
theorem rows_put {i : ℕ} {t t' : Tx} (h : Rows jobId w) (hi : w.txs[i]? = some t)
    (hsame : t'.pc ≠ .aborted → t.pc ≠ .aborted ∧
      sectionRows jobId t'.request (inserted t').1 = sectionRows jobId t.request (inserted t).1 ∧
      findingRows t'.request (inserted t').2 = findingRows t.request (inserted t).2) :
    Rows jobId (w.put i t') := by
  refine ⟨h.ids, h.refs, ?_, ?_⟩
  · intro j tj hj hpc
    rcases tx_cases hj with ⟨rfl, rfl⟩ | ⟨-, hj⟩
    · rw [(hsame hpc).2.1]
      exact h.sections j t hi (hsame hpc).1
    · exact h.sections j tj hj hpc
  · intro j tj hj hpc
    rcases tx_cases hj with ⟨rfl, rfl⟩ | ⟨-, hj⟩
    · rw [(hsame hpc).2.2]
      exact h.findings j t hi (hsame hpc).1
    · exact h.findings j tj hj hpc

theorem rows_start (prior : Prior) (requests : List Request) :
    Rows jobId (start prior requests) := by
  have hnew : ∀ (i : ℕ) t, (start prior requests).txs[i]? = some t →
      inserted t = (0, 0) := by
    intro i t ht
    simp only [start, List.getElem?_map] at ht
    obtain ⟨r, -, rfl⟩ := Option.map_eq_some_iff.mp ht
    unfold inserted Request.tx
    cases r.ownerChecked <;> rfl
  refine ⟨?_, ?_, ?_, ?_⟩
  · simpa [start, Function.comp_def] using prior.ids
  · intro v hv
    obtain ⟨f, hf, rfl⟩ := List.mem_map.mp hv
    obtain ⟨s, hs, hid⟩ := prior.refs f hf
    exact ⟨⟨s, none, none⟩, List.mem_map.mpr ⟨s, hs, rfl⟩, hid, rfl⟩
  · intro i t ht _
    simp [hnew i t ht, start, createdBy, sectionRows]
  · intro i t ht _
    simp [hnew i t ht, start, createdBy, findingRows]

theorem rows_step (h : Rows jobId w) (he : Effect jobId w w') : Rows jobId w' := by
  cases he with
  | moved i t pc tx moves => exact rows_put h tx fun hpc => moves_rows moves hpc
  | sawFindings i t tx pc => exact rows_put h tx fun _ => by simp [inserted, pc]
  | sawSections i t tx pc => exact rows_put h tx fun _ => by simp [inserted, pc]
  | deletedFinding i k t pc v v' tx visits mem row delete =>
      have hkeep := delete_keeps delete
      obtain ⟨hne, hins⟩ := visits_inserted visits
      have hput : Rows jobId (w.goto i t pc) :=
        rows_put h tx fun _ => ⟨hne, by rw [hins], by rw [hins]⟩
      refine ⟨hput.ids, ?_, hput.sections, ?_⟩
      · intro u hu
        rcases List.mem_or_eq_of_mem_set hu with hu | rfl
        · exact h.refs u hu
        · rw [hkeep.row, hkeep.creator]
          exact h.refs v (List.mem_of_getElem? row)
      · intro j tj hj hpc
        exact (createdBy_set row hkeep).trans (hput.findings j tj hj hpc)
  | deletedSection i k t rows deleted u u' tx pc mem row delete =>
      have hkeep := delete_keeps delete
      have hput : Rows jobId (w.goto i t (.deletingSections (rows.erase k)
          (if u'.deleter = some (some i) then deleted ++ [u.row.id] else deleted))) :=
        rows_put h tx fun _ => by simp [inserted, pc]
      refine ⟨?_, ?_, ?_, hput.findings⟩
      · show ((w.sections.set k u').map fun u => u.row.id).Nodup
        rw [map_set_same row (by rw [hkeep.row])]
        exact h.ids
      · intro v hv
        obtain ⟨u₀, hu₀, hid, hcr⟩ := h.refs v hv
        obtain ⟨u₁, hu₁, hk₁⟩ := (later_set row hkeep).mem hu₀
        exact ⟨u₁, hu₁, by rw [hk₁.row, hid], by rw [hk₁.creator, hcr]⟩
      · intro j tj hj hpc
        exact (createdBy_set row hkeep).trans (hput.sections j tj hj hpc)
  | createdSection i s t sec tx pc input free =>
      have hown := h.sections i t tx (by simp [pc])
      have hfind := h.findings i t tx (by simp [pc])
      simp only [inserted, pc] at hown hfind
      refine ⟨?_, ?_, ?_, ?_⟩
      · simp only [List.map_append, List.map_cons, List.map_nil]
        refine List.nodup_append.mpr ⟨h.ids, by simp, ?_⟩
        intro id hid id' hid' heq
        obtain ⟨u, hu, rfl⟩ := List.mem_map.mp hid
        rw [List.mem_singleton.mp hid'] at heq
        exact free u hu heq
      · intro v hv
        obtain ⟨u, hu, hid⟩ := h.refs v hv
        exact ⟨u, List.mem_append_left _ hu, hid⟩
      · intro j tj hj hpc
        refine (createdBy_append _ _).trans ?_
        rcases tx_cases hj with ⟨rfl, rfl⟩ | ⟨hne, hj⟩
        · rw [if_pos rfl, hown]
          exact (sectionRows_next input).symm
        · rw [if_neg (by simpa using Ne.symm hne), List.append_nil]
          exact h.sections j tj hj hpc
      · intro j tj hj hpc
        rcases tx_cases hj with ⟨rfl, rfl⟩ | ⟨hne, hj⟩
        · exact hfind
        · exact h.findings j tj hj hpc
  | createdFindings i s t sec tx pc input =>
      have hown := h.sections i t tx (by simp [pc])
      have hfind := h.findings i t tx (by simp [pc])
      simp only [inserted, pc] at hown hfind
      refine ⟨h.ids, ?_, ?_, ?_⟩
      · intro v hv
        rcases List.mem_append.mp hv with hv | hv
        · exact h.refs v hv
        · -- the section was inserted just before
          obtain ⟨f, hf, rfl⟩ := List.mem_map.mp hv
          obtain ⟨g, -, rfl⟩ := List.mem_map.mp hf
          have hrow : SectionRow.mk (t.request.rowId s 0) jobId sec.title s ∈
              createdBy w.sections (some i) := by
            rw [hown, sectionRows_next input]
            simp
          obtain ⟨u, hu, hcr, hrow⟩ := mem_createdBy.mp hrow
          exact ⟨u, hu, by rw [hrow], hcr⟩
      · intro j tj hj hpc
        rcases tx_cases hj with ⟨rfl, rfl⟩ | ⟨hne, hj⟩
        · exact hown
        · exact h.sections j tj hj hpc
      · intro j tj hj hpc
        refine (createdBy_append _ _).trans ?_
        rcases tx_cases hj with ⟨rfl, rfl⟩ | ⟨hne, hj⟩
        · rw [if_pos rfl, hfind]
          exact (findingRows_next input).symm
        · rw [if_neg (by simpa using Ne.symm hne), List.append_nil]
          exact h.findings j tj hj hpc

/-- Why transaction `i` may have deleted a finding: its first delete saw the creator
committed, or the section was deleted by its second. -/
def Reason (w : World) (i : ℕ) (t : Tx) (v : Version TxId FindingRow) : Prop :=
  t.findingsSeen v.creator = true ∨
    ∃ u ∈ w.sections, u.row.id = v.row.sectionId ∧ u.deleter = some (some i)

/-- What the delete statements of transaction `i` have done and have yet to do. -/
structure Sweeps (jobId : String) (w : World) (i : ℕ) (t : Tx) : Prop where
  grown : t.pc.begun = true → ∀ c, t.findingsSeen c = true → t.sectionsSeen c = true
  swept : t.pc.begun = true → ∀ (k : ℕ) u, w.sections[k]? = some u → u.row.jobId = jobId →
    t.sectionsSeen u.creator = true → k ∈ t.pc.sectionRows ∨ Gone w.outcome (some i) u
  sectionRows : ∀ k ∈ t.pc.sectionRows, ∃ u, w.sections[k]? = some u ∧
    t.sectionsSeen u.creator = true
  findingRows : ∀ k ∈ t.pc.findingRows, ∃ v, w.findings[k]? = some v ∧ Reason w i t v
  deleted : ∀ id ∈ t.pc.deletedIds, ∃ u ∈ w.sections, u.row.id = id ∧ u.deleter = some (some i)

/-- Who has deleted what. -/
structure Deletions (jobId : String) (w : World) : Prop where
  seen : ∀ (i : ℕ) t c, w.txs[i]? = some t →
    t.findingsSeen c = true ∨ t.sectionsSeen c = true → w.outcome c = .committed
  sweeps : ∀ (i : ℕ) t, w.txs[i]? = some t → t.pc ≠ .aborted → Sweeps jobId w i t
  sections : ∀ u ∈ w.sections, u.deleter ≠ some none ∧ ∀ (j : ℕ) t, u.deleter = some (some j) →
    w.txs[j]? = some t → t.pc ≠ .aborted → t.pc.begun = true ∧ t.sectionsSeen u.creator = true
  findings : ∀ v ∈ w.findings, v.deleter ≠ some none ∧ ∀ (j : ℕ) t, v.deleter = some (some j) →
    w.txs[j]? = some t → t.pc ≠ .aborted → Reason w j t v

theorem outcome_some {i : ℕ} {t : Tx} (hi : w.txs[i]? = some t) :
    w.outcome (some i) = t.pc.outcome := by
  simp [World.outcome, hi]

theorem outcome_ne_aborted {i : ℕ} {t : Tx} (hi : w.txs[i]? = some t) (hpc : t.pc ≠ .aborted) :
    w.outcome (some i) ≠ .aborted := by
  rw [outcome_some hi]
  cases hp : t.pc <;> simp_all [Pc.outcome]

/-- What a step of transaction `i` does to the world, as the others see it. -/
structure Advances (w w' : World) (i : ℕ) (t t' : Tx) : Prop where
  tx : w.txs[i]? = some t
  running : t.pc.outcome = .running
  txs : w'.txs = w.txs.set i t'
  sections : Later w.outcome w.sections w'.sections
  findings : Later w.outcome w.findings w'.findings

section
variable {i : ℕ} {t t' : Tx}

theorem Advances.committed (h : Advances w w' i t t') {c : TxId} (hc : w.outcome c = .committed) :
    w'.outcome c = .committed := by
  cases c with
  | none => rfl
  | some j =>
      have hne : j ≠ i := by
        rintro rfl
        rw [outcome_some h.tx, h.running] at hc
        cases hc
      simp only [World.outcome, h.txs, getElem?_set_other hne]
      exact hc

theorem Advances.gone (h : Advances w w' i t t') {c : TxId} {u u' : Version TxId SectionRow}
    (hgone : Gone w.outcome c u) (hk : Keeps w.outcome u u') (hc : w.outcome c ≠ .aborted) :
    Gone w'.outcome c u' := by
  obtain ⟨d, hd, hd'⟩ := hgone.keep hk hc
  exact ⟨d, hd, hd'.imp_right h.committed⟩

theorem Advances.reason (h : Advances w w' i t t') {j : ℕ} {tj : Tx}
    {v v' : Version TxId FindingRow} (hreason : Reason w j tj v) (hk : Keeps w.outcome v v')
    (hj : w.outcome (some j) ≠ .aborted) : Reason w' j tj v' := by
  rcases hreason with hs | ⟨u, hu, hid, hd⟩
  · exact .inl (by rwa [hk.creator])
  · obtain ⟨u', hu', hku⟩ := h.sections.mem hu
    exact .inr ⟨u', hu', by rw [hku.row, hk.row, hid], hku.deleter _ hd hj⟩

/-- The statements of a transaction are not affected by what the others do. -/
theorem Advances.sweeps (h : Advances w w' i t t') {j : ℕ} {tj : Tx}
    (hseen : ∀ c, tj.sectionsSeen c = true → w.outcome c = .committed)
    (hsw : Sweeps jobId w j tj) (hj : w.outcome (some j) ≠ .aborted) : Sweeps jobId w' j tj := by
  refine ⟨hsw.grown, ?_, ?_, ?_, ?_⟩
  · intro hb k u' hu' hjob hcr
    rcases h.sections.new k u' hu' with ⟨u, hu, hk⟩ | ⟨hrun, -⟩
    · rw [hk.row] at hjob
      rw [hk.creator] at hcr
      exact (hsw.swept hb k u hu hjob hcr).imp_right fun hg => h.gone hg hk hj
    · rw [hseen _ hcr] at hrun
      cases hrun
  · intro k hk
    obtain ⟨u, hu, hcr⟩ := hsw.sectionRows k hk
    obtain ⟨u', hu', hkeep⟩ := h.sections.kept k u hu
    exact ⟨u', hu', by rwa [hkeep.creator]⟩
  · intro k hk
    obtain ⟨v, hv, hreason⟩ := hsw.findingRows k hk
    obtain ⟨v', hv', hkeep⟩ := h.findings.kept k v hv
    exact ⟨v', hv', h.reason hreason hkeep hj⟩
  · intro id hid
    obtain ⟨u, hu, hid, hd⟩ := hsw.deleted id hid
    obtain ⟨u', hu', hkeep⟩ := h.sections.mem hu
    exact ⟨u', hu', by rw [hkeep.row, hid], hkeep.deleter _ hd hj⟩

/-- The invariant of the deletions after a step of transaction `i`, from what the step does
to that transaction and to the rows. -/
theorem Advances.deletions (ha : Advances w w' i t t') (h : Deletions jobId w)
    (hseen : ∀ c, t'.findingsSeen c = true ∨ t'.sectionsSeen c = true → w.outcome c = .committed)
    (hgrow : ∀ c, t.findingsSeen c = true → t'.findingsSeen c = true)
    (hbegun : t'.pc ≠ .aborted → t.pc.begun = true → t'.pc.begun = true ∧
      t'.sectionsSeen = t.sectionsSeen)
    (hsweeps : t'.pc ≠ .aborted → Sweeps jobId w' i t')
    (hsec : ∀ u' ∈ w'.sections, (∃ u ∈ w.sections, u'.deleter = u.deleter ∧
      u'.creator = u.creator) ∨ u'.deleter = none ∨
        (u'.deleter = some (some i) ∧ t'.pc.begun = true ∧ t'.sectionsSeen u'.creator = true))
    (hfind : ∀ v' ∈ w'.findings, (∃ v ∈ w.findings, v'.deleter = v.deleter ∧
      Keeps w.outcome v v') ∨ v'.deleter = none ∨
        (v'.deleter = some (some i) ∧ Reason w' i t' v')) : Deletions jobId w' := by
  have hne : t.pc ≠ .aborted := by
    intro hpc
    have hrun := ha.running
    rw [hpc] at hrun
    cases hrun
  have htx : ∀ {j : ℕ} {tj : Tx}, w'.txs[j]? = some tj →
      (j = i ∧ tj = t') ∨ (j ≠ i ∧ w.txs[j]? = some tj) := by
    intro j tj hj
    rw [ha.txs] at hj
    exact getElem?_set_cases hj
  refine ⟨?_, ?_, ?_, ?_⟩
  · intro j tj c hj hc
    rcases htx hj with ⟨rfl, rfl⟩ | ⟨-, hj⟩
    · exact ha.committed (hseen c hc)
    · exact ha.committed (h.seen j tj c hj hc)
  · intro j tj hj hpc
    rcases htx hj with ⟨rfl, rfl⟩ | ⟨-, hj⟩
    · exact hsweeps hpc
    · exact ha.sweeps (fun c hc => h.seen j tj c hj (.inr hc)) (h.sweeps j tj hj hpc)
        (outcome_ne_aborted hj hpc)
  · intro u' hu'
    rcases hsec u' hu' with ⟨u, hu, hdel, hcr⟩ | hnone | ⟨hme, hb, hcr⟩
    · rw [hdel, hcr]
      refine ⟨(h.sections u hu).1, ?_⟩
      intro j tj hj htj hpc
      rcases htx htj with ⟨rfl, rfl⟩ | ⟨-, htj⟩
      · obtain ⟨hb, hs⟩ := (h.sections u hu).2 j t hj ha.tx hne
        obtain ⟨hb', heq⟩ := hbegun hpc hb
        exact ⟨hb', by rw [heq]; exact hs⟩
      · exact (h.sections u hu).2 j tj hj htj hpc
    · rw [hnone]
      exact ⟨nofun, nofun⟩
    · rw [hme]
      refine ⟨by simp, ?_⟩
      intro j tj hj htj hpc
      cases hj
      rcases htx htj with ⟨-, rfl⟩ | ⟨hji, -⟩
      · exact ⟨hb, hcr⟩
      · exact (hji rfl).elim
  · intro v' hv'
    rcases hfind v' hv' with ⟨v, hv, hdel, hk⟩ | hnone | ⟨hme, hreason⟩
    · rw [hdel]
      refine ⟨(h.findings v hv).1, ?_⟩
      intro j tj hj htj hpc
      rcases htx htj with ⟨rfl, rfl⟩ | ⟨-, htj⟩
      · have hold := ha.reason ((h.findings v hv).2 j t hj ha.tx hne) hk
          (outcome_ne_aborted ha.tx hne)
        exact hold.imp_left (hgrow _)
      · exact ha.reason ((h.findings v hv).2 j tj hj htj hpc) hk (outcome_ne_aborted htj hpc)
    · rw [hnone]
      exact ⟨nofun, nofun⟩
    · rw [hme]
      refine ⟨by simp, ?_⟩
      intro j tj hj htj hpc
      cases hj
      rcases htx htj with ⟨-, rfl⟩ | ⟨hji, -⟩
      · exact hreason
      · exact (hji rfl).elim

/-- The tables stay as they are. -/
theorem kept_sections (h : w'.sections = w.sections) : ∀ u' ∈ w'.sections,
    ∃ u ∈ w.sections, u'.deleter = u.deleter ∧ u'.creator = u.creator :=
  fun u' hu' => ⟨u', h ▸ hu', rfl, rfl⟩

theorem kept_findings (h : w'.findings = w.findings) : ∀ v' ∈ w'.findings,
    ∃ v ∈ w.findings, v'.deleter = v.deleter ∧ Keeps w.outcome v v' :=
  fun v' hv' => ⟨v', h ▸ hv', rfl, .refl v'⟩

/-- A transaction that goes on to `pc`. -/
theorem Sweeps.goto {pc : Pc} (h : Sweeps jobId w i t)
    (hb : pc.begun = true → t.pc.begun = true ∧ t.pc.sectionRows = pc.sectionRows)
    (hs : ∀ k ∈ pc.sectionRows, k ∈ t.pc.sectionRows)
    (hf : ∀ k ∈ pc.findingRows, ∃ v, w.findings[k]? = some v ∧ Reason w i t v)
    (hd : ∀ id ∈ pc.deletedIds, id ∈ t.pc.deletedIds) :
    Sweeps jobId w i { t with pc := pc } := by
  refine ⟨fun hpc => h.grown (hb hpc).1, ?_, fun k hk => h.sectionRows k (hs k hk), hf,
    fun id hid => h.deleted id (hd id hid)⟩
  intro hpc k u hu hjob hcr
  rw [← (hb hpc).2]
  exact h.swept (hb hpc).1 k u hu hjob hcr

theorem moves_sweeps {pc : Pc} (h : Sweeps jobId w i t) (hm : Moves w i t pc)
    (hpc : pc ≠ .aborted) : Sweeps jobId w i { t with pc := pc } := by
  cases hm with
  | owned pc => exact h.goto nofun nofun nofun nofun
  | visited pc => exact h.goto nofun nofun nofun nofun
  | triggers deleted pc =>
      exact h.goto (fun _ => by rw [pc]; exact ⟨rfl, rfl⟩) nofun nofun (by rw [pc]; exact fun _ => id)
  | cascades id rest pc =>
      refine h.goto (fun _ => by rw [pc]; exact ⟨rfl, rfl⟩) nofun ?_ ?_
      · intro k hk
        obtain ⟨v, hv, hp⟩ := mem_matching.mp hk
        obtain ⟨-, hid⟩ := (Bool.and_eq_true _ _).mp hp
        obtain ⟨u, hu, huid, hud⟩ := h.deleted id (by rw [pc]; exact List.mem_cons_self)
        exact ⟨v, hv, .inr ⟨u, hu, by rw [huid, of_decide_eq_true hid], hud⟩⟩
      · rw [pc]
        exact fun _ => List.mem_cons_of_mem _
  | cleared pc => exact h.goto (fun _ => by rw [pc]; exact ⟨rfl, rfl⟩) nofun nofun nofun
  | inserted s pc last =>
      cases t.request.ownerChecked <;>
        exact h.goto (fun _ => by rw [pc]; exact ⟨rfl, rfl⟩) nofun nofun nofun
  | updated pc => exact h.goto (fun _ => by rw [pc]; exact ⟨rfl, rfl⟩) nofun nofun nofun
  | commits pc => exact h.goto (fun _ => by rw [pc]; exact ⟨rfl, rfl⟩) nofun nofun nofun
  | aborts running => exact (hpc rfl).elim

/-- Before its first insertion a transaction owns no rows. -/
theorem creator_ne (hr : Rows jobId w) (hi : w.txs[i]? = some t) (hpc : t.pc ≠ .aborted)
    (hins : inserted t = (0, 0)) : (∀ u ∈ w.sections, u.creator ≠ some i) ∧
      ∀ v ∈ w.findings, v.creator ≠ some i := by
  have hsec := hr.sections i t hi hpc
  have hfind := hr.findings i t hi hpc
  rw [hins] at hsec hfind
  constructor
  · intro u hu hc
    have hmem : u.row ∈ createdBy w.sections (some i) := mem_createdBy.mpr ⟨u, hu, hc, rfl⟩
    simp [hsec, sectionRows] at hmem
  · intro v hv hc
    have hmem : v.row ∈ createdBy w.findings (some i) := mem_createdBy.mpr ⟨v, hv, hc, rfl⟩
    simp [hfind, findingRows] at hmem

/-- What a statement of transaction `i` sees before its first insertion is committed. -/
theorem seen_of_visible {ρ : Type} {seen : Snapshot TxId} {v : Version TxId ρ}
    (hv : v.visible seen (some i) = true) (hne : v.creator ≠ some i) : seen v.creator = true := by
  simp only [Version.visible, Bool.and_eq_true, Bool.or_eq_true, decide_eq_true_eq] at hv
  exact hv.1.resolve_right hne

theorem sawFindings_deletions (hr : Rows jobId w) (h : Deletions jobId w)
    (tx : w.txs[i]? = some t) (pc : t.pc = .deleteFindings) :
    Deletions jobId (w.put i { t with
      pc := .deletingFindings (matching w.findings fun v =>
        v.visible (snapshot w.outcome) (some i) &&
          ofJob jobId w (snapshot w.outcome) (some i) v)
      findingsSeen := snapshot w.outcome }) := by
  have hne : t.pc ≠ .aborted := by simp [pc]
  have hown := creator_ne hr tx hne (by simp [inserted, pc])
  refine Advances.deletions ⟨tx, by rw [pc]; rfl, rfl, .refl _, .refl _⟩ h ?_ ?_ ?_ ?_
    (fun u hu => .inl (kept_sections rfl u hu)) (fun v hv => .inl (kept_findings rfl v hv))
  · rintro c (hc | hc)
    · exact of_decide_eq_true hc
    · exact h.seen i t c tx (.inr hc)
  · exact fun c hc => decide_eq_true (h.seen i t c tx (.inl hc))
  · intro _ hb
    rw [pc] at hb
    cases hb
  · intro _
    refine ⟨nofun, nofun, nofun, ?_, nofun⟩
    intro k hk
    obtain ⟨v, hv, hp⟩ := mem_matching.mp hk
    exact ⟨v, hv, .inl (seen_of_visible ((Bool.and_eq_true _ _).mp hp).1
      (hown.2 v (List.mem_of_getElem? hv)))⟩

theorem sawSections_deletions (hr : Rows jobId w) (h : Deletions jobId w)
    (tx : w.txs[i]? = some t) (pc : t.pc = .deleteSections) :
    Deletions jobId (w.put i { t with
      pc := .deletingSections (matching w.sections fun u =>
        u.visible (snapshot w.outcome) (some i) && u.row.jobId = jobId) []
      sectionsSeen := snapshot w.outcome }) := by
  have hne : t.pc ≠ .aborted := by simp [pc]
  have hown := creator_ne hr tx hne (by simp [inserted, pc])
  have ha : ∀ t', Advances w (w.put i t') i t t' :=
    fun t' => ⟨tx, by rw [pc]; rfl, rfl, .refl _, .refl _⟩
  refine (ha _).deletions h ?_ (fun _ => id) ?_ ?_
    (fun u hu => .inl (kept_sections rfl u hu)) (fun v hv => .inl (kept_findings rfl v hv))
  · rintro c (hc | hc)
    · exact h.seen i t c tx (.inl hc)
    · exact of_decide_eq_true hc
  · intro _ hb
    rw [pc] at hb
    cases hb
  · intro _
    refine ⟨fun _ c hc => decide_eq_true (h.seen i t c tx (.inl hc)), ?_, ?_, nofun, nofun⟩
    · intro _ k u hu hjob hcr
      have hcases : u.visible (snapshot w.outcome) (some i) = true ∨ Gone w.outcome (some i) u :=
        visible_or_gone rfl hcr
      rcases hcases with hvis | hgone
      · exact .inl (mem_matching.mpr ⟨u, hu, by simp [hvis, hjob]⟩)
      · exact .inr ((ha _).gone hgone (.refl u) (outcome_ne_aborted tx hne))
    · intro k hk
      obtain ⟨u, hu, hp⟩ := mem_matching.mp hk
      exact ⟨u, hu, seen_of_visible ((Bool.and_eq_true _ _).mp hp).1
        (hown.1 u (List.mem_of_getElem? hu))⟩

theorem deletedFinding_deletions {k : ℕ} {pc : Pc} {v v' : Version TxId FindingRow}
    (h : Deletions jobId w) (tx : w.txs[i]? = some t) (visits : Visits k t.pc pc)
    (mem : k ∈ t.pc.findingRows) (row : w.findings[k]? = some v)
    (delete : v.delete w.outcome (some i) = some v') :
    Deletions jobId { w.goto i t pc with findings := w.findings.set k v' } := by
  have hpcs : t.pc.outcome = .running ∧ pc.begun = t.pc.begun ∧
      t.pc.sectionRows = pc.sectionRows ∧ (∀ j ∈ pc.findingRows, j ∈ t.pc.findingRows) ∧
        ∀ id ∈ pc.deletedIds, id ∈ t.pc.deletedIds := by
    generalize t.pc = pc₀ at visits
    cases visits with
    | selected rows => exact ⟨rfl, rfl, rfl, fun _ => List.mem_of_mem_erase, fun _ => id⟩
    | cascaded deleted rows => exact ⟨rfl, rfl, rfl, fun _ => List.mem_of_mem_erase, fun _ => id⟩
  obtain ⟨hrun, hbegun, hrows, hfind, hdel⟩ := hpcs
  have hne : t.pc ≠ .aborted := (visits_inserted visits).1
  have hsw := h.sweeps i t tx hne
  have hkeep := delete_keeps delete
  have ha : Advances w { w.goto i t pc with findings := w.findings.set k v' } i t
      { t with pc := pc } := ⟨tx, hrun, rfl, .refl _, later_set row hkeep⟩
  have hgo : Sweeps jobId w i { t with pc := pc } :=
    hsw.goto (fun hb => ⟨hbegun ▸ hb, hrows⟩) (fun j hj => hrows ▸ hj)
      (fun j hj => hsw.findingRows j (hfind j hj)) hdel
  refine ha.deletions h (fun c hc => h.seen i t c tx hc) (fun _ => id)
    (fun _ hb => ⟨hbegun.trans hb, rfl⟩) ?_ (fun u hu => .inl (kept_sections rfl u hu)) ?_
  · intro _
    exact ha.sweeps (fun c hc => h.seen i t c tx (.inr hc)) hgo (outcome_ne_aborted tx hne)
  · intro u hu
    rcases List.mem_or_eq_of_mem_set hu with hu | rfl
    · exact .inl ⟨u, hu, rfl, .refl u⟩
    · rcases (delete_gone delete).2 with rfl | hme
      · exact .inl ⟨u, List.mem_of_getElem? row, rfl, .refl u⟩
      · obtain ⟨v₀, hv₀, hreason⟩ := hsw.findingRows k mem
        rw [row] at hv₀
        cases hv₀
        exact .inr (.inr ⟨hme, ha.reason hreason hkeep (outcome_ne_aborted tx hne)⟩)

theorem deletedSection_deletions {k : ℕ} {rows : List ℕ} {deleted : List String}
    {u u' : Version TxId SectionRow} (h : Deletions jobId w) (tx : w.txs[i]? = some t)
    (pc : t.pc = .deletingSections rows deleted) (mem : k ∈ rows)
    (row : w.sections[k]? = some u) (delete : u.delete w.outcome (some i) = some u') :
    Deletions jobId { w.goto i t (.deletingSections (rows.erase k)
        (if u'.deleter = some (some i) then deleted ++ [u.row.id] else deleted)) with
      sections := w.sections.set k u' } := by
  have hne : t.pc ≠ .aborted := by simp [pc]
  have hout := outcome_ne_aborted tx hne
  have hsw := h.sweeps i t tx hne
  have hkeep := delete_keeps delete
  have hseen : ∀ c, t.sectionsSeen c = true → w.outcome c = .committed :=
    fun c hc => h.seen i t c tx (.inr hc)
  have ha : ∀ pc', Advances w { w.goto i t pc' with sections := w.sections.set k u' } i t
      { t with pc := pc' } :=
    fun pc' => ⟨tx, by rw [pc]; rfl, rfl, later_set row hkeep, .refl _⟩
  obtain ⟨hgone, hmine⟩ := delete_gone delete
  have hb : t.pc.begun = true := by rw [pc]; rfl
  refine (ha _).deletions h (fun c hc => h.seen i t c tx hc) (fun _ => id)
    (fun _ _ => ⟨rfl, rfl⟩) ?_ ?_ (fun v hv => .inl (kept_findings rfl v hv))
  · intro _
    refine ⟨fun _ => hsw.grown hb, ?_, ?_, nofun, ?_⟩
    · intro _ j x hx hjob hcr
      by_cases hjk : j = k
      · subst hjk
        rw [getElem?_set_same row] at hx
        cases hx
        exact .inr ((ha _).gone hgone (.refl u') hout)
      · have hx' : w.sections[j]? = some x := (getElem?_set_other hjk).symm.trans hx
        rcases hsw.swept hb j x hx' hjob hcr with hj | hg
        · rw [pc] at hj
          exact .inl ((List.mem_erase_of_ne hjk).mpr hj)
        · exact .inr ((ha _).gone hg (.refl x) hout)
    · intro j hj
      exact ((ha _).sweeps hseen hsw hout).sectionRows j (by rw [pc]; exact List.mem_of_mem_erase hj)
    · intro id hid
      have hold : ∀ id ∈ deleted, ∃ x ∈ w.sections.set k u', x.row.id = id ∧
          x.deleter = some (some i) :=
        fun id hid => ((ha t.pc).sweeps hseen hsw hout).deleted id (by rw [pc]; exact hid)
      simp only [Pc.deletedIds] at hid
      split_ifs at hid with hme
      · rcases List.mem_append.mp hid with hid | hid
        · exact hold id hid
        · rw [List.mem_singleton.mp hid]
          exact ⟨u', List.mem_of_getElem? (getElem?_set_same row), by rw [hkeep.row], hme⟩
      · exact hold id hid
  · intro x hx
    rcases List.mem_or_eq_of_mem_set hx with hx | rfl
    · exact .inl ⟨x, hx, rfl, rfl⟩
    · rcases hmine with rfl | hme
      · exact .inl ⟨x, List.mem_of_getElem? row, rfl, rfl⟩
      · obtain ⟨u₀, hu₀, hcr⟩ := hsw.sectionRows k (by rw [pc]; exact mem)
        rw [row] at hu₀
        cases hu₀
        exact .inr (.inr ⟨hme, rfl, by rwa [hkeep.creator]⟩)

theorem created_deletions (h : Deletions jobId w) (tx : w.txs[i]? = some t)
    (hpc : t.pc.outcome = .running ∧ t.pc.begun = true ∧ t.pc.sectionRows = [])
    (rows : List SectionRow) (new : List FindingRow) (pc : Pc)
    (hpc' : pc.begun = true ∧ pc.sectionRows = [] ∧ pc.findingRows = [] ∧ pc.deletedIds = []) :
    Deletions jobId { w.goto i t pc with
      sections := w.sections ++ rows.map fun row => ⟨row, some i, none⟩
      findings := w.findings ++ new.map fun row => ⟨row, some i, none⟩ } := by
  have hne : t.pc ≠ .aborted := by
    intro hab
    have hrun := hpc.1
    rw [hab] at hrun
    cases hrun
  have hrun : w.outcome (some i) = .running := (outcome_some tx).trans hpc.1
  have hsw := h.sweeps i t tx hne
  have ha : Advances w { w.goto i t pc with
      sections := w.sections ++ rows.map fun row => ⟨row, some i, none⟩
      findings := w.findings ++ new.map fun row => ⟨row, some i, none⟩ } i t
      { t with pc := pc } := ⟨tx, hpc.1, rfl, later_append hrun, later_append hrun⟩
  have hgo : Sweeps jobId w i { t with pc := pc } := by
    refine hsw.goto (fun _ => ⟨hpc.2.1, hpc.2.2.trans hpc'.2.1.symm⟩) ?_ ?_ ?_
    · simp [hpc'.2.1]
    · simp [hpc'.2.2.1]
    · simp [hpc'.2.2.2]
  refine ha.deletions h (fun c hc => h.seen i t c tx hc) (fun _ => id)
    (fun _ _ => ⟨hpc'.1, rfl⟩) ?_ ?_ ?_
  · intro _
    exact ha.sweeps (fun c hc => h.seen i t c tx (.inr hc)) hgo (outcome_ne_aborted tx hne)
  · intro u hu
    rcases List.mem_append.mp hu with hu | hu
    · exact .inl ⟨u, hu, rfl, rfl⟩
    · obtain ⟨row, -, rfl⟩ := List.mem_map.mp hu
      exact .inr (.inl rfl)
  · intro v hv
    rcases List.mem_append.mp hv with hv | hv
    · exact .inl ⟨v, hv, rfl, .refl v⟩
    · obtain ⟨row, -, rfl⟩ := List.mem_map.mp hv
      exact .inr (.inl rfl)

theorem deletions_step (hr : Rows jobId w) (h : Deletions jobId w) (he : Effect jobId w w') :
    Deletions jobId w' := by
  cases he with
  | moved i t pc tx moves =>
      have hrun : t.pc.outcome = .running := by
        cases moves <;> simp_all [Pc.outcome]
      have hne : t.pc ≠ .aborted := by
        intro hab
        rw [hab] at hrun
        cases hrun
      have ha : Advances w (w.goto i t pc) i t { t with pc := pc } :=
        ⟨tx, hrun, rfl, .refl _, .refl _⟩
      refine ha.deletions h (fun c hc => h.seen i t c tx hc) (fun _ => id) ?_ ?_
        (fun u hu => .inl (kept_sections rfl u hu)) (fun v hv => .inl (kept_findings rfl v hv))
      · intro hpc hb
        refine ⟨?_, rfl⟩
        cases moves <;> simp_all [Pc.begun]
        cases t.request.ownerChecked <;> rfl
      · intro hpc
        exact ha.sweeps (fun c hc => h.seen i t c tx (.inr hc))
          (moves_sweeps (h.sweeps i t tx hne) moves hpc) (outcome_ne_aborted tx hne)
  | sawFindings i t tx pc => exact sawFindings_deletions hr h tx pc
  | sawSections i t tx pc => exact sawSections_deletions hr h tx pc
  | deletedFinding i k t pc v v' tx visits mem row delete =>
      exact deletedFinding_deletions h tx visits mem row delete
  | deletedSection i k t rows deleted u u' tx pc mem row delete =>
      exact deletedSection_deletions h tx pc mem row delete
  | createdSection i s t sec tx pc input free =>
      have hnew := created_deletions h tx (by rw [pc]; exact ⟨rfl, rfl, rfl⟩)
        [⟨t.request.rowId s 0, jobId, sec.title, s⟩] [] (.createFindings s)
        ⟨rfl, rfl, rfl, rfl⟩
      rw [List.map_nil, List.append_nil] at hnew
      exact hnew
  | createdFindings i s t sec tx pc input =>
      have hnew := created_deletions h tx (by rw [pc]; exact ⟨rfl, rfl, rfl⟩) []
        (newFindings t.request s sec) (.createSection (s + 1))
        ⟨rfl, rfl, rfl, rfl⟩
      rw [List.map_nil, List.append_nil] at hnew
      exact hnew

end

/-- A committed transaction that no committed one saw committed when it began to delete the
sections. -/
def Overlooked (w : World) (i : ℕ) (t : Tx) : Prop :=
  w.txs[i]? = some t ∧ t.pc = .committed ∧ ∀ (j : ℕ) tj, w.txs[j]? = some tj →
    tj.pc = .committed → tj.sectionsSeen (some i) = false

/-- The transactions before the first are seen by all, and the last to commit by none. -/
structure Order (w : World) : Prop where
  prior : ∀ (i : ℕ) t, w.txs[i]? = some t → t.pc.begun = true → t.sectionsSeen none = true
  last : (∃ t ∈ w.txs, t.pc = .committed) → ∃ i t, Overlooked w i t

/-- A step moves one running transaction, which keeps its request and then has the same
snapshot of the sections or takes it. -/
theorem effect_tx (he : Effect jobId w w') : ∃ (i : ℕ) (t t' : Tx), w.txs[i]? = some t ∧
    t.pc.outcome = .running ∧ w'.txs = w.txs.set i t' ∧ t'.request = t.request ∧
      ((t'.pc.begun = true → t.pc.begun = true) ∧ t'.sectionsSeen = t.sectionsSeen ∨
        t'.sectionsSeen = snapshot w.outcome) := by
  cases he with
  | moved i t pc tx moves =>
      refine ⟨i, t, _, tx, ?_, rfl, rfl, .inl ⟨?_, rfl⟩⟩
      · cases moves <;> simp_all [Pc.outcome]
      · cases moves <;> simp_all [Pc.begun]
  | sawFindings i t tx pc => exact ⟨i, t, _, tx, by rw [pc]; rfl, rfl, rfl, .inl ⟨nofun, rfl⟩⟩
  | sawSections i t tx pc => exact ⟨i, t, _, tx, by rw [pc]; rfl, rfl, rfl, .inr rfl⟩
  | deletedFinding i k t pc v v' tx visits mem row delete =>
      refine ⟨i, t, _, tx, ?_, rfl, rfl, .inl ⟨?_, rfl⟩⟩
      · generalize t.pc = pc₀ at visits
        cases visits <;> rfl
      · generalize t.pc = pc₀ at visits
        cases visits <;> exact id
  | deletedSection i k t rows deleted u u' tx pc mem row delete =>
      exact ⟨i, t, _, tx, by rw [pc]; rfl, rfl, rfl, .inl ⟨fun _ => by rw [pc]; rfl, rfl⟩⟩
  | createdSection i s t sec tx pc input free =>
      exact ⟨i, t, _, tx, by rw [pc]; rfl, rfl, rfl, .inl ⟨fun _ => by rw [pc]; rfl, rfl⟩⟩
  | createdFindings i s t sec tx pc input =>
      exact ⟨i, t, _, tx, by rw [pc]; rfl, rfl, rfl, .inl ⟨fun _ => by rw [pc]; rfl, rfl⟩⟩

theorem order_step (hd : Deletions jobId w) (h : Order w) (he : Effect jobId w w') :
    Order w' := by
  obtain ⟨i, t, t', hi, hrun, htxs, -, hseen⟩ := effect_tx he
  have hout : w.outcome (some i) = .running := (outcome_some hi).trans hrun
  -- nobody has seen `i` committed
  have hunseen : ∀ (j : ℕ) tj, w.txs[j]? = some tj → tj.sectionsSeen (some i) = false := by
    intro j tj hj
    by_contra hne
    have hcom := hd.seen j tj (some i) hj (.inr (Bool.not_eq_false _ ▸ hne))
    rw [hout] at hcom
    cases hcom
  have hcases : ∀ {j : ℕ} {tj : Tx}, w'.txs[j]? = some tj →
      (j = i ∧ tj = t') ∨ (j ≠ i ∧ w.txs[j]? = some tj) := by
    intro j tj hj
    rw [htxs] at hj
    exact getElem?_set_cases hj
  refine ⟨?_, ?_⟩
  · intro j tj hj hb
    rcases hcases hj with ⟨rfl, rfl⟩ | ⟨-, hj⟩
    · rcases hseen with ⟨hbegun, heq⟩ | heq
      · rw [heq]
        exact h.prior j t hi (hbegun hb)
      · rw [heq]
        rfl
    · exact h.prior j tj hj hb
  · rintro ⟨tj, htj, hpc⟩
    by_cases hcom : t'.pc = .committed
    · refine ⟨i, t', by rw [htxs]; exact getElem?_set_same hi, hcom, ?_⟩
      intro k tk hk hpck
      rcases hcases hk with ⟨rfl, rfl⟩ | ⟨-, hk⟩
      · rcases hseen with ⟨-, heq⟩ | heq
        · rw [heq]
          exact hunseen k t hi
        · rw [heq]
          simp [snapshot, hout]
      · exact hunseen k tk hk
    · obtain ⟨j, hj⟩ := List.mem_iff_getElem?.mp htj
      rcases hcases hj with ⟨rfl, rfl⟩ | ⟨-, hj⟩
      · exact (hcom hpc).elim
      · obtain ⟨k, tk, hk, hpck, hover⟩ := h.last ⟨tj, List.mem_of_getElem? hj, hpc⟩
        have hki : k ≠ i := by
          rintro rfl
          rw [hi] at hk
          cases hk
          rw [hpck] at hrun
          cases hrun
        refine ⟨k, tk, by rw [htxs]; exact (getElem?_set_other hki).trans hk, hpck, ?_⟩
        intro m tm hm hpcm
        rcases hcases hm with ⟨rfl, rfl⟩ | ⟨-, hm⟩
        · exact (hcom hpcm).elim
        · exact hover m tm hm hpcm

/-- Everything that holds of the tables along a run. -/
structure Inv (jobId : String) (w : World) : Prop where
  rows : Rows jobId w
  deletions : Deletions jobId w
  order : Order w

theorem inv_start (prior : Prior) (requests : List Request) :
    Inv jobId (start prior requests) := by
  have htx : ∀ (i : ℕ) t, (start prior requests).txs[i]? = some t → t.pc.begun = false ∧
      t.pc ≠ .committed ∧ t.pc.findingRows = [] ∧ t.pc.sectionRows = [] ∧ t.pc.deletedIds = [] ∧
        ∀ c, t.findingsSeen c = false ∧ t.sectionsSeen c = false := by
    intro i t ht
    simp only [start, List.getElem?_map] at ht
    obtain ⟨r, -, rfl⟩ := Option.map_eq_some_iff.mp ht
    unfold Request.tx
    cases r.ownerChecked <;> exact ⟨rfl, nofun, rfl, rfl, rfl, fun _ => ⟨rfl, rfl⟩⟩
  refine ⟨rows_start prior requests, ⟨?_, ?_, ?_, ?_⟩, ⟨?_, ?_⟩⟩
  · intro i t c ht hc
    have hno := (htx i t ht).2.2.2.2.2 c
    simp [hno.1, hno.2] at hc
  · intro i t ht _
    obtain ⟨hb, -, hf, hs, hd, -⟩ := htx i t ht
    refine ⟨?_, ?_, ?_, ?_, ?_⟩ <;> simp [hb, hf, hs, hd]
  · intro u hu
    obtain ⟨row, -, rfl⟩ := List.mem_map.mp hu
    exact ⟨nofun, nofun⟩
  · intro v hv
    obtain ⟨row, -, rfl⟩ := List.mem_map.mp hv
    exact ⟨nofun, nofun⟩
  · intro i t ht hb
    rw [(htx i t ht).1] at hb
    cases hb
  · rintro ⟨t, ht, hpc⟩
    obtain ⟨i, hi⟩ := List.mem_iff_getElem?.mp ht
    exact ((htx i t hi).2.1 hpc).elim

theorem inv_run {prior : Prior} {requests : List Request}
    (h : Run (step jobId) anyStep (start prior requests) w) : Inv jobId w := by
  refine h.invariant (I := Inv jobId) (inv_start prior requests) ?_
  intro s a t hi _ hs
  have he := step_effect hs
  exact ⟨rows_step hi.rows he, deletions_step hi.rows hi.deletions he,
    order_step hi.deletions hi.order he⟩

/-- A committed section of the job is live exactly when its creator is overlooked; what was
there before is gone once a transaction has committed. -/
theorem live_section (h : Inv jobId w) {u : Version TxId SectionRow} (hu : u ∈ w.sections)
    (hjob : u.row.jobId = jobId) (hsome : ∃ t ∈ w.txs, t.pc = .committed) :
    u.live w.outcome = true ↔ ∃ i t, u.creator = some i ∧ Overlooked w i t := by
  let seen : TxId → Snapshot TxId := fun c =>
    ((c.bind fun j => w.txs[j]?).map Tx.sectionsSeen).getD fun _ => false
  have hcom : ∀ c, w.outcome c = .committed → c = none ∨
      ∃ j t, c = some j ∧ w.txs[j]? = some t ∧ t.pc = .committed ∧ seen c = t.sectionsSeen := by
    intro c hc
    cases c with
    | none => exact .inl rfl
    | some j =>
        simp only [World.outcome] at hc
        split at hc
        · rename_i t ht
          refine .inr ⟨j, t, rfl, ht, ?_, ?_⟩
          · cases hp : t.pc <;> simp_all [Pc.outcome]
          · simp only [seen, Option.bind_some, ht, Option.map_some, Option.getD_some]
        · cases hc
  have hswept : ∀ c, w.outcome c = .committed → seen c u.creator = true → Gone w.outcome c u := by
    intro c hc hs
    rcases hcom c hc with rfl | ⟨j, t, rfl, hj, hpc, heq⟩
    · cases hs
    · rw [heq] at hs
      obtain ⟨k, hk⟩ := List.mem_iff_getElem?.mp hu
      have hsw := h.deletions.sweeps j t hj (by simp [hpc])
      rcases hsw.swept (by rw [hpc]; rfl) k u hk hjob hs with hrow | hgone
      · rw [hpc] at hrow
        cases hrow
      · exact hgone
  have hwhy : ∀ c, w.outcome c = .committed → u.deleter = some c → seen c u.creator = true := by
    intro c hc hdel
    rcases hcom c hc with rfl | ⟨j, t, rfl, hj, hpc, heq⟩
    · exact ((h.deletions.sections u hu).1 hdel).elim
    · rw [heq]
      exact ((h.deletions.sections u hu).2 j t hdel hj (by simp [hpc])).2
  rw [live_iff_overlooked hswept hwhy]
  constructor
  · rintro ⟨hcr, hover⟩
    rcases hcom _ hcr with hnone | ⟨i, t, heq, ht, hpc, -⟩
    · obtain ⟨t, ht, hpc⟩ := hsome
      obtain ⟨j, hj⟩ := List.mem_iff_getElem?.mp ht
      have hsees := h.order.prior j t hj (by rw [hpc]; rfl)
      have hno := hover (some j) (by rw [outcome_some hj, hpc]; rfl)
      simp only [seen, Option.bind_some, hj, Option.map_some, Option.getD_some, hnone, hsees] at hno
      cases hno
    · refine ⟨i, t, heq, ht, hpc, ?_⟩
      intro j tj hj hpcj
      have hno := hover (some j) (by rw [outcome_some hj, hpcj]; rfl)
      simpa only [seen, Option.bind_some, hj, Option.map_some, Option.getD_some, heq] using hno
  · rintro ⟨i, t, heq, ht, hpc, hover⟩
    rw [heq]
    refine ⟨by rw [outcome_some ht, hpc]; rfl, ?_⟩
    intro c hc
    rcases hcom c hc with rfl | ⟨j, tj, rfl, hj, hpcj, hs⟩
    · rfl
    · rw [hs]
      exact hover j tj hj hpcj

/-- The findings of an overlooked transaction's section are live, and there are no others. -/
theorem live_finding (h : Inv jobId w) {i : ℕ} {t : Tx} (ht : Overlooked w i t)
    {u : Version TxId SectionRow} (hu : u ∈ w.sections) (hcr : u.creator = some i)
    {v : Version TxId FindingRow} (hv : v ∈ w.findings) (hid : v.row.sectionId = u.row.id) :
    v.live w.outcome = true ↔ v.creator = some i := by
  have hunique : ∀ u' ∈ w.sections, u'.row.id = v.row.sectionId → u' = u :=
    fun u' hu' hid' => List.inj_on_of_nodup_map h.rows.ids hu' hu (hid'.trans hid)
  have hcreator : v.creator = some i := by
    obtain ⟨u', hu', hid', hcr'⟩ := h.rows.refs v hv
    rw [← hcr', hunique u' hu' hid', hcr]
  refine ⟨fun _ => hcreator, fun _ => live_iff.mpr ⟨?_, ?_⟩⟩
  · rw [hcreator, outcome_some ht.1, ht.2.1]
    rfl
  · intro d hd hcom
    cases d with
    | none => exact (h.deletions.findings v hv).1 hd
    | some j =>
        simp only [World.outcome] at hcom
        split at hcom
        · rename_i tj htj
          have hpc : tj.pc = .committed := by
            cases hp : tj.pc <;> simp_all [Pc.outcome]
          have hover := ht.2.2 j tj htj hpc
          rcases (h.deletions.findings v hv).2 j tj hd htj (by simp [hpc]) with hs | ⟨u', hu', hid', hd'⟩
          · have hsees := (h.deletions.sweeps j tj htj (by simp [hpc])).grown (by rw [hpc]; rfl) _ hs
            rw [hcreator, hover] at hsees
            cases hsees
          · have hsees := ((h.deletions.sections u' hu').2 j tj hd' htj (by simp [hpc])).2
            rw [hunique u' hu' hid', hcr, hover] at hsees
            cases hsees
        · cases hcom

theorem tree_congr {rows : List SectionRow} {fs gs : List FindingRow}
    (h : ∀ s ∈ rows, (fs.filter fun f => f.sectionId = s.id) =
      gs.filter fun f => f.sectionId = s.id) : tree rows fs = tree rows gs := by
  unfold tree
  apply List.map_congr_left
  intro s hs
  rw [h s hs]

theorem tree_next {rows : List SectionRow} {row : SectionRow} {fs new : List FindingRow}
    (hrows : ∀ s ∈ rows, s.id ≠ row.id) (hold : ∀ f ∈ fs, f.sectionId ≠ row.id)
    (hnew : ∀ f ∈ new, f.sectionId = row.id) :
    tree (rows ++ [row]) (fs ++ new) = tree rows fs ++
      [⟨row.id, row.title, row.sortOrder, new.map FindingRow.finding⟩] := by
  have hlast : ((fs ++ new).filter fun f => f.sectionId = row.id) = new := by
    rw [List.filter_append, List.filter_eq_nil_iff.mpr, List.filter_eq_self.mpr, List.nil_append]
    · simpa using hnew
    · simpa using hold
  have hfirst : tree rows (fs ++ new) = tree rows fs := by
    apply tree_congr
    intro s hs
    have hnone : (new.filter fun f => f.sectionId = s.id) = [] := by
      rw [List.filter_eq_nil_iff]
      intro f hf
      simpa [hnew f hf] using Ne.symm (hrows s hs)
    rw [List.filter_append, hnone, List.append_nil]
  rw [← hfirst]
  simp only [tree, List.map_append, List.map_cons, List.map_nil, hlast]

theorem newFindings_finding (r : Request) (s : ℕ) (sec : ReportSectionInput) :
    (newFindings r s sec).map FindingRow.finding =
      insertFindings (fun k => r.rowId s (k + 1)) sec.findings := by
  simp [newFindings, Function.comp_def]

/-- The rows of a request make up the tree it was given. -/
theorem tree_request (r : Request) (n : ℕ) (hn : n ≤ r.sections.length)
    (hids : ((sectionRows jobId r n).map SectionRow.id).Nodup) :
    tree (sectionRows jobId r n) (findingRows r n) =
        insertSections r.rowId (r.sections.take n) ∧
      ∀ f ∈ findingRows r n, ∃ s ∈ sectionRows jobId r n, s.id = f.sectionId := by
  induction n with
  | zero => simp [tree, sectionRows, findingRows, insertSections]
  | succ n ih =>
      have hsec : r.sections[n]? = some r.sections[n] := List.getElem?_eq_getElem hn
      rw [sectionRows_next hsec, List.map_append, List.nodup_append] at hids
      obtain ⟨htree, hrefs⟩ := ih (by omega) hids.1
      have hne : ∀ s ∈ sectionRows jobId r n, s.id ≠ r.rowId n 0 :=
        fun s hs => hids.2.2 _ (List.mem_map_of_mem hs) _ (by simp)
      have hnew : ∀ f ∈ newFindings r n r.sections[n], f.sectionId = r.rowId n 0 := by
        intro f hf
        obtain ⟨g, -, rfl⟩ := List.mem_map.mp hf
        rfl
      rw [sectionRows_next hsec, findingRows_next hsec]
      refine ⟨?_, ?_⟩
      · rw [tree_next hne ?_ hnew, htree]
        · obtain ⟨htake, hlen⟩ := take_next hsec
          simp only [insertSections, htake, List.mapIdx_concat, hlen, newFindings_finding]
        · intro f hf
          obtain ⟨s, hs, hid⟩ := hrefs f hf
          rw [← hid]
          exact hne s hs
      · intro f hf
        rcases List.mem_append.mp hf with hf | hf
        · obtain ⟨s, hs, hid⟩ := hrefs f hf
          exact ⟨s, List.mem_append_left _ hs, hid⟩
        · exact ⟨_, List.mem_append_right _ (List.mem_singleton.mpr rfl), (hnew f hf).symm⟩

/-- The committed tree of the job is the list that a transaction was given, under row ids of
the database's choice. -/
def Replaced (jobId : String) (w : World) (t : Tx) : Prop :=
  ∃ rowId, (persisted jobId w).Perm (insertSections rowId t.request.sections)

/-- At most one overlooked transaction was given sections. -/
def OneReplacement (w : World) : Prop :=
  ∀ i j ti tj, Overlooked w i ti → Overlooked w j tj →
    ti.request.sections ≠ [] → tj.request.sections ≠ [] → i = j

theorem sectionRows_committed (h : Inv jobId w) {i : ℕ} {t : Tx} (ht : Overlooked w i t) :
    createdBy w.sections (some i) =
        sectionRows jobId t.request t.request.sections.length ∧
      createdBy w.findings (some i) = findingRows t.request t.request.sections.length := by
  have hsec := h.rows.sections i t ht.1 (by simp [ht.2.1])
  have hfind := h.rows.findings i t ht.1 (by simp [ht.2.1])
  rw [show inserted t = (t.request.sections.length, t.request.sections.length) by
    simp [inserted, ht.2.1]] at hsec hfind
  exact ⟨hsec, hfind⟩

theorem sectionRows_job {r : Request} {n : ℕ} {row : SectionRow}
    (h : row ∈ sectionRows jobId r n) : row.jobId = jobId ∧ r.sections ≠ [] := by
  obtain ⟨k, hk, rfl⟩ := List.mem_mapIdx.mp h
  refine ⟨rfl, ?_⟩
  intro hnil
  simp [hnil] at hk

/-- Where all live sections are those of one overlooked transaction, the tree is its list. -/
theorem replaced_by (h : Inv jobId w) (hsome : ∃ t ∈ w.txs, t.pc = .committed) {i : ℕ} {t : Tx}
    (ht : Overlooked w i t)
    (hone : ∀ j tj, Overlooked w j tj → tj.request.sections ≠ [] → j = i) :
    persisted jobId w = insertSections t.request.rowId t.request.sections := by
  obtain ⟨hsec, hfind⟩ := sectionRows_committed h ht
  have hlive : ∀ u ∈ w.sections, decide (u.row.jobId = jobId) = true →
      (u.live w.outcome = true ↔ u.creator = some i) := by
    intro u hu hjob
    rw [live_section h hu (of_decide_eq_true hjob) hsome]
    constructor
    · rintro ⟨j, tj, hcr, hover⟩
      have hmem : u.row ∈ createdBy w.sections (some j) := mem_createdBy.mpr ⟨u, hu, hcr, rfl⟩
      rw [(sectionRows_committed h hover).1] at hmem
      rw [hcr, hone j tj hover (sectionRows_job hmem).2]
    · exact fun hcr => ⟨i, t, hcr, ht⟩
  have hrows : (liveRows w.outcome w.sections).filter (fun s => s.jobId = jobId) =
      sectionRows jobId t.request t.request.sections.length := by
    rw [liveRows_filter hlive, hsec, List.filter_eq_self]
    exact fun s hs => decide_eq_true (sectionRows_job hs).1
  have hids : ((sectionRows jobId t.request t.request.sections.length).map
      SectionRow.id).Nodup := by
    rw [← hsec, createdBy, List.map_map]
    exact (List.Sublist.map _ List.filter_sublist).nodup h.rows.ids
  have hfindings : ∀ s ∈ sectionRows jobId t.request t.request.sections.length,
      ((liveRows w.outcome w.findings).filter fun f => f.sectionId = s.id) =
        (findingRows t.request t.request.sections.length).filter fun f => f.sectionId = s.id := by
    intro s hs
    rw [← hsec] at hs
    obtain ⟨u, hu, hcr, rfl⟩ := mem_createdBy.mp hs
    rw [← hfind]
    exact liveRows_filter fun v hv hid => live_finding h ht hu hcr hv (of_decide_eq_true hid)
  unfold persisted
  rw [hrows, tree_congr hfindings, (tree_request t.request _ (Nat.le_refl _) hids).1,
    List.take_length]

/-- In every state of every run in which a transaction has committed, the tree of the job is
the list of a committed transaction exactly when at most one transaction that none of the
committed ones has seen was given sections. -/
theorem replacement_iff (jobId : String) (prior : Prior) (requests : List Request) (w : World)
    (hw : Run (step jobId) anyStep (start prior requests) w)
    (hsome : ∃ t ∈ w.txs, t.pc = .committed) :
    (∃ t ∈ w.txs, t.pc = .committed ∧ Replaced jobId w t) ↔ OneReplacement w := by
  have h : Inv jobId w := inv_run hw
  constructor
  · -- two transactions leave two sections with the sort order 0
    rintro ⟨t, -, -, rowId, hperm⟩ i j ti tj hi hj hni hnj
    have hfirst : ∀ {k : ℕ} {tk : Tx}, Overlooked w k tk → tk.request.sections ≠ [] →
        ∃ u ∈ w.sections, u.creator = some k ∧ u.row.sortOrder = 0 ∧
          (u.live w.outcome && decide (u.row.jobId = jobId)) = true := by
      intro k tk hk hne
      have hrow : ∃ row ∈ sectionRows jobId tk.request tk.request.sections.length,
          row.sortOrder = 0 := by
        cases hs : tk.request.sections with
        | nil => exact (hne hs).elim
        | cons sec rest =>
            refine ⟨⟨tk.request.rowId 0 0, jobId, sec.title, 0⟩, ?_, rfl⟩
            simp [sectionRows, hs, List.mapIdx_cons]
      obtain ⟨row, hmem, horder⟩ := hrow
      have hjob := (sectionRows_job hmem).1
      rw [← (sectionRows_committed h hk).1] at hmem
      obtain ⟨u, hu, hcr, rfl⟩ := mem_createdBy.mp hmem
      refine ⟨u, hu, hcr, horder, ?_⟩
      rw [(live_section h hu hjob hsome).mpr ⟨k, tk, hcr, hk⟩, hjob]
      simp
    have horders : ((persisted jobId w).map ReportSection.sortOrder).Nodup := by
      refine (hperm.map _).nodup_iff.mpr ?_
      rw [List.nodup_iff_pairwise_ne, List.pairwise_map, List.pairwise_iff_getElem]
      intro a b ha hb hab
      simp only [insertSections, List.getElem_mapIdx]
      omega
    have hnodup : ((w.sections.filter fun u => decide (u.row.jobId = jobId) &&
        u.live w.outcome).map fun u => u.row.sortOrder).Nodup := by
      simpa [persisted, tree, liveRows, List.filter_map, List.filter_filter,
        Function.comp_def] using horders
    obtain ⟨ui, hui, hcri, hoi, hli⟩ := hfirst hi hni
    obtain ⟨uj, huj, hcrj, hoj, hlj⟩ := hfirst hj hnj
    have heq : ui = uj := by
      refine List.inj_on_of_nodup_map hnodup ?_ ?_ (hoi.trans hoj.symm)
      · exact List.mem_filter.mpr ⟨hui, by rwa [Bool.and_comm]⟩
      · exact List.mem_filter.mpr ⟨huj, by rwa [Bool.and_comm]⟩
    rw [heq, hcrj] at hcri
    exact (Option.some.inj hcri).symm
  · intro hone
    obtain ⟨l, tl, hl⟩ := h.order.last hsome
    have hchoice : ∃ i t, Overlooked w i t ∧
        ∀ j tj, Overlooked w j tj → tj.request.sections ≠ [] → j = i := by
      by_cases hfull : ∃ i t, Overlooked w i t ∧ t.request.sections ≠ []
      · obtain ⟨i, t, ht, hne⟩ := hfull
        exact ⟨i, t, ht, fun j tj hj hnj => hone j i tj t hj ht hnj hne⟩
      · exact ⟨l, tl, hl, fun j tj hj hnj => (hfull ⟨j, tj, hj, hnj⟩).elim⟩
    obtain ⟨i, t, ht, hothers⟩ := hchoice
    refine ⟨t, List.mem_of_getElem? ht.1, ht.2.1, t.request.rowId, ?_⟩
    rw [replaced_by h hsome ht hothers]

/-- A transaction that runs alone replaces the tree. -/
theorem alone_replaces {jobId : String} {prior : Prior} {request : Request} {w : World}
    (hw : Run (step jobId) anyStep (start prior [request]) w)
    (hsome : ∃ t ∈ w.txs, t.pc = .committed) :
    persisted jobId w = insertSections request.rowId request.sections := by
  have h : Inv jobId w := inv_run hw
  have hreq : w.txs.map Tx.request = [request] := by
    refine hw.invariant (I := fun w => w.txs.map Tx.request = [request]) (by rfl) ?_
    intro s a t hi _ hs
    obtain ⟨i, tx, tx', htx, -, htxs, hsame, -⟩ := effect_tx (step_effect hs)
    obtain ⟨hlt, rfl⟩ := List.getElem?_eq_some_iff.mp htx
    rw [htxs, List.map_set, hsame, ← List.getElem_map Tx.request (h := by simpa using hlt),
      List.set_getElem_self]
    exact hi
  obtain ⟨l, tl, hl⟩ := h.order.last hsome
  have hfirst : ∀ j tj, w.txs[j]? = some tj → j = 0 ∧ tj.request = request := by
    intro j tj hj
    have hmap : ([request] : List Request)[j]? = some tj.request := by
      rw [← hreq, List.getElem?_map, hj]
      rfl
    cases j with
    | zero => exact ⟨rfl, (Option.some.inj hmap).symm⟩
    | succ j => simp at hmap
  have htree := replaced_by h hsome hl fun j tj hj _ => by
    rw [(hfirst j tj hj.1).1, (hfirst l tl hl.1).1]
  rwa [(hfirst l tl hl.1).2] at htree

/-- Two replacements of an empty tree. -/
def twoReports : List Request :=
  [⟨false, [⟨"Roof", []⟩], fun _ _ => "row-1"⟩, ⟨true, [⟨"Porch", []⟩], fun _ _ => "row-2"⟩]

def noReport : Prior := ⟨[], [], by simp, by simp⟩

def nexts (i n : ℕ) : List Action := List.replicate n (.next i)

/-- Transaction 0 commits before transaction 1 begins, which deletes its section. -/
def inTurn : List Action := nexts 0 9 ++ nexts 1 4 ++ [.visit 1 0] ++ nexts 1 8

/-- Transaction 1 runs while transaction 0 has yet to commit. -/
def overlapping : List Action := nexts 0 8 ++ nexts 1 11 ++ [.next 0]

theorem replacement_iff_demo :
    ∃ w, Run (step "job-1") anyStep (start noReport twoReports) w ∧
      w.txs.map Tx.pc = [.committed, .committed] ∧
        ((∃ t ∈ w.txs, t.pc = .committed ∧ Replaced "job-1" w t) ↔ OneReplacement w) := by
  have hend : (exec (step "job-1") inTurn (start noReport twoReports)).any
      (fun w => decide (w.txs.map Tx.pc = [.committed, .committed])) = true := by decide
  obtain ⟨w, hw, hp⟩ := exec_any hend
  have hpcs : w.txs.map Tx.pc = [.committed, .committed] := of_decide_eq_true hp
  have hmem : Pc.committed ∈ w.txs.map Tx.pc := by simp [hpcs]
  obtain ⟨t, ht, hpc⟩ := List.mem_map.mp hmem
  exact ⟨w, hw, hpcs, replacement_iff "job-1" noReport twoReports w hw ⟨t, ht, hpc⟩⟩

/-- Neither of two overlapping replacements of an empty tree sees the other's section. -/
theorem overlapping_replacements_merge :
    ¬ ∀ (jobId : String) (prior : Prior) (requests : List Request) (w : World),
      Run (step jobId) anyStep (start prior requests) w → (∀ t ∈ w.txs, t.pc = .committed) →
        (∃ t ∈ w.txs, t.pc = .committed) → ∃ t ∈ w.txs, t.pc = .committed ∧ Replaced jobId w t := by
  intro h
  have hend : (exec (step "job-1") overlapping (start noReport twoReports)).any
      (fun w => decide (w.txs.map (fun t => (t.pc, t.request.sections.length)) =
        [(.committed, 1), (.committed, 1)] ∧ (persisted "job-1" w).length = 2)) = true := by
    decide
  obtain ⟨w, hw, hp⟩ := exec_any hend
  obtain ⟨htxs, hlen⟩ := of_decide_eq_true hp
  have hone : ∀ t ∈ w.txs, t.pc = .committed ∧ t.request.sections.length = 1 := by
    intro t ht
    have hmem := List.mem_map_of_mem (f := fun t => (t.pc, t.request.sections.length)) ht
    rw [htxs] at hmem
    simpa using hmem
  have hsome : ∃ t ∈ w.txs, t.pc = .committed := by
    have hmem : (Pc.committed, 1) ∈ w.txs.map fun t => (t.pc, t.request.sections.length) := by
      simp [htxs]
    obtain ⟨t, ht, -⟩ := List.mem_map.mp hmem
    exact ⟨t, ht, (hone t ht).1⟩
  obtain ⟨t, ht, -, rowId, hperm⟩ :=
    h "job-1" noReport twoReports w hw (fun t ht => (hone t ht).1) hsome
  have hlen' := hperm.length_eq
  rw [hlen, insertSections, List.length_mapIdx, (hone t ht).2] at hlen'
  omega

end FieldNote.ReportReplacement
