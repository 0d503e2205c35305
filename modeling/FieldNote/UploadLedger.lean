import FieldNote.CallPool
import Mathlib.Logic.Function.Basic
import Mathlib.Logic.Relator
import Mathlib.Tactic.SplitIfs

/-!
# The ledger of recordings

What a device must remember so that no recording is lost: a note for each of its calls that
concerns a recording, the pending upload of each job, and the files. A job is created for a
recording under a key of its own and reported once; from then on its upload is pending,
with its file on the disk, until the upload is marked as done or the job is deleted.
-/
namespace FieldNote.UploadLedger
open CallPool

/-- The bookkeeping of a pending upload. -/
structure Upload where
  path : String
  url : String
  contentType : String
  expiresAt : ℕ
deriving DecidableEq, Repr

inductive Note where
  | creating (path key : String)
  | reported (key jobId : String) (upload : Upload)
  | uploading (jobId path : String)
  | uploaded (jobId : String)
  | deleting (jobId : String)
  | other
deriving DecidableEq, Repr

/-- The recording and the key of a call that creates a job. -/
def Note.report : Note → Option (String × String)
  | .creating path key => some (path, key)
  | .reported key _ upload => some (upload.path, key)
  | _ => none

structure Ledger where
  notes : List Note
  uploads : String → Option Upload
  files : List String

def Ledger.empty : Ledger := ⟨[], fun _ => none, []⟩

/-- A call that may start at any time; an upload is started from the bookkeeping. -/
inductive Startable (l : Ledger) : Note → Prop where
  | other : Startable l .other
  | deleting (jobId : String) : Startable l (.deleting jobId)
  | uploading (jobId : String) (upload : Upload) (pending : l.uploads jobId = some upload) :
      Startable l (.uploading jobId upload.path)

/-- The recording and the key are those of no other report. -/
def Ledger.Fresh (l : Ledger) (path key : String) : Prop :=
  ∀ n ∈ l.notes, ∀ path' key', n.report = some (path', key') → path' ≠ path ∧ key' ≠ key

/-- `Keyed jobId key` says that the job was created under the key. -/
inductive Step (Keyed : String → String → Prop) (l : Ledger) : Ledger → Prop where
  | started (new : List Note) (startable : ∀ n ∈ new, Startable l n) :
      Step Keyed l { l with notes := l.notes ++ new }
  | recorded (path key : String) (fresh : l.Fresh path key) :
      Step Keyed l { l with
        notes := l.notes ++ [.creating path key]
        files := path :: l.files }
  | registered (i : ℕ) (key jobId : String) (upload : Upload)
      (note : l.notes[i]? = some (.creating upload.path key)) (keyed : Keyed jobId key) :
      Step Keyed l { l with
        notes := l.notes.set i (.reported key jobId upload) ++ [.uploading jobId upload.path]
        uploads := Function.update l.uploads jobId (some upload) }
  | uploaded (i : ℕ) (jobId path : String) (note : l.notes[i]? = some (.uploading jobId path)) :
      Step Keyed l
        { notes := l.notes.set i (.uploaded jobId)
          uploads := Function.update l.uploads jobId none
          files := l.files.filter (· ≠ path) }
  | finished (i : ℕ) (jobId path : String) (note : l.notes[i]? = some (.uploading jobId path)) :
      Step Keyed l { l with
        notes := l.notes ++ [.uploaded jobId]
        uploads := Function.update l.uploads jobId none }
  | deleted (i : ℕ) (jobId : String) (note : l.notes[i]? = some (.deleting jobId)) :
      Step Keyed l { l with uploads := Function.update l.uploads jobId none }

/-- No two notes report the same recording or the same key. -/
def Separate (notes : List Note) : Prop :=
  ∀ (i j : ℕ) (n n' : Note) (p p' : String × String), notes[i]? = some n → notes[j]? = some n' →
    n.report = some p → n'.report = some p' → p.1 = p'.1 ∨ p.2 = p'.2 → i = j

/-- A reported recording is pending, with its file, unless it is marked or deleted. -/
structure Inv (Keyed : String → String → Prop) (l : Ledger) : Prop where
  separate : Separate l.notes
  keyed : ∀ key jobId upload, .reported key jobId upload ∈ l.notes → Keyed jobId key
  creating : ∀ path key, .creating path key ∈ l.notes → path ∈ l.files
  uploading : ∀ jobId path, .uploading jobId path ∈ l.notes →
    ∃ key upload, .reported key jobId upload ∈ l.notes ∧ upload.path = path
  uploaded : ∀ jobId, .uploaded jobId ∈ l.notes →
    (∃ key upload, .reported key jobId upload ∈ l.notes) ∧ l.uploads jobId = none
  pending : ∀ jobId upload, l.uploads jobId = some upload →
    ∃ key, .reported key jobId upload ∈ l.notes
  reported : ∀ key jobId upload, .reported key jobId upload ∈ l.notes →
    .deleting jobId ∉ l.notes → .uploaded jobId ∉ l.notes →
      l.uploads jobId = some upload ∧ upload.path ∈ l.files

theorem inv_empty (Keyed : String → String → Prop) : Inv Keyed .empty := by
  constructor <;> simp [Ledger.empty, Separate]

variable {Keyed Keyed' : String → String → Prop} {l l' : Ledger}

theorem Inv.mono (h : Inv Keyed l) (himp : ∀ jobId key, Keyed jobId key → Keyed' jobId key) :
    Inv Keyed' l :=
  { h with keyed := fun key jobId upload hn => himp jobId key (h.keyed key jobId upload hn) }

/-- Two reports of one recording are one note. -/
theorem Inv.report_unique (h : Inv Keyed l) {n n' : Note} {p p' : String × String}
    (hn : n ∈ l.notes) (hn' : n' ∈ l.notes) (hp : n.report = some p) (hp' : n'.report = some p')
    (heq : p.1 = p'.1 ∨ p.2 = p'.2) : n = n' := by
  obtain ⟨i, hi⟩ := List.mem_iff_getElem?.mp hn
  obtain ⟨j, hj⟩ := List.mem_iff_getElem?.mp hn'
  have hij := h.separate i j n n' p p' hi hj hp hp' heq
  subst hij
  rw [hi] at hj
  exact Option.some.inj hj

/-- Notes that are replaced or added by others with the same report stay separate. -/
theorem separate_set (h : Inv Keyed l) {i : ℕ} {a b : Note} {new : List Note}
    (hi : l.notes[i]? = some a) (hrep : b.report = a.report)
    (hnew : ∀ n ∈ new, n.report = none) : Separate (l.notes.set i b ++ new) := by
  have hback : ∀ (j : ℕ) (n : Note) (p : String × String),
      (l.notes.set i b ++ new)[j]? = some n → n.report = some p →
        ∃ m, l.notes[j]? = some m ∧ Note.report m = some p := by
    intro j n p hj hp
    rcases getElem?_advance_cases hj with ⟨rfl, rfl⟩ | ⟨-, hj⟩ | ⟨-, hj⟩
    · exact ⟨a, hi, hrep.symm.trans hp⟩
    · exact ⟨n, hj, hp⟩
    · rw [hnew n (List.mem_of_getElem? hj)] at hp
      cases hp
  intro j k n n' p p' hj hk hp hp' heq
  obtain ⟨m, hm, hmp⟩ := hback j n p hj hp
  obtain ⟨m', hm', hmp'⟩ := hback k n' p' hk hp'
  exact h.separate j k m m' p p' hm hm' hmp hmp' heq

theorem separate_append (h : Inv Keyed l) {new : List Note}
    (hnew : ∀ n ∈ new, n.report = none) : Separate (l.notes ++ new) := by
  have hback : ∀ (j : ℕ) (n : Note) (p : String × String), (l.notes ++ new)[j]? = some n →
      n.report = some p → l.notes[j]? = some n := by
    intro j n p hj hp
    rcases Nat.lt_or_ge j l.notes.length with hlt | hge
    · rwa [List.getElem?_append_left hlt] at hj
    · rw [List.getElem?_append_right hge] at hj
      rw [hnew n (List.mem_of_getElem? hj)] at hp
      cases hp
  intro j k n n' p p' hj hk hp hp' heq
  exact h.separate j k n n' p p' (hback j n p hj hp) (hback k n' p' hk hp') hp hp' heq

theorem separate_recorded (h : Inv Keyed l) {path key : String} (hfresh : l.Fresh path key) :
    Separate (l.notes ++ [.creating path key]) := by
  intro j k n n' p p' hj hk hp hp' heq
  rcases getElem?_start_cases hj with ⟨hjl, rfl⟩ | ⟨-, hj⟩ <;>
    rcases getElem?_start_cases hk with ⟨hkl, rfl⟩ | ⟨-, hk⟩
  · exact hjl.trans hkl.symm
  · cases hp
    obtain ⟨hp₁, hp₂⟩ := hfresh n' (List.mem_of_getElem? hk) p'.1 p'.2 hp'
    rcases heq with heq | heq
    · exact (hp₁ heq.symm).elim
    · exact (hp₂ heq.symm).elim
  · cases hp'
    obtain ⟨hp₁, hp₂⟩ := hfresh n (List.mem_of_getElem? hj) p.1 p.2 hp
    rcases heq with heq | heq
    · exact (hp₁ heq).elim
    · exact (hp₂ heq).elim
  · exact h.separate j k n n' p p' hj hk hp hp' heq

theorem Startable.report {n : Note} (h : Startable l n) : n.report = none := by
  cases h <;> rfl

theorem inv_started (h : Inv Keyed l) {new : List Note} (hnew : ∀ n ∈ new, Startable l n) :
    Inv Keyed { l with notes := l.notes ++ new } := by
  have hold : ∀ n ∈ l.notes ++ new, (∀ jobId path, n ≠ .uploading jobId path) →
      (∀ jobId, n ≠ .deleting jobId) → n ≠ .other → n ∈ l.notes := by
    intro n hn hup hdel hother
    rcases List.mem_append.mp hn with hn | hn
    · exact hn
    · cases hnew n hn with
      | other => exact (hother rfl).elim
      | deleting jobId => exact (hdel jobId rfl).elim
      | uploading jobId upload pending => exact (hup jobId upload.path rfl).elim
  constructor
  · exact separate_append h fun n hn => (hnew n hn).report
  · intro key jobId upload hn
    exact h.keyed key jobId upload (hold _ hn (by simp) (by simp) (by simp))
  · intro path key hn
    exact h.creating path key (hold _ hn (by simp) (by simp) (by simp))
  · intro jobId path hn
    rcases List.mem_append.mp hn with hn | hn
    · obtain ⟨key, upload, hrep, hpath⟩ := h.uploading jobId path hn
      exact ⟨key, upload, List.mem_append_left _ hrep, hpath⟩
    · cases hnew _ hn with
      | uploading jobId upload hpending =>
          obtain ⟨key, hrep⟩ := h.pending jobId upload hpending
          exact ⟨key, upload, List.mem_append_left _ hrep, rfl⟩
  · intro jobId hn
    obtain ⟨⟨key, upload, hrep⟩, hnone⟩ :=
      h.uploaded jobId (hold _ hn (by simp) (by simp) (by simp))
    exact ⟨⟨key, upload, List.mem_append_left _ hrep⟩, hnone⟩
  · intro jobId upload hup
    obtain ⟨key, hrep⟩ := h.pending jobId upload hup
    exact ⟨key, List.mem_append_left _ hrep⟩
  · intro key jobId upload hn hdel hup
    exact h.reported key jobId upload (hold _ hn (by simp) (by simp) (by simp))
      (fun hd => hdel (List.mem_append_left _ hd)) fun hu => hup (List.mem_append_left _ hu)

theorem inv_recorded (h : Inv Keyed l) {path key : String} (hfresh : l.Fresh path key) :
    Inv Keyed { l with
      notes := l.notes ++ [.creating path key]
      files := path :: l.files } := by
  have hold : ∀ n ∈ l.notes ++ [.creating path key], (∀ p k, n ≠ .creating p k) →
      n ∈ l.notes := by
    intro n hn hne
    rcases List.mem_append.mp hn with hn | hn
    · exact hn
    · exact (hne path key (List.mem_singleton.mp hn)).elim
  constructor
  · exact separate_recorded h hfresh
  · intro key' jobId upload hn
    exact h.keyed key' jobId upload (hold _ hn (by simp))
  · intro path' key' hn
    rcases List.mem_append.mp hn with hn | hn
    · exact List.mem_cons_of_mem _ (h.creating path' key' hn)
    · cases List.mem_singleton.mp hn
      exact List.mem_cons_self
  · intro jobId path' hn
    obtain ⟨key', upload, hrep, hpath⟩ := h.uploading jobId path' (hold _ hn (by simp))
    exact ⟨key', upload, List.mem_append_left _ hrep, hpath⟩
  · intro jobId hn
    obtain ⟨⟨key', upload, hrep⟩, hnone⟩ := h.uploaded jobId (hold _ hn (by simp))
    exact ⟨⟨key', upload, List.mem_append_left _ hrep⟩, hnone⟩
  · intro jobId upload hup
    obtain ⟨key', hrep⟩ := h.pending jobId upload hup
    exact ⟨key', List.mem_append_left _ hrep⟩
  · intro key' jobId upload hn hdel hup
    obtain ⟨hpending, hfile⟩ := h.reported key' jobId upload (hold _ hn (by simp))
      (fun hd => hdel (List.mem_append_left _ hd)) fun hu => hup (List.mem_append_left _ hu)
    exact ⟨hpending, List.mem_cons_of_mem _ hfile⟩

/-- The job of a call that is still creating is reported by no other call. -/
theorem Inv.creating_fresh (h : Inv Keyed l) (hfun : Relator.RightUnique Keyed)
    {path key key' jobId : String} {upload : Upload} (hkeyed : Keyed jobId key)
    (hn : .creating path key ∈ l.notes) : .reported key' jobId upload ∉ l.notes := by
  intro hn'
  have hkey : key = key' := hfun hkeyed (h.keyed _ _ _ hn')
  have heq := h.report_unique hn hn' rfl rfl (.inr hkey)
  cases heq

theorem inv_registered (h : Inv Keyed l) (hfun : Relator.RightUnique Keyed) {i : ℕ}
    {key jobId : String} {upload : Upload}
    (hi : l.notes[i]? = some (.creating upload.path key)) (hkeyed : Keyed jobId key) :
    Inv Keyed { l with
      notes := l.notes.set i (.reported key jobId upload) ++ [.uploading jobId upload.path]
      uploads := Function.update l.uploads jobId (some upload) } := by
  have hcreating : .creating upload.path key ∈ l.notes := List.mem_of_getElem? hi
  have hfresh : ∀ key' upload', .reported key' jobId upload' ∉ l.notes := fun _ _ =>
    h.creating_fresh hfun hkeyed hcreating
  have hself : .reported key jobId upload ∈
      l.notes.set i (.reported key jobId upload) ++ [.uploading jobId upload.path] :=
    List.mem_append_left _ (List.mem_of_getElem? (getElem?_set_same hi))
  have hkeep : ∀ n ∈ l.notes, n.report = none ∨ (∃ k j u, n = .reported k j u) →
      n ∈ l.notes.set i (.reported key jobId upload) ++ [.uploading jobId upload.path] := by
    rintro n hn hkind
    refine List.mem_append_left _ (mem_set_of_ne hi ?_ hn)
    rintro rfl
    rcases hkind with hkind | ⟨k, j, u, hkind⟩ <;> cases hkind
  have hold : ∀ n ∈ l.notes.set i (.reported key jobId upload) ++ [.uploading jobId upload.path],
      n ≠ .reported key jobId upload → n ≠ .uploading jobId upload.path → n ∈ l.notes := by
    intro n hn hrep hup
    rcases List.mem_append.mp hn with hn | hn
    · rcases List.mem_or_eq_of_mem_set hn with hn | hn
      · exact hn
      · exact (hrep hn).elim
    · exact (hup (List.mem_singleton.mp hn)).elim
  constructor
  · exact separate_set h hi rfl (by simp [Note.report])
  · intro key' jobId' upload' hn
    by_cases heq : Note.reported key' jobId' upload' = .reported key jobId upload
    · cases heq
      exact hkeyed
    · exact h.keyed key' jobId' upload' (hold _ hn heq (by simp))
  · intro path' key' hn
    exact h.creating path' key' (hold _ hn (by simp) (by simp))
  · intro jobId' path' hn
    by_cases heq : Note.uploading jobId' path' = .uploading jobId upload.path
    · cases heq
      exact ⟨key, upload, hself, rfl⟩
    · obtain ⟨key', upload', hrep, hpath⟩ := h.uploading jobId' path' (hold _ hn (by simp) heq)
      exact ⟨key', upload', hkeep _ hrep (.inr ⟨_, _, _, rfl⟩), hpath⟩
  · intro jobId' hn
    obtain ⟨⟨key', upload', hrep⟩, hnone⟩ := h.uploaded jobId' (hold _ hn (by simp) (by simp))
    refine ⟨⟨key', upload', hkeep _ hrep (.inr ⟨_, _, _, rfl⟩)⟩, ?_⟩
    have hj : jobId' ≠ jobId := by
      rintro rfl
      exact hfresh key' upload' hrep
    exact (Function.update_of_ne hj ..).trans hnone
  · intro jobId' upload' hpending
    by_cases hj : jobId' = jobId
    · subst hj
      dsimp only at hpending
      rw [Function.update_self] at hpending
      cases hpending
      exact ⟨key, hself⟩
    · dsimp only at hpending
      rw [Function.update_of_ne hj] at hpending
      obtain ⟨key', hrep⟩ := h.pending jobId' upload' hpending
      exact ⟨key', hkeep _ hrep (.inr ⟨_, _, _, rfl⟩)⟩
  · intro key' jobId' upload' hn hdel hup
    by_cases heq : Note.reported key' jobId' upload' = .reported key jobId upload
    · cases heq
      exact ⟨Function.update_self .., h.creating _ _ hcreating⟩
    · have hrep := hold _ hn heq (by simp)
      obtain ⟨hpending, hfile⟩ := h.reported key' jobId' upload' hrep
        (fun hd => hdel (hkeep _ hd (.inl rfl))) fun hu => hup (hkeep _ hu (.inl rfl))
      have hj : jobId' ≠ jobId := by
        rintro rfl
        exact hfresh key' upload' hrep
      exact ⟨(Function.update_of_ne hj ..).trans hpending, hfile⟩

/-- The upload of a job is marked, by the call that awaited it or by a later one. -/
theorem inv_marked (h : Inv Keyed l) {jobId path : String} {notes : List Note}
    {files : List String} (hnote : .uploading jobId path ∈ l.notes) (hsep : Separate notes)
    (hself : .uploaded jobId ∈ notes)
    (hkeep : ∀ n ∈ l.notes, n ≠ .uploading jobId path → n ∈ notes)
    (hold : ∀ n ∈ notes, n = .uploaded jobId ∨ n ∈ l.notes)
    (hfiles : ∀ file ∈ l.files, file ≠ path → file ∈ files) :
    Inv Keyed ⟨notes, Function.update l.uploads jobId none, files⟩ := by
  obtain ⟨key, upload, hreported, hpath⟩ := h.uploading jobId path hnote
  have hback : ∀ n ∈ notes, n ≠ .uploaded jobId → n ∈ l.notes := by
    intro n hn hne
    rcases hold n hn with rfl | hn
    · exact (hne rfl).elim
    · exact hn
  constructor
  · exact hsep
  · intro key' jobId' upload' hn
    exact h.keyed key' jobId' upload' (hback _ hn (by simp))
  · intro path' key' hn
    have hn' := hback _ hn (by simp)
    refine hfiles path' (h.creating path' key' hn') ?_
    rintro rfl
    have heq := h.report_unique hn' hreported rfl rfl (.inl hpath.symm)
    cases heq
  · intro jobId' path' hn
    obtain ⟨key', upload', hrep, hpath'⟩ := h.uploading jobId' path' (hback _ hn (by simp))
    exact ⟨key', upload', hkeep _ hrep (by simp), hpath'⟩
  · intro jobId' hn
    by_cases hj : jobId' = jobId
    · subst hj
      exact ⟨⟨key, upload, hkeep _ hreported (by simp)⟩, Function.update_self ..⟩
    · obtain ⟨⟨key', upload', hrep⟩, hnone⟩ := h.uploaded jobId' (hback _ hn (by simpa using hj))
      exact ⟨⟨key', upload', hkeep _ hrep (by simp)⟩, (Function.update_of_ne hj ..).trans hnone⟩
  · intro jobId' upload' hpending
    dsimp only at hpending
    by_cases hj : jobId' = jobId
    · rw [hj, Function.update_self] at hpending
      cases hpending
    · rw [Function.update_of_ne hj] at hpending
      obtain ⟨key', hrep⟩ := h.pending jobId' upload' hpending
      exact ⟨key', hkeep _ hrep (by simp)⟩
  · intro key' jobId' upload' hn hdel hup
    have hrep := hback _ hn (by simp)
    have hj : jobId' ≠ jobId := by
      rintro rfl
      exact hup hself
    have hne : upload'.path ≠ path := by
      intro heq
      have hsame := h.report_unique hrep hreported rfl rfl (.inl (heq.trans hpath.symm))
      cases hsame
      exact hj rfl
    obtain ⟨hpending, hfile⟩ := h.reported key' jobId' upload' hrep
      (fun hd => hdel (hkeep _ hd (by simp))) fun hu => hup (hkeep _ hu (by simp))
    exact ⟨(Function.update_of_ne hj ..).trans hpending, hfiles _ hfile hne⟩

theorem inv_deleted (h : Inv Keyed l) {jobId : String} (hnote : .deleting jobId ∈ l.notes) :
    Inv Keyed { l with uploads := Function.update l.uploads jobId none } := by
  refine { h with uploaded := ?_, pending := ?_, reported := ?_ }
  · intro jobId' hn
    obtain ⟨hrep, hnone⟩ := h.uploaded jobId' hn
    refine ⟨hrep, ?_⟩
    dsimp only
    by_cases hj : jobId' = jobId
    · rw [hj, Function.update_self]
    · rw [Function.update_of_ne hj, hnone]
  · intro jobId' upload hpending
    dsimp only at hpending
    by_cases hj : jobId' = jobId
    · rw [hj, Function.update_self] at hpending
      cases hpending
    · rw [Function.update_of_ne hj] at hpending
      exact h.pending jobId' upload hpending
  · intro key jobId' upload hn hdel hup
    have hj : jobId' ≠ jobId := by
      rintro rfl
      exact hdel hnote
    obtain ⟨hpending, hfile⟩ := h.reported key jobId' upload hn hdel hup
    exact ⟨(Function.update_of_ne hj ..).trans hpending, hfile⟩

theorem inv_step (h : Inv Keyed l) (hfun : Relator.RightUnique Keyed)
    (hs : Step Keyed l l') : Inv Keyed l' := by
  cases hs with
  | started new startable => exact inv_started h startable
  | recorded path key fresh => exact inv_recorded h fresh
  | registered i key jobId upload note keyed => exact inv_registered h hfun note keyed
  | uploaded i jobId path note =>
      have hsep : Separate (l.notes.set i (.uploaded jobId) ++ []) :=
        separate_set h note rfl (by simp)
      rw [List.append_nil] at hsep
      refine inv_marked h (List.mem_of_getElem? note) hsep ?_ ?_ ?_ ?_
      · exact List.mem_of_getElem? (getElem?_set_same note)
      · exact fun n hn hne => mem_set_of_ne note hne hn
      · exact fun n hn => (List.mem_or_eq_of_mem_set hn).symm
      · exact fun file hfile hne => List.mem_filter.mpr ⟨hfile, by simpa using hne⟩
  | finished i jobId path note =>
      refine inv_marked h (List.mem_of_getElem? note)
        (separate_append h (by simp [Note.report])) (by simp) ?_ ?_ fun file hfile _ => hfile
      · exact fun n hn _ => List.mem_append_left _ hn
      · intro n hn
        rcases List.mem_append.mp hn with hn | hn
        · exact .inr hn
        · exact .inl (List.mem_singleton.mp hn)
  | deleted i jobId note => exact inv_deleted h (List.mem_of_getElem? note)

end FieldNote.UploadLedger
