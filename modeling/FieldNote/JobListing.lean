import FieldNote.JobsService
import FieldNote.KeysetPages
import Mathlib.Data.Prod.Lex
import Mathlib.Data.String.Basic

/-!
# Listing jobs

`GET /jobs` with its cursor, and the client's loop over the pages. The cursor is looked up
by its id alone; the page holds the rows in scope at or after its position, less the first.
-/
namespace FieldNote
open KeysetPages

/-- Where a job stands in the listing: by its creation time, ties by the id, descending. -/
def Job.position (job : Job) : ℕ ×ₗ String := toLex (job.createdAt, job.id)

def JobDto.position (dto : JobDto) : ℕ ×ₗ String := toLex (dto.createdAt, dto.id)

structure JobPage where
  items : List JobDto
  nextCursor : Option String
deriving DecidableEq

/-- The live jobs of a user, latest first. -/
def Stores.liveJobs (s : Stores) (userId : String) : List Job :=
  listing Job.position (s.jobs.rows.filter fun job => job.inScope userId)

/-- An empty cursor counts as none, and a UUID without a row gives an empty page. The query fails
at any other text, as `UserIsolation.cursorId` has it. -/
def Stores.listScoped (s : Stores) (userId : String) (cursor : Option String) (limit : ℕ) :
    List Job :=
  match cursor.filter (· ≠ "") with
  | none => (s.liveJobs userId).take limit
  | some id =>
      match s.findById id with
      | none => []
      | some row =>
          (((s.liveJobs userId).filter fun job => job.position ≤ row.position).drop 1).take limit

/-- A page holds rows in scope. -/
theorem Stores.mem_listScoped {s : Stores} {userId : String} {cursor : Option String} {limit : ℕ}
    {row : Job} (h : row ∈ s.listScoped userId cursor limit) :
    row ∈ s.jobs.rows ∧ row.inScope userId = true := by
  have hlive : row ∈ s.liveJobs userId := by
    unfold Stores.listScoped at h
    split at h
    · exact List.mem_of_mem_take h
    · split at h
      · cases h
      · exact (List.mem_filter.mp (List.mem_of_mem_drop (List.mem_of_mem_take h))).1
  exact List.mem_filter.mp (mem_listing.mp hlive)

/-- `GET /jobs`. -/
def JobsService.list (s : Stores) (userId : String) (cursor : Option String) (limit : ℕ) :
    JobPage :=
  let jobs := s.listScoped userId cursor limit
  ⟨jobs.map fun job => jobToDto job none,
    if jobs.length = limit then jobs.getLast?.map Job.id else none⟩

end FieldNote
