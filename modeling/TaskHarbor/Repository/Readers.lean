import TaskHarbor.Repository.Postgres

/-! `list_with_owner` and `get_with_owner` statement by statement. Each statement of a reader sees
the database of its own moment: one for the job rows, then two for each row. -/
namespace TaskHarbor

open Relational Transaction

/-- `try_into_record` of a row, with the artifacts and the attempts of two later moments. -/
def readJobAcross (atArtifacts atAttempts : Db) (row : JobRow) :
    Except RepositoryError JobRecord := do
  let artifacts ← loadArtifacts atArtifacts row.id
  let attempts ← loadAttempts atAttempts row.id
  row.tryIntoRecord artifacts attempts

/-- `get_with_owner`. -/
def getWithOwnerAcross (id : JobId) (owner : Option ℕ) (moment : ℕ → Db) :
    Except RepositoryError (Option JobRecord) :=
  match ((moment 0).jobs.get? id.get).filter (ownedBy owner) with
  | none => .ok none
  | some row => do
      let record ← readJobAcross (moment 1) (moment 2) row
      return some record

/-- `ORDER BY id`. -/
def jobOrder (a b : JobRow) : Prop := a.id ≤ b.id

instance : DecidableRel jobOrder := fun a b => by
  unfold jobOrder
  infer_instance

/-- The loop of `list_with_owner`. -/
def readJobs (moment : ℕ → Db) : ℕ → List JobRow → Except RepositoryError (List JobRecord)
  | _, [] => .ok []
  | k, row :: rest => do
      let record ← readJobAcross (moment (k + 1)) (moment (k + 2)) row
      let records ← readJobs moment (k + 2) rest
      return record :: records

/-- `list_with_owner`. -/
def listWithOwner (owner : Option ℕ) (moment : ℕ → Db) : Except RepositoryError (List JobRecord) :=
  readJobs moment 0 (((moment 0).jobs.rows.filter (ownedBy owner)).insertionSort jobOrder)

/-- Without a commit in between the statements read one database. -/
theorem getWithOwnerAcross_still (id : JobId) (owner : Option ℕ) (db : Db) :
    getWithOwnerAcross id owner (fun _ => db) = getWithOwner id owner db := rfl

section Loop

variable {moment : ℕ → Db} {record : JobRecord} {records : List JobRecord}

/-- Every listed record was read from a row of the first statement. -/
theorem readJobs_mem {rows : List JobRow} {k : ℕ} (h : readJobs moment k rows = .ok records)
    (hrecord : record ∈ records) : ∃ row ∈ rows, ∃ i, k ≤ i ∧
      readJobAcross (moment (i + 1)) (moment (i + 2)) row = .ok record := by
  induction rows generalizing k records with
  | nil =>
    cases h
    cases hrecord
  | cons row rest ih =>
    obtain ⟨first, hfirst, h⟩ := except_bind_ok.mp h
    obtain ⟨others, hothers, h⟩ := except_bind_ok.mp h
    cases h
    rcases List.mem_cons.mp hrecord with rfl | hrecord
    · exact ⟨row, List.mem_cons_self, k, le_rfl, hfirst⟩
    · obtain ⟨r, hr, i, hi, hread⟩ := ih hothers hrecord
      exact ⟨r, List.mem_cons_of_mem row hr, i, (Nat.le_add_right k 2).trans hi, hread⟩

theorem listWithOwner_mem {owner : Option ℕ} (h : listWithOwner owner moment = .ok records)
    (hrecord : record ∈ records) : ∃ row ∈ (moment 0).jobs, ownedBy owner row = true ∧
      ∃ i, readJobAcross (moment (i + 1)) (moment (i + 2)) row = .ok record := by
  obtain ⟨row, hrow, i, -, hread⟩ := readJobs_mem h hrecord
  have hmem := (List.mem_insertionSort jobOrder).mp hrow
  rw [List.mem_filter] at hmem
  exact ⟨row, hmem.1, hmem.2, i, hread⟩

theorem getWithOwnerAcross_some {id : JobId} {owner : Option ℕ}
    (h : getWithOwnerAcross id owner moment = .ok (some record)) :
    ∃ row ∈ (moment 0).jobs, row.id = id.get ∧ ownedBy owner row = true ∧
      readJobAcross (moment 1) (moment 2) row = .ok record := by
  unfold getWithOwnerAcross at h
  split at h
  · cases h
  · rename_i row hrow
    obtain ⟨hget, howner⟩ := Option.filter_eq_some_iff.mp hrow
    obtain ⟨read, hread, h⟩ := except_bind_ok.mp h
    cases h
    exact ⟨row, Table.mem_of_get? hget, Table.key_of_get? hget, howner, hread⟩

end Loop

end TaskHarbor
