import TaskHarbor.Database.Statements
import TaskHarbor.Repository.Maintenance

/-! The rows of one job, as one view of the database. A repository transaction changes the view of
at most one job (the expiry of outputs changes several, each by itself), so the lifecycle is stated
and proved on views. -/
namespace TaskHarbor

open Relational

structure JobView where
  job : Option JobRow
  attempts : List AttemptRow
  inputs : List ArtifactRow
  outputs : List ArtifactRow

def Db.attemptsOf (db : Db) (id : ℕ) : List AttemptRow :=
  db.jobAttempts.rows.filter fun a => a.jobId == id

def Db.artifactsOf (db : Db) (id : ℕ) (kind : ArtifactKind) : List ArtifactRow :=
  db.artifacts.rows.filter fun a => a.jobId == id && a.kind == kind

def Db.view (db : Db) (id : ℕ) : JobView where
  job := db.jobs.get? id
  attempts := db.attemptsOf id
  inputs := db.artifactsOf id .input
  outputs := db.artifactsOf id .output

theorem mem_attemptsOf {db : Db} {id : ℕ} {a : AttemptRow} :
    a ∈ db.attemptsOf id ↔ a ∈ db.jobAttempts ∧ a.jobId = id := by
  simp [Db.attemptsOf, Table.mem_def]

theorem mem_artifactsOf {db : Db} {id : ℕ} {kind : ArtifactKind} {a : ArtifactRow} :
    a ∈ db.artifactsOf id kind ↔ a ∈ db.artifacts ∧ a.jobId = id ∧ a.kind = kind := by
  simp [Db.artifactsOf, Table.mem_def]

/-- The job row `r'` stands for `r`, and nothing else changed. -/
structure JobView.Restates (v v' : JobView) (r r' : JobRow) : Prop where
  job : v.job = some r
  job' : v'.job = some r'
  attempts : v'.attempts = v.attempts
  inputs : v'.inputs = v.inputs
  outputs : v'.outputs = v.outputs

/-- The job row `r'` stands for `r` and the attempt row `a'` for `a`. -/
structure JobView.Rewrites (v v' : JobView) (r r' : JobRow) (a a' : AttemptRow) : Prop where
  job : v.job = some r
  job' : v'.job = some r'
  attempts : ∃ l₁ l₂, v.attempts = l₁ ++ a :: l₂ ∧ v'.attempts = l₁ ++ a' :: l₂
  inputs : v'.inputs = v.inputs

theorem JobView.Rewrites.mem {v v' : JobView} {r r' : JobRow} {a a' : AttemptRow}
    (h : v.Rewrites v' r r' a a') : a ∈ v.attempts := by
  obtain ⟨l₁, l₂, hsplit, _⟩ := h.attempts
  simp [hsplit]

/-! ### Views of a changed database -/

section Frame

variable {db : Db} {r r' : JobRow} {a a' : AttemptRow} {id : ℕ}

theorem view_setJob_of_ne (h : r'.id ≠ id) : (db.setJob r').view id = db.view id := by
  have hget : (db.jobs.put r').get? id = db.jobs.get? id := Table.get?_put_of_ne h
  unfold Db.view Db.setJob
  simp only [hget, Db.attemptsOf, Db.artifactsOf]

theorem view_setJob (hr : db.jobs.get? r'.id = some r) :
    (db.view r'.id).Restates ((db.setJob r').view r'.id) r r' where
  job := hr
  job' := Table.get?_put_self hr rfl
  attempts := rfl
  inputs := rfl
  outputs := rfl

theorem attemptsOf_setAttempt_of_ne (ha : db.jobAttempts.get? a'.id = some a)
    (hjob : a'.jobId = a.jobId) (h : a.jobId ≠ id) :
    (db.setAttempt a').attemptsOf id = db.attemptsOf id :=
  Table.filter_put_of_not ha (by simpa using h) (by simpa [hjob] using h)

theorem attemptsOf_setAttempt (ha : db.jobAttempts.get? a'.id = some a)
    (hjob : a'.jobId = a.jobId) :
    ∃ l₁ l₂, db.attemptsOf a.jobId = l₁ ++ a :: l₂ ∧
      (db.setAttempt a').attemptsOf a.jobId = l₁ ++ a' :: l₂ :=
  Table.exists_filter_put ha (by simp) (by simp [hjob])

theorem view_setAttempt_of_ne (ha : db.jobAttempts.get? a'.id = some a)
    (hjob : a'.jobId = a.jobId) (h : a.jobId ≠ id) :
    (db.setAttempt a').view id = db.view id := by
  have hattempts := attemptsOf_setAttempt_of_ne ha hjob h
  unfold Db.view
  rw [hattempts]
  rfl

/-- Replacing an attempt row and the row of its job. -/
theorem view_rewrite (ha : db.jobAttempts.get? a'.id = some a) (hjob : a'.jobId = a.jobId)
    (hr : db.jobs.get? a.jobId = some r) (hid : r'.id = a.jobId) :
    (db.view a.jobId).Rewrites (((db.setAttempt a').setJob r').view a.jobId) r r' a a' where
  job := hr
  job' := Table.get?_put_self hr hid
  attempts := attemptsOf_setAttempt ha hjob
  inputs := rfl

theorem view_rewrite_of_ne (ha : db.jobAttempts.get? a'.id = some a) (hjob : a'.jobId = a.jobId)
    (hid : r'.id = a.jobId) (h : a.jobId ≠ id) :
    ((db.setAttempt a').setJob r').view id = db.view id := by
  rw [view_setJob_of_ne (by rwa [hid]), view_setAttempt_of_ne ha hjob h]

end Frame

/-! ### A new attempt -/

def Db.addAttempt (db : Db) (mk : ℕ → AttemptRow) (hk : ∀ n, (mk n).id = n := by intro n; rfl) :
    Db :=
  { db with jobAttempts := db.jobAttempts.insertNew mk hk }

theorem attemptsOf_addAttempt (db : Db) (mk : ℕ → AttemptRow) (hk) (id : ℕ) :
    (db.addAttempt mk hk).attemptsOf id = db.attemptsOf id ++
      if (mk db.jobAttempts.next).jobId = id then [mk db.jobAttempts.next] else [] := by
  rw [Db.attemptsOf, Db.addAttempt, Table.filter_insertNew]
  simp only [beq_iff_eq]
  rfl

theorem get?_addAttempt (db : Db) (mk : ℕ → AttemptRow) (hk) :
    (db.addAttempt mk hk).jobAttempts.get? db.jobAttempts.next = some (mk db.jobAttempts.next) := by
  rw [Db.addAttempt, Table.get?_insertNew, if_pos rfl]

theorem jobAttempts_addAttempt (db : Db) (mk : ℕ → AttemptRow) (hk) (i : ℕ) :
    (db.addAttempt mk hk).jobAttempts.get? i =
      if i = db.jobAttempts.next then some (mk db.jobAttempts.next) else db.jobAttempts.get? i :=
  Table.get?_insertNew _ _ hk i

theorem view_addAttempt_of_ne {db : Db} {mk : ℕ → AttemptRow} {hk} {id : ℕ}
    (h : (mk db.jobAttempts.next).jobId ≠ id) : (db.addAttempt mk hk).view id = db.view id := by
  have hattempts := attemptsOf_addAttempt db mk hk id
  rw [if_neg h, List.append_nil] at hattempts
  unfold Db.view
  rw [hattempts]
  rfl

end TaskHarbor
