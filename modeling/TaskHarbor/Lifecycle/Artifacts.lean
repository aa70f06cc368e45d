import TaskHarbor.Lifecycle.Claims

/-! The loops that insert artifact rows: each appends a batch of rows to one job. -/
namespace TaskHarbor

open Relational Transaction

/-- `db'` is `db` with `rows` of one job and kind appended to its artifacts. -/
structure Appended (db db' : Db) (jobId : ℕ) (kind : ArtifactKind) (rows : List ArtifactRow) :
    Prop where
  frame : db' = { db with artifacts := db'.artifacts }
  appended : db'.artifacts.rows = db.artifacts.rows ++ rows
  owned : ∀ a ∈ rows, a.jobId = jobId ∧ a.kind = kind
  checks : ∀ a ∈ rows, holdsAll a.checks = true
  fresh : ∀ a ∈ db.artifacts, ∀ b ∈ rows, a.slot ≠ b.slot
  distinct : rows.Pairwise fun a b => a.slot ≠ b.slot

section Appended

variable {db db₁ db' : Db} {jobId : ℕ} {kind : ArtifactKind} {rows : List ArtifactRow}

theorem Appended.refl (db : Db) (jobId : ℕ) (kind : ArtifactKind) :
    Appended db db jobId kind [] where
  frame := rfl
  appended := by simp
  owned := by simp
  checks := by simp
  fresh := by simp
  distinct := .nil

/-- One more row in front. -/
theorem Appended.cons {mk : ℕ → ArtifactRow} {hk} {u : Unit}
    (hinsert : insertArtifact mk hk db = .ok (u, db₁)) (h : Appended db₁ db' jobId kind rows)
    (howned : (mk db.artifacts.next).jobId = jobId ∧ (mk db.artifacts.next).kind = kind) :
    Appended db db' jobId kind (mk db.artifacts.next :: rows) := by
  obtain ⟨-, hchecks, hfree, rfl⟩ := insertArtifact_ok.mp hinsert
  have hrows := h.appended
  constructor
  · rw [h.frame]
  · rw [hrows]
    simp [Table.insertNew]
  · intro a ha
    rcases List.mem_cons.mp ha with rfl | ha
    · exact howned
    · exact h.owned a ha
  · intro a ha
    rcases List.mem_cons.mp ha with rfl | ha
    · exact hchecks
    · exact h.checks a ha
  · intro a ha b hb
    rcases List.mem_cons.mp hb with rfl | hb
    · exact hfree a ha
    · have hmem : a ∈ db.artifacts.insertNew mk hk := Table.mem_insertNew.mpr (Or.inl ha)
      exact h.fresh a hmem b hb
  · refine List.pairwise_cons.mpr ⟨?_, h.distinct⟩
    intro b hb
    have hmem : mk db.artifacts.next ∈ db.artifacts.insertNew mk hk :=
      Table.mem_insertNew.mpr (Or.inr rfl)
    exact h.fresh _ hmem b hb

theorem Appended.batch (h : Appended db db' jobId kind rows) : Batch rows where
  checks := h.checks
  indexes := by
    refine List.pairwise_map.mpr (h.distinct.imp_of_mem ?_)
    intro a b ha hb hslot hindex
    obtain ⟨haj, hak⟩ := h.owned a ha
    obtain ⟨hbj, hbk⟩ := h.owned b hb
    apply hslot
    rw [ArtifactRow.slot, ArtifactRow.slot, haj, hak, hbj, hbk, hindex]

theorem Appended.jobs (h : Appended db db' jobId kind rows) : db'.jobs = db.jobs := by
  rw [h.frame]

theorem Appended.jobAttempts (h : Appended db db' jobId kind rows) :
    db'.jobAttempts = db.jobAttempts := by
  rw [h.frame]

theorem Appended.artifactsOf (h : Appended db db' jobId kind rows) :
    db'.artifactsOf jobId kind = db.artifactsOf jobId kind ++ rows := by
  have hall : rows.filter (fun a => a.jobId == jobId && a.kind == kind) = rows := by
    rw [List.filter_eq_self]
    intro a ha
    simp [h.owned a ha]
  rw [Db.artifactsOf, h.appended, List.filter_append, hall]
  rfl

theorem Appended.artifactsOf_of_ne (h : Appended db db' jobId kind rows) {id : ℕ}
    {kind' : ArtifactKind} (hne : jobId ≠ id ∨ kind ≠ kind') :
    db'.artifactsOf id kind' = db.artifactsOf id kind' := by
  have hnone : rows.filter (fun a => a.jobId == id && a.kind == kind') = [] := by
    rw [List.filter_eq_nil_iff]
    intro a ha
    obtain ⟨haj, hak⟩ := h.owned a ha
    rcases hne with hne | hne <;> simp [haj, hak, hne]
  rw [Db.artifactsOf, h.appended, List.filter_append, hnone, List.append_nil]
  rfl

/-- The rows of other jobs stay. -/
theorem Appended.view_of_ne (h : Appended db db' jobId kind rows) {id : ℕ} (hne : jobId ≠ id) :
    db'.view id = db.view id := by
  unfold Db.view
  rw [h.artifactsOf_of_ne (Or.inl hne), h.artifactsOf_of_ne (Or.inl hne), h.jobs, Db.attemptsOf,
    h.jobAttempts]
  rfl

/-- Appended outputs leave the other parts of the view. -/
theorem Appended.rewrites (h : Appended db db' jobId .output rows) {v' : JobView}
    {r r' : JobRow} {a a' : AttemptRow} (hrw : (db'.view jobId).Rewrites v' r r' a a') :
    (db.view jobId).Rewrites v' r r' a a' := by
  have hjob : (db'.view jobId).job = (db.view jobId).job := by
    unfold Db.view
    rw [h.jobs]
  have hattempts : (db'.view jobId).attempts = (db.view jobId).attempts := by
    unfold Db.view Db.attemptsOf
    rw [h.jobAttempts]
  have hinputs : (db'.view jobId).inputs = (db.view jobId).inputs :=
    h.artifactsOf_of_ne (Or.inr (by decide))
  exact ⟨hjob ▸ hrw.job, hrw.job', hattempts ▸ hrw.attempts, hrw.inputs.trans hinputs⟩

/-- A row that was there keeps its place. -/
theorem Appended.get? (h : Appended db db' jobId kind rows) {i : ℕ} {a : ArtifactRow}
    (ha : db.artifacts.get? i = some a) : db'.artifacts.get? i = some a := by
  obtain ⟨hmem, hkey⟩ := Table.get?_eq_some.mp ha
  refine Table.get?_eq_some.mpr ⟨?_, hkey⟩
  rw [Table.mem_def, h.appended]
  exact List.mem_append_left _ hmem

/-- A row of another kind was there before. -/
theorem Appended.get?_of_kind (h : Appended db db' jobId kind rows) {i : ℕ} {a : ArtifactRow}
    (ha : db'.artifacts.get? i = some a) (hkind : a.kind ≠ kind) :
    db.artifacts.get? i = some a := by
  obtain ⟨hmem, hkey⟩ := Table.get?_eq_some.mp ha
  refine Table.get?_eq_some.mpr ⟨?_, hkey⟩
  rw [Table.mem_def, h.appended] at hmem
  rcases List.mem_append.mp hmem with hmem | hmem
  · exact hmem
  · exact absurd (h.owned a hmem).2 hkind

end Appended

/-! ### The four loops -/

theorem copyInputs_ok {jobId : ℕ} {now : ℤ} {sources : List ArtifactRow} {db db' : Db} {u : Unit}
    (hkind : ∀ s ∈ sources, s.kind = .input)
    (h : copyInputs jobId now sources db = .ok (u, db')) :
    ∃ rows, Appended db db' jobId .input rows ∧
      List.Forall₂ (fun (s a : ArtifactRow) => ∃ id, a = s.retryCopy jobId now id)
        sources rows := by
  induction sources generalizing db with
  | nil =>
    cases h
    exact ⟨[], .refl _ _ _, .nil⟩
  | cons source rest ih =>
    obtain ⟨u₁, db₁, hinsert, hrest⟩ := Tx.bind_ok.mp h
    obtain ⟨rows, happended, hrows⟩ := ih (fun s hs => hkind s (List.mem_cons_of_mem _ hs)) hrest
    have howned := hkind source List.mem_cons_self
    exact ⟨_, happended.cons hinsert ⟨rfl, howned⟩, .cons ⟨_, rfl⟩ hrows⟩

theorem copyScheduleInputs_ok {jobId : ℕ} {now : ℤ} {sources : List ScheduleInputRow}
    {db db' : Db} {u : Unit} (h : copyScheduleInputs jobId now sources db = .ok (u, db')) :
    ∃ rows, Appended db db' jobId .input rows ∧
      List.Forall₂ (fun (s : ScheduleInputRow) a => ∃ id, a = s.artifact jobId now id)
        sources rows := by
  induction sources generalizing db with
  | nil =>
    cases h
    exact ⟨[], .refl _ _ _, .nil⟩
  | cons source rest ih =>
    obtain ⟨u₁, db₁, hinsert, hrest⟩ := Tx.bind_ok.mp h
    obtain ⟨rows, happended, hrows⟩ := ih hrest
    exact ⟨_, happended.cons hinsert ⟨rfl, rfl⟩, .cons ⟨_, rfl⟩ hrows⟩

theorem insertInputArtifact_ok {jobId itemIndex : ℕ} {input : NewInputArtifact} {now : ℤ}
    {db db' : Db} {u : Unit} (h : insertInputArtifact jobId itemIndex input now db = .ok (u, db')) :
    ∃ displayName, varcharParam 255 input.displayName = .ok displayName ∧
      (insertArtifact (input.row jobId itemIndex displayName now) : Tx Unit) db =
        .ok (u, db') := by
  unfold insertInputArtifact at h
  simp only [Tx.bind_ok, lift_ok] at h
  obtain ⟨_, _, ⟨-, rfl⟩, _, _, ⟨-, rfl⟩, _, _, ⟨-, rfl⟩, _, _, ⟨-, rfl⟩, name, _, ⟨hname, rfl⟩,
    _, _, ⟨-, rfl⟩, hinsert⟩ := h
  exact ⟨name, hname, hinsert⟩

theorem insertInputArtifacts_ok {jobId itemIndex : ℕ} {now : ℤ} {inputs : List NewInputArtifact}
    {db db' : Db} {u : Unit}
    (h : insertInputArtifacts jobId now itemIndex inputs db = .ok (u, db')) :
    ∃ rows, Appended db db' jobId .input rows ∧
      rows.map ArtifactRow.itemIndex = List.range' itemIndex inputs.length := by
  induction inputs generalizing db itemIndex with
  | nil =>
    cases h
    exact ⟨[], .refl _ _ _, rfl⟩
  | cons input rest ih =>
    obtain ⟨u₁, db₁, hfirst, hrest⟩ := Tx.bind_ok.mp h
    obtain ⟨name, -, hinsert⟩ := insertInputArtifact_ok hfirst
    obtain ⟨rows, happended, hrows⟩ := ih hrest
    refine ⟨_, happended.cons hinsert ⟨rfl, rfl⟩, ?_⟩
    rw [List.map_cons, hrows]
    rfl

end TaskHarbor
