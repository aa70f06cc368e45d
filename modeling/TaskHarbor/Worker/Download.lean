import TaskHarbor.Api.Download
import TaskHarbor.Lifecycle.Readback
import TaskHarbor.Worker.Fleet

/-! Downloads beside the whole fleet: which paths are answered, and that the headers tell the truth
about the file as long as its row is shown. -/
namespace TaskHarbor

open Relational Transaction Runs Interleaving

section Find

variable {rawId : String} {session : AuthSession} {s : System} {row : ArtifactRow}

theorem ArtifactRecord.tryFrom_file {a : ArtifactRow} {record : ArtifactRecord}
    (h : ArtifactRecord.tryFrom a = .ok record) :
    record.storageKey = a.storageKey ∧ record.byteSize = a.byteSize := by
  unfold ArtifactRecord.tryFrom at h
  obtain ⟨-, h⟩ := except_unless_ok.mp h
  obtain ⟨jobId, -, h⟩ := except_bind_ok.mp h
  cases h
  exact ⟨rfl, rfl⟩

/-- What the look-up answers is a row that the path names for the user. -/
theorem findDownload_ok {db : Db} {artifactId : ℕ} {artifact : ArtifactRecord}
    (h : findDownload rawId session db = .ok (artifactId, artifact)) :
    ∃ row : ArtifactRow, row.Downloads rawId session.userId db ∧ artifactId = row.id ∧
      artifact.storageKey = row.storageKey ∧ artifact.byteSize = row.byteSize := by
  cases hparse : parseArtifactId rawId with
  | none =>
    unfold findDownload at h
    rw [hparse] at h
    cases h
  | some id =>
    by_cases hle : id ≤ i64Max
    · rw [findDownload_parsed hparse hle] at h
      cases hget : (db.artifacts.get? id).filter
          (ArtifactRow.downloadable db (some session.userId)) with
      | none =>
        rw [hget] at h
        cases h
      | some row =>
        rw [hget, Option.elim_some] at h
        obtain ⟨hrow, hguard⟩ := Option.filter_eq_some_iff.mp hget
        obtain ⟨houtput, hjob⟩ := downloadable_iff.mp hguard
        obtain rfl : row.id = id := Table.key_of_get? hrow
        cases hrecord : ArtifactRecord.tryFrom row with
        | error e =>
          rw [hrecord] at h
          cases h
        | ok record =>
          rw [hrecord] at h
          cases h
          obtain ⟨hkey, hsize⟩ := ArtifactRecord.tryFrom_file hrecord
          exact ⟨row, ⟨Table.mem_of_get? hrow, hparse, houtput, hjob⟩, rfl, hkey, hsize⟩
    · have hencode : encodeU64 id "artifact ID" = .error _ := if_neg hle
      unfold findDownload getDownloadableArtifactWithOwner at h
      simp only [hparse, okOrElse, Option.elim_some, except_ok_bind, hencode] at h
      cases h

/-- Every such row is found: it decodes. -/
theorem ArtifactRow.Downloads.found (h : row.Downloads rawId session.userId s.db)
    (hs : s.Reachable) (hle : row.id ≤ i64Max) :
    ∃ artifact, findDownload rawId session s.db = .ok (row.id, artifact) := by
  obtain ⟨r, hr, -⟩ := h.job
  have hreadable := hs.inv.db.readable row.jobId
  have hchecks := hreadable.outputs row (mem_artifactsOf.mpr ⟨h.mem, rfl, h.output⟩)
  have hsound := (hreadable.job r hr).id
  rw [show r.id = row.jobId from Table.key_of_get? hr] at hsound
  obtain ⟨record, hrecord⟩ := ArtifactRecord.tryFrom_ok hchecks hsound
  have hget : (s.db.artifacts.get? row.id).filter
      (ArtifactRow.downloadable s.db (some session.userId)) = some row :=
    Option.filter_eq_some_iff.mpr ⟨Table.get?_key h.mem, downloadable_iff.mpr ⟨h.output, h.job⟩⟩
  refine ⟨record, ?_⟩
  rw [findDownload_parsed h.named hle, hget, Option.elim_some, hrecord]
  rfl

/-- Where the path names no row, the answer is 404. -/
theorem findDownload_notFound {db : Db} (hnone : ¬∃ row : ArtifactRow,
    row.Downloads rawId session.userId db)
    (hle : ∀ id, parseArtifactId rawId = some id → id ≤ i64Max) :
    findDownload rawId session db = .error .artifactNotFound := by
  cases hparse : parseArtifactId rawId with
  | none =>
    unfold findDownload
    rw [hparse]
    rfl
  | some id =>
    rw [findDownload_parsed hparse (hle id hparse)]
    cases hget : (db.artifacts.get? id).filter
        (ArtifactRow.downloadable db (some session.userId)) with
    | none => rfl
    | some row =>
      obtain ⟨hrow, hguard⟩ := Option.filter_eq_some_iff.mp hget
      obtain ⟨houtput, hjob⟩ := downloadable_iff.mp hguard
      obtain rfl : row.id = id := Table.key_of_get? hrow
      exact absurd ⟨row, Table.mem_of_get? hrow, hparse, houtput, hjob⟩ hnone

end Find

section Serve

variable {images : ImageService} {codec : JpegCodec} {faulty : Bool} {now : ℤ} {st : Storage}
  {members members' : List Member} {w w' : World}

/-- The headers of a held file. -/
theorem Storage.Holds.serves {row : ArtifactRow} {artifact : ArtifactRecord} (h : st.Holds row)
    (hkey : artifact.storageKey = row.storageKey) (hsize : artifact.byteSize = row.byteSize)
    (artifactId : ℕ) : ∃ response, serveDownload artifactId artifact st = .ok response ∧
      response.contentType = "image/jpeg" ∧ response.contentLength = response.body.length := by
  obtain ⟨path, bytes, hpath, hfile, hlength⟩ := h
  have hopen : st.openFile artifact.storageKey = .ok bytes := by
    unfold Storage.openFile
    rw [hkey, hpath, except_ok_bind, hfile]
  unfold serveDownload
  rw [hopen]
  exact ⟨_, rfl, rfl, hsize.trans hlength.symm⟩

/-- In every reachable state of the whole fleet a path is answered exactly if it names an output of
a succeeded job of the user, and with 404 otherwise; and when the file is opened, however much
later, while its row is still shown, the type and the length that the headers announce are those of
the row and of the file, unless a renewal of the task that has published it was refused. -/
theorem download_tells_truth (hcodec : codec.Marked)
    (hrun : Relation.ReflTransGen (Fleet images codec faulty) ([], ⟨.initial now, st⟩)
      (members, w))
    (hlater : Relation.ReflTransGen (Fleet images codec faulty) (members, w) (members', w')) :
    (∀ rawId session, (∀ id, parseArtifactId rawId = some id → id ≤ i64Max) →
      ((∃ found, findDownload rawId session w.system.db = .ok found) ↔
        ∃ row : ArtifactRow, row.Downloads rawId session.userId w.system.db) ∧
      ((¬∃ row : ArtifactRow, row.Downloads rawId session.userId w.system.db) →
        findDownload rawId session w.system.db = .error .artifactNotFound)) ∧
    ∀ rawId session artifactId artifact,
      findDownload rawId session w.system.db = .ok (artifactId, artifact) →
      ∃ row : ArtifactRow, row.Downloads rawId session.userId w.system.db ∧ artifactId = row.id ∧
        (row ∈ w'.system.db.artifacts → ∃ m ∈ members', row.attemptId = some m.claimed.attemptId ∧
          (m.task.refused = false → ∃ response,
            serveDownload artifactId artifact w'.storage = .ok response ∧
            response.contentType = row.mediaType ∧
            response.contentLength = response.body.length)) := by
  have hstart : System.Reachable (.initial now) := ⟨now, .refl _⟩
  have hs := (fleet_sound hcodec (w := ⟨.initial now, st⟩) hstart hrun).world
  constructor
  · intro rawId session hle
    refine ⟨⟨fun ⟨found, hfound⟩ => ?_, fun ⟨row, hrow⟩ => ?_⟩, fun hnone =>
      findDownload_notFound hnone hle⟩
    · obtain ⟨row, hrow, -⟩ := findDownload_ok hfound
      exact ⟨row, hrow⟩
    · obtain ⟨artifact, hfound⟩ := hrow.found hs (hle row.id hrow.named)
      exact ⟨_, hfound⟩
  · intro rawId session artifactId artifact hfound
    obtain ⟨row, hrow, hid, hkey, hsize⟩ := findDownload_ok hfound
    refine ⟨row, hrow, hid, fun hshown => ?_⟩
    obtain ⟨hrows, -⟩ := fleet_outputs_on_disk hcodec (hrun.trans hlater)
    obtain ⟨m, hm, hattempt, hholds⟩ := hrows row hshown hrow.output
    refine ⟨m, hm, hattempt, fun hrefused => ?_⟩
    obtain ⟨response, hserve, htype, hlength⟩ := (hholds hrefused).serves hkey hsize artifactId
    have hchecks := (hs.inv.db.readable row.jobId).outputs row
      (mem_artifactsOf.mpr ⟨hrow.mem, rfl, hrow.output⟩)
    have hmedia := (ArtifactRow.checks_iff.mp hchecks).2.2.2.2.2.1
    rw [hrow.output] at hmedia
    exact ⟨response, hserve, htype.trans hmedia.2.2.symm, hlength⟩

end Serve

/-! A download of the first output. -/

def sampleSession : AuthSession := ⟨0, 1, "owner", [], 0⟩

theorem sample_download : ∃ (claimed : ClaimedJob) (w : World) (found : ℕ × ArtifactRecord),
    Relation.ReflTransGen (Fleet squareImages squareCodec false)
      ([], ⟨.initial 0, squareStorage⟩) ([⟨claimed, .processing (.done (.ok ()))⟩], w) ∧
    findDownload "3" sampleSession w.system.db = .ok found := by
  have hrun : (exec System.step (System.initial 0) (sampleImageOps.take 3)).any (fun s =>
      (s.step (.claimNext 7 5 [])).any fun t =>
        (claimNext 7 none s.now 5 [] s.db).1.toOption.any fun result => result.any fun claimed =>
          let answer := (processClaimedInner claimed u64Max).run.run World.serveSample
            ⟨t, squareStorage⟩
          answer.1.toOption.any fun _ =>
            (findDownload "3" sampleSession answer.2.system.db).toOption.any fun _ => true) =
      true := by
    decide +kernel
  obtain ⟨s, hexec, hstep⟩ := (Option.any_eq_true _ _).mp hrun
  obtain ⟨t, ht, hclaim⟩ := (Option.any_eq_true _ _).mp hstep
  obtain ⟨result, hclaimed, hsome⟩ := except_any_eq_true.mp hclaim
  obtain ⟨claimed, rfl, hanswer⟩ := (Option.any_eq_true _ _).mp hsome
  obtain ⟨u, hok, hfind⟩ := except_any_eq_true.mp hanswer
  obtain ⟨found, hfound, -⟩ := except_any_eq_true.mp hfind
  have hacts := processing_steps claimed false (processClaimedInner claimed u64Max).run
    ⟨t, squareStorage⟩
  rw [hok] at hacts
  have hrest : Relation.ReflTransGen (Fleet squareImages squareCodec false)
      ([], ⟨.initial 0, squareStorage⟩) ([], ⟨s, squareStorage⟩) := rest_steps (by decide) hexec
  have hspawn : Fleet squareImages squareCodec false ([], ⟨s, squareStorage⟩)
      ([⟨claimed, processWithLeaseRenewal claimed u64Max⟩], ⟨t, squareStorage⟩) :=
    .birth [] (.spawned claimed u64Max t ⟨7, 5, [], ht, hclaimed⟩)
  exact ⟨claimed, _, found, (hrest.tail hspawn).trans (member_steps hacts), hfound⟩

theorem download_tells_truth_first : ∃ (w : World) (artifactId : ℕ) (artifact : ArtifactRecord)
    (response : DownloadResponse),
    findDownload "3" sampleSession w.system.db = .ok (artifactId, artifact) ∧
    serveDownload artifactId artifact w.storage = .ok response ∧
    response.contentLength = response.body.length := by
  obtain ⟨claimed, w, ⟨artifactId, artifact⟩, hrun, hfound⟩ := sample_download
  obtain ⟨-, hserves⟩ := download_tells_truth squareCodec_marked hrun .refl
  obtain ⟨row, hrow, -, hshown⟩ := hserves _ _ _ _ hfound
  obtain ⟨m, hm, -, hfile⟩ := hshown hrow.mem
  rw [List.mem_singleton.mp hm] at hfile
  obtain ⟨response, hserve, -, hlength⟩ := hfile rfl
  exact ⟨w, artifactId, artifact, response, hfound, hserve, hlength⟩

end TaskHarbor
