import TaskHarbor.Api.Metering

/-! The upload limits. The record of the calls stays within them at every moment, whatever the
storage and the codec answer; and which files pass depends on their contents alone, not on how the
network cut them. -/
namespace TaskHarbor

open Interleaving Transaction

/-! ### The record -/

abbrev UploadLog := List UploadCall

/-- The bytes that a call hands to `write_all`. -/
def UploadCall.bytes : UploadCall → ℕ
  | .writeAll _ _ chunk => chunk.length
  | _ => 0

def UploadCall.bytesTo (n : ℕ) : UploadCall → ℕ
  | .writeAll m _ chunk => if m = n then chunk.length else 0
  | _ => 0

def UploadCall.creates : UploadCall → Bool
  | .createFile _ => true
  | _ => false

namespace UploadLog

def handed (log : UploadLog) : ℕ := (log.map UploadCall.bytes).sum

def handedTo (log : UploadLog) (n : ℕ) : ℕ := (log.map (UploadCall.bytesTo n)).sum

def created (log : UploadLog) : ℕ := log.countP UploadCall.creates

/-- The limits at one moment. A request of a full storage is turned away before its first byte. -/
structure Within (app : AppState) (usage : ℕ) (log : UploadLog) : Prop where
  files : log.created ≤ maxFilesPerJob
  each : ∀ n, log.handedTo n ≤ maxFileBytes
  total : log.handed ≤ maxTotalFileBytes
  budget : 0 < log.handed ∨ usage ≤ app.storageBudgetBytes →
    usage + log.handed ≤ app.storageBudgetBytes

/-- Between two fields: the record agrees with the variables of the loop. -/
structure Between (app : AppState) (usage : ℕ) (s : Staging) (log : UploadLog) : Prop where
  within : log.Within app usage
  files : log.created = s.inputs.length
  total : log.handed = s.totalBytes
  fresh : ∀ n, s.inputs.length ≤ n → log.handedTo n = 0

/-- Within the file with index `n`, after `content`. -/
structure During (app : AppState) (usage n total : ℕ) (content : List UInt8) (log : UploadLog) :
    Prop where
  within : log.Within app usage
  files : log.created = n + 1
  total : log.handed = total + content.length
  current : log.handedTo n = content.length
  fresh : ∀ m, n < m → log.handedTo m = 0

section Append

variable (log : UploadLog) (q : UploadCall)

@[simp] theorem handed_append : handed (log ++ [q]) = log.handed + q.bytes := by
  simp [handed]

@[simp] theorem handedTo_append (n : ℕ) :
    handedTo (log ++ [q]) n = log.handedTo n + q.bytesTo n := by
  simp [handedTo]

@[simp] theorem created_append : created (log ++ [q]) = log.created + q.creates.toNat := by
  simp only [created, List.countP_append, List.countP_singleton]
  cases q.creates <;> rfl

end Append

section Moves

variable {app : AppState} {usage n total : ℕ} {content chunk : List UInt8} {log : UploadLog}
  {s : Staging}

/-- What a chunk must leave within the limits. -/
theorem admitChunk_iff (hbudget : app.storageBudgetBytes ≤ u64Max) {fileBytes totalBytes size : ℕ} :
    admitChunk app usage fileBytes totalBytes size = .ok () ↔
      fileBytes + size ≤ maxFileBytes ∧ totalBytes + size ≤ maxTotalFileBytes ∧
        usage + (totalBytes + size) ≤ app.storageBudgetBytes := by
  have hfile : maxFileBytes ≤ u64Max := by decide
  have htotal : maxTotalFileBytes ≤ u64Max := by decide
  unfold admitChunk
  simp only [except_unless_ok]
  constructor
  · rintro ⟨-, hsize, -, hroom, hlast⟩
    split at hlast
    · cases hlast
    · omega
  · rintro ⟨hsize, hsum, hroom⟩
    rw [if_neg (by omega)]
    exact ⟨by omega, by omega, by omega, by omega, rfl⟩

theorem During.write (hbudget : app.storageBudgetBytes ≤ u64Max)
    (h : During app usage n total content log)
    (hadmitted :
      admitChunk app usage content.length (total + content.length) chunk.length = .ok ()) :
    During app usage n total (content ++ chunk)
      (log ++ [.writeAll n content.length chunk]) := by
  obtain ⟨hsize, hsum, hroom⟩ := (admitChunk_iff hbudget).mp hadmitted
  have hhanded := h.total
  refine ⟨⟨?_, fun m => ?_, ?_, fun _ => ?_⟩, ?_, ?_, ?_, fun m hm => ?_⟩
  · simpa [UploadCall.creates] using h.within.files
  · rcases eq_or_ne n m with rfl | hne
    · simpa [UploadCall.bytesTo, h.current] using hsize
    · simpa [UploadCall.bytesTo, hne] using h.within.each m
  · simp only [handed_append, UploadCall.bytes]
    omega
  · simp only [handed_append, UploadCall.bytes]
    omega
  · simpa [UploadCall.creates] using h.files
  · simp only [handed_append, UploadCall.bytes, List.length_append]
    omega
  · simp [UploadCall.bytesTo, h.current]
  · simpa [UploadCall.bytesTo, hm.ne] using h.fresh m hm

/-- A call that hands out no bytes and creates no file. -/
theorem During.quiet (h : During app usage n total content log) {q : UploadCall}
    (hcreates : q.creates = false) (hbytes : q.bytes = 0) (hbytesTo : ∀ m, q.bytesTo m = 0) :
    During app usage n total content (log ++ [q]) := by
  have hsame : handed (log ++ [q]) = handed log := by simp [hbytes]
  have hto : ∀ m, handedTo (log ++ [q]) m = handedTo log m := by simp [hbytesTo]
  have hfiles : created (log ++ [q]) = created log := by simp [hcreates]
  exact ⟨⟨by rw [hfiles]; exact h.within.files, fun m => by rw [hto]; exact h.within.each m,
    by rw [hsame]; exact h.within.total, by rw [hsame]; exact h.within.budget⟩,
    hfiles.trans h.files, hsame.trans h.total, (hto n).trans h.current,
    fun m hm => (hto m).trans (h.fresh m hm)⟩

theorem Between.create (h : Between app usage s log) (hroom : s.inputs.length < maxFilesPerJob) :
    During app usage s.inputs.length s.totalBytes []
      (log ++ [.createFile s.inputs.length]) := by
  have hsame : handed (log ++ [.createFile s.inputs.length]) = handed log := by
    simp [UploadCall.bytes]
  have hto : ∀ m, handedTo (log ++ [.createFile s.inputs.length]) m = handedTo log m := by
    simp [UploadCall.bytesTo]
  have hfiles : created (log ++ [.createFile s.inputs.length]) = s.inputs.length + 1 := by
    simp [UploadCall.creates, h.files]
  refine ⟨⟨?_, fun m => ?_, ?_, ?_⟩, hfiles, hsame.trans h.total, ?_, fun m hm => ?_⟩
  · rw [hfiles]
    exact hroom
  · rw [hto]
    exact h.within.each m
  · rw [hsame]
    exact h.within.total
  · rw [hsame]
    exact h.within.budget
  · rw [hto, h.fresh _ (Nat.le_refl _), List.length_nil]
  · rw [hto]
    exact h.fresh m hm.le

/-- The file is kept: its bytes are counted in the total. -/
theorem During.keep (h : During app usage s.inputs.length s.totalBytes content log)
    (input : NewInputArtifact) :
    Between app usage { s with
      inputs := s.inputs ++ [input]
      totalBytes := s.totalBytes + content.length } log where
  within := h.within
  files := by rw [h.files, List.length_append, List.length_singleton]
  total := h.total
  fresh := by
    intro n hn
    rw [List.length_append, List.length_singleton] at hn
    exact h.fresh n hn

theorem Between.initial : Between app usage .initial [] where
  within := ⟨Nat.zero_le _, fun _ => Nat.zero_le _, Nat.zero_le _, by
    rintro (h | h)
    · exact absurd h (Nat.lt_irrefl 0)
    · exact h⟩
  files := rfl
  total := rfl
  fresh := fun _ _ => rfl

end Moves

end UploadLog

/-! ### Every moment -/

/-- Nobody else writes to the record. -/
def UploadLog.Alone (log log' : UploadLog) : Prop := log' = log

theorem UploadLog.alone_refl (log : UploadLog) : log.Alone log := rfl

theorem UploadLog.alone_trans (u v w : UploadLog) (h : u.Alone v) (h' : v.Alone w) : u.Alone w :=
  h'.trans h

/-- A call is recorded, whatever its reply. -/
def UploadLog.Records (log : UploadLog) (q : UploadCall) (_ : q.Reply) (log' : UploadLog) : Prop :=
  log' = log ++ [q]

/-- From this record on every call stays within the limits, and a success ends in `post`. -/
structure Metered {α : Type} (app : AppState) (usage : ℕ) (post : α → UploadLog → Prop)
    (x : UploadProgram α) (log : UploadLog) : Prop where
  meets : Meets UploadLog.Alone UploadLog.Records
    (fun q log => UploadLog.Within app usage (log ++ [q]))
    (fun r log => ∀ a, r = .ok a → post a log) x.run log

section Rules

variable {α β : Type} {app : AppState} {usage : ℕ} {post : β → UploadLog → Prop} {log : UploadLog}

theorem metered_pure {b : β} (h : post b log) : Metered app usage post (pure b) log := by
  refine ⟨meets_done fun log' hlog a ha => ?_⟩
  rw [show log' = log from hlog]
  cases ha
  exact h

theorem metered_throw (e : ApiError) : Metered app usage post (throw e) log := by
  refine ⟨meets_done fun _ _ a ha => ?_⟩
  cases ha

theorem metered_bind {x : UploadProgram α} {f : α → UploadProgram β}
    (h : Metered app usage (fun a log => Metered app usage post (f a) log) x log) :
    Metered app usage post (x >>= f) log := by
  refine ⟨meets_except_bind UploadLog.alone_refl (h.meets.consequence fun r log' hr => ?_)⟩
  cases r with
  | ok a => exact (hr a rfl).meets
  | error e =>
    intro _ _ a ha
    cases ha

theorem metered_lift_bind {x : Except ApiError α} {f : α → UploadProgram β}
    (h : ∀ a, x = .ok a → Metered app usage post (f a) log) :
    Metered app usage post (liftM x >>= f) log := by
  cases x with
  | error e => exact metered_throw e
  | ok a => exact h a rfl

theorem metered_lift {x : Except ApiError β} (h : ∀ b, x = .ok b → post b log) :
    Metered app usage post (liftM x) log := by
  cases x with
  | error e => exact metered_throw e
  | ok b => exact metered_pure (h b rfl)

theorem metered_request {q : UploadCall} {reply : q.Reply → Except ApiError β}
    (hwithin : UploadLog.Within app usage (log ++ [q])) (h : ∀ b, post b (log ++ [q])) :
    Metered app usage post (UploadProgram.request q reply) log := by
  constructor
  intro log' hlog
  rw [show log' = log from hlog]
  refine ⟨hwithin, fun r log'' hr => meets_done fun log₃ hlog₃ b _ => ?_⟩
  rw [show log₃ = log'' from hlog₃, show log'' = log ++ [q] from hr]
  exact h b

theorem metered_unless {c : Prop} [Decidable c] {e : ApiError} {f : Unit → UploadProgram β}
    (h : ¬c → Metered app usage post (f ()) log) :
    Metered app usage post (if c then (throw e : UploadProgram Unit) >>= f else f ()) log := by
  split
  · exact metered_throw e
  · rename_i hc
    exact h hc

end Rules

section Loop

open UploadLog

variable {app : AppState} {usage n total : ℕ} {content : List UInt8} {log : UploadLog}
  {s : Staging}

theorem writeChunks_metered (hbudget : app.storageBudgetBytes ≤ u64Max)
    (h : During app usage n total content log) (chunks : List (List UInt8)) :
    Metered app usage (fun result log => During app usage n total result log)
      (UploadProgram.writeChunks app n usage total content chunks) log := by
  induction chunks generalizing content log with
  | nil => exact metered_pure h
  | cons chunk rest ih =>
    refine metered_lift_bind fun _ hadmitted => ?_
    have hwrite := h.write hbudget hadmitted
    exact metered_bind (metered_request hwrite.within fun _ => ih hwrite)

theorem writeImageField_metered (hbudget : app.storageBudgetBytes ≤ u64Max)
    (h : During app usage n total [] log) (field : UploadField) :
    Metered app usage (fun result log => During app usage n total result log)
      (UploadProgram.writeImageField app n usage total field) log := by
  refine metered_bind ⟨(writeChunks_metered hbudget h field.chunks).meets.consequence
    fun r log' hr content hcontent => ?_⟩
  have hduring := hr content hcontent
  refine metered_unless fun _ => metered_unless fun _ => metered_pure hduring

theorem stageImage_metered (hbudget : app.storageBudgetBytes ≤ u64Max)
    (h : Between app usage s log) (field : UploadField) :
    Metered app usage (fun s' log => Between app usage s' log)
      (UploadProgram.stageImage app usage s field) log := by
  unfold UploadProgram.stageImage
  refine metered_unless fun hroom => ?_
  cases field.fileName with
  | none => exact metered_throw _
  | some rawName =>
    have hcreate := h.create (not_le.mp hroom)
    refine metered_bind (metered_request hcreate.within fun storageKey => ?_)
    refine metered_bind ⟨(writeImageField_metered hbudget hcreate field).meets.consequence
      fun r log' hr content hcontent => ?_⟩
    have hflush := (hr content hcontent).quiet (q := .flush s.inputs.length) rfl rfl fun _ => rfl
    refine metered_bind (metered_request hflush.within fun _ => ?_)
    have hinspect := hflush.quiet (q := .inspect s.inputs.length) rfl rfl fun _ => rfl
    exact metered_bind (metered_request hinspect.within fun metadata =>
      metered_pure (hinspect.keep _))

theorem stageField_metered (hbudget : app.storageBudgetBytes ≤ u64Max)
    (h : Between app usage s log) (target : UploadTarget) (field : UploadField) :
    Metered app usage (fun s' log => Between app usage s' log)
      (UploadProgram.stageField app target usage s field) log := by
  unfold UploadProgram.stageField
  by_cases himages : field.name.getD "" = "images"
  · simp only [himages, if_true]
    exact stageImage_metered hbudget h field
  · simp only [himages, if_false]
    refine metered_lift fun s' hs' => ?_
    have hinputs := (stageValue_ok hs').inputs
    have htotal := (stageValue_ok hs').totalBytes
    exact ⟨h.within, by rw [hinputs]; exact h.files, by rw [htotal]; exact h.total,
      by rw [hinputs]; exact h.fresh⟩

theorem stageAll_metered (hbudget : app.storageBudgetBytes ≤ u64Max)
    (h : Between app usage s log) (target : UploadTarget) (fields : List UploadField) :
    Metered app usage (fun s' log => Between app usage s' log)
      (UploadProgram.stageAll app target usage s fields) log := by
  induction fields generalizing s log with
  | nil => exact metered_pure h
  | cons field rest ih =>
    refine metered_bind ⟨(stageField_metered hbudget h target field).meets.consequence
      fun r log' hr s' hs' => ?_⟩
    exact ih (hr s' hs')

/-- The record is within the limits at every moment of every run. -/
theorem stageAll_within (hbudget : app.storageBudgetBytes ≤ u64Max) (target : UploadTarget)
    (fields : List UploadField) {p : Program UploadCall UploadCall.Reply (Except ApiError Staging)}
    (hrun : Relation.ReflTransGen (Step Alone Records)
      ((UploadProgram.stageAll app target usage .initial fields).run, []) (p, log)) :
    log.Within app usage := by
  have hinitial : Between app usage .initial [] := Between.initial
  have hmeets := (stageAll_metered hbudget hinitial target fields).meets
  refine hmeets.invariant alone_refl alone_trans (fun w w' hw hww' => ?_)
    (fun w q r w' _ hsafe hr => ?_) hinitial.within hrun
  · rw [show w' = w from hww']
    exact hw
  · rw [show w' = w ++ [q] from hr]
    exact hsafe

end Loop

/-! ### Which files pass -/

/-- The complete contents of a file, however it was cut. -/
def UploadField.content (field : UploadField) : List UInt8 := field.chunks.flatten

/-- A file after `total` bytes of others. -/
structure FileFits (app : AppState) (usage total : ℕ) (content : List UInt8) : Prop where
  each : content.length ≤ maxFileBytes
  sum : total + content.length ≤ maxTotalFileBytes
  budget : usage + (total + content.length) ≤ app.storageBudgetBytes

/-- Every file is nonempty, and together they respect the limits. -/
structure FilesFit (app : AppState) (usage files total : ℕ) (contents : List (List UInt8)) :
    Prop where
  files : files + contents.length ≤ maxFilesPerJob
  each : ∀ content ∈ contents, content ≠ [] ∧ content.length ≤ maxFileBytes
  sum : total + (contents.map List.length).sum ≤ maxTotalFileBytes
  budget : usage + (total + (contents.map List.length).sum) ≤ app.storageBudgetBytes

/-- A complete field of an image. -/
structure UploadField.IsImage (field : UploadField) : Prop where
  name : field.name = some "images"
  fileName : ∃ rawName, field.fileName = some rawName
  complete : field.complete = true

/-- A service that accepts every call. -/
structure Accepting {ω : Type} (serve : ω → (q : UploadCall) → q.Reply × ω) : Prop where
  createFile : ∀ w n, ∃ key w', serve w (.createFile n) = (.ok key, w')
  writeAll : ∀ w n offset chunk, ∃ w', serve w (.writeAll n offset chunk) = (.ok (), w')
  flush : ∀ w n, ∃ w', serve w (.flush n) = (.ok (), w')
  inspect : ∀ w n, ∃ metadata w', serve w (.inspect n) = (.ok metadata, w')

section Passing

variable {ω : Type} {serve : ω → (q : UploadCall) → q.Reply × ω} {app : AppState}
  {usage n total : ℕ} {content result : List UInt8} {chunks : List (List UInt8)}
  {s s' : Staging} {field : UploadField} {w w' : ω}

theorem writeChunks_result
    (h : (UploadProgram.writeChunks app n usage total content chunks).served serve w =
      (.ok result, w')) : result = content ++ chunks.flatten := by
  induction chunks generalizing content w with
  | nil =>
    cases h
    exact (List.append_nil _).symm
  | cons chunk rest ih =>
    unfold UploadProgram.writeChunks at h
    rw [UploadProgram.served_bind, UploadProgram.served_lift] at h
    obtain ⟨_, -, h⟩ := Session.lift_bind_ok.mp h
    rw [UploadProgram.served_bind] at h
    obtain ⟨_, _, -, h⟩ := Session.bind_ok.mp h
    rw [ih h, List.flatten_cons, List.append_assoc]

theorem FileFits.of_append {suffix : List UInt8}
    (h : FileFits app usage total (content ++ suffix)) :
    FileFits app usage total content := by
  have heach := h.each
  have htotal := h.sum
  have hbudget := h.budget
  rw [List.length_append] at heach htotal hbudget
  exact ⟨by omega, by omega, by omega⟩

theorem admitChunk_fits (hbudget : app.storageBudgetBytes ≤ u64Max) {chunk : List UInt8} :
    admitChunk app usage content.length (total + content.length) chunk.length = .ok () ↔
      FileFits app usage total (content ++ chunk) := by
  rw [UploadLog.admitChunk_iff hbudget]
  constructor
  · rintro ⟨h1, h2, h3⟩
    refine ⟨?_, ?_, ?_⟩ <;> rw [List.length_append] <;> omega
  · rintro ⟨h1, h2, h3⟩
    rw [List.length_append] at h1 h2 h3
    exact ⟨h1, by omega, by omega⟩

/-- The chunks pass by their concatenation, unless there is none. -/
theorem writeChunks_passes (hserve : Accepting serve) (hbudget : app.storageBudgetBytes ≤ u64Max) :
    (∃ result w', (UploadProgram.writeChunks app n usage total content chunks).served serve w =
      (.ok result, w')) ↔ chunks = [] ∨ FileFits app usage total (content ++ chunks.flatten) := by
  induction chunks generalizing content w with
  | nil => exact ⟨fun _ => Or.inl rfl, fun _ => ⟨content, w, rfl⟩⟩
  | cons chunk rest ih =>
    unfold UploadProgram.writeChunks
    simp only [UploadProgram.served_bind, UploadProgram.served_lift, Session.lift_bind_ok,
      admitChunk_fits hbudget, List.flatten_cons, reduceCtorEq, false_or, ← List.append_assoc]
    obtain ⟨w₁, hwrite⟩ := hserve.writeAll w n content.length chunk
    have hserved : (UploadProgram.writeAll n content.length chunk).served serve w = (.ok (), w₁) :=
      UploadProgram.served_request hwrite
    constructor
    · rintro ⟨result, w', _, hadmitted, h⟩
      obtain ⟨_, w₂, hfirst, h⟩ := Session.bind_ok.mp h
      rw [hserved] at hfirst
      cases hfirst
      rcases ih.mp ⟨result, w', h⟩ with rfl | hfits
      · rw [List.flatten_nil, List.append_nil]
        exact hadmitted
      · exact hfits
    · intro hfits
      obtain ⟨result, w', h⟩ := (ih (w := w₁)).mpr (Or.inr hfits)
      refine ⟨result, w', (), hfits.of_append, ?_⟩
      exact Session.bind_ok.mpr ⟨(), w₁, hserved, h⟩

theorem writeImageField_result
    (h : (UploadProgram.writeImageField app n usage total field).served serve w =
      (.ok result, w')) : result = field.content ∧ result ≠ [] := by
  unfold UploadProgram.writeImageField at h
  rw [UploadProgram.served_bind] at h
  obtain ⟨content, w₁, hwrite, h⟩ := Session.bind_ok.mp h
  have hcontent := writeChunks_result hwrite
  by_cases hcomplete : field.complete = true
  · by_cases hempty : content.length = 0
    · simp only [hcomplete, hempty] at h
      cases h
    · simp only [hcomplete, hempty] at h
      cases h
      exact ⟨hcontent, fun hnil => hempty (by rw [hnil]; rfl)⟩
  · simp only [hcomplete] at h
    cases h

theorem writeImageField_passes (hserve : Accepting serve)
    (hbudget : app.storageBudgetBytes ≤ u64Max) (hcomplete : field.complete = true) :
    (∃ result w', (UploadProgram.writeImageField app n usage total field).served serve w =
      (.ok result, w')) ↔ field.content ≠ [] ∧ FileFits app usage total field.content := by
  constructor
  · rintro ⟨result, w', h⟩
    obtain ⟨rfl, hne⟩ := writeImageField_result h
    unfold UploadProgram.writeImageField at h
    rw [UploadProgram.served_bind] at h
    obtain ⟨content, w₁, hwrite, -⟩ := Session.bind_ok.mp h
    rcases (writeChunks_passes hserve hbudget).mp ⟨content, w₁, hwrite⟩ with hnone | hfits
    · rw [UploadField.content, hnone] at hne
      exact absurd rfl hne
    · exact ⟨hne, hfits⟩
  · rintro ⟨hne, hfits⟩
    obtain ⟨content, w₁, hwrite⟩ := (writeChunks_passes (n := n) (w := w) hserve hbudget).mpr
      (Or.inr (show FileFits app usage total ([] ++ field.chunks.flatten) from hfits))
    obtain rfl : content = field.content := writeChunks_result hwrite
    have hlength : field.content.length ≠ 0 := fun h => hne (List.length_eq_zero_iff.mp h)
    refine ⟨field.content, w₁, ?_⟩
    unfold UploadProgram.writeImageField
    rw [UploadProgram.served_bind]
    refine Session.bind_ok.mpr ⟨_, _, hwrite, ?_⟩
    simp only [hcomplete, hlength]
    rfl

/-- What an accepted image leaves: its size and its digest are those of the complete contents. -/
structure Staging.Keeps (app : AppState) (s : Staging) (field : UploadField) (s' : Staging) :
    Prop where
  inputs : ∃ input : NewInputArtifact, s'.inputs = s.inputs ++ [input] ∧
    input.byteSize = field.content.length ∧
    input.checksumSha256 = (app.sha256 field.content).toList
  totalBytes : s'.totalBytes = s.totalBytes + field.content.length

theorem stageImage_result
    (h : (UploadProgram.stageImage app usage s field).served serve w = (.ok s', w')) :
    s.Keeps app field s' := by
  unfold UploadProgram.stageImage at h
  by_cases hmany : maxFilesPerJob ≤ s.inputs.length
  · simp only [hmany] at h
    cases h
  · simp only [hmany, if_false] at h
    cases hname : field.fileName with
    | none =>
      simp only [hname] at h
      cases h
    | some rawName =>
      simp only [hname, UploadProgram.served_bind] at h
      obtain ⟨key, w₁, -, h⟩ := Session.bind_ok.mp h
      obtain ⟨content, w₂, hwrite, h⟩ := Session.bind_ok.mp h
      obtain ⟨_, w₃, -, h⟩ := Session.bind_ok.mp h
      obtain ⟨metadata, w₄, -, h⟩ := Session.bind_ok.mp h
      obtain ⟨rfl, -⟩ := writeImageField_result hwrite
      cases h
      exact ⟨⟨_, rfl, rfl, rfl⟩, rfl⟩

theorem stageImage_passes (hserve : Accepting serve) (hbudget : app.storageBudgetBytes ≤ u64Max)
    (himage : field.IsImage) :
    (∃ s' w', (UploadProgram.stageImage app usage s field).served serve w = (.ok s', w')) ↔
      s.inputs.length < maxFilesPerJob ∧ field.content ≠ [] ∧
        FileFits app usage s.totalBytes field.content := by
  obtain ⟨rawName, hname⟩ := himage.fileName
  unfold UploadProgram.stageImage
  by_cases hmany : maxFilesPerJob ≤ s.inputs.length
  · simp only [hmany]
    constructor
    · rintro ⟨s', w', h⟩
      cases h
    · rintro ⟨hroom, -⟩
      omega
  · simp only [hmany, if_false, hname, UploadProgram.served_bind]
    obtain ⟨key, w₁, hcreate⟩ := hserve.createFile w s.inputs.length
    have hcreated : (UploadProgram.createFile s.inputs.length).served serve w = (.ok key, w₁) :=
      UploadProgram.served_request hcreate
    constructor
    · rintro ⟨s', w', h⟩
      obtain ⟨_, _, -, h⟩ := Session.bind_ok.mp h
      obtain ⟨content, w₂, hwrite, -⟩ := Session.bind_ok.mp h
      exact ⟨not_le.mp hmany, (writeImageField_passes hserve hbudget himage.complete).mp
        ⟨content, w₂, hwrite⟩⟩
    · rintro ⟨-, hfits⟩
      obtain ⟨content, w₂, hwrite⟩ :=
        (writeImageField_passes (w := w₁) (n := s.inputs.length) hserve hbudget
          himage.complete).mpr hfits
      obtain ⟨w₃, hflush⟩ := hserve.flush w₂ s.inputs.length
      have hflushed : (UploadProgram.flush s.inputs.length).served serve w₂ = (.ok (), w₃) :=
        UploadProgram.served_request hflush
      obtain ⟨metadata, w₄, hinspect⟩ := hserve.inspect w₃ s.inputs.length
      have hinspected : (UploadProgram.inspect s.inputs.length).served serve w₃ =
          (.ok metadata, w₄) := UploadProgram.served_request hinspect
      exact ⟨_, w₄, Session.bind_ok.mpr ⟨key, w₁, hcreated,
        Session.bind_ok.mpr ⟨content, w₂, hwrite,
        Session.bind_ok.mpr ⟨(), w₃, hflushed, Session.bind_ok.mpr ⟨metadata, w₄, hinspected,
          rfl⟩⟩⟩⟩⟩

theorem stageField_image {target : UploadTarget} (hname : field.name = some "images") :
    UploadProgram.stageField app target usage s field =
      UploadProgram.stageImage app usage s field := by
  unfold UploadProgram.stageField
  rw [hname]
  rfl

/-- The sizes and the digests of the accepted inputs. -/
theorem stageAll_result {target : UploadTarget} {fields : List UploadField}
    (hnames : ∀ field ∈ fields, field.name = some "images")
    (h : (UploadProgram.stageAll app target usage s fields).served serve w = (.ok s', w')) :
    s'.inputs.map (fun input => (input.byteSize, input.checksumSha256)) =
      s.inputs.map (fun input => (input.byteSize, input.checksumSha256)) ++
        fields.map fun field => (field.content.length, (app.sha256 field.content).toList) := by
  induction fields generalizing s w with
  | nil =>
    cases h
    exact (List.append_nil _).symm
  | cons field rest ih =>
    obtain ⟨hname, hrest⟩ := List.forall_mem_cons.mp hnames
    unfold UploadProgram.stageAll at h
    rw [stageField_image hname, UploadProgram.served_bind] at h
    obtain ⟨s₁, w₁, hfirst, h⟩ := Session.bind_ok.mp h
    obtain ⟨input, hinputs, hsize, hchecksum⟩ := (stageImage_result hfirst).inputs
    rw [ih hrest h, hinputs, List.map_append, List.map_singleton, hsize, hchecksum,
      List.append_assoc]
    rfl

theorem FilesFit.cons_iff {files : ℕ} {contents : List (List UInt8)} (hne : contents ≠ []) :
    FilesFit app usage files total (content :: contents) ↔
      files < maxFilesPerJob ∧ content ≠ [] ∧ FileFits app usage total content ∧
        FilesFit app usage (files + 1) (total + content.length) contents := by
  have hpos := List.length_pos_of_ne_nil hne
  constructor
  · intro h
    obtain ⟨heach, hrest⟩ := List.forall_mem_cons.mp h.each
    have hfiles := h.files
    have hsum := h.sum
    have hbudget := h.budget
    simp only [List.length_cons, List.map_cons, List.sum_cons] at hfiles hsum hbudget
    exact ⟨by omega, heach.1, ⟨heach.2, by omega, by omega⟩,
      ⟨by omega, hrest, by omega, by omega⟩⟩
  · rintro ⟨-, hcontent, hfits, hrest⟩
    have hfiles := hrest.files
    have hsum := hrest.sum
    have hbudget := hrest.budget
    constructor
    · rw [List.length_cons]
      omega
    · exact List.forall_mem_cons.mpr ⟨⟨hcontent, hfits.each⟩, hrest.each⟩
    · rw [List.map_cons, List.sum_cons]
      omega
    · rw [List.map_cons, List.sum_cons]
      omega

theorem FilesFit.singleton_iff {files : ℕ} :
    FilesFit app usage files total [content] ↔
      files < maxFilesPerJob ∧ content ≠ [] ∧ FileFits app usage total content := by
  constructor
  · intro h
    obtain ⟨hne, heach⟩ := h.each content List.mem_cons_self
    exact ⟨h.files, hne, heach, h.sum, h.budget⟩
  · rintro ⟨hfiles, hne, hfits⟩
    exact ⟨hfiles, fun c hc => by rw [List.mem_singleton.mp hc]; exact ⟨hne, hfits.each⟩,
      hfits.sum, hfits.budget⟩

/-- The images pass by their complete contents. -/
theorem stageAll_passes (hserve : Accepting serve) (hbudget : app.storageBudgetBytes ≤ u64Max)
    {target : UploadTarget} {fields : List UploadField}
    (himages : ∀ field ∈ fields, field.IsImage) :
    (∃ s' w', (UploadProgram.stageAll app target usage s fields).served serve w = (.ok s', w')) ↔
      fields = [] ∨ FilesFit app usage s.inputs.length s.totalBytes
        (fields.map UploadField.content) := by
  induction fields generalizing s w with
  | nil => exact ⟨fun _ => Or.inl rfl, fun _ => ⟨s, w, rfl⟩⟩
  | cons field rest ih =>
    obtain ⟨himage, hrest⟩ := List.forall_mem_cons.mp himages
    unfold UploadProgram.stageAll
    rw [stageField_image himage.name]
    simp only [UploadProgram.served_bind, Session.bind_ok]
    have hfirst : (∃ s' w', (UploadProgram.stageImage app usage s field).served serve w =
        (.ok s', w')) ↔ s.inputs.length < maxFilesPerJob ∧ field.content ≠ [] ∧
          FileFits app usage s.totalBytes field.content :=
      stageImage_passes hserve hbudget himage
    have hnext : ∀ {s₁ : Staging} {w₁ : ω},
        (UploadProgram.stageImage app usage s field).served serve w = (.ok s₁, w₁) →
        s₁.inputs.length = s.inputs.length + 1 ∧
          s₁.totalBytes = s.totalBytes + field.content.length := by
      intro s₁ w₁ h
      obtain ⟨input, hinputs, -⟩ := (stageImage_result h).inputs
      rw [hinputs, List.length_append, List.length_singleton]
      exact ⟨rfl, (stageImage_result h).totalBytes⟩
    constructor
    · rintro ⟨s', w', s₁, w₁, h₁, h⟩
      obtain ⟨hroom, hne, hfits⟩ := hfirst.mp ⟨s₁, w₁, h₁⟩
      right
      rcases (ih hrest).mp ⟨s', w', h⟩ with rfl | hothers
      · exact FilesFit.singleton_iff.mpr ⟨hroom, hne, hfits⟩
      · rw [(hnext h₁).1, (hnext h₁).2] at hothers
        rcases eq_or_ne rest [] with rfl | hrestne
        · exact FilesFit.singleton_iff.mpr ⟨hroom, hne, hfits⟩
        · exact (FilesFit.cons_iff (by simpa using hrestne)).mpr ⟨hroom, hne, hfits, hothers⟩
    · rintro (hnil | hfits)
      · cases hnil
      · rcases eq_or_ne rest [] with rfl | hrestne
        · obtain ⟨s₁, w₁, h₁⟩ := hfirst.mpr (FilesFit.singleton_iff.mp hfits)
          exact ⟨s₁, w₁, s₁, w₁, h₁, rfl⟩
        · obtain ⟨hroom, hne, hfile, hothers⟩ :=
            (FilesFit.cons_iff (by simpa using hrestne)).mp hfits
          obtain ⟨s₁, w₁, h₁⟩ := hfirst.mpr ⟨hroom, hne, hfile⟩
          rw [← (hnext h₁).1, ← (hnext h₁).2] at hothers
          obtain ⟨s', w', h⟩ := (ih hrest).mpr (Or.inr hothers)
          exact ⟨s', w', s₁, w₁, h₁, h⟩

end Passing

/-- `storage_usage` lets a request in only while there is room. -/
theorem storageUsage_lt {app : AppState} {st st' : Storage} {usage : ℕ}
    (h : storageUsage app st = (.ok usage, st')) : usage < app.storageBudgetBytes := by
  unfold storageUsage at h
  obtain ⟨measured, st₁, -, h⟩ := Session.bind_ok.mp h
  split at h
  · cases h
  · rename_i hroom
    cases h
    exact not_le.mp hroom

/-- The upload limits hold at every moment of every request, whatever the storage and the codec
answer; image files pass by their complete contents; and an accepted input has their size and
digest. -/
theorem upload_limits_hold {app : AppState} (hbudget : app.storageBudgetBytes ≤ u64Max)
    (target : UploadTarget) (usage : ℕ) (fields : List UploadField) :
    (∀ (p : Program UploadCall UploadCall.Reply (Except ApiError Staging)) (log : UploadLog),
      Relation.ReflTransGen (Step UploadLog.Alone UploadLog.Records)
        ((UploadProgram.stageAll app target usage .initial fields).run, []) (p, log) →
      log.Within app usage ∧ ∀ st st', storageUsage app st = (.ok usage, st') →
        usage + log.handed ≤ app.storageBudgetBytes) ∧
    (∀ (ω : Type) (serve : ω → (q : UploadCall) → q.Reply × ω) (w : ω), Accepting serve →
      (∀ field ∈ fields, field.IsImage) →
      ((∃ s w', (UploadProgram.stageAll app target usage .initial fields).served serve w =
        (.ok s, w')) ↔
        fields = [] ∨ FilesFit app usage 0 0 (fields.map UploadField.content))) ∧
    (∀ (ω : Type) (serve : ω → (q : UploadCall) → q.Reply × ω) (w w' : ω) (s : Staging),
      (∀ field ∈ fields, field.name = some "images") →
      (UploadProgram.stageAll app target usage .initial fields).served serve w = (.ok s, w') →
      s.inputs.map (fun input => (input.byteSize, input.checksumSha256)) =
        fields.map fun field => (field.content.length, (app.sha256 field.content).toList)) := by
  refine ⟨fun p log hrun => ?_, fun ω serve w hserve himages => ?_,
    fun ω serve w w' s hnames h => ?_⟩
  · have hwithin := stageAll_within hbudget target fields hrun
    exact ⟨hwithin, fun st st' h => hwithin.budget (Or.inr (storageUsage_lt h).le)⟩
  · exact stageAll_passes hserve hbudget himages
  · exact stageAll_result hnames h

/-- A storage with room for three bytes. -/
def sampleLimited : AppState where
  storageBudgetBytes := 3
  maxActiveJobs := 5
  disk := ⟨fun _ => none, fun _ => 0⟩
  images := ⟨fun _ => none, fun _ _ => .ok (2, 3), fun _ => .ok false, fun _ => none⟩
  parseRfc3339 := fun _ => none
  sha256 := fun _ => Vector.replicate 32 0

/-- Three bytes in two files, the first in three chunks of which one is empty. -/
def sampleImages : List UploadField :=
  [⟨some "images", some "a.png", [[137], [], [80]], true⟩,
    ⟨some "images", some "b.png", [[137]], true⟩]

def acceptAll (w : Unit) : (q : UploadCall) → q.Reply × Unit
  | .createFile _ => (.ok "inputs/a/b", w)
  | .writeAll _ _ _ => (.ok (), w)
  | .flush _ => (.ok (), w)
  | .inspect _ => (.ok ⟨"image/png", 2, 3⟩, w)

theorem acceptAll_accepting : Accepting acceptAll :=
  ⟨fun w _ => ⟨_, w, rfl⟩, fun w _ _ _ => ⟨w, rfl⟩, fun w _ => ⟨w, rfl⟩, fun w _ => ⟨_, w, rfl⟩⟩

theorem sampleImages_isImage : ∀ field ∈ sampleImages, field.IsImage := by
  simp only [sampleImages, List.forall_mem_cons]
  exact ⟨⟨rfl, ⟨_, rfl⟩, rfl⟩, ⟨rfl, ⟨_, rfl⟩, rfl⟩, fun _ h => absurd h List.not_mem_nil⟩

theorem upload_limits_hold_sample : ∃ s w',
    (UploadProgram.stageAll sampleLimited .job 0 .initial sampleImages).served acceptAll () =
      (.ok s, w') :=
  ((upload_limits_hold (by decide) .job 0 sampleImages).2.1 Unit acceptAll () acceptAll_accepting
    sampleImages_isImage).mpr (Or.inr ⟨by decide, by decide, by decide, by decide⟩)

end TaskHarbor
