import TaskHarbor.Lifecycle.Publication

/-! `output_name`: the display name of a published output. Whatever the input was called, the
artifacts table takes the name, so that no publication fails on it. -/
namespace TaskHarbor

open Transaction

/-- `str::rsplit_once`: what stands around the last `c`. -/
def rsplitOnce (c : Char) : List Char → Option (List Char × List Char)
  | [] => none
  | d :: rest =>
      match rsplitOnce c rest with
      | some (before, after) => some (d :: before, after)
      | none => if d = c then some ([], rest) else none

/-- The stem that `output_name` keeps. -/
def outputStem (inputName : String) : List Char :=
  let stem := trimBy isWhitespace
    ((rsplitOnce '.' inputName.toList).elim inputName.toList Prod.fst)
  let stem := if stem = [] then "image".toList else stem
  stem.take 251

/-- `output_name`. -/
def outputName (inputName : String) : String := String.ofList (outputStem inputName) ++ ".jpg"

/-! ### The stem -/

section Stem

variable {c d : Char} {cs before after : List Char} {s : String}

theorem rsplitOnce_eq (h : rsplitOnce c cs = some (before, after)) : cs = before ++ c :: after := by
  induction cs generalizing before with
  | nil => cases h
  | cons d rest ih =>
    rw [rsplitOnce] at h
    cases hrest : rsplitOnce c rest with
    | some split =>
      rw [hrest] at h
      cases h
      rw [ih hrest, List.cons_append]
    | none =>
      rw [hrest] at h
      obtain ⟨rfl, hsplit⟩ := Option.ite_none_right_eq_some.mp h
      cases hsplit
      rfl

theorem trimBy_sublist (p : Char → Bool) (cs : List Char) : List.Sublist (trimBy p cs) cs :=
  (List.rdropWhile_prefix p _).sublist.trans (List.dropWhile_sublist p)

/-- A trimmed text starts with a character that is not trimmed. -/
theorem trimBy_head {p : Char → Bool} (h : trimBy p cs = d :: before) : p d = false := by
  obtain ⟨rest, hrest⟩ := List.rdropWhile_prefix p (cs.dropWhile p)
  rw [trimBy] at h
  rw [h, List.cons_append] at hrest
  have hne : cs.dropWhile p ≠ [] := by
    rw [← hrest]
    exact List.cons_ne_nil _ _
  have hhead := List.head_dropWhile_not p hne
  simp only [← hrest, List.head_cons] at hhead
  exact hhead

/-- The stem is not blank, short enough, and of characters of the input or plain ones. -/
theorem outputStem_chars (s : String) :
    (∃ c ∈ outputStem s, isWhitespace c = false) ∧ (outputStem s).length ≤ 251 ∧
      ∀ c ∈ outputStem s, c ∈ s.toList ∨ c ∈ "image".toList := by
  have hsub : List.Sublist ((rsplitOnce '.' s.toList).elim s.toList Prod.fst) s.toList := by
    cases hsplit : rsplitOnce '.' s.toList with
    | none => exact List.Sublist.refl _
    | some split =>
      rw [rsplitOnce_eq hsplit]
      exact List.sublist_append_left _ _
  unfold outputStem
  generalize (rsplitOnce '.' s.toList).elim s.toList Prod.fst = stem at hsub ⊢
  refine ⟨?_, List.length_take_le _ _, fun c hc => ?_⟩
  · dsimp only
    split_ifs with hblank
    · exact ⟨'i', by decide, by decide⟩
    · obtain ⟨d, rest, htrim⟩ := List.exists_cons_of_ne_nil hblank
      rw [htrim]
      exact ⟨d, List.mem_cons_self, trimBy_head htrim⟩
  · have hc := List.mem_of_mem_take hc
    split_ifs at hc with hblank
    · exact Or.inr hc
    · exact Or.inl (hsub.subset ((trimBy_sublist _ _).subset hc))

theorem outputStem_ne_nil (s : String) : outputStem s ≠ [] := by
  obtain ⟨⟨c, hc, -⟩, -⟩ := outputStem_chars s
  exact List.ne_nil_of_mem hc

theorem outputName_length (s : String) :
    5 ≤ (outputName s).length ∧ (outputName s).length ≤ 255 := by
  have hpos := List.length_pos_of_ne_nil (outputStem_ne_nil s)
  have hle := (outputStem_chars s).2.1
  have hlength : (outputName s).length = (outputStem s).length + 4 := by
    rw [outputName, String.length_append, String.length_ofList]
    rfl
  omega

theorem mem_outputName (h : c ∈ (outputName s).toList) :
    c ∈ s.toList ∨ c ∈ "image.jpg".toList := by
  rw [outputName, String.toList_append, String.toList_ofList, List.mem_append] at h
  rcases h with h | h
  · have himage : ∀ d ∈ "image".toList, d ∈ "image.jpg".toList := by decide
    exact ((outputStem_chars s).2.2 c h).imp id (himage c)
  · have hsuffix : ∀ d ∈ ".jpg".toList, d ∈ "image.jpg".toList := by decide
    exact Or.inr (hsuffix c h)

/-- A separator or a control character comes from the input. -/
theorem outputName_origin (h : c ∈ (outputName s).toList)
    (hspecial : c = '/' ∨ c = '\\' ∨ isControl c = true) : c ∈ s.toList := by
  rcases mem_outputName h with h | h
  · exact h
  · have hplain : ∀ d ∈ "image.jpg".toList, ¬(d = '/' ∨ d = '\\' ∨ isControl d = true) := by decide
    exact absurd hspecial (hplain c h)

theorem outputName_storable (h : storableText s = true) : storableText (outputName s) = true := by
  simp only [storableText, Bool.not_eq_true', List.contains_eq_mem, decide_eq_false_iff_not] at h ⊢
  intro hnul
  exact h (outputName_origin hnul (Or.inr (Or.inr (by decide))))

theorem outputName_btrim (s : String) : btrimLengthBetween 255 (outputName s) = true := by
  rw [btrimLengthBetween_iff (outputName_length s).2]
  refine ⟨'j', ?_, by decide⟩
  rw [outputName, String.toList_append]
  exact List.mem_append_right _ (by decide)

end Stem

/-! ### Publication -/

/-- The table takes the name as it is. -/
structure ArtifactName (name : String) : Prop where
  text : storableText name = true
  short : name.length ≤ 255
  named : btrimLengthBetween 255 name = true

theorem outputName_artifactName {s : String} (h : storableText s = true) :
    ArtifactName (outputName s) :=
  ⟨outputName_storable h, (outputName_length s).2, outputName_btrim s⟩

section Naming

variable {output : PendingOutputArtifact} {name : String}

/-- The same output under another name. -/
def PendingOutputArtifact.named (output : PendingOutputArtifact) (name : String) :
    PendingOutputArtifact :=
  { output with displayName := name }

/-- Binding the parameters depends on a storable name in its result only. -/
theorem PendingOutputArtifact.encode_named (h : storableText name = true)
    (output : PendingOutputArtifact) :
    (output.named name).encode = (output.named "").encode.map fun _ => name := by
  have hname : textParam name = .ok name := textParam_ok.mpr ⟨h, rfl⟩
  have hempty : textParam "" = .ok "" := rfl
  unfold encode named
  by_cases hindex : i16Max < output.itemIndex
  · simp only [if_pos hindex]
    rfl
  · simp only [if_neg hindex, hname, hempty]
    cases encodeU64 output.byteSize "output byte size" <;> try rfl
    cases encodeU32 output.width "output width" <;> try rfl
    cases encodeU32 output.height "output height" <;> try rfl
    cases encodeU64 output.sourceArtifactId "source artifact ID" <;> try rfl
    cases textParam output.storageKey <;> try rfl
    cases textParam output.mediaType <;> rfl

theorem checks_named {source : ArtifactRow} {jobId attemptId id : ℕ} {now : ℤ} {other : String}
    (h : ArtifactName name) (hother : ArtifactName other) :
    (output.row jobId attemptId source name now id).checks =
      (output.row jobId attemptId source other now id).checks := by
  have hnamed := h.named.trans hother.named.symm
  simp only [ArtifactRow.checks, PendingOutputArtifact.row, hnamed]
  rfl

/-- Rows with equal constraints and keys are refused alike. -/
theorem insertArtifact_error {mk mk' : ℕ → ArtifactRow} {hk : ∀ n, (mk n).id = n}
    {hk' : ∀ n, (mk' n).id = n} {db : Db} (hchecks : ∀ n, (mk n).checks = (mk' n).checks)
    (hjob : ∀ n, (mk n).jobId = (mk' n).jobId) (hkind : ∀ n, (mk n).kind = (mk' n).kind)
    (hindex : ∀ n, (mk n).itemIndex = (mk' n).itemIndex) (e : RepositoryError) :
    insertArtifact mk hk db = .error e ↔ insertArtifact mk' hk' db = .error e := by
  unfold insertArtifact
  simp only [hchecks, hjob, hkind, hindex]
  cases identityLeft db.artifacts.next with
  | error e' => exact Iff.rfl
  | ok _ =>
    simp only [except_ok_bind]
    cases enforce (mk' db.artifacts.next).checks with
    | error e' => exact Iff.rfl
    | ok _ =>
      simp only [except_ok_bind]
      generalize enforce _ = unique
      cases unique with
      | error e' => exact Iff.rfl
      | ok _ =>
        constructor
        · intro h
          cases h
        · intro h
          cases h

/-- Whether a publication fails, and how, does not depend on the name. -/
theorem insertOutputArtifact_named {jobId attemptId : ℕ} {now : ℤ} {db : Db} {other : String}
    (h : ArtifactName name) (hother : ArtifactName other) (e : RepositoryError) :
    insertOutputArtifact jobId attemptId (output.named name) now db = .error e ↔
      insertOutputArtifact jobId attemptId (output.named other) now db = .error e := by
  have hstored : ∀ {text : String}, ArtifactName text → varcharParam 255 text = .ok text :=
    fun h => varcharParam_ok.mpr ⟨h.text, storeVarchar_of_length_le h.short⟩
  unfold insertOutputArtifact
  simp only [PendingOutputArtifact.encode_named h.text,
    PendingOutputArtifact.encode_named hother.text, Tx.bind_run, Tx.liftExcept_run]
  cases (output.named "").encode with
  | error e' => exact Iff.rfl
  | ok _ =>
    have hsource : ∀ text, (output.named text).source jobId db = output.source jobId db :=
      fun _ => rfl
    simp only [Except.map, Tx.get_run, hsource]
    cases output.source jobId db with
    | none => exact Iff.rfl
    | some source =>
      simp only [Tx.bind_run, Tx.liftExcept_run, hstored h, hstored hother, Except.map]
      exact insertArtifact_error (fun _ => checks_named h hother) (fun _ => rfl) (fun _ => rfl)
        (fun _ => rfl) e

end Naming

/-! ### The guarantees -/

/-- What a published name promises about the input's name. -/
structure FitsOutput (inputName name : String) : Prop where
  length : 5 ≤ name.length ∧ name.length ≤ 255
  stem : ∃ stem : String, name = stem ++ ".jpg" ∧ ∃ c ∈ stem.toList, isWhitespace c = false
  origin : ∀ c ∈ name.toList, c = '/' ∨ c = '\\' ∨ isControl c = true → c ∈ inputName.toList
  stored : storeVarchar 255 name = some name
  named : btrimLengthBetween 255 name = true
  text : storableText inputName = true → storableText name = true
  inserts : storableText inputName = true → ∀ (jobId attemptId : ℕ)
    (output : PendingOutputArtifact) (now : ℤ) (db : Db) (e : RepositoryError),
    insertOutputArtifact jobId attemptId (output.named name) now db = .error e ↔
      insertOutputArtifact jobId attemptId (output.named "image.jpg") now db = .error e

theorem outputName_fits (s : String) : FitsOutput s (outputName s) where
  length := outputName_length s
  stem := by
    refine ⟨String.ofList (outputStem s), rfl, ?_⟩
    rw [String.toList_ofList]
    exact (outputStem_chars s).1
  origin := fun _ => outputName_origin
  stored := storeVarchar_of_length_le (outputName_length s).2
  named := outputName_btrim s
  text := outputName_storable
  inserts := by
    intro h jobId attemptId output now db e
    have himage : ArtifactName "image.jpg" := ⟨by decide, by decide, by decide +kernel⟩
    exact insertOutputArtifact_named (outputName_artifactName h) himage e

/-- Published names always fit, also when an output is resized again. -/
theorem published_names_fit (s : String) :
    FitsOutput s (outputName s) ∧ FitsOutput (outputName s) (outputName (outputName s)) ∧
      FitsOutput s (outputName (outputName s)) := by
  have hfirst := outputName_fits s
  have hsecond := outputName_fits (outputName s)
  refine ⟨hfirst, hsecond, hsecond.length, hsecond.stem, fun c hc hspecial => ?_, hsecond.stored,
    hsecond.named, fun h => hsecond.text (hfirst.text h), fun h => hsecond.inserts (hfirst.text h)⟩
  exact hfirst.origin c (hsecond.origin c hc hspecial) hspecial

end TaskHarbor
