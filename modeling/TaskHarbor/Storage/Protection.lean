import TaskHarbor.Repository.Maintenance
import TaskHarbor.Storage.Walk

/-! The texts that a cleanup compares. A prefix test on texts is a prefix test on components, since
`starts_with` asks for the slash, so that one attempt's prefix does not protect another's files. -/
namespace TaskHarbor

/-- The components of a text. -/
def components (text : String) : Path := (text.toList.splitOn '/').map String.ofList

/-- A key that the program makes: plain parts between slashes. -/
structure PlainKey (key : String) : Prop where
  parts : ∃ path : Path, path ≠ [] ∧ (∀ part ∈ path, PlainPart part) ∧ key = keyOf path

/-- Every key that the rule names is one. -/
structure CleanupRule.Plain (rule : CleanupRule) : Prop where
  referenced : ∀ key ∈ rule.referencedKeys, PlainKey key
  protecteds : ∀ key ∈ rule.protectedPrefixes, PlainKey key

/-- `output_key`. -/
def outputKey (jobId attemptId inputId : ℕ) : String :=
  attemptOutputPrefix jobId attemptId ++ "/input-" ++ toString inputId ++ ".jpg"

section Texts

variable {path : Path} {text key : String}

theorem components_keyOf (hne : path ≠ []) (h : ∀ part ∈ path, '/' ∉ part.toList) :
    components (keyOf path) = path := by
  rw [components, keyOf, String.toList_ofList, List.splitOn_intercalate]
  · simp [Function.comp_def]
  · intro l hl
    obtain ⟨part, hpart, rfl⟩ := List.mem_map.mp hl
    exact h part hpart
  · simpa using hne

/-- A text is its components joined. -/
theorem keyOf_components (text : String) : keyOf (components text) = text := by
  apply String.toList_inj.mp
  rw [keyOf, String.toList_ofList, components, List.map_map]
  have hsame : (String.toList ∘ String.ofList) = id := by
    funext l
    simp
  rw [hsame, List.map_id, List.intercalate_splitOn]

theorem components_inj (h : components text = components key) : text = key := by
  rw [← keyOf_components text, h, keyOf_components]

theorem components_ne_nil (text : String) : components text ≠ [] := by
  intro h
  exact List.splitOn_ne_nil '/' text.toList (List.map_eq_nil_iff.mp h)

theorem keyOf_append {rest : Path} (hne : path ≠ []) (hrest : rest ≠ []) :
    keyOf (path ++ rest) = keyOf path ++ "/" ++ keyOf rest := by
  induction path with
  | nil => exact absurd rfl hne
  | cons part path ih =>
    rcases eq_or_ne path [] with rfl | hpath
    · rw [List.singleton_append, keyOf_cons hrest, keyOf_singleton]
    · rw [List.cons_append, keyOf_cons (List.append_ne_nil_of_right_ne_nil _ hrest), ih hpath,
        keyOf_cons hpath]
      simp only [String.append_assoc]

/-- Splitting at a slash. -/
theorem components_append (text key : String) :
    components (text ++ "/" ++ key) = components text ++ components key := by
  have hlist : (text ++ "/" ++ key).toList = text.toList ++ '/' :: key.toList := by simp
  rw [components, hlist, List.splitOn_append_cons_self, List.map_append]
  rfl

/-- The prefix test of the cleanup is one on components. -/
theorem protects_iff :
    (text = key ∨ (key ++ "/").toList <+: text.toList) ↔ components key <+: components text := by
  constructor
  · rintro (rfl | ⟨rest, hrest⟩)
    · exact List.prefix_refl _
    · have htext : text = key ++ "/" ++ String.ofList rest := by
        apply String.toList_inj.mp
        rw [String.toList_append, String.toList_ofList, hrest]
      rw [htext, components_append]
      exact List.prefix_append _ _
  · rintro ⟨rest, hrest⟩
    rcases eq_or_ne rest [] with rfl | hne
    · left
      exact components_inj (hrest.symm.trans (List.append_nil _))
    · right
      have htext : text = key ++ "/" ++ keyOf rest := by
        rw [← keyOf_components text, ← hrest, keyOf_append (components_ne_nil key) hne,
          keyOf_components]
      refine ⟨(keyOf rest).toList, ?_⟩
      rw [htext, String.toList_append, String.toList_append, String.toList_append]

/-- Without a backslash the text of a path is its key. -/
theorem relativeText_eq_keyOf (h : ∀ part ∈ path, '\\' ∉ part.toList) :
    relativeText path = keyOf path := by
  have hmap : (keyOf path).toList.map (fun c => if c = '\\' then '/' else c) =
      (keyOf path).toList := by
    refine (List.map_congr_left fun c hc => ?_).trans (List.map_id _)
    rcases mem_keyOf hc with rfl | ⟨part, hpart, hc⟩
    · rfl
    · refine if_neg ?_
      rintro rfl
      exact h part hpart hc
  rw [relativeText, hmap, String.ofList_toList]

theorem CleanupRule.isProtected_iff (rule : CleanupRule) :
    rule.isProtected text = true ↔ text ∈ rule.referencedKeys ∨
      ∃ key ∈ rule.protectedPrefixes, components key <+: components text := by
  simp only [CleanupRule.isProtected, Bool.or_eq_true, List.contains_iff_mem, List.any_eq_true,
    beq_iff_eq, List.isPrefixOf_iff_prefix, protects_iff]

theorem PlainKey.resolves (h : PlainKey key) : ∃ path, resolveKey key = .ok path := by
  obtain ⟨path, hne, hplain, rfl⟩ := h.parts
  exact ⟨path, resolveKey_keyOf hne hplain⟩

end Texts

/-! ### The keys of an attempt -/

section Attempts

variable {jobId attemptId inputId n m : ℕ}

theorem repr_digits {c : Char} (hc : c ∈ (toString n).toList) : c.isDigit = true := by
  rw [Nat.toString_eq_repr, Nat.toList_repr] at hc
  exact Nat.isDigit_of_mem_toDigits (by decide) (by decide) hc

theorem toString_inj (h : toString n = toString m) : n = m := by
  have hlist := congrArg String.toList h
  rw [Nat.toString_eq_repr, Nat.toString_eq_repr, Nat.toList_repr, Nat.toList_repr] at hlist
  rw [← Nat.ofDigitChars_ten_toDigits (n := n), hlist, Nat.ofDigitChars_ten_toDigits]

/-- A number between letters that are no separators. -/
theorem numbered_plain {before after : String} (hlength : 2 < before.length)
    (hbefore : ∀ c ∈ before.toList, c ≠ '/' ∧ c ≠ '\\' ∧ c ≠ ':')
    (hafter : ∀ c ∈ after.toList, c ≠ '/' ∧ c ≠ '\\' ∧ c ≠ ':') (n : ℕ) :
    PlainPart (before ++ toString n ++ after) := by
  refine plain_of_mem ?_ fun c hc => ?_
  · rw [String.length_append, String.length_append]
    omega
  · rw [String.toList_append, String.toList_append, List.mem_append, List.mem_append] at hc
    rcases hc with (hc | hc) | hc
    · exact hbefore c hc
    · have hdigit := repr_digits hc
      refine ⟨?_, ?_, ?_⟩ <;> rintro rfl <;> exact absurd hdigit (by decide)
    · exact hafter c hc

/-- The path of an attempt's outputs. -/
def attemptPath (jobId attemptId : ℕ) : Path :=
  ["outputs", "job-" ++ toString jobId, "attempt-" ++ toString attemptId]

/-- The path of one output. -/
def outputPath (jobId attemptId inputId : ℕ) : Path :=
  attemptPath jobId attemptId ++ ["input-" ++ toString inputId ++ ".jpg"]

theorem outputs_plain : PlainPart "outputs" := plain_of_mem (by decide) (by decide)

theorem attemptPath_plain : ∀ part ∈ attemptPath jobId attemptId, PlainPart part := by
  intro part hpart
  simp only [attemptPath, List.mem_cons, List.not_mem_nil, or_false] at hpart
  rcases hpart with rfl | rfl | rfl
  · exact outputs_plain
  · rw [← String.append_empty (s := "job-" ++ toString jobId)]
    exact numbered_plain (by decide) (by decide) (by decide) jobId
  · rw [← String.append_empty (s := "attempt-" ++ toString attemptId)]
    exact numbered_plain (by decide) (by decide) (by decide) attemptId

theorem attemptOutputPrefix_eq :
    attemptOutputPrefix jobId attemptId = keyOf (attemptPath jobId attemptId) := by
  rw [attemptPath, keyOf_cons (by simp), keyOf_cons (by simp), keyOf_singleton]
  apply String.toList_inj.mp
  simp [attemptOutputPrefix]

theorem outputKey_eq :
    outputKey jobId attemptId inputId = keyOf (outputPath jobId attemptId inputId) := by
  rw [outputPath, keyOf_append (by simp [attemptPath]) (by simp), keyOf_singleton, outputKey,
    attemptOutputPrefix_eq]
  apply String.toList_inj.mp
  simp

theorem outputPath_plain : ∀ part ∈ outputPath jobId attemptId inputId, PlainPart part := by
  intro part hpart
  rcases List.mem_append.mp hpart with h | h
  · exact attemptPath_plain part h
  · rw [List.mem_singleton.mp h]
    exact numbered_plain (by decide) (by decide) (by decide) inputId

theorem attemptPath_inj (h : attemptPath jobId attemptId = attemptPath n m) :
    jobId = n ∧ attemptId = m := by
  simp only [attemptPath, List.cons.injEq, true_and, and_true] at h
  constructor
  · exact toString_inj (String.append_right_inj _ |>.mp h.1)
  · exact toString_inj (String.append_right_inj _ |>.mp h.2)

/-- What the program protects is plain. -/
theorem activeAttemptOutputPrefixes_plain (db : Db) :
    ∀ key ∈ activeAttemptOutputPrefixes db, PlainKey key := by
  intro key hkey
  obtain ⟨a, -, rfl⟩ := List.mem_map.mp hkey
  exact ⟨_, List.cons_ne_nil _ _, attemptPath_plain, attemptOutputPrefix_eq⟩

theorem components_plain {path : Path} (hne : path ≠ []) (h : ∀ part ∈ path, PlainPart part) :
    components (keyOf path) = path :=
  components_keyOf hne fun part hpart hc => ((h part hpart).safe '/' hc).1 rfl

theorem components_attempt : components (attemptOutputPrefix jobId attemptId) =
    attemptPath jobId attemptId := by
  rw [attemptOutputPrefix_eq]
  exact components_plain (List.cons_ne_nil _ _) attemptPath_plain

theorem components_output : components (outputKey jobId attemptId inputId) =
    outputPath jobId attemptId inputId := by
  rw [outputKey_eq]
  exact components_plain (List.cons_ne_nil _ _) outputPath_plain

/-- An output lies in the directory of its own attempt and of no other. -/
theorem attemptPath_under_iff :
    attemptPath n m <+: outputPath jobId attemptId inputId ↔ n = jobId ∧ m = attemptId := by
  constructor
  · intro hunder
    have hsame := List.prefix_of_prefix_length_le hunder (List.prefix_append _ _) (Nat.le_refl 3)
    exact attemptPath_inj (hsame.eq_of_length rfl)
  · rintro ⟨rfl, rfl⟩
    exact List.prefix_append _ _

theorem relativeText_outputPath :
    relativeText (outputPath jobId attemptId inputId) = outputKey jobId attemptId inputId := by
  rw [outputKey_eq]
  exact relativeText_eq_keyOf fun part hpart hc =>
    ((outputPath_plain part hpart).safe '\\' hc).2.1 rfl

theorem output_isProtected_iff (rule : CleanupRule) (h : rule.referencedKeys = []) :
    rule.isProtected (outputKey jobId attemptId inputId) = true ↔
      ∃ key ∈ rule.protectedPrefixes, components key <+: outputPath jobId attemptId inputId := by
  rw [CleanupRule.isProtected_iff, components_output, h]
  simp

/-- The running attempts protect their own outputs and no others. -/
theorem outputKey_isProtected (db : Db) (olderThan : ℤ) (jobId attemptId inputId : ℕ) :
    (⟨[], activeAttemptOutputPrefixes db, olderThan⟩ : CleanupRule).isProtected
        (outputKey jobId attemptId inputId) = true ↔
      ∃ a ∈ db.jobAttempts.rows, a.state = .running ∧ a.jobId = jobId ∧ a.id = attemptId := by
  rw [output_isProtected_iff _ rfl]
  constructor
  · rintro ⟨key, hkey, hunder⟩
    obtain ⟨a, ha, rfl⟩ := List.mem_map.mp hkey
    obtain ⟨ha, hrunning⟩ := List.mem_filter.mp ha
    rw [components_attempt] at hunder
    obtain ⟨hjob, hid⟩ := attemptPath_under_iff.mp hunder
    exact ⟨a, ha, by simpa using hrunning, hjob, hid⟩
  · rintro ⟨a, ha, hrunning, hjob, hid⟩
    refine ⟨_, List.mem_map_of_mem (List.mem_filter.mpr ⟨ha, by simp [hrunning]⟩), ?_⟩
    rw [components_attempt]
    exact attemptPath_under_iff.mpr ⟨hjob, hid⟩

/-- What lies below a plain path is below its text. -/
theorem components_relativeText {path rest : Path} (hne : path ≠ [])
    (hplain : ∀ part ∈ path, PlainPart part) :
    path <+: components (relativeText (path ++ rest)) := by
  have hsafe : ∀ part ∈ path, '\\' ∉ part.toList :=
    fun part hpart hc => ((hplain part hpart).safe '\\' hc).2.1 rfl
  rcases eq_or_ne rest [] with rfl | hrest
  · rw [List.append_nil, relativeText_eq_keyOf hsafe, components_plain hne hplain]
  · have htext : relativeText (path ++ rest) = keyOf path ++ "/" ++ relativeText rest := by
      apply String.toList_inj.mp
      have hpath := congrArg String.toList (relativeText_eq_keyOf hsafe)
      rw [relativeText, String.toList_ofList] at hpath
      rw [relativeText, relativeText, keyOf_append hne hrest]
      simp [hpath]
    rw [htext, components_append, components_plain hne hplain]
    exact List.prefix_append _ _

/-- A protected prefix spares the files of its attempt. -/
theorem CleanupRule.protects_below {rule : CleanupRule}
    (h : attemptOutputPrefix jobId attemptId ∈ rule.protectedPrefixes) {path : Path}
    (hpath : attemptPath jobId attemptId <+: path) :
    rule.isProtected (relativeText path) = true := by
  obtain ⟨rest, rfl⟩ := hpath
  refine rule.isProtected_iff.mpr (Or.inr ⟨_, h, ?_⟩)
  rw [components_attempt]
  exact components_relativeText (List.cons_ne_nil _ _) attemptPath_plain

/-- A protected prefix spares the outputs of its attempt. -/
theorem CleanupRule.protects_output {rule : CleanupRule}
    (h : attemptOutputPrefix jobId attemptId ∈ rule.protectedPrefixes) :
    rule.isProtected (relativeText (outputPath jobId attemptId inputId)) = true :=
  rule.protects_below h (attemptPath_under_iff.mpr ⟨rfl, rfl⟩)

end Attempts

end TaskHarbor
