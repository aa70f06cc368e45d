import TaskHarbor.Api.Auth

/-! The three rules for a user name: what a login or a set-up normalises to, what the repository
accepts, and the pattern of the `users` table. -/
namespace TaskHarbor

/-- `[a-z0-9_-]`. -/
def usernameCharacter (c : Char) : Bool := c.isLower || c.isDigit || c == '_' || c == '-'

/-- `^[a-z0-9][a-z0-9_-]{2,31}$`. -/
structure MatchesUsernamePattern (s : String) : Prop where
  parts : ∃ first rest, s.toList = first :: rest ∧ (first.isLower || first.isDigit) = true ∧
    (∀ c ∈ rest, usernameCharacter c = true) ∧ 2 ≤ rest.length ∧ rest.length ≤ 31

section Characters

variable {c : Char} {cs : List Char} {s u : String}

theorem usernameCharacter_ascii (h : usernameCharacter c = true) : c.toNat ≤ 127 := by
  simp only [usernameCharacter, Bool.or_eq_true, beq_iff_eq] at h
  rcases h with ((h | h) | rfl) | rfl
  · have hrange : (decide ('a'.val ≤ c.val) && decide (c.val ≤ 'z'.val)) = true := h
    simp only [Bool.and_eq_true, decide_eq_true_eq] at hrange
    have hle := hrange.2
    have : c.val.toNat ≤ 122 := hle
    show c.val.toNat ≤ 127
    omega
  · simp only [Char.isDigit, Bool.and_eq_true, decide_eq_true_eq] at h
    have : c.val.toNat ≤ 57 := h.2
    show c.val.toNat ≤ 127
    omega
  · decide
  · decide

/-- A name character is its own lower case, one byte long and no white space. -/
theorem usernameCharacter_plain (h : usernameCharacter c = true) :
    c.toLower = c ∧ c.utf8Size = 1 ∧ isWhitespace c = false := by
  have hascii := usernameCharacter_ascii h
  have hall : ∀ n : Fin 128, usernameCharacter (Char.ofNat n) = true →
      (Char.ofNat n).toLower = Char.ofNat n ∧ (Char.ofNat n).utf8Size = 1 ∧
        isWhitespace (Char.ofNat n) = false := by
    decide +kernel
  have hc := hall ⟨c.toNat, by omega⟩
  simp only [Char.ofNat_toNat] at hc
  exact hc h

theorem usernameCharacters_cons {first : Char} {rest : List Char} :
    usernameCharacters (first :: rest) = true ↔ (first.isLower || first.isDigit) = true ∧
      ∀ c ∈ rest, usernameCharacter c = true := by
  simp only [usernameCharacters, Bool.and_eq_true, List.all_eq_true, usernameCharacter]

theorem mem_usernameCharacters (h : usernameCharacters cs = true) (hc : c ∈ cs) :
    usernameCharacter c = true := by
  cases cs with
  | nil => cases hc
  | cons first rest =>
    obtain ⟨hfirst, hrest⟩ := usernameCharacters_cons.mp h
    rcases List.mem_cons.mp hc with rfl | hc
    · unfold usernameCharacter
      rw [hfirst]
      rfl
    · exact hrest c hc

theorem byteSize_eq_length (h : ∀ c ∈ cs, c.utf8Size = 1) :
    (String.ofList cs).utf8ByteSize = cs.length := by
  induction cs with
  | nil => rfl
  | cons c cs ih =>
    have hsplit : String.ofList (c :: cs) = String.singleton c ++ String.ofList cs := by
      apply String.toList_inj.mp
      simp
    rw [hsplit, String.utf8ByteSize_append, String.utf8ByteSize_singleton,
      h c List.mem_cons_self, ih fun d hd => h d (List.mem_cons_of_mem c hd), List.length_cons]
    omega

theorem utf8ByteSize_username (h : usernameCharacters s.toList = true) :
    s.utf8ByteSize = s.length := by
  have hsize : (String.ofList s.toList).utf8ByteSize = s.toList.length :=
    byteSize_eq_length fun c hc => (usernameCharacter_plain (mem_usernameCharacters h hc)).2.1
  rw [String.ofList_toList] at hsize
  rw [hsize, String.length_toList]

theorem trim_username (h : usernameCharacters s.toList = true) : trim s = s := by
  have hplain : ∀ c ∈ s.toList, isWhitespace c = false := fun c hc =>
    (usernameCharacter_plain (mem_usernameCharacters h hc)).2.2
  have hstart : s.toList.dropWhile isWhitespace = s.toList := by
    refine List.dropWhile_eq_self_iff.mpr fun hlength => ?_
    rw [hplain _ (List.getElem_mem hlength)]
    exact Bool.false_ne_true
  have hend : s.toList.rdropWhile isWhitespace = s.toList := by
    refine List.rdropWhile_eq_self_iff.mpr fun hne => ?_
    rw [hplain _ (List.getLast_mem hne)]
    exact Bool.false_ne_true
  rw [trim, trimBy, hstart, hend, String.ofList_toList]

theorem lowercase_username (h : usernameCharacters s.toList = true) :
    s.toList.map Char.toLower = s.toList := by
  refine (List.map_congr_left fun c hc => ?_).trans (List.map_id _)
  exact (usernameCharacter_plain (mem_usernameCharacters h hc)).1

/-- Length and characters, as the table checks them. -/
theorem matches_iff : MatchesUsernamePattern s ↔
    (3 ≤ s.length ∧ s.length ≤ 32) ∧ usernameCharacters s.toList = true := by
  rw [← String.length_toList]
  constructor
  · intro h
    obtain ⟨first, rest, hs, hfirst, hrest, hmin, hmax⟩ := h.parts
    rw [hs, List.length_cons]
    exact ⟨⟨by omega, by omega⟩, usernameCharacters_cons.mpr ⟨hfirst, hrest⟩⟩
  · rintro ⟨⟨hmin, hmax⟩, hcharacters⟩
    cases hs : s.toList with
    | nil =>
      rw [hs] at hmin
      simp at hmin
    | cons first rest =>
      rw [hs] at hmin hmax hcharacters
      rw [List.length_cons] at hmin hmax
      obtain ⟨hfirst, hrest⟩ := usernameCharacters_cons.mp hcharacters
      exact ⟨first, rest, hs, hfirst, hrest, by omega, by omega⟩

theorem validateUsername_ok : validateUsername s = .ok () ↔
    3 ≤ s.utf8ByteSize ∧ s.utf8ByteSize ≤ 32 ∧ usernameCharacters s.toList = true := by
  constructor
  · intro h
    by_contra hinvalid
    rw [validateUsername, if_neg hinvalid] at h
    cases h
  · exact fun h => if_pos h

/-- The repository accepts what fits the pattern. -/
theorem validateUsername_iff : validateUsername s = .ok () ↔ MatchesUsernamePattern s := by
  rw [validateUsername_ok, matches_iff]
  constructor
  · rintro ⟨hmin, hmax, hcharacters⟩
    rw [utf8ByteSize_username hcharacters] at hmin hmax
    exact ⟨⟨hmin, hmax⟩, hcharacters⟩
  · rintro ⟨⟨hmin, hmax⟩, hcharacters⟩
    rw [utf8ByteSize_username hcharacters]
    exact ⟨hmin, hmax, hcharacters⟩

/-- A normalised name is a lower-cased trimmed text that fits the pattern. -/
theorem normalizeUsername_eq_some : normalizeUsername s = some u ↔
    String.ofList ((trim s).toList.map Char.toLower) = u ∧ MatchesUsernamePattern u := by
  rw [← validateUsername_iff, validateUsername_ok]
  unfold normalizeUsername
  generalize String.ofList ((trim s).toList.map Char.toLower) = v
  dsimp only
  rw [Option.ite_none_right_eq_some, Option.some_inj]
  constructor
  · rintro ⟨h, rfl⟩
    exact ⟨rfl, h⟩
  · rintro ⟨rfl, h⟩
    exact ⟨h, rfl⟩

/-- The check of the table is the pattern. -/
theorem UserRow.username_checks (row : UserRow) :
    ("users_username_valid", true) ∈ row.checks ↔ MatchesUsernamePattern row.username := by
  rw [matches_iff]
  constructor
  · intro h
    rcases List.mem_cons.mp h with h | h
    · have hvalid := congrArg Prod.snd h
      simpa [Bool.and_eq_true] using hvalid.symm
    · have hname : "users_username_valid" = "users_password_hash_present" :=
        congrArg Prod.fst (List.mem_singleton.mp h)
      exact absurd hname (by decide)
  · rintro ⟨hlength, hcharacters⟩
    refine List.mem_cons.mpr (Or.inl ?_)
    rw [decide_eq_true hlength, hcharacters]
    rfl

/-- A name that fits the pattern is left as it is. -/
theorem normalizeUsername_self (h : MatchesUsernamePattern u) : normalizeUsername u = some u := by
  have hcharacters := (matches_iff.mp h).2
  refine normalizeUsername_eq_some.mpr ⟨?_, h⟩
  rw [trim_username hcharacters, lowercase_username hcharacters, String.ofList_toList]

end Characters

/-- The rules of the API, of the repository and of the table agree, and every row that the table
admits has a name that a login can give. -/
theorem username_rules_agree :
    (∀ s u, normalizeUsername s = some u →
      validateUsername u = .ok () ∧ MatchesUsernamePattern u ∧ normalizeUsername u = some u) ∧
    (∀ u, validateUsername u = .ok () ∨ MatchesUsernamePattern u → normalizeUsername u = some u) ∧
    (∀ row : UserRow, ("users_username_valid", true) ∈ row.checks ↔
      MatchesUsernamePattern row.username) := by
  refine ⟨fun s u h => ?_, fun u h => ?_, fun row => ?_⟩
  · obtain ⟨-, hmatches⟩ := normalizeUsername_eq_some.mp h
    exact ⟨validateUsername_iff.mpr hmatches, hmatches, normalizeUsername_self hmatches⟩
  · rcases h with h | h
    · exact normalizeUsername_self (validateUsername_iff.mp h)
    · exact normalizeUsername_self h
  · exact row.username_checks

end TaskHarbor
