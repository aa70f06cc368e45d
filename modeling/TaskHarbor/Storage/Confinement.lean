import TaskHarbor.Library.Framing
import TaskHarbor.Storage.Protection

/-! The paths that `resolve_key` admits. A path is read as its components, as `Path::components`
reads it on Unix, and an admitted key adds names only, so that it leads below the root. -/
namespace TaskHarbor

open Transaction

/-- `std::path::Component`. -/
inductive Component where
  | rootDir
  | curDir
  | parentDir
  | normal (name : String)
  deriving DecidableEq, Repr

def Component.isNormal : Component → Bool
  | .normal _ => true
  | _ => false

/-- A part between slashes: empty parts and dots inside a path are dropped. -/
def Component.ofPart (part : String) : Option Component :=
  if part = "" ∨ part = "." then none
  else if part = ".." then some .parentDir
  else some (.normal part)

/-- `Path::is_absolute`. -/
def isAbsolute (path : String) : Bool := path.toList.head? == some '/'

/-- The component that only the start of a path can be. -/
def leadingComponent (path : String) : List Component :=
  if isAbsolute path then [.rootDir]
  else if (components path).head? = some "." then [.curDir]
  else []

/-- `Path::components`. -/
def pathComponents (path : String) : List Component :=
  leadingComponent path ++ (components path).filterMap Component.ofPart

/-- `Path::join`. -/
def joinPath (root path : String) : String :=
  if isAbsolute path then path
  else if root.toList.getLast?.all (· == '/') then root ++ path
  else root ++ "/" ++ path

/-- `resolve_key` of a storage at `root`. -/
def resolveKeyIn (root key : String) : Except StorageError String :=
  if key.toList = [] ∨ '\\' ∈ key.toList ∨ ':' ∈ key.toList ∨ isAbsolute key = true ∨
      (pathComponents key).any (fun component => !component.isNormal) = true then
    .error .invalidKey
  else .ok (joinPath root key)

/-- Where a component leads from a place, both as names below the top of the file system. -/
def Component.follow (place : Path) : Component → Path
  | .rootDir => []
  | .curDir => place
  | .parentDir => place.dropLast
  | .normal name => place ++ [name]

/-- The place that a path denotes for a program that works at `cwd`. -/
def placeOf (cwd : Path) (path : String) : Path :=
  (pathComponents path).foldl Component.follow cwd

/-! ### Admitted keys -/

section Admission

variable {root key path : String} {names : Path} {part : String}

theorem Component.ofPart_normal (h : part ∉ ["", ".", ".."]) :
    Component.ofPart part = some (.normal part) := by
  simp only [List.mem_cons, List.not_mem_nil, or_false, not_or] at h
  simp [Component.ofPart, h]

theorem Component.ofPart_special {component : Component}
    (h : Component.ofPart part = some component)
    (hspecial : component.isNormal = false) : part = ".." := by
  unfold Component.ofPart at h
  split_ifs at h with hdropped hparent
  · exact hparent
  · cases h
    cases hspecial

/-- The components other than names that a relative path has. -/
theorem special_component_iff (hrelative : isAbsolute key = false) :
    (∃ component ∈ pathComponents key, component.isNormal = false) ↔
      (components key).head? = some "." ∨ ".." ∈ components key := by
  simp only [pathComponents, leadingComponent, hrelative, Bool.false_eq_true, if_false,
    List.mem_append, List.mem_filterMap]
  constructor
  · rintro ⟨component, hlead | ⟨part, hpart, hof⟩, hspecial⟩
    · left
      by_contra hdot
      rw [if_neg hdot] at hlead
      exact List.not_mem_nil hlead
    · right
      rw [← Component.ofPart_special hof hspecial]
      exact hpart
  · rintro (hdot | hparent)
    · exact ⟨.curDir, Or.inl (by rw [if_pos hdot]; exact List.mem_singleton_self _), rfl⟩
    · exact ⟨.parentDir, Or.inr ⟨"..", hparent, rfl⟩, rfl⟩

theorem isAbsolute_iff : isAbsolute key = true ↔ key.toList.head? = some '/' := by
  simp [isAbsolute]

/-- The admitted keys are those that resolve below the root. -/
theorem resolveKeyIn_eq :
    resolveKeyIn root key = (resolveKey key).map fun _ => joinPath root key := by
  have hsame : (key.toList = [] ∨ '\\' ∈ key.toList ∨ ':' ∈ key.toList ∨ isAbsolute key = true ∨
        (pathComponents key).any (fun component => !component.isNormal) = true) ↔
      (key.toList = [] ∨ '\\' ∈ key.toList ∨ ':' ∈ key.toList ∨ key.toList.head? = some '/' ∨
        (components key).head? = some "." ∨ ".." ∈ components key) := by
    rw [← isAbsolute_iff]
    rcases Bool.eq_false_or_eq_true (isAbsolute key) with habs | habs
    · simp [habs]
    · rw [← special_component_iff habs]
      simp
  unfold resolveKeyIn resolveKey
  simp only [hsame, components]
  split_ifs <;> rfl

theorem resolveKeyIn_ok_iff :
    resolveKeyIn root key = .ok path ↔ (∃ names, resolveKey key = .ok names) ∧
      path = joinPath root key := by
  rw [resolveKeyIn_eq]
  cases resolveKey key with
  | error e => simp [Except.map]
  | ok names => simp [Except.map, eq_comm]

/-- `resolve_key` accepts by the text alone. -/
theorem resolveKey_ok_iff :
    (∃ names, resolveKey key = .ok names) ↔ key ≠ "" ∧ '\\' ∉ key.toList ∧ ':' ∉ key.toList ∧
      key.toList.head? ≠ some '/' ∧ (components key).head? ≠ some "." ∧
      ".." ∉ components key := by
  have hempty : key ≠ "" ↔ key.toList ≠ [] := by simp
  rw [hempty]
  unfold resolveKey
  simp only [components]
  split_ifs with h
  · simp only [exists_false, false_iff]
    tauto
  · simp only [Except.ok.injEq, exists_eq', true_iff]
    tauto

theorem resolveKey_eq (h : resolveKey key = .ok names) :
    names = (components key).filter fun part => part != "" && part != "." := by
  unfold resolveKey at h
  simp only at h
  split_ifs at h
  cases h
  rfl

theorem not_mem_of_mem_splitOn {c : Char} {cs l : List Char} (h : l ∈ cs.splitOn c) : c ∉ l := by
  induction cs generalizing l with
  | nil =>
    rw [List.splitOn_nil, List.mem_singleton] at h
    rw [h]
    exact List.not_mem_nil
  | cons d cs ih =>
    rw [List.splitOn_cons_eq_if_modifyHead] at h
    obtain ⟨first, rest, hsplit⟩ := List.exists_cons_of_ne_nil (List.splitOn_ne_nil c cs)
    rw [hsplit] at h ih
    split_ifs at h with hd
    · rcases List.mem_cons.mp h with rfl | h
      · exact List.not_mem_nil
      · exact ih h
    · rw [List.modifyHead_cons] at h
      rcases List.mem_cons.mp h with rfl | h
      · have hfirst := ih List.mem_cons_self
        have hne : c ≠ d := by
          rintro rfl
          exact hd (beq_self_eq_true c)
        exact List.not_mem_cons_of_ne_of_not_mem hne hfirst
      · exact ih (List.mem_cons_of_mem _ h)

theorem components_no_slash (hpart : part ∈ components key) : '/' ∉ part.toList := by
  obtain ⟨l, hl, rfl⟩ := List.mem_map.mp hpart
  rw [String.toList_ofList]
  exact not_mem_of_mem_splitOn hl

theorem resolveKey_names (h : resolveKey key = .ok names) :
    ∀ name ∈ names, name ∉ ["", ".", ".."] ∧ '/' ∉ name.toList := by
  have hadmitted := resolveKey_ok_iff.mp ⟨names, h⟩
  intro name hname
  rw [resolveKey_eq h, List.mem_filter] at hname
  obtain ⟨hpart, hkept⟩ := hname
  refine ⟨?_, components_no_slash hpart⟩
  have hparent : name ≠ ".." := by
    rintro rfl
    exact hadmitted.2.2.2.2.2 hpart
  simpa [hparent] using hkept

/-- An admitted key has a first part. -/
theorem resolveKey_ne_nil (h : resolveKey key = .ok names) : names ≠ [] := by
  obtain ⟨hne, -, -, hslash, hdot, -⟩ := resolveKey_ok_iff.mp ⟨names, h⟩
  obtain ⟨first, rest, hparts⟩ := List.exists_cons_of_ne_nil (components_ne_nil key)
  have hfirst : first ≠ "" := by
    rintro rfl
    have hkey := keyOf_components key
    rw [hparts] at hkey
    rcases eq_or_ne rest [] with rfl | hrest
    · exact hne hkey.symm
    · rw [keyOf_cons hrest] at hkey
      rw [← hkey] at hslash
      exact hslash (by simp)
  have hfirst' : first ≠ "." := by
    rintro rfl
    rw [hparts] at hdot
    exact hdot rfl
  have hmem : first ∈ names := by
    rw [resolveKey_eq h, hparts]
    exact List.mem_filter.mpr ⟨List.mem_cons_self, by simp [hfirst, hfirst']⟩
  exact List.ne_nil_of_mem hmem

theorem filterMap_normal {parts : Path} (h : ".." ∉ parts) :
    parts.filterMap Component.ofPart =
      (parts.filter fun part => part != "" && part != ".").map .normal := by
  induction parts with
  | nil => rfl
  | cons part parts ih =>
    obtain ⟨hpart, hparts⟩ := List.ne_and_not_mem_of_not_mem_cons h
    have ih := ih hparts
    rcases Decidable.em (part ∈ ["", "."]) with hdropped | hkept
    · have hnone : Component.ofPart part = none := if_pos (by simpa using hdropped)
      have hfilter : (part != "" && part != ".") = false := by
        rcases List.mem_cons.mp hdropped with rfl | hdropped
        · rfl
        · rw [List.mem_singleton.mp hdropped]
          rfl
      rw [List.filterMap_cons_none hnone, ih, List.filter_cons_of_neg (by simp [hfilter])]
    · simp only [List.mem_cons, List.not_mem_nil, or_false, not_or] at hkept
      have hnormal : part ∉ ["", ".", ".."] := by
        simp [hkept, Ne.symm hpart]
      rw [List.filterMap_cons_some (Component.ofPart_normal hnormal), ih,
        List.filter_cons_of_pos (by simp [hkept]), List.map_cons]

/-- An admitted key has names for components and no others. -/
theorem pathComponents_of_resolve (h : resolveKey key = .ok names) :
    pathComponents key = names.map .normal := by
  obtain ⟨-, -, -, hslash, hdot, hparent⟩ := resolveKey_ok_iff.mp ⟨names, h⟩
  have hlead : leadingComponent key = [] := by
    rw [leadingComponent, if_neg, if_neg hdot]
    rwa [isAbsolute_iff]
  rw [pathComponents, hlead, List.nil_append, filterMap_normal hparent, resolveKey_eq h]

end Admission

/-! ### Below the root -/

section Below

variable {root key path : String} {names : Path}

theorem leadingComponent_congr (hhead : path.toList.head? = root.toList.head?)
    (hfirst : (components path).head? = (components root).head?) :
    leadingComponent path = leadingComponent root := by
  unfold leadingComponent isAbsolute
  rw [hhead]
  congr 2
  rw [hfirst]

theorem components_slash_head (root key : String) :
    (components (root ++ "/" ++ key)).head? = (components root).head? := by
  rw [components_append]
  exact List.head?_append_of_ne_nil _ (components_ne_nil root)

/-- What follows a slash does not change how a path starts. -/
theorem leadingComponent_slash (root key : String) :
    leadingComponent (root ++ "/" ++ key) = leadingComponent (root ++ "/" ++ "") := by
  apply leadingComponent_congr
  · simp only [String.toList_append, List.append_assoc]
    cases root.toList <;> rfl
  · rw [components_slash_head, components_slash_head]

theorem leadingComponent_append (hroot : root ≠ "") (key : String) :
    leadingComponent (root ++ "/" ++ key) = leadingComponent root := by
  obtain ⟨c, l, hl⟩ := List.exists_cons_of_ne_nil (show root.toList ≠ [] by simpa using hroot)
  apply leadingComponent_congr
  · simp [hl]
  · exact components_slash_head root key

/-- Joining a relative path puts its components after those of the root. -/
theorem pathComponents_joinPath (habs : isAbsolute key = false) (hkey : leadingComponent key = []) :
    pathComponents (joinPath root key) = pathComponents root ++ pathComponents key := by
  have hempty : (components "").filterMap Component.ofPart = [] := by decide
  rw [joinPath, habs, if_neg Bool.false_ne_true]
  split_ifs with hsep
  · rcases List.eq_nil_or_concat root.toList with hnil | ⟨l, c, hl⟩
    · obtain rfl : root = "" := by simpa using hnil
      rw [String.empty_append]
      rfl
    · rw [hl, List.concat_eq_append, List.getLast?_concat] at hsep
      obtain rfl : c = '/' := by simpa using hsep
      have hroot : root = String.ofList l ++ "/" ++ "" := by
        apply String.toList_inj.mp
        simp [hl]
      have hjoined : root ++ key = String.ofList l ++ "/" ++ key := by
        rw [hroot, String.append_empty]
      rw [hjoined, hroot]
      simp only [pathComponents, leadingComponent_slash (String.ofList l) key, hkey,
        components_append, List.filterMap_append, hempty, List.nil_append, List.append_nil,
        List.append_assoc]
  · have hroot : root ≠ "" := by
      rintro rfl
      exact hsep rfl
    simp only [pathComponents, leadingComponent_append hroot, hkey, components_append,
      List.filterMap_append, List.nil_append, List.append_assoc]

/-- The admitted path is the root followed by the names of the key. -/
theorem resolveKeyIn_components (h : resolveKeyIn root key = .ok path)
    (hnames : resolveKey key = .ok names) :
    pathComponents path = pathComponents root ++ names.map .normal := by
  obtain ⟨-, -, -, hslash, hdot, -⟩ := resolveKey_ok_iff.mp ⟨names, hnames⟩
  have habs : isAbsolute key = false := by
    rw [← Bool.not_eq_true, isAbsolute_iff]
    exact hslash
  have hlead : leadingComponent key = [] := by
    rw [leadingComponent, habs, if_neg Bool.false_ne_true, if_neg hdot]
  rw [(resolveKeyIn_ok_iff.mp h).2, pathComponents_joinPath habs hlead,
    pathComponents_of_resolve hnames]

theorem follow_names (place names : Path) :
    (names.map Component.normal).foldl Component.follow place = place ++ names := by
  induction names generalizing place with
  | nil => simp
  | cons name names ih =>
    rw [List.map_cons, List.foldl_cons, ih]
    simp [Component.follow]

/-- The admitted path leads below the place of the root, whatever the root is. -/
theorem resolveKeyIn_place (h : resolveKeyIn root key = .ok path)
    (hnames : resolveKey key = .ok names) (cwd : Path) :
    placeOf cwd path = placeOf cwd root ++ names := by
  rw [placeOf, resolveKeyIn_components h hnames, List.foldl_append, follow_names]
  rfl

end Below

/-! ### The keys that the program makes -/

/-- `attempt_output_prefix`; an attempt's id is signed. -/
def attemptOutputPrefixOf (jobId : ℕ) (attemptId : ℤ) : String :=
  "outputs/job-" ++ toString jobId ++ "/attempt-" ++ toString attemptId

/-- `output_key`. -/
def outputKeyOf (jobId : ℕ) (attemptId : ℤ) (inputId : ℕ) : String :=
  attemptOutputPrefixOf jobId attemptId ++ "/input-" ++ toString inputId ++ ".jpg"

/-- The identifiers that go into a key; a UUID has 128 bits. -/
inductive GeneratedKey where
  | batch (id : Fin (2 ^ 128))
  | file (batchId id : Fin (2 ^ 128))
  | attempt (jobId : ℕ) (attemptId : ℤ)
  | output (jobId : ℕ) (attemptId : ℤ) (inputId : ℕ)
  deriving DecidableEq

namespace GeneratedKey

/-- `begin_upload`, `create_file`, `attempt_output_prefix` and `output_key`. -/
def key : GeneratedKey → String
  | batch id => "inputs/" ++ uuidText id
  | file batchId id => "inputs/" ++ uuidText batchId ++ "/" ++ uuidText id
  | attempt jobId attemptId => attemptOutputPrefixOf jobId attemptId
  | output jobId attemptId inputId => outputKeyOf jobId attemptId inputId

/-- The names that the key resolves to. -/
def path : GeneratedKey → Path
  | batch id => ["inputs", uuidText id]
  | file batchId id => ["inputs", uuidText batchId, uuidText id]
  | attempt jobId attemptId =>
      ["outputs", "job-" ++ toString jobId, "attempt-" ++ toString attemptId]
  | output jobId attemptId inputId =>
      ["outputs", "job-" ++ toString jobId, "attempt-" ++ toString attemptId,
        "input-" ++ toString inputId ++ ".jpg"]

end GeneratedKey

section Generated

variable {n m : ℕ} {x y : ℤ}

theorem int_repr_chars {c : Char} (hc : c ∈ (toString x).toList) : c = '-' ∨ c.isDigit = true := by
  rw [Int.toString_eq_repr, Int.repr_eq_if] at hc
  split_ifs at hc
  · exact Or.inr (repr_digits (n := x.toNat) hc)
  · rw [String.toList_append, List.mem_append] at hc
    rcases hc with hc | hc
    · left
      simpa using hc
    · exact Or.inr (repr_digits (n := (-x).toNat) hc)

theorem digits_ne_dash (s : String) : toString n ≠ "-" ++ s := by
  intro h
  have hdash : '-' ∈ (toString n).toList := by
    rw [h, String.toList_append]
    exact List.mem_append_left _ List.mem_cons_self
  exact absurd (repr_digits hdash) (by decide)

theorem int_toString_inj (h : toString x = toString y) : x = y := by
  rw [Int.toString_eq_repr, Int.toString_eq_repr, Int.repr_eq_if, Int.repr_eq_if] at h
  split_ifs at h with hx hy hy
  · have := toString_inj (n := x.toNat) (m := y.toNat) h
    omega
  · exact absurd h (digits_ne_dash (n := x.toNat) _)
  · exact absurd h.symm (digits_ne_dash (n := y.toNat) _)
  · have := toString_inj (n := (-x).toNat) (m := (-y).toNat) (String.append_right_inj _ |>.mp h)
    omega

theorem digitChar_inj {a b : ℕ} (h : Nat.digitChar (a % 16) = Nat.digitChar (b % 16)) :
    a % 16 = b % 16 := by
  have hall : ∀ i j : Fin 16, Nat.digitChar i = Nat.digitChar j → i = j := by decide
  have := hall ⟨a % 16, Nat.mod_lt a (by decide)⟩ ⟨b % 16, Nat.mod_lt b (by decide)⟩ h
  exact congrArg Fin.val this

theorem hexDigits_length (u : Uuid) (i k : ℕ) : (hexDigits u i k).length = k := by
  rw [hexDigits, List.length_map, List.length_range]

theorem hexDigits_inj {u v : Uuid} {i k : ℕ} (h : hexDigits u i k = hexDigits v i k) {j : ℕ}
    (hi : i ≤ j) (hj : j < i + k) : u / 16 ^ (31 - j) % 16 = v / 16 ^ (31 - j) % 16 := by
  have hget := List.map_inj_left.mp h (j - i) (List.mem_range.mpr (by omega))
  have hplace : i + (j - i) = j := by omega
  rw [hplace] at hget
  exact digitChar_inj hget

/-- The text of a UUID determines its bits. -/
theorem uuidText_inj {u v : Fin (2 ^ 128)} (h : uuidText u = uuidText v) : u = v := by
  have hlist := String.ofList_inj.mp h
  obtain ⟨hlist, hlast⟩ := List.append_inj' hlist (by simp [hexDigits_length])
  obtain ⟨hlist, hfourth⟩ := List.append_inj' hlist (by simp [hexDigits_length])
  obtain ⟨hlist, hthird⟩ := List.append_inj' hlist (by simp [hexDigits_length])
  obtain ⟨hfirst, hsecond⟩ := List.append_inj' hlist (by simp [hexDigits_length])
  have hdigits : ∀ j < 32, (u : ℕ) / 16 ^ (31 - j) % 16 = (v : ℕ) / 16 ^ (31 - j) % 16 := by
    intro j hj
    rcases Nat.lt_or_ge j 8 with h8 | h8
    · exact hexDigits_inj hfirst (by omega) (by omega)
    rcases Nat.lt_or_ge j 12 with h12 | h12
    · exact hexDigits_inj (List.cons.inj hsecond).2 h8 (by omega)
    rcases Nat.lt_or_ge j 16 with h16 | h16
    · exact hexDigits_inj (List.cons.inj hthird).2 h12 (by omega)
    rcases Nat.lt_or_ge j 20 with h20 | h20
    · exact hexDigits_inj (List.cons.inj hfourth).2 h16 (by omega)
    · exact hexDigits_inj (List.cons.inj hlast).2 h20 (by omega)
  apply Fin.ext
  apply Framing.eq_of_digits (b := 16) (m := 32) u.isLt v.isLt
  intro i hi
  have hplace : 31 - (31 - i) = i := by omega
  simpa only [hplace] using hdigits (31 - i) (by omega)

/-- A signed number between letters that are no separators. -/
theorem signed_plain {before : String} (hlength : 2 < before.length)
    (hbefore : ∀ c ∈ before.toList, c ≠ '/' ∧ c ≠ '\\' ∧ c ≠ ':') (x : ℤ) :
    PlainPart (before ++ toString x) := by
  refine plain_of_mem ?_ fun c hc => ?_
  · rw [String.length_append]
    omega
  · rw [String.toList_append, List.mem_append] at hc
    rcases hc with hc | hc
    · exact hbefore c hc
    · rcases int_repr_chars hc with rfl | hdigit
      · decide
      · refine ⟨?_, ?_, ?_⟩ <;> rintro rfl <;> exact absurd hdigit (by decide)

namespace GeneratedKey

variable (g : GeneratedKey)

theorem path_ne_nil : g.path ≠ [] := by
  cases g <;> exact List.cons_ne_nil _ _

theorem path_plain : ∀ part ∈ g.path, PlainPart part := by
  have hjob : ∀ jobId : ℕ, PlainPart ("job-" ++ toString jobId) := by
    intro jobId
    rw [← String.append_empty (s := "job-" ++ toString jobId)]
    exact numbered_plain (by decide) (by decide) (by decide) jobId
  have hattempt : ∀ attemptId : ℤ, PlainPart ("attempt-" ++ toString attemptId) :=
    signed_plain (by decide) (by decide)
  have hinput : ∀ inputId : ℕ, PlainPart ("input-" ++ toString inputId ++ ".jpg") :=
    numbered_plain (by decide) (by decide) (by decide)
  intro part hpart
  cases g with
  | batch id =>
    simp only [path, List.mem_cons, List.not_mem_nil, or_false] at hpart
    rcases hpart with rfl | rfl
    · exact inputs_plain
    · exact uuidText_plain _
  | file batchId id =>
    simp only [path, List.mem_cons, List.not_mem_nil, or_false] at hpart
    rcases hpart with rfl | rfl | rfl
    · exact inputs_plain
    · exact uuidText_plain _
    · exact uuidText_plain _
  | attempt jobId attemptId =>
    simp only [path, List.mem_cons, List.not_mem_nil, or_false] at hpart
    rcases hpart with rfl | rfl | rfl
    · exact outputs_plain
    · exact hjob jobId
    · exact hattempt attemptId
  | output jobId attemptId inputId =>
    simp only [path, List.mem_cons, List.not_mem_nil, or_false] at hpart
    rcases hpart with rfl | rfl | rfl | rfl
    · exact outputs_plain
    · exact hjob jobId
    · exact hattempt attemptId
    · exact hinput inputId

theorem key_eq : g.key = keyOf g.path := by
  apply String.toList_inj.mp
  cases g <;>
    simp [key, path, keyOf, List.intercalate_cons_cons, attemptOutputPrefixOf, outputKeyOf]

/-- A generated key is admitted. -/
theorem resolves : resolveKey g.key = .ok g.path := by
  rw [key_eq]
  exact resolveKey_keyOf g.path_ne_nil g.path_plain

/-- Distinct identifiers name distinct paths. -/
theorem path_inj {g g' : GeneratedKey} (h : g.path = g'.path) : g = g' := by
  have hjob : ∀ {a b : ℕ}, "job-" ++ toString a = "job-" ++ toString b → a = b :=
    fun h => toString_inj (String.append_right_inj _ |>.mp h)
  have hattempt : ∀ {a b : ℤ}, "attempt-" ++ toString a = "attempt-" ++ toString b → a = b :=
    fun h => int_toString_inj (String.append_right_inj _ |>.mp h)
  have hinput : ∀ {a b : ℕ}, "input-" ++ toString a ++ ".jpg" = "input-" ++ toString b ++ ".jpg" →
      a = b :=
    fun h => toString_inj (String.append_right_inj _ |>.mp (String.append_left_inj _ |>.mp h))
  have houtputs : ("inputs" = "outputs") = False := eq_false (by decide)
  have hinputs : ("outputs" = "inputs") = False := eq_false (by decide)
  cases g <;> cases g' <;> simp only [path, List.cons.injEq, true_and, and_true, and_false,
    false_and, reduceCtorEq, houtputs, hinputs] at h
  · rw [uuidText_inj h]
  · rw [uuidText_inj h.1, uuidText_inj h.2]
  · rw [hjob h.1, hattempt h.2]
  · rw [hjob h.1, hattempt h.2.1, hinput h.2.2]

theorem attempt_under_iff {j j' : ℕ} {a a' : ℤ} {i : ℕ} :
    (attempt j' a').path <+: (output j a i).path ↔ j = j' ∧ a = a' := by
  constructor
  · intro hunder
    obtain ⟨rest, hrest⟩ := hunder
    have htake := congrArg (List.take 3) hrest
    have hsame : (attempt j' a').path = (attempt j a).path := htake
    cases path_inj hsame
    exact ⟨rfl, rfl⟩
  · rintro ⟨rfl, rfl⟩
    exact ⟨["input-" ++ toString i ++ ".jpg"], rfl⟩

end GeneratedKey

/-- `begin_upload` works under the key of its identifier. -/
theorem beginUpload_key {disk : Disk} {id : Fin (2 ^ 128)} {upload : UploadBatch} {st st' : Storage}
    (h : beginUpload disk id st = (.ok upload, st')) :
    upload.batchKey = (GeneratedKey.batch id).key := by
  obtain ⟨path, -, h⟩ := Session.lift_bind_ok.mp h
  obtain ⟨u, -, h⟩ := Session.lift_bind_ok.mp h
  cases h
  rfl

/-- `create_file` returns the key of its identifier below that of the batch. -/
theorem createFile_key {disk : Disk} {batchId id : Fin (2 ^ 128)} {upload : UploadBatch}
    {key : String} {path : Path} {st st' : Storage}
    (hupload : upload.batchKey = (GeneratedKey.batch batchId).key)
    (h : upload.createFile disk id st = (.ok (key, path), st')) :
    key = (GeneratedKey.file batchId id).key ∧ path = (GeneratedKey.file batchId id).path := by
  unfold UploadBatch.createFile at h
  rw [hupload] at h
  obtain ⟨path', hpath, h⟩ := Session.lift_bind_ok.mp h
  obtain ⟨u, -, h⟩ := Session.lift_bind_ok.mp h
  have hresolves := (GeneratedKey.file batchId id).resolves
  obtain rfl : (GeneratedKey.file batchId id).path = path' :=
    Except.ok.inj (hresolves.symm.trans hpath)
  cases h
  exact ⟨rfl, rfl⟩

/-- The database numbers attempts from one up. -/
theorem attemptOutputPrefixOf_natCast (jobId attemptId : ℕ) :
    attemptOutputPrefixOf jobId attemptId = attemptOutputPrefix jobId attemptId := rfl

theorem outputKeyOf_natCast (jobId attemptId inputId : ℕ) :
    outputKeyOf jobId attemptId inputId = outputKey jobId attemptId inputId := rfl

end Generated

/-- Storage keys are confined: acceptance by the text alone, accepted keys strictly below the root,
generated keys accepted and apart, and each output below the directory of its own attempt only. -/
theorem keys_confined (root : String) :
    (∀ key, (∃ path, resolveKeyIn root key = .ok path) ↔
      key ≠ "" ∧ '\\' ∉ key.toList ∧ ':' ∉ key.toList ∧ key.toList.head? ≠ some '/' ∧
        (components key).head? ≠ some "." ∧ ".." ∉ components key) ∧
    (∀ key path, resolveKeyIn root key = .ok path → ∃ names : Path, names ≠ [] ∧
      (∀ name ∈ names, name ∉ ["", ".", ".."] ∧ '/' ∉ name.toList) ∧
      resolveKey key = .ok names ∧
      pathComponents path = pathComponents root ++ names.map .normal ∧
      ∀ cwd, placeOf cwd path = placeOf cwd root ++ names) ∧
    (∀ g : GeneratedKey, ∃ path, resolveKeyIn root g.key = .ok path) ∧
    (∀ (g g' : GeneratedKey) (path path' : String), resolveKeyIn root g.key = .ok path →
      resolveKeyIn root g'.key = .ok path' →
      (pathComponents path = pathComponents path' ↔ g = g')) ∧
    ∀ (j j' : ℕ) (a a' : ℤ) (i : ℕ) (path path' : String),
      resolveKeyIn root (outputKeyOf j a i) = .ok path →
      resolveKeyIn root (attemptOutputPrefixOf j' a') = .ok path' →
      (pathComponents path' <+: pathComponents path ↔ j = j' ∧ a = a') := by
  have hnormal : Function.Injective Component.normal := fun _ _ h => Component.normal.inj h
  have hcomponents : ∀ {g : GeneratedKey} {path : String}, resolveKeyIn root g.key = .ok path →
      pathComponents path = pathComponents root ++ g.path.map .normal :=
    fun h => resolveKeyIn_components h (GeneratedKey.resolves _)
  refine ⟨fun key => ?_, fun key path h => ?_, fun g => ?_, fun g g' path path' h h' => ?_,
    fun j j' a a' i path path' h h' => ?_⟩
  · rw [← resolveKey_ok_iff]
    simp only [resolveKeyIn_ok_iff, exists_and_left, exists_eq, and_true]
  · obtain ⟨names, hnames⟩ := (resolveKeyIn_ok_iff.mp h).1
    exact ⟨names, resolveKey_ne_nil hnames, resolveKey_names hnames, hnames,
      resolveKeyIn_components h hnames, resolveKeyIn_place h hnames⟩
  · exact ⟨_, resolveKeyIn_ok_iff.mpr ⟨⟨_, g.resolves⟩, rfl⟩⟩
  · rw [hcomponents h, hcomponents h', List.append_cancel_left_eq,
      (List.map_injective_iff.mpr hnormal).eq_iff]
    exact ⟨GeneratedKey.path_inj, fun hsame => by rw [hsame]⟩
  · rw [hcomponents (g := .output j a i) h, hcomponents (g := .attempt j' a') h',
      List.prefix_append_right_inj, ← GeneratedKey.attempt_under_iff]
    exact List.prefix_map_iff_of_injective hnormal

end TaskHarbor
