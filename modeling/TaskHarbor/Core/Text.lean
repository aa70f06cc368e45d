import Mathlib.Data.List.DropRight
import Mathlib.Tactic.Common

/-! Text as the program and PostgreSQL measure it. -/
namespace TaskHarbor

/-! A bound over a text is decided on the text, not on all characters. -/

instance (priority := high) decidableForallMem {α : Type} (xs : List α) (p : α → Prop)
    [DecidablePred p] : Decidable (∀ x ∈ xs, p x) :=
  List.decidableBAll p xs

instance (priority := high) decidableExistsMem {α : Type} (xs : List α) (p : α → Prop)
    [DecidablePred p] : Decidable (∃ x ∈ xs, p x) :=
  List.decidableBEx p xs

/-- `char::is_whitespace`: the Unicode property White_Space. -/
def isWhitespace (c : Char) : Bool :=
  let n := c.toNat
  (9 ≤ n && n ≤ 13) || n == 32 || n == 0x85 || n == 0xA0 || n == 0x1680 ||
    (0x2000 ≤ n && n ≤ 0x200A) || n == 0x2028 || n == 0x2029 || n == 0x202F || n == 0x205F ||
    n == 0x3000

/-- `char::is_control`: the Unicode category Cc. -/
def isControl (c : Char) : Bool :=
  let n := c.toNat
  n ≤ 31 || (127 ≤ n && n ≤ 159)

def trimBy (p : Char → Bool) (cs : List Char) : List Char := (cs.dropWhile p).rdropWhile p

/-- `str::trim`. -/
def trim (s : String) : String := String.ofList (trimBy isWhitespace s.toList)

/-- PostgreSQL's one-argument `btrim` strips ASCII spaces only. -/
def btrim (s : String) : String := String.ofList (trimBy (· == ' ') s.toList)

/-- `char_length(btrim(s)) BETWEEN 1 AND n`. -/
def btrimLengthBetween (n : ℕ) (s : String) : Bool :=
  1 ≤ (btrim s).length && (btrim s).length ≤ n

/-- A `TEXT` parameter: PostgreSQL has no U+0000. -/
def storableText (s : String) : Bool := !s.toList.contains '\x00'

/-- The value a `VARCHAR(n)` column stores: longer text is refused unless only spaces overflow. -/
def storeVarchar (n : ℕ) (s : String) : Option String :=
  if s.length ≤ n then some s
  else if (s.toList.drop n).all (· == ' ') then some (String.ofList (s.toList.take n))
  else none

/-- `str::parse` of an unsigned integer type with the largest value `max`. -/
def parseUnsigned (max : ℕ) (s : String) : Option ℕ :=
  let digits : List Char := match s.toList with
    | '+' :: rest => rest
    | cs => cs
  let value := digits.foldl (fun n c => n * 10 + (c.toNat - 48)) 0
  if digits ≠ [] ∧ digits.all Char.isDigit = true ∧ value ≤ max then some value else none

/-- `String::from_utf8`. -/
def decodeUtf8 (bytes : List UInt8) : Option String := String.fromUTF8? ⟨bytes.toArray⟩

theorem trimBy_eq_nil {p : Char → Bool} {cs : List Char} :
    trimBy p cs = [] ↔ ∀ c ∈ cs, p c = true := by
  constructor
  · intro h c hc
    by_contra hp
    have hd : cs.dropWhile p ≠ [] := by
      intro hnil
      exact hp (List.dropWhile_eq_nil_iff.mp hnil c hc)
    have hhead : p ((cs.dropWhile p).head hd) = false := by
      simpa using List.head_dropWhile_not p hd
    have := (List.rdropWhile_eq_nil_iff.mp h) _ (List.head_mem hd)
    rw [this] at hhead
    cases hhead
  · intro h
    rw [trimBy, List.dropWhile_eq_nil_iff.mpr h]
    rfl

theorem trimBy_length_le (p : Char → Bool) (cs : List Char) : (trimBy p cs).length ≤ cs.length :=
  (List.IsPrefix.length_le (List.rdropWhile_prefix p _)).trans (List.dropWhile_sublist p).length_le

/-- The blank test of the schema: some character is not an ASCII space. -/
theorem btrimLengthBetween_iff {n : ℕ} {s : String} (hs : s.length ≤ n) :
    btrimLengthBetween n s = true ↔ ∃ c ∈ s.toList, c ≠ ' ' := by
  have hle : (btrim s).length ≤ n := by
    have := trimBy_length_le (· == ' ') s.toList
    simp only [btrim, String.length_ofList]
    simp only [String.length_toList] at this
    omega
  have hpos : 1 ≤ (btrim s).length ↔ ∃ c ∈ s.toList, c ≠ ' ' := by
    simp only [btrim, String.length_ofList, Nat.one_le_iff_ne_zero, ne_eq, List.length_eq_zero_iff,
      trimBy_eq_nil, beq_iff_eq, not_forall, exists_prop]
  simp only [btrimLengthBetween, Bool.and_eq_true, decide_eq_true_eq, hpos, hle, and_true]

theorem storeVarchar_of_length_le {n : ℕ} {s : String} (h : s.length ≤ n) :
    storeVarchar n s = some s := if_pos h

end TaskHarbor
