import EventAlpha.Contracts
import Mathlib.Tactic.Linarith

/-!
# Title fingerprints

The low-cost candidate matcher of the event clusterer: a title is lower-cased,
every character that is not alphanumeric becomes a space, and the tokens of
more than two characters form its fingerprint.  Two fingerprints are compared
by their Jaccard similarity.

The Unicode character tables are the language's, not the program's, and they
change with its version.  They enter as the class `CharacterTables`, of which
only the ASCII part is fixed.
-/

namespace EventAlpha

/-- The character functions of the string type.  Only their ASCII part is
stable across Unicode versions, and only that part is assumed. -/
class CharacterTables where
  isalnum : Char → Bool
  isspace : Char → Bool
  lower : Char → List Char
  upper : Char → List Char
  casefold : Char → List Char
  isalnum_ascii : ∀ c : Char, c.toNat < 128 → isalnum c = c.isAlphanum
  isspace_ascii : ∀ c : Char, c.toNat < 128 →
    isspace c = (c.toNat = 32 || (9 ≤ c.toNat && c.toNat ≤ 13) ||
      (28 ≤ c.toNat && c.toNat ≤ 31))
  lower_ascii : ∀ c : Char, c.toNat < 128 → lower c = [c.toLower]
  upper_ascii : ∀ c : Char, c.toNat < 128 → upper c = [c.toUpper]
  casefold_ascii : ∀ c : Char, c.toNat < 128 → casefold c = [c.toLower]

/-- The tables of a program that only meets ASCII text. -/
@[reducible] def asciiTables : CharacterTables where
  isalnum c := c.isAlphanum
  isspace c := c.toNat = 32 || (9 ≤ c.toNat && c.toNat ≤ 13) ||
    (28 ≤ c.toNat && c.toNat ≤ 31)
  lower c := [c.toLower]
  upper c := [c.toUpper]
  casefold c := [c.toLower]
  isalnum_ascii _ _ := rfl
  isspace_ascii _ _ := rfl
  lower_ascii _ _ := rfl
  upper_ascii _ _ := rfl
  casefold_ascii _ _ := rfl

variable [CharacterTables]

/-- `str.split()`: the maximal runs of characters that are not white space. -/
def splitWhitespace (text : List Char) : List (List Char) :=
  (text.splitOnP CharacterTables.isspace).filter (fun token => token ≠ [])

/-- Lower-case an alphanumeric character, blank any other one. -/
def normalizeChar (c : Char) : List Char :=
  if CharacterTables.isalnum c then CharacterTables.lower c else [' ']

/-- The tokens of a title that are longer than two characters. -/
def titleTokens (text : List Char) : List (List Char) :=
  (splitWhitespace (text.flatMap normalizeChar)).filter (fun token => 2 < token.length)

/-- Stable low-cost candidate matcher: the set of a title's tokens. -/
def titleFingerprint (value : String) : Finset (List Char) :=
  (titleTokens value.toList).toFinset

/-- A blank separates the tokens before it from those after it. -/
theorem titleTokens_append_blank (left right : List Char) :
    titleTokens (left ++ ' ' :: right) = titleTokens left ++ titleTokens right := by
  have halnum : CharacterTables.isalnum ' ' = false := by
    rw [CharacterTables.isalnum_ascii ' ' (by decide)]
    decide
  have hspace : CharacterTables.isspace ' ' = true := by
    rw [CharacterTables.isspace_ascii ' ' (by decide)]
    decide
  have hblank : normalizeChar ' ' = [' '] := by
    rw [normalizeChar, halnum]
    rfl
  have hnormal : (left ++ ' ' :: right).flatMap normalizeChar =
      left.flatMap normalizeChar ++ ' ' :: right.flatMap normalizeChar := by
    rw [List.flatMap_append, List.flatMap_cons, hblank, List.singleton_append]
  rw [titleTokens, hnormal, splitWhitespace, List.splitOnP_append_cons _ _ hspace,
    List.filter_append, List.filter_append]
  rfl

omit [CharacterTables] in
/-- Splitting looks at the separator test on the characters of the text only. -/
theorem splitOnP_congr {p q : Char → Bool} {text : List Char} (h : ∀ c ∈ text, p c = q c) :
    text.splitOnP p = text.splitOnP q := by
  induction text with
  | nil => rfl
  | cons c text ih =>
      have htail := ih (fun d hd => h d (List.mem_cons_of_mem c hd))
      rw [List.splitOnP_cons_eq_if_modifyHead, List.splitOnP_cons_eq_if_modifyHead,
        h c List.mem_cons_self, htail]

/-- The characters an ASCII character is normalised to are ASCII, and do not
depend on the Unicode version. -/
theorem normalizeChar_of_ascii {c : Char} (h : c.toNat < 128) :
    normalizeChar c = @normalizeChar asciiTables c ∧
      ∀ d ∈ normalizeChar c, d.toNat < 128 := by
  have hascii : normalizeChar c = if c.isAlphanum then [c.toLower] else [' '] := by
    unfold normalizeChar
    rw [CharacterTables.isalnum_ascii c h, CharacterTables.lower_ascii c h]
  have hlower : ∀ n : Fin 128, (Char.ofNat n).toLower.toNat < 128 := by
    decide
  have hself := hlower ⟨c.toNat, h⟩
  simp only [Char.ofNat_toNat] at hself
  refine ⟨hascii, ?_⟩
  intro d hd
  rw [hascii] at hd
  split at hd
  · rw [List.mem_singleton.mp hd]
    exact hself
  · rw [List.mem_singleton.mp hd]
    decide

/-- The tokens of ASCII text do not depend on the Unicode version. -/
theorem titleTokens_of_ascii {text : List Char} (h : ∀ c ∈ text, c.toNat < 128) :
    titleTokens text = @titleTokens asciiTables text := by
  have hnormal : text.flatMap normalizeChar = text.flatMap (@normalizeChar asciiTables) :=
    List.flatMap_congr (fun c hc => (normalizeChar_of_ascii (h c hc)).1)
  have hspace : ∀ c ∈ text.flatMap normalizeChar,
      CharacterTables.isspace c = asciiTables.isspace c := by
    intro c hc
    obtain ⟨d, hd, hcd⟩ := List.mem_flatMap.mp hc
    exact CharacterTables.isspace_ascii c ((normalizeChar_of_ascii (h d hd)).2 c hcd)
  unfold titleTokens splitWhitespace
  rw [splitOnP_congr hspace, hnormal]

/-- Shared tokens over all tokens; two empty fingerprints are dissimilar. -/
def jaccard (left right : Finset (List Char)) : ℚ :=
  if left.Nonempty ∨ right.Nonempty then
    ((left ∩ right).card : ℚ) / ((left ∪ right).card : ℚ)
  else 0

omit [CharacterTables] in
/-- A nonempty fingerprint is fully similar to itself. -/
theorem jaccard_self {tokens : Finset (List Char)} (h : tokens.Nonempty) :
    jaccard tokens tokens = 1 := by
  have hcard : (tokens.card : ℚ) ≠ 0 := by
    exact_mod_cast Finset.card_ne_zero.mpr h
  simp [jaccard, h, div_self hcard]

end EventAlpha
