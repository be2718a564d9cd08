import EventAlpha.Migrations
import Mathlib.Algebra.Order.BigOperators.Group.List

/-!
# Scripts and their statements

A script is what a reader of SQL sees in a file: statements, each a list of
lexemes and closed by a semicolon, and blanks and comments after the last one.
Literals, quoted identifiers, dollar-quoted bodies and comments hold any
characters, so a file is a script under every reading of its quotes.

`_migration_statements` cuts the text at every semicolon, after the file was read
with its line ends as `\n`.  Outside quotes a line end is a blank, whichever its
style; inside them it is content.  `migrationStatements_iff` says for which scripts
the cut gives the statements without `BEGIN` and `COMMIT`.
-/

namespace EventAlpha

open DelimitedTexts

/-- The smallest parts of a script.  A line comment goes to the end of its line,
and the line end, if there is one, is a blank after it. -/
inductive Lexeme
  | plain (c : Char) (hplain : c ≠ ';')
  | literal (body : List Char)
  | identifier (body : List Char)
  | dollarQuoted (tag body : List Char)
  | lineComment (body : List Char) (hline : '\n' ∉ body ∧ '\r' ∉ body)
  | blockComment (body : List Char)

/-- How a lexeme is written. -/
def Lexeme.text : Lexeme → List Char
  | plain c _ => [c]
  | literal body => "'".toList ++ body ++ "'".toList
  | identifier body => "\"".toList ++ body ++ "\"".toList
  | dollarQuoted tag body =>
      "$".toList ++ tag ++ "$".toList ++ body ++ "$".toList ++ tag ++ "$".toList
  | lineComment body _ => "--".toList ++ body
  | blockComment body => "/*".toList ++ body ++ "*/".toList

/-- A comment. -/
def Lexeme.isComment : Lexeme → Bool
  | lineComment _ _ | blockComment _ => true
  | _ => false

/-- Something in quotes. -/
def Lexeme.isQuoted : Lexeme → Bool
  | literal _ | identifier _ | dollarQuoted _ _ => true
  | _ => false

/-- What a database sees of a lexeme: a comment is a blank. -/
def Lexeme.seen : Lexeme → List Char
  | lineComment _ _ | blockComment _ => [' ']
  | lexeme => lexeme.text

/-- How a statement is written, without its semicolon. -/
def statementText (statement : List Lexeme) : List Char := statement.flatMap Lexeme.text

/-- How it is read from its file. -/
def readText (statement : List Lexeme) : List Char := universalNewlines (statementText statement)

/-- How a lexeme is written before some text where lines end with `\n`.  What is
quoted stays as it is. -/
def Lexeme.unix (rest : List Char) : Lexeme → List Char
  | plain c _ => if c = '\r' ∧ rest.head? = some '\n' then [] else universalNewlines [c]
  | blockComment body => universalNewlines (blockComment body).text
  | lexeme => lexeme.text

/-- A statement with the line ends of its own as `\n`. -/
def unixText : List Lexeme → List Char
  | [] => []
  | lexeme :: rest => lexeme.unix (statementText rest) ++ unixText rest

/-- A word that opens or ends a transaction. -/
def IsControlWord (word : List Char) : Prop := word = "BEGIN".toList ∨ word = "COMMIT".toList

instance (word : List Char) : Decidable (IsControlWord word) := by
  unfold IsControlWord; infer_instance

section Scripts

variable [CharacterTables]

/-- A blank or a comment. -/
def Lexeme.isTrivia : Lexeme → Bool
  | plain c _ => CharacterTables.isspace c
  | lineComment _ _ | blockComment _ => true
  | _ => false

/-- Nothing but blanks and comments. -/
def IsVoid (statement : List Lexeme) : Prop := ∀ lexeme ∈ statement, lexeme.isTrivia = true

/-- `BEGIN` or `COMMIT`, in any letter case, behind comments or before options. -/
def IsControl (statement : List Lexeme) : Prop :=
  IsControlWord (((stripStatement (universalNewlines (statement.flatMap Lexeme.seen))).flatMap
    CharacterTables.upper).takeWhile (fun c => !CharacterTables.isspace c))

instance (statement : List Lexeme) : Decidable (IsVoid statement) := by
  unfold IsVoid; infer_instance

instance (statement : List Lexeme) : Decidable (IsControl statement) := by
  unfold IsControl; infer_instance

/-- A script: its statements and what follows the last semicolon. -/
structure Script where
  statements : List (List Lexeme)
  tail : List Lexeme
  void_tail : IsVoid tail

/-- How a script is written. -/
def Script.text (script : Script) : List Char :=
  script.statements.flatMap (fun statement => statementText statement ++ [';']) ++
    statementText script.tail

/-- What a migration is to execute: the statements in order, each one whole up to the
line ends outside quotes, and without transaction control. -/
def Script.toExecute (script : Script) : List String :=
  (script.statements.filter (fun statement => ¬IsVoid statement ∧ ¬IsControl statement)).map
    (fun statement => String.ofList (stripStatement (unixText statement)))

/-- A piece that is dropped because of its word. -/
def IsBare (text : List Char) : Prop :=
  IsControlWord ((stripStatement text).flatMap CharacterTables.upper)

instance (text : List Char) : Decidable (IsBare text) := by
  unfold IsBare; infer_instance

/-- The scripts that can be cut at their semicolons: no statement to execute
holds one inside quotes or a comment, nor a carriage return inside quotes,
transaction control is the bare word, and no comment stands where there is no
statement. -/
structure Script.Splittable (script : Script) : Prop where
  whole : ∀ statement ∈ script.statements, ¬IsVoid statement → ¬IsControl statement →
    ∀ lexeme ∈ statement, ';' ∉ lexeme.text ∧ (lexeme.isQuoted = true → '\r' ∉ lexeme.text)
  bare : ∀ statement ∈ script.statements, IsControl statement →
    IsBare (readText statement)
  uncommented : ∀ statement ∈ script.tail :: script.statements, IsVoid statement →
    ∀ lexeme ∈ statement, lexeme.isComment = false

/-- What becomes of the text of a statement. -/
def executedPieces (text : List Char) : List (List Char) :=
  (((text.splitOn ';').map stripStatement).filter (fun piece => piece ≠ [])).filter
    (fun piece => ¬IsControlWord (piece.flatMap CharacterTables.upper))

end Scripts

section Pieces

variable [CharacterTables] {text piece : List Char} {c : Char}

/-- The semicolon is no blank, and has no upper case. -/
theorem semicolon_spec :
    CharacterTables.isspace ';' = false ∧ CharacterTables.upper ';' = [';'] :=
  ⟨by rw [CharacterTables.isspace_ascii ';' (by decide)]; decide,
    by rw [CharacterTables.upper_ascii ';' (by decide)]; decide⟩

/-- Line ends are blanks, whatever their style. -/
theorem blank_universalNewlines_iff :
    (∀ c ∈ universalNewlines text, CharacterTables.isspace c = true) ↔
      ∀ c ∈ text, CharacterTables.isspace c = true := by
  refine forall_universalNewlines_iff ?_ ?_
  · rw [CharacterTables.isspace_ascii '\r' (by decide)]
    decide
  · rw [CharacterTables.isspace_ascii '\n' (by decide)]
    decide

omit [CharacterTables] in
/-- Reading adds no semicolon. -/
theorem semicolon_universalNewlines_iff : ';' ∉ universalNewlines text ↔ ';' ∉ text := by
  have hreading : (∀ c ∈ universalNewlines text, c ≠ ';') ↔ ∀ c ∈ text, c ≠ ';' :=
    forall_universalNewlines_iff (by decide) (by decide)
  constructor
  · intro h hmem
    exact hreading.mp (fun c hc heq => h (heq ▸ hc)) _ hmem rfl
  · intro h hmem
    exact hreading.mpr (fun c hc heq => h (heq ▸ hc)) _ hmem rfl

/-- The characters a lexeme with a body begins with. -/
def marks : List Char := "'\"$-/".toList

/-- No mark is a blank, has an upper case, or occurs in a word. -/
theorem marks_spec (h : c ∈ marks) :
    CharacterTables.isspace c = false ∧ CharacterTables.upper c = [c] ∧
      (c ≠ ';' ∧ c ≠ '\r') ∧ ∀ word, IsControlWord word → c ∉ word := by
  have hmarks : marks.all (fun c => decide (c.toNat < 128) && decide (c.toUpper = c) &&
      decide (c ≠ ';' ∧ c ≠ '\r') && !asciiTables.isspace c &&
      decide (c ∉ "BEGIN".toList) && decide (c ∉ "COMMIT".toList)) = true := by
    decide
  have hmark := List.all_eq_true.mp hmarks c h
  simp only [Bool.and_eq_true, decide_eq_true_eq, Bool.not_eq_true'] at hmark
  obtain ⟨⟨⟨⟨⟨hascii, hupper⟩, hne⟩, hspace⟩, hbegin⟩, hcommit⟩ := hmark
  refine ⟨?_, ?_, hne, ?_⟩
  · rw [CharacterTables.isspace_ascii c hascii]
    exact hspace
  · rw [CharacterTables.upper_ascii c hascii, hupper]
  · intro word hor
    rcases hor with rfl | rfl
    · exact hbegin
    · exact hcommit

/-- Nothing that is executed holds a semicolon. -/
theorem notMem_of_mem_executedPieces (h : piece ∈ executedPieces text) : ';' ∉ piece := by
  rw [executedPieces, List.mem_filter, List.mem_filter, List.mem_map] at h
  obtain ⟨⟨⟨whole, hwhole, rfl⟩, -⟩, -⟩ := h
  exact fun hmem => notMem_of_mem_splitOn hwhole (strip_subset hmem)

/-- A text with a mark is executed, whole or in pieces. -/
theorem executedPieces_ne_nil (hmark : c ∈ marks) (h : c ∈ text) : executedPieces text ≠ [] := by
  obtain ⟨hblank, hupper, hne, hwords⟩ := marks_spec hmark
  obtain ⟨piece, hpiece, hc⟩ := exists_mem_splitOn hne.1 h
  have hstrip := mem_strip hblank hc
  apply List.ne_nil_of_mem (a := stripStatement piece)
  rw [executedPieces, List.mem_filter, List.mem_filter]
  refine ⟨⟨List.mem_map_of_mem hpiece, ?_⟩, ?_⟩
  · exact decide_eq_true (List.ne_nil_of_mem hstrip)
  · refine decide_eq_true (fun hword => hwords _ hword ?_)
    exact List.mem_flatMap.mpr ⟨c, hstrip, by simp [hupper]⟩

/-- A text without a semicolon is one piece. -/
theorem executedPieces_of_notMem (h : ';' ∉ text) :
    executedPieces text =
      if stripStatement text = [] ∨ IsBare text then [] else [stripStatement text] := by
  rw [executedPieces, List.splitOn_eq_singleton h, List.map_singleton]
  by_cases hnil : stripStatement text = []
  · simp [hnil]
  · by_cases hbare : IsBare text
    · rw [if_pos (.inr hbare)]
      rw [IsBare] at hbare
      simp [hnil, hbare]
    · rw [if_neg (not_or.mpr ⟨hnil, hbare⟩)]
      rw [IsBare] at hbare
      simp [hnil, hbare]

/-- A bare word holds no semicolon. -/
theorem IsBare.notMem (h : IsBare text) : ';' ∉ text := by
  intro hmem
  have hword : ';' ∈ (stripStatement text).flatMap CharacterTables.upper :=
    List.mem_flatMap.mpr ⟨';', mem_strip semicolon_spec.1 hmem, by simp [semicolon_spec.2]⟩
  have hwords : ∀ word, IsControlWord word → ';' ∉ word := by
    intro word hword
    rcases hword with rfl | rfl <;> simp
  exact hwords _ h hword

end Pieces

section Statements

variable [CharacterTables] {statement : List Lexeme}

omit [CharacterTables] in
/-- A lexeme is a plain character or begins with a mark. -/
theorem Lexeme.plain_or_marked (lexeme : Lexeme) :
    (∃ c hplain, lexeme = .plain c hplain) ∨ ∃ c ∈ marks, c ∈ lexeme.text := by
  cases lexeme with
  | plain c hplain => exact .inl ⟨c, hplain, rfl⟩
  | literal body => exact .inr ⟨'\'', by decide, by simp [Lexeme.text]⟩
  | identifier body => exact .inr ⟨'"', by decide, by simp [Lexeme.text]⟩
  | dollarQuoted tag body => exact .inr ⟨'$', by decide, by simp [Lexeme.text]⟩
  | lineComment body hline => exact .inr ⟨'-', by decide, by simp [Lexeme.text]⟩
  | blockComment body => exact .inr ⟨'/', by decide, by simp [Lexeme.text]⟩

omit [CharacterTables] in
/-- A quoted lexeme begins and ends with its mark. -/
theorem Lexeme.quoted_text {lexeme : Lexeme} (h : lexeme.isQuoted = true) :
    ∃ c ∈ marks, ∃ body, lexeme.text = c :: (body ++ [c]) := by
  cases lexeme with
  | plain c hplain => cases h
  | literal body => exact ⟨'\'', by decide, body, by simp [Lexeme.text]⟩
  | identifier body => exact ⟨'"', by decide, body, by simp [Lexeme.text]⟩
  | dollarQuoted tag body =>
      exact ⟨'$', by decide, tag ++ "$".toList ++ body ++ "$".toList ++ tag,
        by simp [Lexeme.text]⟩
  | lineComment body hline => cases h
  | blockComment body => cases h

omit [CharacterTables] in
/-- A lexeme is read apart from what follows, up to a line end between them. -/
theorem Lexeme.read_append {lexeme : Lexeme} (h : lexeme.isQuoted = true → '\r' ∉ lexeme.text)
    (rest : List Char) :
    universalNewlines (lexeme.text ++ rest) = lexeme.unix rest ++ universalNewlines rest := by
  have hkept : ∀ text : List Char, '\r' ∉ text →
      universalNewlines (text ++ rest) = text ++ universalNewlines rest := by
    intro text hreturn
    have hlast : text.getLast? ≠ some '\r' := fun heq => hreturn (List.mem_of_getLast? heq)
    rw [universalNewlines_append (.inl hlast), universalNewlines_of_notMem hreturn]
  cases lexeme with
  | plain c hplain =>
      rw [Lexeme.unix]
      split
      · rename_i hends
        obtain ⟨rfl, hrest⟩ := hends
        obtain ⟨more, rfl⟩ := List.head?_eq_some_iff.mp hrest
        rfl
      · rename_i hends
        have hmeet : [c].getLast? ≠ some '\r' ∨ rest.head? ≠ some '\n' :=
          (not_and_or.mp hends).imp_left (fun hne heq => hne (Option.some.inj heq))
        exact universalNewlines_append hmeet
  | literal body => exact hkept _ (h rfl)
  | identifier body => exact hkept _ (h rfl)
  | dollarQuoted tag body => exact hkept _ (h rfl)
  | lineComment body hline => exact hkept _ (by simp [Lexeme.text, hline.2])
  | blockComment body =>
      refine universalNewlines_append (.inl ?_)
      rw [Lexeme.text, List.getLast?_append]
      simp

omit [CharacterTables] in
/-- Without carriage returns in quotes a statement is read as it is meant. -/
theorem readText_eq (h : ∀ lexeme ∈ statement, lexeme.isQuoted = true → '\r' ∉ lexeme.text) :
    readText statement = unixText statement := by
  induction statement with
  | nil => rfl
  | cons lexeme rest ih =>
      obtain ⟨hlexeme, hrest⟩ := List.forall_mem_cons.mp h
      rw [unixText, ← ih hrest]
      exact Lexeme.read_append hlexeme (statementText rest)

omit [CharacterTables] in
theorem Lexeme.mem_unix {lexeme : Lexeme} {c : Char} (hc : c ≠ '\r') (h : c ∈ lexeme.text)
    (rest : List Char) : c ∈ lexeme.unix rest := by
  cases lexeme with
  | plain d hplain =>
      obtain rfl := List.mem_singleton.mp h
      rw [Lexeme.unix, if_neg (fun hends => hc hends.1)]
      exact mem_universalNewlines hc h
  | literal body | identifier body | dollarQuoted tag body | lineComment body hline => exact h
  | blockComment body => exact mem_universalNewlines hc h

omit [CharacterTables] in
/-- Nothing but carriage returns is lost. -/
theorem mem_unixText {lexeme : Lexeme} {c : Char} (hc : c ≠ '\r') (hmem : lexeme ∈ statement)
    (h : c ∈ lexeme.text) : c ∈ unixText statement := by
  induction statement with
  | nil => cases hmem
  | cons head rest ih =>
      rw [unixText, List.mem_append]
      rcases List.mem_cons.mp hmem with rfl | hrest
      · exact .inl (Lexeme.mem_unix hc h _)
      · exact .inr (ih hrest)

omit [CharacterTables] in
/-- What is quoted stands in the statement as it is. -/
theorem exists_unixText {lexeme : Lexeme} (hmem : lexeme ∈ statement)
    (hquoted : lexeme.isQuoted = true) :
    ∃ before after, unixText statement = before ++ (lexeme.text ++ after) := by
  induction statement with
  | nil => cases hmem
  | cons head rest ih =>
      rcases List.mem_cons.mp hmem with rfl | hrest
      · have hunix : lexeme.unix (statementText rest) = lexeme.text := by
          cases lexeme with
          | plain c hplain | lineComment body hline | blockComment body => cases hquoted
          | literal body | identifier body | dollarQuoted tag body => rfl
        exact ⟨[], unixText rest, by rw [unixText, hunix, List.nil_append]⟩
      · obtain ⟨before, after, hrest⟩ := ih hrest
        exact ⟨head.unix (statementText rest) ++ before, after,
          by rw [unixText, hrest, List.append_assoc]⟩

/-- A carriage return in quotes is not stripped. -/
theorem mem_strip_unixText {lexeme : Lexeme} (hmem : lexeme ∈ statement)
    (hquoted : lexeme.isQuoted = true) (hreturn : '\r' ∈ lexeme.text) :
    '\r' ∈ stripStatement (unixText statement) := by
  obtain ⟨c, hmark, body, htext⟩ := Lexeme.quoted_text hquoted
  obtain ⟨hblank, -, ⟨-, hne⟩, -⟩ := marks_spec hmark
  obtain ⟨before, after, hunix⟩ := exists_unixText hmem hquoted
  obtain ⟨before', after', hstrip⟩ :=
    exists_strip_between hblank hblank before body after
  have hbody : '\r' ∈ body := by
    rw [htext] at hreturn
    simpa [hne.symm] using hreturn
  rw [stripStatement, hunix, htext, List.cons_append, List.append_assoc, List.singleton_append,
    hstrip]
  simp [hbody]

omit [CharacterTables] in
theorem plain_or_marked (statement : List Lexeme) :
    (∀ lexeme ∈ statement, ∃ c hplain, lexeme = .plain c hplain) ∨
      ∃ c ∈ marks, c ∈ statementText statement := by
  by_cases hplain : ∀ lexeme ∈ statement, ∃ c hplain, lexeme = .plain c hplain
  · exact .inl hplain
  · push Not at hplain
    obtain ⟨lexeme, hmem, hlexeme⟩ := hplain
    rcases lexeme.plain_or_marked with ⟨c, hc, heq⟩ | ⟨c, hmark, hc⟩
    · exact absurd heq (hlexeme c hc)
    · exact .inr ⟨c, hmark, List.mem_flatMap.mpr ⟨lexeme, hmem, hc⟩⟩

/-- A statement with a mark is executed, whole or in pieces. -/
theorem executedPieces_readText_ne_nil {c : Char} (hmark : c ∈ marks)
    (h : c ∈ statementText statement) : executedPieces (readText statement) ≠ [] :=
  executedPieces_ne_nil hmark (mem_universalNewlines (marks_spec hmark).2.2.1.2 h)

omit [CharacterTables] in
/-- Plain characters hold no semicolon, no comment, and are seen as written. -/
theorem plain_spec (h : ∀ lexeme ∈ statement, ∃ c hplain, lexeme = .plain c hplain) :
    ';' ∉ readText statement ∧ (∀ lexeme ∈ statement, lexeme.isComment = false) ∧
      statement.flatMap Lexeme.seen = statementText statement := by
  refine ⟨?_, ?_, ?_⟩
  · rw [readText, semicolon_universalNewlines_iff]
    intro hmem
    obtain ⟨lexeme, hlexeme, hc⟩ := List.mem_flatMap.mp hmem
    obtain ⟨c, hplain, rfl⟩ := h lexeme hlexeme
    exact hplain (List.mem_singleton.mp hc).symm
  · intro lexeme hlexeme
    obtain ⟨c, hplain, rfl⟩ := h lexeme hlexeme
    rfl
  · refine List.flatMap_congr (fun lexeme hlexeme => ?_)
    obtain ⟨c, hplain, rfl⟩ := h lexeme hlexeme
    rfl

/-- Void statements without comments are plain. -/
theorem IsVoid.plain (h : IsVoid statement)
    (hcomment : ∀ lexeme ∈ statement, lexeme.isComment = false) :
    ∀ lexeme ∈ statement, ∃ c hplain, lexeme = .plain c hplain := by
  intro lexeme hmem
  have htrivia := h lexeme hmem
  have hnot := hcomment lexeme hmem
  cases lexeme with
  | plain c hplain => exact ⟨c, hplain, rfl⟩
  | lineComment body hline | blockComment body => cases hnot
  | literal body | identifier body | dollarQuoted tag body => cases htrivia

/-- Plain characters are void if they are blank. -/
theorem isVoid_iff (h : ∀ lexeme ∈ statement, ∃ c hplain, lexeme = .plain c hplain) :
    IsVoid statement ↔ ∀ c ∈ readText statement, CharacterTables.isspace c = true := by
  rw [readText, blank_universalNewlines_iff]
  constructor
  · intro hvoid c hc
    obtain ⟨lexeme, hlexeme, hc⟩ := List.mem_flatMap.mp hc
    have htrivia := hvoid lexeme hlexeme
    obtain ⟨d, hplain, rfl⟩ := h lexeme hlexeme
    rwa [List.mem_singleton.mp hc]
  · intro hblank lexeme hlexeme
    have htext := fun c hc => hblank c (List.mem_flatMap.mpr ⟨lexeme, hlexeme, hc⟩)
    obtain ⟨d, hplain, rfl⟩ := h lexeme hlexeme
    exact htext d (List.mem_singleton_self d)

/-- A void statement is no transaction control. -/
theorem IsVoid.not_isControl (h : IsVoid statement) : ¬IsControl statement := by
  have hblank : stripStatement (universalNewlines (statement.flatMap Lexeme.seen)) = [] := by
    refine strip_eq_nil_iff.mpr (blank_universalNewlines_iff.mpr (fun c hc => ?_))
    obtain ⟨lexeme, hlexeme, hc⟩ := List.mem_flatMap.mp hc
    have htrivia := h lexeme hlexeme
    cases lexeme with
    | plain d hplain => rwa [List.mem_singleton.mp hc]
    | lineComment body hline | blockComment body =>
        rw [List.mem_singleton.mp hc, CharacterTables.isspace_ascii ' ' (by decide)]
        decide
    | literal body | identifier body | dollarQuoted tag body => cases htrivia
  rw [IsControl, hblank]
  simp [IsControlWord]

/-- No word holds a blank. -/
theorem takeWhile_controlWord {word : List Char} (h : IsControlWord word) :
    word.takeWhile (fun c => !CharacterTables.isspace c) = word := by
  have hwords : ("BEGIN".toList ++ "COMMIT".toList).all (fun c =>
      decide (c.toNat < 128) && !asciiTables.isspace c) = true := by
    decide
  refine List.takeWhile_eq_self_iff.mpr (fun c hc => ?_)
  have hmem : c ∈ "BEGIN".toList ++ "COMMIT".toList := by
    rcases h with rfl | rfl
    · exact List.mem_append_left _ hc
    · exact List.mem_append_right _ hc
  have hletter := List.all_eq_true.mp hwords c hmem
  simp only [Bool.and_eq_true, decide_eq_true_eq, Bool.not_eq_true'] at hletter
  obtain ⟨hascii, hspace⟩ := hletter
  have htable : CharacterTables.isspace c = asciiTables.isspace c :=
    CharacterTables.isspace_ascii c hascii
  rw [htable, hspace]
  rfl

/-- Nothing is executed of a void statement without comments. -/
theorem executedPieces_of_isVoid (h : IsVoid statement) :
    executedPieces (readText statement) = [] ↔
      ∀ lexeme ∈ statement, lexeme.isComment = false := by
  constructor
  · intro hnil
    rcases plain_or_marked statement with hplain | ⟨c, hmark, hc⟩
    · exact (plain_spec hplain).2.1
    · exact absurd hnil (executedPieces_readText_ne_nil hmark hc)
  · intro hcomment
    have hplain := h.plain hcomment
    have hblank : stripStatement (readText statement) = [] :=
      strip_eq_nil_iff.mpr ((isVoid_iff hplain).mp h)
    rw [executedPieces_of_notMem (plain_spec hplain).1, if_pos (.inl hblank)]

/-- Nothing is executed of transaction control if it is a bare word. -/
theorem executedPieces_of_isControl (h : IsControl statement) :
    executedPieces (readText statement) = [] ↔ IsBare (readText statement) := by
  constructor
  · intro hnil
    rcases plain_or_marked statement with hplain | ⟨c, hmark, hc⟩
    · obtain ⟨hsemicolon, -, hseen⟩ := plain_spec hplain
      rw [executedPieces_of_notMem hsemicolon, ite_eq_left_iff] at hnil
      have hcases := by_contra (fun hnot => List.cons_ne_nil _ _ (hnil hnot))
      refine hcases.resolve_left (fun hstrip => ?_)
      rw [readText] at hstrip
      rw [IsControl, hseen, hstrip] at h
      exact absurd h (by simp [IsControlWord])
    · exact absurd hnil (executedPieces_readText_ne_nil hmark hc)
  · intro hbare
    rw [executedPieces_of_notMem hbare.notMem, if_pos (.inr hbare)]

/-- A statement to execute is executed, at least in pieces. -/
theorem executedPieces_ne_nil_of_kept (hvoid : ¬IsVoid statement)
    (hcontrol : ¬IsControl statement) : executedPieces (readText statement) ≠ [] := by
  rcases plain_or_marked statement with hplain | ⟨c, hmark, hc⟩
  · obtain ⟨hsemicolon, -, hseen⟩ := plain_spec hplain
    rw [executedPieces_of_notMem hsemicolon, if_neg]
    · exact List.cons_ne_nil _ _
    · intro hor
      rcases hor with hnil | hbare
      · exact hvoid ((isVoid_iff hplain).mpr (strip_eq_nil_iff.mp hnil))
      · apply hcontrol
        rw [IsBare, readText] at hbare
        rw [IsControl, hseen, takeWhile_controlWord hbare]
        exact hbare
  · exact executedPieces_readText_ne_nil hmark hc

/-- It is executed whole if it holds no semicolon, and no carriage return in
quotes. -/
theorem executedPieces_of_kept (hvoid : ¬IsVoid statement) (hcontrol : ¬IsControl statement) :
    executedPieces (readText statement) = [stripStatement (unixText statement)] ↔
      ∀ lexeme ∈ statement, ';' ∉ lexeme.text ∧
        (lexeme.isQuoted = true → '\r' ∉ lexeme.text) := by
  have hnotNil := executedPieces_ne_nil_of_kept hvoid hcontrol
  have hone : ';' ∉ statementText statement →
      executedPieces (readText statement) = [stripStatement (readText statement)] := by
    intro hsemicolon
    have hread : ';' ∉ readText statement := semicolon_universalNewlines_iff.mpr hsemicolon
    rw [executedPieces_of_notMem hread] at hnotNil ⊢
    exact if_neg (fun hdrop => hnotNil (if_pos hdrop))
  constructor
  · intro hwhole
    have hpiece := notMem_of_mem_executedPieces (hwhole ▸ List.mem_singleton_self _)
    have hlexemes : ∀ lexeme ∈ statement, ';' ∉ lexeme.text := fun lexeme hlexeme hmem =>
      hpiece (mem_strip semicolon_spec.1 (mem_unixText (by decide) hlexeme hmem))
    refine fun lexeme hlexeme => ⟨hlexemes lexeme hlexeme, fun hquoted hreturn => ?_⟩
    have hsemicolon : ';' ∉ statementText statement := by
      intro hmem
      obtain ⟨lexeme, hlexeme, hc⟩ := List.mem_flatMap.mp hmem
      exact hlexemes lexeme hlexeme hc
    have hsame := List.singleton_inj.mp ((hone hsemicolon).symm.trans hwhole)
    have hkept := mem_strip_unixText hlexeme hquoted hreturn
    rw [← hsame] at hkept
    exact notMem_universalNewlines _ (strip_subset hkept)
  · intro hlexemes
    have hsemicolon : ';' ∉ statementText statement := by
      intro hmem
      obtain ⟨lexeme, hlexeme, hc⟩ := List.mem_flatMap.mp hmem
      exact (hlexemes lexeme hlexeme).1 hc
    rw [hone hsemicolon, readText_eq (fun lexeme hlexeme => (hlexemes lexeme hlexeme).2)]

/-- What is to be executed of a statement. -/
def expectedPieces (statement : List Lexeme) : List (List Char) :=
  if IsVoid statement ∨ IsControl statement then []
  else [stripStatement (unixText statement)]

/-- No statement leads to fewer pieces than it should. -/
theorem length_expectedPieces_le (statement : List Lexeme) :
    (expectedPieces statement).length ≤ (executedPieces (readText statement)).length := by
  unfold expectedPieces
  split
  · exact Nat.zero_le _
  · rename_i hkept
    rw [not_or] at hkept
    exact List.length_pos_of_ne_nil (executedPieces_ne_nil_of_kept hkept.1 hkept.2)

/-- The pieces of a script are those of its statements and of its tail. -/
theorem executedPieces_text (script : Script) :
    executedPieces (universalNewlines script.text) = script.statements.flatMap (fun statement =>
      executedPieces (readText statement)) ++ executedPieces (readText script.tail) := by
  rw [Script.text]
  induction script.statements with
  | nil => rfl
  | cons statement statements ih =>
      -- a semicolon stands between two line ends
      have hread : ∀ rest, universalNewlines (statementText statement ++ ';' :: rest) =
          readText statement ++ ';' :: universalNewlines rest := by
        intro rest
        rw [universalNewlines_append (.inr (by simp)), readText]
        rfl
      rw [List.flatMap_cons, List.flatMap_cons, List.append_assoc, List.append_assoc,
        List.append_assoc, ← ih, List.singleton_append, hread]
      simp only [executedPieces, List.splitOn_append_cons_self, List.map_append,
        List.filter_append]

/-- What a script is to execute, statement by statement. -/
theorem toExecute_eq (script : Script) :
    script.toExecute = (script.statements.flatMap expectedPieces).map String.ofList := by
  rw [Script.toExecute]
  induction script.statements with
  | nil => rfl
  | cons statement statements ih =>
      rw [List.flatMap_cons, List.map_append, ← ih, List.filter_cons]
      by_cases hkept : ¬IsVoid statement ∧ ¬IsControl statement
      · rw [if_pos (decide_eq_true hkept), expectedPieces, if_neg (not_or.mpr hkept)]
        rfl
      · rw [if_neg (by simpa using hkept), expectedPieces,
          if_pos (by_contra (fun hnot => hkept (not_or.mp hnot)))]
        rfl

omit [CharacterTables] in
/-- Concatenations whose parts are at least as long agree part by part. -/
theorem flatMap_append_eq_iff {α β : Type*} {f g : α → List β} {l : List α} {rest : List β}
    (h : ∀ a ∈ l, (g a).length ≤ (f a).length) :
    l.flatMap f ++ rest = l.flatMap g ↔ (∀ a ∈ l, f a = g a) ∧ rest = [] := by
  induction l with
  | nil => simp
  | cons a l ih =>
      obtain ⟨ha, hl⟩ := List.forall_mem_cons.mp h
      have hlengths : (l.flatMap g).length ≤ (l.flatMap f).length := by
        rw [List.length_flatMap, List.length_flatMap]
        exact List.sum_le_sum hl
      rw [List.flatMap_cons, List.flatMap_cons, List.append_assoc, List.forall_mem_cons,
        and_assoc, ← ih hl]
      constructor
      · intro heq
        have htotal := congrArg List.length heq
        simp only [List.length_append] at htotal
        exact List.append_inj heq (by omega)
      · intro hex
        obtain ⟨hfirst, hrest⟩ := hex
        rw [hfirst, hrest]

/-- A statement leads to what it should if it can be cut out. -/
theorem executedPieces_eq_expected_iff (statement : List Lexeme) :
    executedPieces (readText statement) = expectedPieces statement ↔
      (¬IsVoid statement → ¬IsControl statement → ∀ lexeme ∈ statement, ';' ∉ lexeme.text ∧
        (lexeme.isQuoted = true → '\r' ∉ lexeme.text)) ∧
      (IsControl statement → IsBare (readText statement)) ∧
      (IsVoid statement → ∀ lexeme ∈ statement, lexeme.isComment = false) := by
  unfold expectedPieces
  by_cases hvoid : IsVoid statement
  · have hcontrol := hvoid.not_isControl
    rw [if_pos (.inl hvoid), executedPieces_of_isVoid hvoid]
    tauto
  · by_cases hcontrol : IsControl statement
    · rw [if_pos (.inr hcontrol), executedPieces_of_isControl hcontrol]
      exact ⟨fun hbare => ⟨fun _ hnot => absurd hcontrol hnot, fun _ => hbare,
        fun h => absurd h hvoid⟩, fun h => h.2.1 hcontrol⟩
    · rw [if_neg (not_or.mpr ⟨hvoid, hcontrol⟩), executedPieces_of_kept hvoid hcontrol]
      exact ⟨fun h => ⟨fun _ _ => h, fun hnot => absurd hnot hcontrol,
        fun hnot => absurd hnot hvoid⟩, fun h => h.1 hvoid hcontrol⟩

end Statements

section Cutting

variable [CharacterTables]

/-- **Cutting at semicolons.**  A migration is cut into the statements it is to
execute exactly if no such statement holds a semicolon in quotes or a comment or
a carriage return in quotes, every `BEGIN` and `COMMIT` is the bare word, and no
comment stands alone. -/
theorem migrationStatements_iff (script : Script) (text : String)
    (h : text.toList = script.text) :
    migrationStatements text = script.toExecute ↔ script.Splittable := by
  have hpieces : migrationStatements text =
      (executedPieces (universalNewlines text.toList)).map String.ofList := by
    simp [migrationStatements, executedPieces, IsControlWord]
  rw [hpieces, h, toExecute_eq, executedPieces_text,
    (List.map_injective_iff.mpr (fun _ _ => String.ofList_injective)).eq_iff,
    flatMap_append_eq_iff (fun statement _ => length_expectedPieces_le statement),
    executedPieces_of_isVoid script.void_tail]
  simp only [executedPieces_eq_expected_iff]
  constructor
  · intro hex
    obtain ⟨hstatements, htail⟩ := hex
    refine ⟨fun statement hmem => (hstatements statement hmem).1,
      fun statement hmem => (hstatements statement hmem).2.1, ?_⟩
    exact List.forall_mem_cons.mpr
      ⟨fun _ => htail, fun statement hmem => (hstatements statement hmem).2.2⟩
  · intro hex
    obtain ⟨hwhole, hbare, huncommented⟩ := hex
    obtain ⟨htail, hstatements⟩ := List.forall_mem_cons.mp huncommented
    exact ⟨fun statement hmem => ⟨hwhole statement hmem, hbare statement hmem,
      hstatements statement hmem⟩, htail script.void_tail⟩

end Cutting

/-- The plain characters of a text. -/
def plains (text : String) : List Lexeme :=
  text.toList.filterMap (fun c => if hplain : c ≠ ';' then some (.plain c hplain) else none)

/-- A script without anything hidden, from a file with line ends of two styles. -/
def plainScript : @Script asciiTables :=
  letI := asciiTables
  { statements := [plains "BEGIN",
      plains "\r\nDELETE FROM events\r\n  WHERE title = " ++ [.literal "x".toList],
      plains "\ncommit "]
    tail := plains "\r\n"
    void_tail := by decide }

/-- It is cut into its statement. -/
theorem migrationStatements_iff_plain :
    letI := asciiTables
    migrationStatements
        "BEGIN;\r\nDELETE FROM events\r\n  WHERE title = 'x';\ncommit ;\r\n" =
      plainScript.toExecute :=
  letI := asciiTables
  (migrationStatements_iff plainScript _ (by decide)).mpr
    ⟨by decide, by decide, by decide⟩

/-- A comment before the last statement. -/
def commentedScript : @Script asciiTables :=
  letI := asciiTables
  { statements := [.lineComment " done".toList (by decide) :: plains "\nCOMMIT"]
    tail := []
    void_tail := by decide }

/-- The comment hides the word: the statement is executed, and ends the
transaction of the run. -/
theorem comment_hides_commit :
    letI := asciiTables
    "-- done\nCOMMIT;".toList = commentedScript.text ∧
      migrationStatements "-- done\nCOMMIT;" = ["-- done\nCOMMIT"] ∧
      commentedScript.toExecute = [] := by
  decide

end EventAlpha
