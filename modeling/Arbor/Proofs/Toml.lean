import Arbor.Toml.Document
import Mathlib.Data.List.Nodup
import Mathlib.Tactic.Lemma
import Mathlib.Tactic.SplitIfs

/-!
# Plain documents

Most documents with settings have a plain form: some pairs of a key and a value, and sections with
such pairs below a header, one on each line, with comments and empty lines between them.  Keys have
no quotes and no dots; values are booleans, decimal numbers, and texts without escapes.

`Toml.Lines` says how the lines of such a document are written, and `Toml.Written` what table the
whole document stands for.  Reading it gives this table (`Toml.parse?_of_written`).
-/

namespace Arbor.Toml

/-! ### How plain documents are written -/

/-- Spaces and tabs. -/
def Blanks (cs : List Char) : Prop :=
  ∀ c ∈ cs, c = ' ' ∨ c = '\t'

/-- Characters that may stand in a comment or a text. -/
def Printables (cs : List Char) : Prop :=
  ∀ c ∈ cs, c = '\t' ∨ 32 ≤ c.toNat ∧ c.toNat ≠ 127

/-- A key without quotes. -/
def BareKey (cs : List Char) : Prop :=
  cs ≠ [] ∧ ∀ c ∈ cs, c.isAlphanum = true ∨ c = '-' ∨ c = '_'

/-- A line end, in either form. -/
inductive LineBreak : List Char → Prop where
  | short : LineBreak ['\n']
  | long : LineBreak ['\r', '\n']

/-- A comment, or nothing. -/
inductive Comment : List Char → Prop where
  | none : Comment []
  | text {cs : List Char} : Printables cs → Comment ('#' :: cs)

/-- What may stand before a line that is not empty: blanks, empty lines, and lines with a comment
only. -/
inductive Gap : List Char → Prop where
  | nil : Gap []
  | blank {c : Char} {cs : List Char} : c = ' ' ∨ c = '\t' → Gap cs → Gap (c :: cs)
  | line {comment lineBreak cs : List Char} :
      Comment comment → LineBreak lineBreak → Gap cs → Gap (comment ++ (lineBreak ++ cs))

/-- What may stand behind the content of a line: blanks, a comment, and the line end, unless the
document ends there. -/
inductive Tail : List Char → List Char → Prop where
  | line {blanks comment lineBreak rest : List Char} :
      Blanks blanks → Comment comment → LineBreak lineBreak →
      Tail (blanks ++ (comment ++ lineBreak)) rest
  | last {blanks comment : List Char} :
      Blanks blanks → Comment comment → Tail (blanks ++ comment) []

/-- How a value is written. -/
inductive Value : List Char → Item → Prop where
  | yes : Value ['t', 'r', 'u', 'e'] (.boolean true)
  | no : Value ['f', 'a', 'l', 's', 'e'] (.boolean false)
  | number {n : Nat} : n < 0x8000000000000000 → Value (Nat.toDigits 10 n) (.integer n)
  | text {cs : List Char} : Printables cs → '\x22' ∉ cs → '\\' ∉ cs →
      Value ('\x22' :: (cs ++ ['\x22'])) (.text (String.ofList cs))
  | literal {cs : List Char} : Printables cs → '\x27' ∉ cs →
      Value ('\x27' :: (cs ++ ['\x27'])) (.text (String.ofList cs))

/-- How the content of a line is written. -/
inductive Row : List Char → Line → Prop where
  | header {before key after : List Char} : Blanks before → BareKey key → Blanks after →
      Row ('[' :: (before ++ (key ++ (after ++ [']'])))) (.header [String.ofList key])
  | assignment {key before after value : List Char} {item : Item} :
      BareKey key → Blanks before → Blanks after → Value value item →
      Row (key ++ (before ++ '=' :: (after ++ value))) (.assignment [String.ofList key] item)

/-- How lines are written, one below the other. -/
inductive Lines : List Char → List Line → Prop where
  | done {gap comment : List Char} : Gap gap → Comment comment → Lines (gap ++ comment) []
  | row {gap row tail rest : List Char} {line : Line} {lines : List Line} :
      Gap gap → Row row line → Tail tail rest → Lines rest lines →
      Lines (gap ++ (row ++ (tail ++ rest))) (line :: lines)

/-- The lines that give values to keys. -/
def assignments (pairs : Entries) : List Line :=
  pairs.map fun p => .assignment [p.1] p.2

/-- The lines of a section. -/
def sectionLines (s : String × Entries) : List Line :=
  .header [s.1] :: assignments s.2

/-- A document in plain form stands for a table: it has pairs of a key and a value, then sections of
such pairs.  No key is given twice, and no section. -/
def Written (document : String) (entries : Entries) : Prop :=
  ∃ (pairs : Entries) (sections : List (String × Entries)),
    Lines document.toList (assignments pairs ++ sections.flatMap sectionLines) ∧
    entries = pairs ++ sections.map (fun s => (s.1, .table .header s.2)) ∧
    (entries.map Prod.fst).Nodup ∧ ∀ s ∈ sections, (s.2.map Prod.fst).Nodup

/-! ### Between the lines -/

variable {cs rest : List Char}

/-- Characters of one kind are told from what follows them, if it begins with another character. -/
lemma takeWhile_dropWhile_append {p : Char → Bool} (h : ∀ c ∈ cs, p c = true)
    (hrest : ∀ c ∈ rest.head?, p c = false) :
    (cs ++ rest).takeWhile p = cs ∧ (cs ++ rest).dropWhile p = rest := by
  rw [List.takeWhile_append_of_pos h, List.dropWhile_append_of_pos h]
  cases rest with
  | nil => simp
  | cons c rest => simp [hrest c rfl]

/-- Blanks are skipped. -/
lemma skipBlanks_append {blanks : List Char} (h : Blanks blanks) (rest : List Char) :
    skipBlanks (blanks ++ rest) = skipBlanks rest := by
  rw [skipBlanks, skipBlanks, List.dropWhile_append_of_pos]
  intro c hc
  rcases h c hc with rfl | rfl <;> rfl

/-- Nothing is skipped before a character that is no blank. -/
lemma skipBlanks_cons {c : Char} (h : isBlank c = false) : skipBlanks (c :: rest) = c :: rest := by
  rw [skipBlanks, List.dropWhile_cons, h, if_neg Bool.false_ne_true]

/-- Nothing is skipped where nothing is. -/
@[simp] lemma skipBlanks_nil : skipBlanks [] = [] := rfl

/-- Printable characters are what a comment may have. -/
lemma isPrintable_of_printables (h : Printables cs) {c : Char} (hc : c ∈ cs) :
    isPrintable c = true := by
  rcases h c hc with rfl | ⟨hlow, hdelete⟩
  · rfl
  · simp [isPrintable, hlow, hdelete]

/-- A character that may stand in a comment ends no line. -/
lemma ne_of_isPrintable {c : Char} (h : isPrintable c = true) : c ≠ '\n' ∧ c ≠ '\r' := by
  constructor
  all_goals
    rintro rfl
    cases h

/-- Behind a line end, everything starts anew. -/
lemma skipLines_lineBreak {lineBreak : List Char} (h : LineBreak lineBreak) (inComment : Bool)
    (rest : List Char) : skipLines inComment (lineBreak ++ rest) = skipLines false rest := by
  cases h <;> rfl

/-- A character that ends no line is looked at by itself. -/
lemma skipLines_cons {c : Char} (h : c ≠ '\n' ∧ c ≠ '\r') (inComment : Bool) (rest : List Char) :
    skipLines inComment (c :: rest) =
      if inComment then if isPrintable c then skipLines true rest else c :: rest
      else if isBlank c then skipLines false rest
      else if c = '#' then skipLines true rest
      else c :: rest := by
  rw [skipLines.eq_def]
  split <;> simp_all

/-- A comment is skipped. -/
lemma skipLines_printables (h : Printables cs) (rest : List Char) :
    skipLines true (cs ++ rest) = skipLines true rest := by
  induction cs with
  | nil => rfl
  | cons c cs ih =>
    have hc := isPrintable_of_printables h List.mem_cons_self
    rw [List.cons_append, skipLines_cons (ne_of_isPrintable hc), if_pos rfl, hc, if_pos rfl]
    exact ih fun d hd => h d (List.mem_cons_of_mem c hd)

/-- A comment with the line end behind it is skipped. -/
lemma skipLines_comment {comment lineBreak : List Char} (h : Comment comment)
    (hbreak : LineBreak lineBreak) (rest : List Char) :
    skipLines false (comment ++ (lineBreak ++ rest)) = skipLines false rest := by
  cases h with
  | none => exact skipLines_lineBreak hbreak false rest
  | text hprintables =>
    rw [List.cons_append, skipLines_cons (by decide), if_neg (by decide), if_neg (by decide),
      if_pos rfl, skipLines_printables hprintables, skipLines_lineBreak hbreak]

/-- Everything before a line that is not empty is skipped. -/
lemma skipLines_gap {gap : List Char} (h : Gap gap) (rest : List Char) :
    skipLines false (gap ++ rest) = skipLines false rest := by
  induction h with
  | nil => rfl
  | blank hc _ ih =>
    rw [List.cons_append, skipLines_cons (by rcases hc with rfl | rfl <;> decide),
      if_neg Bool.false_ne_true, if_pos (by rcases hc with rfl | rfl <;> rfl)]
    exact ih
  | line hcomment hbreak _ ih =>
    rw [List.append_assoc, List.append_assoc, skipLines_comment hcomment hbreak]
    exact ih

/-- Behind the last line, everything is skipped. -/
lemma skipLines_last {gap comment : List Char} (h : Gap gap) (hcomment : Comment comment) :
    skipLines false (gap ++ comment) = [] := by
  rw [skipLines_gap h]
  cases hcomment with
  | none => rfl
  | @text cs hprintables =>
    have htext := skipLines_printables hprintables []
    rw [List.append_nil] at htext
    rw [skipLines_cons (by decide), if_neg (by decide), if_neg (by decide), if_pos rfl, htext]
    rfl

/-- Blanks and a comment before the end of a line make no difference. -/
lemma readLineEnd_append {blanks comment : List Char} (hblanks : Blanks blanks)
    (hcomment : Comment comment) (hrest : ∀ c ∈ rest.head?, isPrintable c = false) :
    readLineEnd (blanks ++ (comment ++ rest)) = readLineEnd rest := by
  cases hcomment with
  | none => simp only [readLineEnd, skipBlanks_append hblanks, List.nil_append]
  | @text cs hprintables =>
    have hline : skipBlanks (blanks ++ ('#' :: cs ++ rest)) = '#' :: (cs ++ rest) := by
      rw [skipBlanks_append hblanks, List.cons_append, skipBlanks_cons (by decide)]
    obtain ⟨-, hdrop⟩ :=
      takeWhile_dropWhile_append (fun _ hc => isPrintable_of_printables hprintables hc) hrest
    simp only [readLineEnd, hline, hdrop]
    cases rest with
    | nil => rfl
    | cons c rest =>
      have hc := hrest c rfl
      have hblank : isBlank c = false := by
        rw [isBlank, Bool.or_eq_false_iff]
        constructor
        all_goals
          rw [decide_eq_false_iff_not]
          rintro rfl
          cases hc
      have hcomment : c ≠ '#' := by
        rintro rfl
        cases hc
      rw [skipBlanks_cons hblank]
      simp [hcomment]

/-- The end of a line is read with everything before it. -/
lemma readLineEnd_tail {tail : List Char} (h : Tail tail rest) :
    readLineEnd (tail ++ rest) = some rest := by
  cases h with
  | line hblanks hcomment hbreak =>
    rw [List.append_assoc, List.append_assoc, readLineEnd_append hblanks hcomment]
    · cases hbreak <;> rfl
    · cases hbreak <;> simp <;> rfl
  | @last blanks comment hblanks hcomment =>
    have hline : readLineEnd (blanks ++ (comment ++ [])) = some [] :=
      readLineEnd_append hblanks hcomment (by simp)
    rwa [← List.append_assoc] at hline

/-! ### Keys -/

/-- The characters of a key. -/
lemma isKeyChar_of_bareKey {key : List Char} (h : BareKey key) {c : Char} (hc : c ∈ key) :
    isKeyChar c = true := by
  rcases h.2 c hc with hc | rfl | rfl
  · simp [isKeyChar, hc]
  · rfl
  · rfl

/-- The first character of a key. -/
lemma BareKey.head {c : Char} {key : List Char} (h : BareKey (c :: key)) : isKeyChar c = true :=
  isKeyChar_of_bareKey h List.mem_cons_self

/-- Characters that no key has. -/
lemma not_mem_of_isKeyChar {c : Char} (h : isKeyChar c = true) :
    c ∉ ['\n', '\r', ' ', '\t', '#', '[', '\x22', '\x27'] := by
  intro hc
  simp only [List.mem_cons, List.not_mem_nil, or_false] at hc
  rcases hc with rfl | rfl | rfl | rfl | rfl | rfl | rfl | rfl <;> cases h

/-- A key does not begin with a blank. -/
lemma isBlank_of_isKeyChar {c : Char} (h : isKeyChar c = true) : isBlank c = false := by
  have hc := not_mem_of_isKeyChar h
  simp_all [isBlank]

/-- A key without quotes is read up to the first character that no key has. -/
lemma readKeyPart_append {key : List Char} (hkey : BareKey key)
    (hrest : ∀ c ∈ rest.head?, isKeyChar c = false) :
    readKeyPart (key ++ rest) = some (String.ofList key, rest) := by
  obtain ⟨htake, hdrop⟩ :=
    takeWhile_dropWhile_append (fun _ hc => isKeyChar_of_bareKey hkey hc) hrest
  obtain ⟨c, cs, rfl⟩ := List.exists_cons_of_ne_nil hkey.1
  have hc := not_mem_of_isKeyChar hkey.head
  rw [readKeyPart.eq_def]
  split
  · simp_all
  · simp_all
  · simp only [htake, hdrop]
    simp

/-- A key is read with the blanks around it, up to a character that ends it. -/
lemma readKey_append {before key after : List Char} {c : Char} (hbefore : Blanks before)
    (hkey : BareKey key) (hafter : Blanks after) (hc : c = ']' ∨ c = '=') (n : Nat) :
    readKey (n + 1) (before ++ (key ++ (after ++ c :: rest))) =
      some ([String.ofList key], c :: rest) := by
  have hblank : isBlank c = false := by rcases hc with rfl | rfl <;> rfl
  have hstop : ∀ d ∈ (after ++ c :: rest).head?, isKeyChar d = false := by
    cases after with
    | nil => rcases hc with rfl | rfl <;> simp <;> rfl
    | cons d after =>
      rcases hafter d List.mem_cons_self with rfl | rfl <;> simp <;> rfl
  have hskip : skipBlanks (key ++ (after ++ c :: rest)) = key ++ (after ++ c :: rest) := by
    obtain ⟨d, ds, rfl⟩ := List.exists_cons_of_ne_nil hkey.1
    exact skipBlanks_cons (isBlank_of_isKeyChar hkey.head)
  rw [readKey, skipBlanks_append hbefore, hskip, readKeyPart_append hkey hstop]
  simp only [bind, Option.bind, skipBlanks_append hafter, skipBlanks_cons hblank]
  rcases hc with rfl | rfl <;> rfl

/-! ### Values -/

/-- What may follow a value: a blank, a comment, a line end, or nothing. -/
def EndsValue (rest : List Char) : Prop :=
  ∀ c ∈ rest.head?, c = ' ' ∨ c = '\t' ∨ c = '#' ∨ c = '\n' ∨ c = '\r'

/-- A text in double quotes is read up to the closing quote. -/
lemma readBasic_append (h : Printables cs) (hquote : '\x22' ∉ cs) (hescape : '\\' ∉ cs)
    (rest : List Char) : readBasic (cs ++ '\x22' :: rest) = some (cs, rest) := by
  induction cs with
  | nil => rfl
  | cons c cs ih =>
    have hc := isPrintable_of_printables h List.mem_cons_self
    obtain ⟨hquote, hquotes⟩ := List.ne_and_not_mem_of_not_mem_cons hquote
    obtain ⟨hescape, hescapes⟩ := List.ne_and_not_mem_of_not_mem_cons hescape
    have hplain : c ≠ '\\' := hescape.symm
    have hread := ih (fun d hd => h d (List.mem_cons_of_mem c hd)) hquotes hescapes
    rw [List.cons_append, readBasic.eq_def]
    split <;> simp_all [consRead]

/-- A text in single quotes is read up to the closing quote. -/
lemma readLiteral_append (h : Printables cs) (hquote : '\x27' ∉ cs) (rest : List Char) :
    readLiteral (cs ++ '\x27' :: rest) = some (cs, rest) := by
  induction cs with
  | nil => rfl
  | cons c cs ih =>
    have hc := isPrintable_of_printables h List.mem_cons_self
    obtain ⟨hquote, hquotes⟩ := List.ne_and_not_mem_of_not_mem_cons hquote
    have hread := ih (fun d hd => h d (List.mem_cons_of_mem c hd)) hquotes
    rw [List.cons_append, readLiteral.eq_def]
    split <;> simp_all [consRead]

/-- Decimal digits have a value. -/
lemma digitValue?_of_isDigit {c : Char} (h : isDigit c = true) :
    digitValue? 10 c = some (c.toNat - 48) := by
  have hlow : 48 ≤ c.toNat ∧ c.toNat ≤ 57 := by simpa [isDigit] using h
  have hten : c.toNat - 48 < 10 := by omega
  simp [digitValue?, h, hten]

/-- Only decimal digits have a value in base ten. -/
lemma isDigit_of_digitValue? {c : Char} {d : Nat} (h : digitValue? 10 c = some d) :
    isDigit c = true := by
  by_contra hdigit
  rw [digitValue?, if_neg hdigit] at h
  split_ifs at h <;> simp [Option.filter] at h <;> omega

/-- What ends a value is no digit, and does not make a number longer. -/
lemma EndsValue.not_digit (h : EndsValue rest) {c : Char} (hc : c ∈ rest.head?) :
    isDigit c = false ∧ digitValue? 10 c = none ∧
      c ∉ ['_', '.', 'e', 'E', '-', ':', 'x', 'o', 'b'] := by
  rcases h c hc with rfl | rfl | rfl | rfl | rfl <;> decide

/-- All digits are read. -/
lemma readDigits_append {ds : List Char} (h : ∀ c ∈ ds, isDigit c = true) (hrest : EndsValue rest) :
    readDigits 10 (ds ++ rest) = (ds.map fun c => c.toNat - 48, rest) := by
  induction ds with
  | nil =>
    cases rest with
    | nil => rfl
    | cons c rest =>
      obtain ⟨-, hvalue, hc⟩ := hrest.not_digit rfl
      rw [List.nil_append, readDigits.eq_def]
      split <;> simp_all
  | cons c ds ih =>
    obtain ⟨hc, hds⟩ := List.forall_mem_cons.mp h
    have hvalue := digitValue?_of_isDigit hc
    have hunderscore : c ≠ '_' := by
      rintro rfl
      cases hc
    rw [List.cons_append, readDigits.eq_def]
    split <;> simp_all

/-- The digits of a number are decimal digits. -/
lemma isDigit_of_mem_toDigits {n : Nat} {c : Char} (h : c ∈ Nat.toDigits 10 n) :
    isDigit c = true := by
  have hdigit := Nat.isDigit_of_mem_toDigits (by decide) (by decide) h
  simpa [isDigit] using Char.isDigit_iff_toNat.mp hdigit

/-- A number has a first digit. -/
lemma exists_toDigits_eq (n : Nat) : ∃ c cs, Nat.toDigits 10 n = c :: cs ∧ isDigit c = true := by
  obtain ⟨c, cs, hcs⟩ := List.exists_cons_of_ne_nil (Nat.toDigits_ne_nil (n := n) (b := 10))
  exact ⟨c, cs, hcs, isDigit_of_mem_toDigits (n := n) (by simp [hcs])⟩

/-- Only zero is written with a zero at the beginning. -/
lemma eq_zero_of_head?_toDigits {n : Nat} (h : (Nat.toDigits 10 n).head? = some '0') : n = 0 := by
  induction n using Nat.strongRecOn with
  | ind n ih =>
    rw [Nat.toDigits_eq_if (by decide)] at h
    split_ifs at h with hlt
    · simpa using h
    · rw [List.head?_append_of_ne_nil _ Nat.toDigits_ne_nil] at h
      have hzero := ih (n / 10) (by omega) h
      omega

/-- The digits of a number make up its value. -/
lemma ofDigits_toDigits (n : Nat) :
    ofDigits 10 ((Nat.toDigits 10 n).map fun c => c.toNat - 48) = n := by
  rw [ofDigits, List.foldl_map]
  exact Nat.ofDigitChars_ten_toDigits

/-- All digits of a whole number are read. -/
lemma readWhole_append {n : Nat} (hrest : EndsValue rest) :
    readWhole (Nat.toDigits 10 n ++ rest) =
      some ((Nat.toDigits 10 n).map fun c => c.toNat - 48, rest) := by
  rcases Nat.eq_zero_or_pos n with rfl | hpos
  · rfl
  · have hdigits := fun c (hc : c ∈ Nat.toDigits 10 n) => isDigit_of_mem_toDigits hc
    have hhead : (Nat.toDigits 10 n).head? ≠ some '0' :=
      fun h => Nat.ne_of_gt hpos (eq_zero_of_head?_toDigits h)
    obtain ⟨c, cs, hcs, hc⟩ := exists_toDigits_eq n
    rw [hcs] at hdigits hhead ⊢
    obtain ⟨-, hds⟩ := List.forall_mem_cons.mp hdigits
    rw [List.cons_append, readWhole.eq_def]
    split
    · simp_all
    · simp_all [readDigits?, digitValue?_of_isDigit hc, readDigits_append hds hrest]

/-- A date begins with digits and a dash. -/
lemma head?_of_startsWithYear (h : startsWithYear cs = true) :
    (cs.dropWhile isDigit).head? = some '-' := by
  rw [startsWithYear.eq_def] at h
  split at h
  · have hdash : isDigit '-' = false := rfl
    simp_all
  · cases h

/-- A time begins with digits and a colon. -/
lemma head?_of_startsWithHour (h : startsWithHour cs = true) :
    (cs.dropWhile isDigit).head? = some ':' := by
  rw [startsWithHour] at h
  split at h
  · rename_i hread
    rw [readTwo.eq_def] at hread
    split at hread
    · simp only [bind, Option.bind_eq_some_iff] at hread
      obtain ⟨a, ha, b, hb, hread⟩ := hread
      have hcolon : isDigit ':' = false := rfl
      split_ifs at hread
      simp_all [isDigit_of_digitValue? ha, isDigit_of_digitValue? hb]
    · cases hread
  · cases h

/-- A number is neither a date nor a time. -/
lemma starts_eq_false {n : Nat} (hrest : EndsValue rest) :
    startsWithYear (Nat.toDigits 10 n ++ rest) = false ∧
      startsWithHour (Nat.toDigits 10 n ++ rest) = false := by
  have hdrop : (Nat.toDigits 10 n ++ rest).dropWhile isDigit = rest :=
    (takeWhile_dropWhile_append (fun _ hc => isDigit_of_mem_toDigits hc)
      fun _ hc => (hrest.not_digit hc).1).2
  constructor
  · refine Bool.eq_false_iff.mpr fun h => ?_
    have hhead := head?_of_startsWithYear h
    rw [hdrop] at hhead
    simpa using (hrest.not_digit hhead).2.2
  · refine Bool.eq_false_iff.mpr fun h => ?_
    have hhead := head?_of_startsWithHour h
    rw [hdrop] at hhead
    simpa using (hrest.not_digit hhead).2.2

/-- A decimal number is read up to what ends it. -/
lemma readDecimal_append {n : Nat} (hn : n < 0x8000000000000000) (hrest : EndsValue rest) :
    readDecimal (Nat.toDigits 10 n ++ rest) = some (.integer n, rest) := by
  have hwhole := readWhole_append (n := n) hrest
  have hinteger : integer? false (ofDigits 10 ((Nat.toDigits 10 n).map fun c => c.toNat - 48)) =
      some (.integer n) := by
    rw [ofDigits_toDigits, integer?, if_neg Bool.false_ne_true, if_pos]
    omega
  have hfraction : readFraction rest = some (none, rest) := by
    rw [readFraction.eq_def]
    split
    · simpa using (hrest.not_digit rfl).2.2
    · rfl
  have hexponent : readExponent rest = some (none, rest) := by
    cases rest with
    | nil => rfl
    | cons c rest =>
      have hc := (hrest.not_digit rfl).2.2
      rw [readExponent, if_neg]
      rintro (rfl | rfl) <;> simp at hc
  -- the number has no sign, and is not one of the two that are written with letters
  obtain ⟨c, cs, hcs, hdigit⟩ := exists_toDigits_eq n
  have hsign : readSign (Nat.toDigits 10 n ++ rest) = (false, Nat.toDigits 10 n ++ rest) := by
    rw [hcs, List.cons_append, readSign.eq_def]
    split <;> simp_all [isDigit]
  rw [readDecimal, hsign]
  simp only
  split
  · simp_all [isDigit]
  · simp_all [isDigit]
  · simp [hwhole, hfraction, hexponent, hinteger]

/-- A number is read up to what ends it. -/
lemma readNumber_append {n : Nat} (hn : n < 0x8000000000000000) (hrest : EndsValue rest) :
    readNumber (Nat.toDigits 10 n ++ rest) = some (.integer n, rest) := by
  obtain ⟨hyear, hhour⟩ := starts_eq_false (n := n) hrest
  have hsecond : ∀ c cs, Nat.toDigits 10 n ++ rest = '0' :: c :: cs → c ∉ ['x', 'o', 'b'] := by
    intro c cs heq hc
    have hmark : isDigit c = false := by
      simp only [List.mem_cons, List.not_mem_nil, or_false] at hc
      rcases hc with rfl | rfl | rfl <;> rfl
    rcases hdigits : Nat.toDigits 10 n with _ | ⟨a, _ | ⟨b, ds⟩⟩
    · exact Nat.toDigits_ne_nil hdigits
    · rw [hdigits] at heq
      have hhead : c ∈ rest.head? := by simp_all
      have hend := (hrest.not_digit hhead).2.2
      simp_all
    · have hb : isDigit b = true := isDigit_of_mem_toDigits (n := n) (by simp [hdigits])
      rw [hdigits] at heq
      obtain rfl : b = c := by simpa using (List.cons.inj (List.cons.inj heq).2).1
      rw [hmark] at hb
      cases hb
  rw [readNumber.eq_def, hyear, hhour, if_neg Bool.false_ne_true, if_neg Bool.false_ne_true]
  split
  · rename_i heq
    simpa using hsecond _ _ heq
  · rename_i heq
    simpa using hsecond _ _ heq
  · rename_i heq
    simpa using hsecond _ _ heq
  · exact readDecimal_append hn hrest

/-- What begins with a digit is a number. -/
lemma readValue_of_isDigit {c : Char} (h : isDigit c = true) (depth : Nat) (cs : List Char) :
    readValue depth (c :: cs) = readNumber (c :: cs) := by
  rw [readValue.eq_def]
  split <;> simp_all [isDigit]

/-- A value is read up to what ends it. -/
theorem readValue_append {value : List Char} {item : Item} (h : Value value item)
    (hrest : EndsValue rest) (depth : Nat) :
    readValue depth (value ++ rest) = some (item, rest) := by
  cases h with
  | yes => simp [readValue]
  | no => simp [readValue]
  | @number n hn =>
    have hnumber := readNumber_append hn hrest
    obtain ⟨c, cs, hcs, hdigit⟩ := exists_toDigits_eq n
    rw [hcs, List.cons_append] at hnumber ⊢
    rw [readValue_of_isDigit hdigit, hnumber]
  | @text cs hprintables hquote hescape =>
    have hread := readBasic_append hprintables hquote hescape rest
    have htext : readText ('\x22' :: (cs ++ '\x22' :: rest)) = some (String.ofList cs, rest) := by
      rw [readText.eq_def]
      -- two more quotes would begin a text of several lines
      split
      · rename_i heq
        rcases cs with _ | ⟨c, cs⟩
        · simpa using hrest '\x22' (by simp_all)
        · simp_all
      all_goals simp_all
    simp [readValue, htext]
  | @literal cs hprintables hquote =>
    have hread := readLiteral_append hprintables hquote rest
    have htext : readText ('\x27' :: (cs ++ '\x27' :: rest)) = some (String.ofList cs, rest) := by
      rw [readText.eq_def]
      split
      · simp_all
      · simp_all
      · rename_i heq
        rcases cs with _ | ⟨c, cs⟩
        · simpa using hrest '\x27' (by simp_all)
        · simp_all
      all_goals simp_all
    simp [readValue, htext]

/-! ### Lines -/

/-- A value ends before each of five characters. -/
lemma endsValue_cons {c : Char} (h : c = ' ' ∨ c = '\t' ∨ c = '#' ∨ c = '\n' ∨ c = '\r')
    (rest : List Char) : EndsValue (c :: rest) := by
  rintro _ ⟨⟩
  exact h

/-- A value ends where its line does. -/
lemma Tail.endsValue {tail : List Char} (h : Tail tail rest) : EndsValue (tail ++ rest) := by
  cases h with
  | @line blanks comment lineBreak rest hblanks hcomment hbreak =>
    rcases blanks with _ | ⟨d, blanks⟩
    · cases hcomment <;> cases hbreak <;> exact endsValue_cons (by simp) _
    · exact endsValue_cons ((hblanks d List.mem_cons_self).imp_right .inl) _
  | @last blanks comment hblanks hcomment =>
    rcases blanks with _ | ⟨d, blanks⟩
    · cases hcomment
      · exact fun _ hc => nomatch hc
      · exact endsValue_cons (by simp) _
    · exact endsValue_cons ((hblanks d List.mem_cons_self).imp_right .inl) _

/-- A value does not begin with a blank. -/
lemma skipBlanks_value {value : List Char} {item : Item} (h : Value value item) (rest : List Char) :
    skipBlanks (value ++ rest) = value ++ rest := by
  cases h with
  | @number n hn =>
    obtain ⟨c, cs, hcs, hdigit⟩ := exists_toDigits_eq n
    rw [hcs, List.cons_append]
    refine skipBlanks_cons (Bool.eq_false_iff.mpr fun hblank => ?_)
    rcases show c = ' ' ∨ c = '\t' by simpa [isBlank] using hblank with rfl | rfl <;> cases hdigit
  | _ => rfl

/-- A key with its value is read up to what ends the value. -/
lemma readAssignment_append {key before after value : List Char} {item : Item} (hkey : BareKey key)
    (hbefore : Blanks before) (hafter : Blanks after) (hvalue : Value value item)
    (hrest : EndsValue rest) :
    readAssignment (readValue maxNesting) (key ++ (before ++ '=' :: (after ++ (value ++ rest)))) =
      some (([String.ofList key], item), rest) := by
  have hnone : Blanks [] := fun _ hc => nomatch hc
  have hread : readKey maxNesting
      ([] ++ (key ++ (before ++ '=' :: (after ++ (value ++ rest))))) = _ :=
    readKey_append hnone hkey hbefore (.inr rfl) 78
  rw [readAssignment, ← List.nil_append (key ++ _), hread]
  simp [skipBlanks_append hafter, skipBlanks_value hvalue, readValue_append hvalue hrest]

/-- A line is read with everything before it; then comes the end of the line. -/
lemma readLines_row {gap row : List Char} {line : Line} (hgap : Gap gap) (h : Row row line)
    (hrest : EndsValue rest) (fuel : Nat) :
    readLines (fuel + 1) (gap ++ (row ++ rest)) =
      (readLineEnd rest).bind fun rest =>
        (readLines fuel rest).bind fun lines => some (line :: lines) := by
  cases h with
  | @header before key after hbefore hkey hafter =>
    have hskip : skipLines false (gap ++ ('[' :: (before ++ (key ++ (after ++ [']']))) ++ rest)) =
        '[' :: (before ++ (key ++ (after ++ ']' :: rest))) := by
      rw [skipLines_gap hgap, List.cons_append, skipLines_cons (by decide), if_neg (by decide),
        if_neg (by decide), if_neg (by decide)]
      simp
    have hread : readKey maxNesting (before ++ (key ++ (after ++ ']' :: rest))) = _ :=
      readKey_append hbefore hkey hafter (.inl rfl) 78
    -- a second bracket would begin a repeated table
    have hbracket : ∀ cs, before ++ (key ++ (after ++ ']' :: rest)) ≠ '[' :: cs := by
      obtain ⟨c, key, rfl⟩ := List.exists_cons_of_ne_nil hkey.1
      have hc := not_mem_of_isKeyChar hkey.head
      rintro cs heq
      rcases before with _ | ⟨d, before⟩
      · obtain ⟨rfl, -⟩ := List.cons.inj heq
        simp at hc
      · obtain ⟨rfl, -⟩ := List.cons.inj heq
        simpa using hbefore '[' List.mem_cons_self
    rw [readLines.eq_def]
    simp only [hskip, hread, Option.bind_eq_bind, Option.bind_some]
  | @assignment key before after value item hkey hbefore hafter hvalue =>
    have hread := readAssignment_append hkey hbefore hafter hvalue hrest
    obtain ⟨c, cs, rfl⟩ := List.exists_cons_of_ne_nil hkey.1
    have hc := not_mem_of_isKeyChar hkey.head
    have hskip : skipLines false (gap ++ (c :: cs ++ (before ++ '=' :: (after ++ value)) ++ rest)) =
        c :: (cs ++ (before ++ '=' :: (after ++ (value ++ rest)))) := by
      rw [skipLines_gap hgap, List.cons_append, List.cons_append,
        skipLines_cons (by simp_all), if_neg (by decide),
        if_neg (by rw [isBlank_of_isKeyChar hkey.head]; decide), if_neg (by simp_all)]
      simp
    have hbracket : c ≠ '[' := by simp_all
    rw [List.cons_append] at hread
    rw [readLines.eq_def]
    simp only [hskip]
    split <;> simp_all

/-- The lines of a document are read as they are written. -/
theorem readLines_of_lines {lines : List Line} (h : Lines cs lines) {fuel : Nat}
    (hfuel : cs.length < fuel) : readLines fuel cs = some lines := by
  induction h generalizing fuel with
  | done hgap hcomment =>
    obtain ⟨fuel, rfl⟩ := Nat.exists_eq_add_one_of_ne_zero (Nat.ne_of_gt (Nat.zero_lt_of_lt hfuel))
    rw [readLines, skipLines_last hgap hcomment]
  | @row gap row tail rest line lines hgap hrow htail _ ih =>
    obtain ⟨fuel, rfl⟩ := Nat.exists_eq_add_one_of_ne_zero (Nat.ne_of_gt (Nat.zero_lt_of_lt hfuel))
    have hlength : 0 < row.length := by
      cases hrow
      all_goals
        simp only [List.length_append, List.length_cons]
        omega
    have hrest : rest.length < fuel := by
      simp only [List.length_append] at hfuel
      omega
    rw [readLines_row hgap hrow htail.endsValue, readLineEnd_tail htail, Option.bind_some,
      ih hrest, Option.bind_some]

/-! ### Tables -/

namespace Entries

/-- A name that is not in a table has no item. -/
lemma lookup_eq_none {es : Entries} {name : String} (h : name ∉ es.map Prod.fst) :
    es.lookup name = none := by
  rw [List.lookup_eq_none_iff]
  intro p hp
  have hne : name ≠ p.1 := by
    rintro rfl
    exact h (List.mem_map_of_mem hp)
  simpa using hne

/-- A new name is added at the end. -/
lemma set_of_not_mem {es : Entries} {name : String} (h : name ∉ es.map Prod.fst) (new : Item) :
    es.set name new = es ++ [(name, new)] := by
  induction es with
  | nil => rfl
  | cons p es ih =>
    obtain ⟨hne, hmem⟩ := List.ne_and_not_mem_of_not_mem_cons h
    rw [set, if_neg (Ne.symm hne), ih hmem, List.cons_append]

/-- The last item of a table is replaced. -/
lemma set_concat {es : Entries} {name : String} (h : name ∉ es.map Prod.fst) (old new : Item) :
    Entries.set name new (es ++ [(name, old)]) = es ++ [(name, new)] := by
  induction es with
  | nil => simp [set]
  | cons p es ih =>
    obtain ⟨hne, hmem⟩ := List.ne_and_not_mem_of_not_mem_cons h
    rw [List.cons_append, set, if_neg (Ne.symm hne), ih hmem, List.cons_append]

/-- The last item of a table is found under its name. -/
lemma lookup_concat {es : Entries} {name : String} (h : name ∉ es.map Prod.fst) (item : Item) :
    (es ++ [(name, item)]).lookup name = some item := by
  rw [List.lookup_append, lookup_eq_none h]
  simp

/-- If no key is given twice, a key is none of those before it. -/
lemma fst_not_mem {es later : Entries} {p : String × Item}
    (h : ((es ++ p :: later).map Prod.fst).Nodup) : p.1 ∉ es.map Prod.fst := by
  rw [List.map_append, List.map_cons, List.nodup_append] at h
  exact fun hmem => h.2.2 p.1 hmem p.1 List.mem_cons_self rfl

/-- A value for a new key is added at the end. -/
lemma assign_of_not_mem {es : Entries} {name : String} (h : name ∉ es.map Prod.fst) (item : Item) :
    es.assign true [name] item = some (es ++ [(name, item)]) := by
  rw [assign, lookup_eq_none h]
  rfl

end Entries

/-- Values for new keys at the beginning of a document are added to its table. -/
lemma foldlM_assignments_top {es pairs : Entries} (h : ((es ++ pairs).map Prod.fst).Nodup) :
    (assignments pairs).foldlM takeLine ([], es) = some ([], es ++ pairs) := by
  induction pairs generalizing es with
  | nil => simp [assignments]
  | cons p pairs ih =>
    have hkey := Entries.fst_not_mem h
    have hstep : takeLine ([], es) (.assignment [p.1] p.2) = some ([], es ++ [p]) := by
      simp [takeLine, Entries.assignBelow, Entries.assign_of_not_mem hkey]
    rw [assignments, List.map_cons, List.foldlM_cons, hstep]
    exact (ih (by simpa using h)).trans (by simp)

/-- Values for new keys below a header are added to the table of the header. -/
lemma foldlM_assignments_section {es inner pairs : Entries} {name : String}
    (hname : name ∉ es.map Prod.fst) (h : ((inner ++ pairs).map Prod.fst).Nodup) :
    (assignments pairs).foldlM takeLine ([name], es ++ [(name, .table .header inner)]) =
      some ([name], es ++ [(name, .table .header (inner ++ pairs))]) := by
  induction pairs generalizing inner with
  | nil => simp [assignments]
  | cons p pairs ih =>
    have hkey := Entries.fst_not_mem h
    have hstep : takeLine ([name], es ++ [(name, .table .header inner)])
        (.assignment [p.1] p.2) =
          some ([name], es ++ [(name, .table .header (inner ++ [p]))]) := by
      simp [takeLine, Entries.assignBelow, Entries.atHeader, Entries.lookup_concat hname,
        Entries.assign_of_not_mem hkey, Entries.set_concat hname]
    rw [assignments, List.map_cons, List.foldlM_cons, hstep]
    exact (ih (by simpa using h)).trans (by simp)

/-- The table of a new section is added to the document. -/
lemma foldlM_sectionLines {header : List String} {es : Entries} {s : String × Entries}
    (hname : s.1 ∉ es.map Prod.fst) (h : (s.2.map Prod.fst).Nodup) :
    (sectionLines s).foldlM takeLine (header, es) =
      some ([s.1], es ++ [(s.1, .table .header s.2)]) := by
  have hstep : takeLine (header, es) (.header [s.1]) =
      some ([s.1], es ++ [(s.1, .table .header [])]) := by
    simp [takeLine, Entries.openTable, Entries.atHeader, Entries.lookup_eq_none hname,
      Entries.set_of_not_mem hname]
  rw [sectionLines, List.foldlM_cons, hstep]
  exact foldlM_assignments_section hname h

/-- The tables of new sections are added to the document. -/
lemma foldlM_sections {header : List String} {es : Entries} {sections : List (String × Entries)}
    (hnames : ((es ++ sections.map fun s => (s.1, Item.table .header s.2)).map Prod.fst).Nodup)
    (h : ∀ s ∈ sections, (s.2.map Prod.fst).Nodup) :
    ∃ last, (sections.flatMap sectionLines).foldlM takeLine (header, es) =
      some (last, es ++ sections.map fun s => (s.1, .table .header s.2)) := by
  induction sections generalizing header es with
  | nil => exact ⟨header, by simp⟩
  | cons s sections ih =>
    obtain ⟨hs, hsections⟩ := List.forall_mem_cons.mp h
    have hname : s.1 ∉ es.map Prod.fst := Entries.fst_not_mem hnames
    obtain ⟨last, hlast⟩ := @ih [s.1] (es ++ [(s.1, .table .header s.2)])
      (by simpa using hnames) hsections
    refine ⟨last, ?_⟩
    rw [List.flatMap_cons, List.foldlM_append, foldlM_sectionLines hname hs]
    exact hlast.trans (by simp)

/-- A byte order mark is part of no line. -/
lemma readLines_mark (fuel : Nat) (cs : List Char) : readLines fuel ('\ufeff' :: cs) = none := by
  cases fuel with
  | zero => rfl
  | succ fuel =>
    have hskip : skipLines false ('\ufeff' :: cs) = '\ufeff' :: cs := by
      rw [skipLines_cons (by decide), if_neg (by decide), if_neg (by decide), if_neg (by decide)]
    have hpart : readKeyPart ('\ufeff' :: cs) = none := by
      have hmark : isKeyChar '\ufeff' = false := by decide
      simp [readKeyPart, hmark]
    have hkey : readKey maxNesting ('\ufeff' :: cs) = none := by
      rw [maxNesting, readKey, skipBlanks_cons (by decide), hpart]
      rfl
    simp [readLines, hskip, readAssignment, hkey]

/-- A document in plain form is read as the table it stands for. -/
theorem parse?_of_written {document : String} {entries : Entries} (h : Written document entries) :
    parse? document = some entries := by
  obtain ⟨pairs, sections, hlines, rfl, hnames, hsections⟩ := h
  have hread := readLines_of_lines hlines (Nat.lt_succ_self _)
  have hpairs : (([] ++ pairs).map Prod.fst).Nodup := by
    rw [List.map_append] at hnames
    exact hnames.of_append_left
  obtain ⟨last, hlast⟩ := @foldlM_sections [] pairs sections hnames hsections
  have hfold : (assignments pairs ++ sections.flatMap sectionLines).foldlM takeLine ([], []) =
      some (last, pairs ++ sections.map fun s => (s.1, .table .header s.2)) := by
    rw [List.foldlM_append, foldlM_assignments_top hpairs]
    exact hlast
  rw [parse?]
  split
  · rename_i hmark
    rw [hmark, readLines_mark] at hread
    cases hread
  · simp [hread, hfold]

end Arbor.Toml
