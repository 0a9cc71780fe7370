import Arbor.Json
import Mathlib.Tactic.Lemma
import Mathlib.Tactic.SplitIfs

/-!
# Printed JSON can be read in one way only

Two different values are never printed alike (`Json.pretty_injective`).  The texts inside a value
may be anything, also something that looks like JSON, since a quote inside a text is escaped: the
first quote that is not escaped ends the text.

The proof follows the printers, which take the text that comes behind a value.  `Json.Tells` says
of a printer and a value that the value ends where it seems to end: if it and another value are
printed and the texts are equal, including what comes behind, then the values are equal, and so
is what comes behind them.  Only numbers have to know that no digit comes behind them; inside
arrays and objects a comma or a new line does.
-/

namespace Arbor.Json

/-! ### Texts -/

/-- The value of a hexadecimal digit in lower case. -/
def hexValue (c : Char) : Nat :=
  if c.toNat < 58 then c.toNat - 48 else c.toNat - 87

/-- The character that is written at the beginning of a text, and what comes behind it. -/
def unescape? : List Char → Option (Char × List Char)
  | [] => none
  | '\\' :: 'b' :: rest => some ('\x08', rest)
  | '\\' :: 'f' :: rest => some ('\x0c', rest)
  | '\\' :: 'n' :: rest => some ('\n', rest)
  | '\\' :: 'r' :: rest => some ('\r', rest)
  | '\\' :: 't' :: rest => some ('\t', rest)
  | '\\' :: 'u' :: '0' :: '0' :: a :: b :: rest =>
    some (Char.ofNat (16 * hexValue a + hexValue b), rest)
  | '\\' :: c :: rest => some (c, rest)
  | c :: rest => some (c, rest)

/-- A hexadecimal digit has the value that it was printed for. -/
lemma hexValue_hexDigit {n : Nat} (h : n < 16) : hexValue (hexDigit n) = n := by
  have hall : ∀ n < 16, hexValue (hexDigit n) = n := by decide
  exact hall n h

/-- Escapes are read back. -/
lemma unescape?_escape (c : Char) (rest : List Char) :
    unescape? (escape c ++ rest) = some (c, rest) := by
  unfold escape
  split_ifs with hquote hbackslash hb hf hn hr ht hcontrol
  · subst hquote; rfl
  · subst hbackslash; rfl
  · subst hb; rfl
  · subst hf; rfl
  · subst hn; rfl
  · subst hr; rfl
  · subst ht; rfl
  · have hhigh := hexValue_hexDigit (show c.toNat / 16 < 16 by omega)
    have hlow := hexValue_hexDigit (show c.toNat % 16 < 16 by omega)
    have hsum : 16 * (c.toNat / 16) + c.toNat % 16 = c.toNat := Nat.div_add_mod _ _
    simp [unescape?, hhigh, hlow, hsum]
  · simp [unescape?, hbackslash]

/-- A written character tells which character it is and where it ends. -/
lemma escape_append_inj {c d : Char} {cs ds : List Char}
    (h : escape c ++ cs = escape d ++ ds) : c = d ∧ cs = ds := by
  have hread := unescape?_escape c cs
  rw [h, unescape?_escape d ds] at hread
  simpa [eq_comm] using hread

/-- A quote that is not escaped is never the beginning of a written character. -/
lemma escape_append_ne_quote (c : Char) (cs ds : List Char) :
    escape c ++ cs ≠ '\x22' :: ds := by
  unfold escape
  split_ifs with hquote <;> simp [hquote]

/-- Escaped characters up to a quotation mark tell which characters they are and where they end. -/
lemma flatMap_escape_inj {cs ds rest rest' : List Char}
    (h : cs.flatMap escape ++ '\x22' :: rest = ds.flatMap escape ++ '\x22' :: rest') :
    cs = ds ∧ rest = rest' := by
  induction cs generalizing ds with
  | nil =>
    cases ds with
    | nil => simpa using h
    | cons d ds =>
      rw [List.flatMap_nil, List.nil_append, List.flatMap_cons, List.append_assoc] at h
      exact absurd h.symm (escape_append_ne_quote d _ _)
  | cons c cs ih =>
    rw [List.flatMap_cons, List.append_assoc] at h
    cases ds with
    | nil => exact absurd h (escape_append_ne_quote c _ _)
    | cons d ds =>
      rw [List.flatMap_cons, List.append_assoc] at h
      obtain ⟨rfl, hrest⟩ := escape_append_inj h
      obtain ⟨rfl, rfl⟩ := ih hrest
      exact ⟨rfl, rfl⟩

/-- A printed text tells what it says and where it ends. -/
lemma writeText_inj {s s' : String} {rest rest' : List Char}
    (h : writeText s rest = writeText s' rest') : s = s' ∧ rest = rest' := by
  obtain ⟨htext, hrest⟩ := flatMap_escape_inj (List.cons.inj h).2
  exact ⟨String.toList_injective htext, hrest⟩

/-- A new line tells what follows it. -/
lemma newLine_inj {level : Nat} {rest rest' : List Char}
    (h : newLine level rest = newLine level rest') : rest = rest' :=
  List.append_cancel_left (List.cons.inj h).2

/-! ### Numbers -/

/-- A text does not begin with a digit. -/
def NoDigit (rest : List Char) : Prop :=
  ∀ c ∈ rest.head?, c.isDigit = false

/-- The empty text begins with no digit. -/
lemma noDigit_nil : NoDigit [] := by
  simp [NoDigit]

/-- A text that begins with another character does not begin with a digit. -/
lemma noDigit_cons {c : Char} (h : c.isDigit = false) (rest : List Char) : NoDigit (c :: rest) := by
  simpa [NoDigit] using h

/-- A number takes up all the digits that it begins with. -/
lemma takeWhile_isDigit_toDigits (n : Nat) {rest : List Char} (h : NoDigit rest) :
    (Nat.toDigits 10 n ++ rest).takeWhile Char.isDigit = Nat.toDigits 10 n := by
  have hdigits : ∀ c ∈ Nat.toDigits 10 n, c.isDigit = true := fun c hc =>
    Nat.isDigit_of_mem_toDigits (by decide) (by decide) hc
  have hrest : rest.takeWhile Char.isDigit = [] := by
    cases rest with
    | nil => rfl
    | cons c cs =>
      have hc : c.isDigit = false := h c rfl
      simp [hc]
  rw [List.takeWhile_append_of_pos hdigits, hrest, List.append_nil]

/-- A printed number tells which number it is, if no digit comes behind it. -/
lemma toDigits_append_inj {m n : Nat} {rest rest' : List Char} (hrest : NoDigit rest)
    (hrest' : NoDigit rest') (h : Nat.toDigits 10 m ++ rest = Nat.toDigits 10 n ++ rest') :
    m = n ∧ rest = rest' := by
  have hdigits : Nat.toDigits 10 m = Nat.toDigits 10 n := by
    rw [← takeWhile_isDigit_toDigits m hrest, ← takeWhile_isDigit_toDigits n hrest', h]
  have hvalue : ∀ k, Nat.ofDigitChars 10 (Nat.toDigits 10 k) 0 = k := fun _ =>
    Nat.ofDigitChars_toDigits (by decide) (by decide)
  refine ⟨?_, ?_⟩
  · rw [← hvalue m, hdigits, hvalue n]
  · rw [hdigits] at h
    exact List.append_cancel_left h

/-! ### Values -/

/-- A property holds of all values if arrays inherit it from their items and objects from their
members. -/
theorem nested_induction {P : Json → Prop} (hbool : ∀ b, P (bool b)) (hnum : ∀ n, P (num n))
    (hstr : ∀ s, P (str s)) (harr : ∀ js, (∀ j ∈ js, P j) → P (arr js))
    (hobj : ∀ ms : List (String × Json), (∀ m ∈ ms, P m.2) → P (obj ms)) (j : Json) : P j :=
  @Json.rec P (fun js => ∀ j ∈ js, P j) (fun ms => ∀ m ∈ ms, P m.2) (fun m => P m.2)
    hbool hnum hstr harr hobj
    (fun _ h => nomatch h) (fun _ _ h hs => List.forall_mem_cons.mpr ⟨h, hs⟩)
    (fun _ h => nomatch h) (fun _ _ h hs => List.forall_mem_cons.mpr ⟨h, hs⟩)
    (fun _ _ h => h) j

/-- A member of an object, behind the beginning of its line. -/
def writeMember (level : Nat) (m : String × Json) (rest : List Char) : List Char :=
  writeText m.1 (':' :: ' ' :: write level m.2 rest)

section Lists

variable {α : Type}

/-- What a printer makes of a list behind its first member, a line for each member. -/
def writeLines (level : Nat) (print : α → List Char → List Char) : List α → List Char → List Char
  | [], rest => rest
  | a :: as, rest => ',' :: newLine level (print a (writeLines level print as rest))

/-- What a printer makes of a list in brackets that stands at the given level. -/
def writeList (opening closing : Char) (level : Nat) (print : α → List Char → List Char) :
    List α → List Char → List Char
  | [], rest => opening :: closing :: rest
  | a :: as, rest =>
    opening :: newLine (level + 1)
      (print a (writeLines (level + 1) print as (newLine level (closing :: rest))))

/-- What a printer makes of a value at the beginning of a text tells the value apart from all
others, and what comes behind it. -/
def Tells (print : α → List Char → List Char) (a : α) : Prop :=
  ∀ a' rest rest', NoDigit rest → NoDigit rest' → print a rest = print a' rest' →
    a = a' ∧ rest = rest'

variable {print : α → List Char → List Char} {as as' : List α} {rest rest' : List Char}

/-- What is written line by line does not begin with a digit. -/
lemma noDigit_writeLines (level : Nat) (as : List α) (h : rest.head? = some '\n') :
    NoDigit (writeLines level print as rest) := by
  cases as with
  | nil =>
    rw [writeLines, NoDigit, h]
    simp
  | cons a as =>
    rw [writeLines]
    exact noDigit_cons rfl _

/-- Members that are told apart one by one are told apart together: a comma goes on with the
list, a new line ends it. -/
lemma writeLines_inj {level : Nat} (has : ∀ a ∈ as, Tells print a)
    (hrest : rest.head? = some '\n') (hrest' : rest'.head? = some '\n')
    (h : writeLines level print as rest = writeLines level print as' rest') :
    as = as' ∧ rest = rest' := by
  induction as generalizing as' with
  | nil =>
    cases as' with
    | nil => exact ⟨rfl, h⟩
    | cons a' as' =>
      rw [writeLines, writeLines] at h
      rw [h] at hrest
      cases hrest
  | cons a as ih =>
    cases as' with
    | nil =>
      rw [writeLines, writeLines] at h
      rw [← h] at hrest'
      cases hrest'
    | cons a' as' =>
      rw [writeLines, writeLines] at h
      have hline := newLine_inj (List.cons.inj h).2
      obtain ⟨rfl, hbehind⟩ := has a List.mem_cons_self a' _ _
        (noDigit_writeLines level as hrest) (noDigit_writeLines level as' hrest') hline
      obtain ⟨rfl, rfl⟩ := ih (fun a ha => has a (List.mem_cons_of_mem _ ha)) hbehind
      exact ⟨rfl, rfl⟩

/-- A list in brackets tells its members, and where it ends. -/
lemma writeList_inj {opening closing : Char} {level : Nat} (hclosing : closing ≠ '\n')
    (has : ∀ a ∈ as, Tells print a)
    (h : writeList opening closing level print as rest =
      writeList opening closing level print as' rest') :
    as = as' ∧ rest = rest' := by
  cases as with
  | nil =>
    cases as' with
    | nil => exact ⟨rfl, (List.cons.inj (List.cons.inj h).2).2⟩
    | cons a' as' => exact absurd (List.cons.inj (List.cons.inj h).2).1 hclosing
  | cons a as =>
    cases as' with
    | nil => exact absurd (List.cons.inj (List.cons.inj h).2).1.symm hclosing
    | cons a' as' =>
      -- The first line is like the others, but for the comma in front.
      have hlines : writeLines (level + 1) print (a :: as) (newLine level (closing :: rest)) =
          writeLines (level + 1) print (a' :: as') (newLine level (closing :: rest')) :=
        congrArg (',' :: ·) (List.cons.inj h).2
      obtain ⟨heq, hend⟩ := writeLines_inj has rfl rfl hlines
      exact ⟨heq, (List.cons.inj (newLine_inj hend)).2⟩

end Lists

/-- The items of an array are written line by line. -/
lemma writeItems_eq_writeLines (level : Nat) (js : List Json) (rest : List Char) :
    writeItems level js rest = writeLines level (write level) js rest := by
  induction js with
  | nil => rw [writeItems, writeLines]
  | cons j js ih => rw [writeItems, writeLines, ih]

/-- The members of an object are written line by line. -/
lemma writeMembers_eq_writeLines (level : Nat) (ms : List (String × Json)) (rest : List Char) :
    writeMembers level ms rest = writeLines level (writeMember level) ms rest := by
  induction ms with
  | nil => rw [writeMembers, writeLines]
  | cons m ms ih => rw [writeMembers, writeLines, ih, writeMember]

/-- An array is a list of values in square brackets. -/
lemma write_arr (level : Nat) (js : List Json) (rest : List Char) :
    write level (arr js) rest = writeList '[' ']' level (write (level + 1)) js rest := by
  cases js with
  | nil => rw [write, writeList]
  | cons j js => rw [write, writeList, writeItems_eq_writeLines]

/-- An object is a list of members in braces. -/
lemma write_obj (level : Nat) (ms : List (String × Json)) (rest : List Char) :
    write level (obj ms) rest =
      writeList '\x7b' '\x7d' level (writeMember (level + 1)) ms rest := by
  cases ms with
  | nil => rw [write, writeList]
  | cons m ms => rw [write, writeList, writeMembers_eq_writeLines, writeMember]

/-- A member tells its name and its value, if the value tells itself. -/
lemma tells_writeMember {level : Nat} {m : String × Json} (h : Tells (write level) m.2) :
    Tells (writeMember level) m := by
  intro m' rest rest' hrest hrest' heq
  obtain ⟨hkey, hbehind⟩ := writeText_inj heq
  have hvalue := (List.cons.inj (List.cons.inj hbehind).2).2
  obtain ⟨hsame, rfl⟩ := h m'.2 rest rest' hrest hrest' hvalue
  exact ⟨Prod.ext hkey hsame, rfl⟩

/-- The character a value begins with; all digits count as zero. -/
def mark : Json → Char
  | bool true => 't'
  | bool false => 'f'
  | num _ => '0'
  | str _ => '\x22'
  | arr _ => '['
  | obj _ => '\x7b'

/-- The mark of the value at the beginning of a text. -/
def markOf (text : List Char) : Char :=
  match text.head? with
  | some c => if c.isDigit then '0' else c
  | none => ' '

/-- A printed value begins with its mark. -/
lemma markOf_write (level : Nat) (j : Json) (rest : List Char) :
    markOf (write level j rest) = j.mark := by
  cases j with
  | bool b => cases b <;> rw [write] <;> rfl
  | num n =>
    obtain ⟨d, digits, hdigits⟩ :=
      List.exists_cons_of_ne_nil (Nat.toDigits_ne_nil (n := n) (b := 10))
    have hd : d.isDigit = true :=
      Nat.isDigit_of_mem_toDigits (by decide) (by decide) (hdigits ▸ List.mem_cons_self)
    rw [write, hdigits]
    simp [markOf, hd, mark]
  | str s => rw [write]; rfl
  | arr js => rw [write_arr]; cases js <;> rfl
  | obj ms => rw [write_obj]; cases ms <;> rfl

/-- Two values of one form: the same flag, or both a number, a text, an array or an object. -/
inductive Alike : Json → Json → Prop where
  | bool (b : Bool) : Alike (bool b) (bool b)
  | num (n n' : Nat) : Alike (num n) (num n')
  | str (s s' : String) : Alike (str s) (str s')
  | arr (js js' : List Json) : Alike (arr js) (arr js')
  | obj (ms ms' : List (String × Json)) : Alike (obj ms) (obj ms')

/-- The first character gives away the form. -/
lemma alike_of_write_eq {level : Nat} {j j' : Json} {rest rest' : List Char}
    (h : write level j rest = write level j' rest') : Alike j j' := by
  have hmark : j.mark = j'.mark := by
    rw [← markOf_write level j rest, h, markOf_write]
  rcases j with (_ | _) | _ | _ | _ | _ <;> rcases j' with (_ | _) | _ | _ | _ | _
  any_goals constructor
  all_goals simp [mark] at hmark

/-- A printed value tells which value it is and where it ends. -/
theorem tells_write (j : Json) : ∀ level, Tells (write level) j := by
  induction j using nested_induction with
  | hbool b =>
    intro level j' rest rest' _ _ h
    cases alike_of_write_eq h
    rw [write, write] at h
    exact ⟨rfl, List.append_cancel_left h⟩
  | hnum n =>
    intro level j' rest rest' hrest hrest' h
    cases alike_of_write_eq h
    rw [write, write] at h
    obtain ⟨rfl, rfl⟩ := toDigits_append_inj hrest hrest' h
    exact ⟨rfl, rfl⟩
  | hstr s =>
    intro level j' rest rest' _ _ h
    cases alike_of_write_eq h
    rw [write, write] at h
    obtain ⟨rfl, rfl⟩ := writeText_inj h
    exact ⟨rfl, rfl⟩
  | harr js ih =>
    intro level j' rest rest' _ _ h
    cases alike_of_write_eq h
    rw [write_arr, write_arr] at h
    obtain ⟨rfl, rfl⟩ := writeList_inj (by decide) (fun j hj => ih j hj (level + 1)) h
    exact ⟨rfl, rfl⟩
  | hobj ms ih =>
    intro level j' rest rest' _ _ h
    cases alike_of_write_eq h
    rw [write_obj, write_obj] at h
    obtain ⟨rfl, rfl⟩ :=
      writeList_inj (by decide) (fun m hm => tells_writeMember (ih m hm (level + 1))) h
    exact ⟨rfl, rfl⟩

/-- Different values have different printed forms. -/
theorem pretty_injective : Function.Injective pretty := by
  intro j j' h
  have htext : write 0 j [] = write 0 j' [] := String.ofList_injective h
  exact (tells_write j 0 j' [] [] noDigit_nil noDigit_nil htext).1

end Arbor.Json
