import Arbor.Proofs.Misfit
import Arbor.Proofs.Records
import Arbor.Proofs.Wire.Decoding
import Arbor.Proofs.Wire.Nesting

/-!
# Misfits seen in the records

Whether a message has a misfit can be read off the records it is made of, without building
the message.  Only submessages that the message keeps count: all of a repeated field, the
latest of any other (`kept`).  A list of records is `Clean` if none of its strays has the
number of a field and the submessages it keeps are clean.

`Root.misfit?_ofRecords` says that the message of a list of records has no misfit exactly
if the list is clean.
-/

namespace Arbor

namespace Wire

/-- The submessages under the given number that a message keeps. -/
def kept (t : MessageType) (number : Nat) (rs : List Record) : List (List Record) :=
  if t.single number then (latest (Record.body? number) rs).toList
  else rs.filterMap (Record.body? number)

/-- No stray has the number of a field, neither among the records nor in the submessages
that are kept. -/
inductive Clean : MessageType → List Record → Prop where
  | intro {t : MessageType} {rs : List Record} :
      (∀ n ∈ rs.filterMap Record.stray?, t.field? n = none) →
      (∀ field ∈ t.fields, ∀ u, field.type = .message u →
        ∀ body ∈ kept t field.number rs, Clean u body) →
      Clean t rs

/-- Records are clean if no stray has the number of a field and the kept submessages are clean. -/
lemma clean_iff {t : MessageType} {rs : List Record} :
    Clean t rs ↔
      (∀ n ∈ rs.filterMap Record.stray?, t.field? n = none) ∧
      ∀ field ∈ t.fields, ∀ u, field.type = .message u →
        ∀ body ∈ kept t field.number rs, Clean u body :=
  ⟨fun ⟨hstray, hkept⟩ => ⟨hstray, hkept⟩, fun h => .intro h.1 h.2⟩

/-- What is found among the submessages is the content of a message record. -/
lemma mem_filterMap_body? {number : Nat} {rs body : List Record} :
    body ∈ rs.filterMap (Record.body? number) ↔ .message number body ∈ rs := by
  rw [List.mem_filterMap]
  constructor
  · rintro ⟨r, hr, hbody⟩
    rwa [← Record.body?_eq_some_iff.mp hbody]
  · intro h
    exact ⟨_, h, Record.body?_eq_some_iff.mpr rfl⟩

/-- The latest submessage is one of the submessages. -/
lemma mem_of_latest_body? {number : Nat} {rs body : List Record}
    (h : latest (Record.body? number) rs = some body) : .message number body ∈ rs :=
  mem_filterMap_body?.mp (List.mem_of_getLast? h)

/-- A submessage is kept if it stands among the records and no later one under the same
number takes its place. -/
lemma mem_kept_iff {t : MessageType} {number : Nat} {rs body : List Record} :
    body ∈ kept t number rs ↔
      ∃ before behind, rs = before ++ .message number body :: behind ∧
        (t.single number = true → ∀ body', .message number body' ∉ behind) := by
  unfold kept
  by_cases hsingle : t.single number = true
  · rw [if_pos hsingle, Option.mem_toList, latest_eq_some_iff]
    constructor
    · rintro ⟨before, r, behind, hrs, hr, hnone⟩
      refine ⟨before, behind, by rw [hrs, Record.body?_eq_some_iff.mp hr], ?_⟩
      intro _ body' hmem
      have hbody' := hnone _ hmem
      rw [Record.body?_eq_some_iff.mpr rfl] at hbody'
      cases hbody'
    · rintro ⟨before, behind, hrs, hlast⟩
      refine ⟨before, _, behind, hrs, Record.body?_eq_some_iff.mpr rfl, ?_⟩
      intro r' hr'
      rw [Option.eq_none_iff_forall_ne_some]
      intro body' hbody'
      rw [Record.body?_eq_some_iff.mp hbody'] at hr'
      exact hlast hsingle body' hr'
  · rw [if_neg hsingle, mem_filterMap_body?, List.mem_iff_append]
    constructor
    · rintro ⟨before, behind, hrs⟩
      exact ⟨before, behind, hrs, fun h => absurd h hsingle⟩
    · rintro ⟨before, behind, hrs, -⟩
      exact ⟨before, behind, hrs⟩

/-- A submessage that is kept stands among the records. -/
lemma mem_of_kept {t : MessageType} {number : Nat} {rs body : List Record}
    (h : body ∈ kept t number rs) : .message number body ∈ rs := by
  obtain ⟨before, behind, rfl, -⟩ := mem_kept_iff.mp h
  exact List.mem_append_right before List.mem_cons_self

end Wire

namespace Message

open Wire

/-! ### Types and modifiers -/

/-- The message of a type has no misfit exactly if its records are clean. -/
lemma TypeRef.misfit?_ofRecords (rs : List Record) :
    (TypeRef.ofRecords rs).misfit? = none ↔ Clean .typeRef rs := by
  rw [TypeRef.misfit?_eq_none_iff, TypeRef.ofRecords_eq, clean_iff]
  simp [MessageType.fields]

/-- The message of a modifier has no misfit exactly if its records are clean. -/
lemma Modifier.misfit?_ofRecords (rs : List Record) :
    (Modifier.ofRecords rs).misfit? = none ↔ Clean .mod rs := by
  rw [Modifier.misfit?_eq_none_iff, Modifier.ofRecords_eq, clean_iff]
  simp [MessageType.fields]

/-- The members of a repeated field are free of misfits exactly if their records are
clean. -/
lemma forall_misfit?_map {α : Type} {t : MessageType} {f : List Record → α}
    {misfit? : α → Option Misfit} {bodies : List (List Record)}
    (h : ∀ body ∈ bodies, misfit? (f body) = none ↔ Clean t body) :
    (∀ a ∈ bodies.map f, misfit? a = none) ↔ ∀ body ∈ bodies, Clean t body := by
  rw [List.forall_mem_map]
  exact forall₂_congr h

/-- A single submessage is free of misfits exactly if its records are clean. -/
lemma forall_misfit?_optionMap {α : Type} {t : MessageType} {f : List Record → α}
    {misfit? : α → Option Misfit} {o : Option (List Record)}
    (h : ∀ body ∈ o, misfit? (f body) = none ↔ Clean t body) :
    (∀ a ∈ o.map f, misfit? a = none) ↔ ∀ body ∈ o.toList, Clean t body := by
  cases o with
  | none => simp
  | some body => simpa using h body rfl

/-! ### Expressions and variables -/

/-- Expressions and variables contain each other, so both are followed through the same
records. -/
lemma misfit?_ofRecords_nested (rs : List Record) :
    ((Expression.ofRecords rs).misfit? = none ↔ Clean .expr rs) ∧
      ((Variable.ofRecords rs).misfit? = none ↔ Clean .var rs) := by
  induction rs using bodies_induction with
  | h rs ih =>
    have hexpr : ∀ number, ∀ body ∈ rs.filterMap (Record.body? number),
        (Expression.ofRecords body).misfit? = none ↔ Clean .expr body :=
      fun number body hbody => (ih number body (mem_filterMap_body?.mp hbody)).1
    have hvar : ∀ number, ∀ body ∈ rs.filterMap (Record.body? number),
        (Variable.ofRecords body).misfit? = none ↔ Clean .var body :=
      fun number body hbody => (ih number body (mem_filterMap_body?.mp hbody)).2
    have hinit : ∀ number, ∀ body ∈ latest (Record.body? number) rs,
        (Expression.ofRecords body).misfit? = none ↔ Clean .expr body :=
      fun number body hbody => (ih number body (mem_of_latest_body? hbody)).1
    constructor
    · rw [Expression.misfit?_eq_none_iff, Expression.ofRecords_eq, clean_iff]
      simp only [forall_misfit?_map (hexpr _), forall_misfit?_map (hvar _),
        forall_misfit?_optionMap fun body _ => TypeRef.misfit?_ofRecords body]
      simp [MessageType.fields, kept, MessageType.single]
    · rw [Variable.misfit?_eq_none_iff, Variable.ofRecords_eq, clean_iff]
      simp only [forall_misfit?_optionMap (hinit _),
        forall_misfit?_map fun body _ => Modifier.misfit?_ofRecords body,
        forall_misfit?_optionMap fun body _ => TypeRef.misfit?_ofRecords body]
      simp [MessageType.fields, kept, MessageType.single]

/-- The message of an expression has no misfit exactly if its records are clean. -/
lemma Expression.misfit?_ofRecords (rs : List Record) :
    (Expression.ofRecords rs).misfit? = none ↔ Clean .expr rs :=
  (misfit?_ofRecords_nested rs).1

/-- The message of a variable has no misfit exactly if its records are clean. -/
lemma Variable.misfit?_ofRecords (rs : List Record) :
    (Variable.ofRecords rs).misfit? = none ↔ Clean .var rs :=
  (misfit?_ofRecords_nested rs).2

/-! ### Statements, methods and declarations -/

/-- The message of a statement has no misfit exactly if its records are clean. -/
lemma Statement.misfit?_ofRecords (rs : List Record) :
    (Statement.ofRecords rs).misfit? = none ↔ Clean .stmt rs := by
  induction rs using bodies_induction with
  | h rs ih =>
    have hstmt : ∀ body ∈ rs.filterMap (Record.body? 4),
        (Statement.ofRecords body).misfit? = none ↔ Clean .stmt body :=
      fun body hbody => ih 4 body (mem_filterMap_body?.mp hbody)
    rw [Statement.misfit?_eq_none_iff, Statement.ofRecords_eq, clean_iff]
    simp only [forall_misfit?_map hstmt,
      forall_misfit?_map fun body _ => Expression.misfit?_ofRecords body,
      forall_misfit?_optionMap fun body _ => Expression.misfit?_ofRecords body]
    simp [MessageType.fields, kept, MessageType.single]

/-- The message of a method has no misfit exactly if its records are clean. -/
lemma Method.misfit?_ofRecords (rs : List Record) :
    (Method.ofRecords rs).misfit? = none ↔ Clean .method rs := by
  rw [Method.misfit?_eq_none_iff, Method.ofRecords_eq, clean_iff]
  simp only [forall_misfit?_optionMap fun body _ => TypeRef.misfit?_ofRecords body,
    forall_misfit?_map fun body _ => Modifier.misfit?_ofRecords body,
    forall_misfit?_map fun body _ => Variable.misfit?_ofRecords body,
    forall_misfit?_map fun body _ => Statement.misfit?_ofRecords body,
    forall_misfit?_map fun body _ => Expression.misfit?_ofRecords body]
  simp [MessageType.fields, kept, MessageType.single]

/-- The message of a declaration has no misfit exactly if its records are clean. -/
lemma Declaration.misfit?_ofRecords (rs : List Record) :
    (Declaration.ofRecords rs).misfit? = none ↔ Clean .decl rs := by
  induction rs using bodies_induction with
  | h rs ih =>
    have hdecl : ∀ body ∈ rs.filterMap (Record.body? 7),
        (Declaration.ofRecords body).misfit? = none ↔ Clean .decl body :=
      fun body hbody => ih 7 body (mem_filterMap_body?.mp hbody)
    rw [Declaration.misfit?_eq_none_iff, Declaration.ofRecords_eq, clean_iff]
    simp only [forall_misfit?_map hdecl,
      forall_misfit?_map fun body _ => Modifier.misfit?_ofRecords body,
      forall_misfit?_map fun body _ => Variable.misfit?_ofRecords body,
      forall_misfit?_map fun body _ => Method.misfit?_ofRecords body,
      forall_misfit?_map fun body _ => TypeRef.misfit?_ofRecords body]
    simp [MessageType.fields, kept, MessageType.single]

/-! ### Namespaces and source files -/

/-- The message of a namespace has no misfit exactly if its records are clean. -/
lemma Namespace.misfit?_ofRecords (rs : List Record) :
    (Namespace.ofRecords rs).misfit? = none ↔ Clean .ns rs := by
  rw [Namespace.misfit?_eq_none_iff, Namespace.ofRecords_eq, clean_iff]
  simp only [forall_misfit?_map fun body _ => Modifier.misfit?_ofRecords body,
    forall_misfit?_map fun body _ => Declaration.misfit?_ofRecords body]
  simp [MessageType.fields, kept, MessageType.single]

/-- The message of a list of records has no misfit exactly if the list is clean. -/
theorem Root.misfit?_ofRecords (rs : List Record) :
    (Root.ofRecords rs).misfit? = none ↔ Clean .root rs := by
  rw [Root.misfit?_eq_none_iff, Root.ofRecords_eq, clean_iff]
  simp only [forall_misfit?_map fun body _ => Namespace.misfit?_ofRecords body]
  simp [MessageType.fields, kept, MessageType.single]

end Message

end Arbor
