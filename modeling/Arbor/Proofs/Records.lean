import Arbor.Message
import Mathlib.Data.List.Induction
import Mathlib.Tactic.Lemma

/-!
# What a message keeps of its records

A message takes in its records one after the other.  This file says what one record does to
a message (the lemmas `put_eq`) and what a whole list of records leaves behind (the lemmas
`ofRecords_eq`): a repeated field holds the values of all records with its number, any
other field holds the latest of them or its default, and every stray is remembered.
-/

namespace Arbor

namespace Wire

/-! ### Looking for a field in records -/

/-- The text of a record with the given number. -/
@[simp] def Record.text? (number : Nat) : Record → Option String
  | .text n s => if n = number then some s else none
  | _ => none

/-- The kind tag of a record with the given number. -/
@[simp] def Record.kind? (number : Nat) : Record → Option Int
  | .kind n tag => if n = number then some tag else none
  | _ => none

/-- The flag of a record with the given number. -/
@[simp] def Record.flag? (number : Nat) : Record → Option Bool
  | .flag n b => if n = number then some b else none
  | _ => none

/-- The records in a message with the given number. -/
@[simp] def Record.body? (number : Nat) : Record → Option (List Record)
  | .message n records => if n = number then some records else none
  | _ => none

/-- The number of a stray record. -/
@[simp] def Record.stray? : Record → Option Nat
  | .stray n => some n
  | _ => none

/-- What is found in the latest record that has something to be found. -/
def latest {α : Type} (p : Record → Option α) (rs : List Record) : Option α :=
  (rs.filterMap p).getLast?

variable {α : Type} (p : Record → Option α)

/-- The latest value is found in the later records, if it is there at all. -/
lemma latest_append (rs rs' : List Record) :
    latest p (rs ++ rs') = (latest p rs').or (latest p rs) := by
  rw [latest, List.filterMap_append, List.getLast?_append, latest, latest]

/-- One more record gives the latest value, if it has one. -/
lemma latest_append_singleton (rs : List Record) (r : Record) :
    latest p (rs ++ [r]) = (p r).or (latest p rs) := by
  rw [latest_append]
  cases h : p r <;> simp [latest, h]

/-- One more record adds its value to those found, if it has one. -/
lemma filterMap_append_singleton (rs : List Record) (r : Record) :
    (rs ++ [r]).filterMap p = rs.filterMap p ++ (p r).toList := by
  rw [List.filterMap_append]
  cases h : p r <;> simp [h]

/-- What is found stands in a record behind which there is nothing more to be found. -/
lemma latest_eq_some_iff {rs : List Record} {a : α} :
    latest p rs = some a ↔
      ∃ before r behind,
        rs = before ++ r :: behind ∧ p r = some a ∧ ∀ r' ∈ behind, p r' = none := by
  have hreverse : latest p rs = rs.reverse.findSome? p := by
    rw [latest, List.getLast?_filterMap]
  rw [hreverse, List.findSome?_eq_some_iff]
  constructor
  · rintro ⟨l₁, r, l₂, hrs, hr, hnone⟩
    refine ⟨l₂.reverse, r, l₁.reverse, ?_, hr, fun r' hr' => hnone r' (List.mem_reverse.mp hr')⟩
    rw [← List.reverse_reverse rs, hrs]
    simp
  · rintro ⟨before, r, behind, rfl, hr, hnone⟩
    refine ⟨behind.reverse, r, before.reverse, by simp, hr, ?_⟩
    exact fun r' hr' => hnone r' (List.mem_reverse.mp hr')

/-- A message is found under its own number. -/
lemma Record.body?_eq_some_iff {number : Nat} {r : Record} {body : List Record} :
    r.body? number = some body ↔ r = .message number body := by
  constructor
  · intro h
    cases r with
    | message n records =>
      rw [Record.body?] at h
      split at h
      · next hn =>
        cases h
        rw [hn]
      · cases h
    | _ => cases h
  · rintro rfl
    rw [Record.body?, if_pos rfl]

/-- A stray is found under its own number. -/
lemma mem_filterMap_stray? {n : Nat} {rs : List Record} :
    n ∈ rs.filterMap Record.stray? ↔ .stray n ∈ rs := by
  rw [List.mem_filterMap]
  constructor
  · rintro ⟨r, hr, hstray⟩
    cases r with
    | stray n' => cases hstray; exact hr
    | _ => cases hstray
  · intro h
    exact ⟨_, h, rfl⟩

end Wire

namespace Message

open Wire

/-! ### One record -/

/-- A record sets the field of a type that it is for, and leaves the others. -/
lemma TypeRef.put_eq (m : TypeRef) (r : Record) :
    m.put r =
      { name := (r.text? 1).getD m.name, kind := (r.kind? 2).getD m.kind,
        stray := m.stray ++ r.stray?.toList } := by
  unfold TypeRef.put
  split
  case h_4 => cases r <;> simp_all
  all_goals simp

/-- A record sets the field of a modifier that it is for, and leaves the others. -/
lemma Modifier.put_eq (m : Modifier) (r : Record) :
    m.put r =
      { name := (r.text? 1).getD m.name, kind := (r.kind? 2).getD m.kind,
        membersAndValues := m.membersAndValues ++ (r.text? 3).toList,
        visibility := (r.kind? 4).getD m.visibility, other := (r.text? 5).getD m.other,
        stray := m.stray ++ r.stray?.toList } := by
  unfold Modifier.put
  split
  case h_7 => cases r <;> simp_all
  all_goals simp

/-- A record sets or extends the field of an expression that it is for, and leaves the others. -/
lemma Expression.put_eq (m : Expression) (r : Record) :
    m.put r =
      { kind := (r.kind? 1).getD m.kind, literal := (r.text? 2).getD m.literal,
        methodName := (r.text? 3).getD m.methodName,
        variableName := (r.text? 4).getD m.variableName,
        arguments := m.arguments ++ (r.body? 5).toList.map Expression.ofRecords,
        declared := m.declared ++ (r.body? 6).toList.map Variable.ofRecords,
        isPostfix := (r.flag? 7).getD m.isPostfix,
        newType := ((r.body? 8).map TypeRef.ofRecords).or m.newType,
        operands := m.operands ++ (r.body? 9).toList.map Expression.ofRecords,
        stray := m.stray ++ r.stray?.toList } := by
  cases m
  unfold Expression.put
  split
  case h_11 => cases r <;> simp_all
  all_goals simp [Expression.ofRecords, Variable.ofRecords]

/-- A record sets or extends the field of a variable that it is for, and leaves the others. -/
lemma Variable.put_eq (m : Variable) (r : Record) :
    m.put r =
      { name := (r.text? 1).getD m.name,
        declaredType := ((r.body? 2).map TypeRef.ofRecords).or m.declaredType,
        initializer := ((r.body? 3).map Expression.ofRecords).or m.initializer,
        modifiers := m.modifiers ++ (r.body? 4).toList.map Modifier.ofRecords,
        stray := m.stray ++ r.stray?.toList } := by
  cases m
  unfold Variable.put
  split
  case h_6 => cases r <;> simp_all
  all_goals simp [Expression.ofRecords]

/-- A record sets or extends the field of a statement that it is for, and leaves the others. -/
lemma Statement.put_eq (m : Statement) (r : Record) :
    m.put r =
      { kind := (r.kind? 1).getD m.kind,
        expressions := m.expressions ++ (r.body? 2).toList.map Expression.ofRecords,
        condition := ((r.body? 3).map Expression.ofRecords).or m.condition,
        statements := m.statements ++ (r.body? 4).toList.map Statement.ofRecords,
        initializations := m.initializations ++ (r.body? 5).toList.map Expression.ofRecords,
        updates := m.updates ++ (r.body? 6).toList.map Expression.ofRecords,
        stray := m.stray ++ r.stray?.toList } := by
  cases m
  unfold Statement.put
  split
  case h_8 => cases r <;> simp_all
  all_goals simp [Statement.ofRecords]

/-- A record sets or extends the field of a method that it is for, and leaves the others. -/
lemma Method.put_eq (m : Method) (r : Record) :
    m.put r =
      { name := (r.text? 1).getD m.name,
        returnType := ((r.body? 2).map TypeRef.ofRecords).or m.returnType,
        modifiers := m.modifiers ++ (r.body? 3).toList.map Modifier.ofRecords,
        arguments := m.arguments ++ (r.body? 4).toList.map Variable.ofRecords,
        statements := m.statements ++ (r.body? 5).toList.map Statement.ofRecords,
        content := m.content ++ (r.body? 6).toList.map Expression.ofRecords,
        stray := m.stray ++ r.stray?.toList } := by
  unfold Method.put
  split
  case h_8 => cases r <;> simp_all
  all_goals simp

/-- A record sets or extends the field of a declaration that it is for, and leaves the others. -/
lemma Declaration.put_eq (m : Declaration) (r : Record) :
    m.put r =
      { name := (r.text? 1).getD m.name, kind := (r.kind? 2).getD m.kind,
        modifiers := m.modifiers ++ (r.body? 3).toList.map Modifier.ofRecords,
        fields := m.fields ++ (r.body? 4).toList.map Variable.ofRecords,
        methods := m.methods ++ (r.body? 5).toList.map Method.ofRecords,
        parents := m.parents ++ (r.body? 6).toList.map TypeRef.ofRecords,
        nested := m.nested ++ (r.body? 7).toList.map Declaration.ofRecords,
        stray := m.stray ++ r.stray?.toList } := by
  cases m
  unfold Declaration.put
  split
  case h_9 => cases r <;> simp_all
  all_goals simp [Declaration.ofRecords]

/-- A record sets or extends the field of a namespace that it is for, and leaves the others. -/
lemma Namespace.put_eq (m : Namespace) (r : Record) :
    m.put r =
      { name := (r.text? 1).getD m.name,
        modifiers := m.modifiers ++ (r.body? 2).toList.map Modifier.ofRecords,
        declarations := m.declarations ++ (r.body? 3).toList.map Declaration.ofRecords,
        stray := m.stray ++ r.stray?.toList } := by
  unfold Namespace.put
  split
  case h_5 => cases r <;> simp_all
  all_goals simp

/-- A record extends the field of a root that it is for, and leaves the others. -/
lemma Root.put_eq (m : Root) (r : Record) :
    m.put r =
      { imports := m.imports ++ (r.text? 1).toList,
        namespaces := m.namespaces ++ (r.body? 2).toList.map Namespace.ofRecords,
        stray := m.stray ++ r.stray?.toList } := by
  unfold Root.put
  split
  case h_4 => cases r <;> simp_all
  all_goals simp

/-! ### All records

Taking in a list of records is a fold, so the last record can be split off; the induction
goes from the right. -/

/-- The recursion over the records of an expression is a fold. -/
lemma Expression.putAll_eq_foldl (m : Expression) (rs : List Record) :
    Expression.putAll m rs = rs.foldl Expression.put m := by
  induction rs generalizing m with
  | nil => rw [Expression.putAll, List.foldl_nil]
  | cons r rs ih => rw [Expression.putAll, ih, List.foldl_cons]

/-- The recursion over the records of a variable is a fold. -/
lemma Variable.putAll_eq_foldl (m : Variable) (rs : List Record) :
    Variable.putAll m rs = rs.foldl Variable.put m := by
  induction rs generalizing m with
  | nil => rw [Variable.putAll, List.foldl_nil]
  | cons r rs ih => rw [Variable.putAll, ih, List.foldl_cons]

/-- The recursion over the records of a statement is a fold. -/
lemma Statement.putAll_eq_foldl (m : Statement) (rs : List Record) :
    Statement.putAll m rs = rs.foldl Statement.put m := by
  induction rs generalizing m with
  | nil => rw [Statement.putAll, List.foldl_nil]
  | cons r rs ih => rw [Statement.putAll, ih, List.foldl_cons]

/-- The recursion over the records of a declaration is a fold. -/
lemma Declaration.putAll_eq_foldl (m : Declaration) (rs : List Record) :
    Declaration.putAll m rs = rs.foldl Declaration.put m := by
  induction rs generalizing m with
  | nil => rw [Declaration.putAll, List.foldl_nil]
  | cons r rs ih => rw [Declaration.putAll, ih, List.foldl_cons]

/-- The message of a type holds, field by field, the latest value among the records. -/
lemma TypeRef.ofRecords_eq (rs : List Record) :
    TypeRef.ofRecords rs =
      { name := (latest (Record.text? 1) rs).getD "",
        kind := (latest (Record.kind? 2) rs).getD 0, stray := rs.filterMap Record.stray? } := by
  induction rs using List.reverseRecOn with
  | nil => rfl
  | append_singleton rs r ih =>
    have hstep : TypeRef.ofRecords (rs ++ [r]) = (TypeRef.ofRecords rs).put r := by
      simp [TypeRef.ofRecords]
    rw [hstep, ih, TypeRef.put_eq]
    simp only [latest_append_singleton, filterMap_append_singleton, Option.getD_or]

/-- The message of a modifier holds, field by field, the latest value among the records. -/
lemma Modifier.ofRecords_eq (rs : List Record) :
    Modifier.ofRecords rs =
      { name := (latest (Record.text? 1) rs).getD "",
        kind := (latest (Record.kind? 2) rs).getD 0,
        membersAndValues := rs.filterMap (Record.text? 3),
        visibility := (latest (Record.kind? 4) rs).getD 0,
        other := (latest (Record.text? 5) rs).getD "", stray := rs.filterMap Record.stray? } := by
  induction rs using List.reverseRecOn with
  | nil => rfl
  | append_singleton rs r ih =>
    have hstep : Modifier.ofRecords (rs ++ [r]) = (Modifier.ofRecords rs).put r := by
      simp [Modifier.ofRecords]
    rw [hstep, ih, Modifier.put_eq]
    simp only [latest_append_singleton, filterMap_append_singleton, Option.getD_or]

/-- The message of an expression holds the latest value of a single field and all those of a
repeated one. -/
lemma Expression.ofRecords_eq (rs : List Record) :
    Expression.ofRecords rs =
      { kind := (latest (Record.kind? 1) rs).getD 0,
        literal := (latest (Record.text? 2) rs).getD "",
        methodName := (latest (Record.text? 3) rs).getD "",
        variableName := (latest (Record.text? 4) rs).getD "",
        arguments := (rs.filterMap (Record.body? 5)).map Expression.ofRecords,
        declared := (rs.filterMap (Record.body? 6)).map Variable.ofRecords,
        isPostfix := (latest (Record.flag? 7) rs).getD false,
        newType := (latest (Record.body? 8) rs).map TypeRef.ofRecords,
        operands := (rs.filterMap (Record.body? 9)).map Expression.ofRecords,
        stray := rs.filterMap Record.stray? } := by
  induction rs using List.reverseRecOn with
  | nil => rfl
  | append_singleton rs r ih =>
    have hstep : Expression.ofRecords (rs ++ [r]) = (Expression.ofRecords rs).put r := by
      simp [Expression.ofRecords, Expression.putAll_eq_foldl]
    rw [hstep, ih, Expression.put_eq]
    simp only [latest_append_singleton, filterMap_append_singleton, Option.getD_or, Option.map_or,
      List.map_append]

/-- The message of a variable holds the latest value of a single field and all those of a repeated
one. -/
lemma Variable.ofRecords_eq (rs : List Record) :
    Variable.ofRecords rs =
      { name := (latest (Record.text? 1) rs).getD "",
        declaredType := (latest (Record.body? 2) rs).map TypeRef.ofRecords,
        initializer := (latest (Record.body? 3) rs).map Expression.ofRecords,
        modifiers := (rs.filterMap (Record.body? 4)).map Modifier.ofRecords,
        stray := rs.filterMap Record.stray? } := by
  induction rs using List.reverseRecOn with
  | nil => rfl
  | append_singleton rs r ih =>
    have hstep : Variable.ofRecords (rs ++ [r]) = (Variable.ofRecords rs).put r := by
      simp [Variable.ofRecords, Variable.putAll_eq_foldl]
    rw [hstep, ih, Variable.put_eq]
    simp only [latest_append_singleton, filterMap_append_singleton, Option.getD_or, Option.map_or,
      List.map_append]

/-- The message of a statement holds the latest value of a single field and all those of a repeated
one. -/
lemma Statement.ofRecords_eq (rs : List Record) :
    Statement.ofRecords rs =
      { kind := (latest (Record.kind? 1) rs).getD 0,
        expressions := (rs.filterMap (Record.body? 2)).map Expression.ofRecords,
        condition := (latest (Record.body? 3) rs).map Expression.ofRecords,
        statements := (rs.filterMap (Record.body? 4)).map Statement.ofRecords,
        initializations := (rs.filterMap (Record.body? 5)).map Expression.ofRecords,
        updates := (rs.filterMap (Record.body? 6)).map Expression.ofRecords,
        stray := rs.filterMap Record.stray? } := by
  induction rs using List.reverseRecOn with
  | nil => rfl
  | append_singleton rs r ih =>
    have hstep : Statement.ofRecords (rs ++ [r]) = (Statement.ofRecords rs).put r := by
      simp [Statement.ofRecords, Statement.putAll_eq_foldl]
    rw [hstep, ih, Statement.put_eq]
    simp only [latest_append_singleton, filterMap_append_singleton, Option.getD_or, Option.map_or,
      List.map_append]

/-- The message of a method holds the latest value of a single field and all those of a repeated
one. -/
lemma Method.ofRecords_eq (rs : List Record) :
    Method.ofRecords rs =
      { name := (latest (Record.text? 1) rs).getD "",
        returnType := (latest (Record.body? 2) rs).map TypeRef.ofRecords,
        modifiers := (rs.filterMap (Record.body? 3)).map Modifier.ofRecords,
        arguments := (rs.filterMap (Record.body? 4)).map Variable.ofRecords,
        statements := (rs.filterMap (Record.body? 5)).map Statement.ofRecords,
        content := (rs.filterMap (Record.body? 6)).map Expression.ofRecords,
        stray := rs.filterMap Record.stray? } := by
  induction rs using List.reverseRecOn with
  | nil => rfl
  | append_singleton rs r ih =>
    have hstep : Method.ofRecords (rs ++ [r]) = (Method.ofRecords rs).put r := by
      simp [Method.ofRecords]
    rw [hstep, ih, Method.put_eq]
    simp only [latest_append_singleton, filterMap_append_singleton, Option.getD_or, Option.map_or,
      List.map_append]

/-- The message of a declaration holds the latest value of a single field and all those of a
repeated one. -/
lemma Declaration.ofRecords_eq (rs : List Record) :
    Declaration.ofRecords rs =
      { name := (latest (Record.text? 1) rs).getD "",
        kind := (latest (Record.kind? 2) rs).getD 0,
        modifiers := (rs.filterMap (Record.body? 3)).map Modifier.ofRecords,
        fields := (rs.filterMap (Record.body? 4)).map Variable.ofRecords,
        methods := (rs.filterMap (Record.body? 5)).map Method.ofRecords,
        parents := (rs.filterMap (Record.body? 6)).map TypeRef.ofRecords,
        nested := (rs.filterMap (Record.body? 7)).map Declaration.ofRecords,
        stray := rs.filterMap Record.stray? } := by
  induction rs using List.reverseRecOn with
  | nil => rfl
  | append_singleton rs r ih =>
    have hstep : Declaration.ofRecords (rs ++ [r]) = (Declaration.ofRecords rs).put r := by
      simp [Declaration.ofRecords, Declaration.putAll_eq_foldl]
    rw [hstep, ih, Declaration.put_eq]
    simp only [latest_append_singleton, filterMap_append_singleton, Option.getD_or,
      List.map_append]

/-- The message of a namespace holds the latest value of a single field and all those of a repeated
one. -/
lemma Namespace.ofRecords_eq (rs : List Record) :
    Namespace.ofRecords rs =
      { name := (latest (Record.text? 1) rs).getD "",
        modifiers := (rs.filterMap (Record.body? 2)).map Modifier.ofRecords,
        declarations := (rs.filterMap (Record.body? 3)).map Declaration.ofRecords,
        stray := rs.filterMap Record.stray? } := by
  induction rs using List.reverseRecOn with
  | nil => rfl
  | append_singleton rs r ih =>
    have hstep : Namespace.ofRecords (rs ++ [r]) = (Namespace.ofRecords rs).put r := by
      simp [Namespace.ofRecords]
    rw [hstep, ih, Namespace.put_eq]
    simp only [latest_append_singleton, filterMap_append_singleton, Option.getD_or,
      List.map_append]

/-- The message of a root holds all values of its repeated fields. -/
lemma Root.ofRecords_eq (rs : List Record) :
    Root.ofRecords rs =
      { imports := rs.filterMap (Record.text? 1),
        namespaces := (rs.filterMap (Record.body? 2)).map Namespace.ofRecords,
        stray := rs.filterMap Record.stray? } := by
  induction rs using List.reverseRecOn with
  | nil => rfl
  | append_singleton rs r ih =>
    have hstep : Root.ofRecords (rs ++ [r]) = (Root.ofRecords rs).put r := by
      simp [Root.ofRecords]
    rw [hstep, ih, Root.put_eq]
    simp only [filterMap_append_singleton, List.map_append]

end Message

end Arbor
