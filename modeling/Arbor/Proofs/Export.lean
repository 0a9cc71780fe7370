import Arbor.Export
import Arbor.Proofs.Induction
import Arbor.Proofs.Json
import Mathlib.Data.List.Basic

/-!
# Exports that lose nothing

The trees of an export can be recovered from its text: two lists of source files with the same
JSON export are equal, file by file, path by path and node by node
(`Export.render_json_injective`).

A printed value can be read in one way only, so what is left is that different trees are
different values.  This holds because an object has a member for every field of its node, and
because no two kinds of one enumeration have the same name.
-/

namespace Arbor

/-! ### Kinds, types and modifiers -/

/-- A kind can be told from its JSON value. -/
lemma Kind.toJson_injective {κ : Type} [Kind κ] : Function.Injective (Kind.toJson : κ → Json) :=
  fun _ _ h => Kind.name_injective (Json.str.inj h)

/-- A list of texts can be told from its JSON value. -/
lemma Json.texts_injective : Function.Injective Json.texts := by
  intro ss ss' h
  have hstr : Function.Injective Json.str := fun _ _ => Json.str.inj
  exact List.map_injective_iff.mpr hstr (Json.arr.inj h)

/-- A type can be told from its JSON value. -/
lemma TypeRef.toJson_injective : Function.Injective TypeRef.toJson := by
  rintro ⟨name, kind⟩ t' h
  simp only [TypeRef.toJson, Json.obj.injEq, List.cons.injEq, Prod.mk.injEq, Json.str.injEq,
    Kind.toJson_injective.eq_iff, true_and, and_true] at h
  obtain ⟨rfl, rfl⟩ := h
  rfl

/-- A modifier can be told from its JSON value. -/
lemma Modifier.toJson_injective : Function.Injective Modifier.toJson := by
  rintro ⟨name, kind, membersAndValues, visibility, other⟩ m' h
  simp only [Modifier.toJson, Json.obj.injEq, List.cons.injEq, Prod.mk.injEq, Json.str.injEq,
    Kind.toJson_injective.eq_iff, Json.texts_injective.eq_iff, true_and, and_true] at h
  obtain ⟨rfl, rfl, rfl, rfl, rfl⟩ := h
  rfl

/-! ### Expressions, variables and statements -/

/-- Lists whose members are written differently are written differently. -/
lemma eq_of_map_eq_map {α β : Type} {f : α → β} {as bs : List α}
    (hf : ∀ a ∈ as, ∀ b, f a = f b → a = b) (h : as.map f = bs.map f) : as = bs := by
  induction as generalizing bs with
  | nil => simpa [eq_comm] using h
  | cons a as ih =>
    cases bs with
    | nil => simp at h
    | cons b bs =>
      rw [List.map_cons, List.map_cons, List.cons.injEq] at h
      have hhead : a = b := hf a List.mem_cons_self b h.1
      have htail : as = bs := ih (fun a ha => hf a (List.mem_cons_of_mem _ ha)) h.2
      rw [hhead, htail]

/-- Expressions and variables contain each other, so they are told apart by one induction. -/
lemma toJson_injective_nested :
    (∀ e e' : Expression, e.toJson = e'.toJson → e = e') ∧
      ∀ v v' : Variable, v.toJson = v'.toJson → v = v' := by
  apply nested_induction
  · rintro ⟨kind, literal, methodName, variableName, arguments, declared, isPostfix, newType,
      operands⟩ harguments hdeclared hoperands e' h
    obtain ⟨kind', literal', methodName', variableName', arguments', declared', isPostfix', newType',
      operands'⟩ := e'
    simp only [Expression.toJson, Expression.toJsons_eq_map, Variable.toJsons_eq_map,
      Json.obj.injEq, List.cons.injEq, Prod.mk.injEq, Json.str.injEq, Json.arr.injEq,
      Json.bool.injEq, Kind.toJson_injective.eq_iff, TypeRef.toJson_injective.eq_iff, true_and,
      and_true] at h
    obtain ⟨rfl, rfl, rfl, rfl, harguments', hdeclared', rfl, rfl, hoperands'⟩ := h
    obtain rfl : arguments = arguments' := eq_of_map_eq_map harguments harguments'
    obtain rfl : declared = declared' := eq_of_map_eq_map hdeclared hdeclared'
    obtain rfl : operands = operands' := eq_of_map_eq_map hoperands hoperands'
    rfl
  · rintro ⟨name, type, initializer, modifiers⟩ hinitializer v' h
    obtain ⟨name', type', initializer', modifiers'⟩ := v'
    simp only [Variable.toJson, Json.obj.injEq, List.cons.injEq, Prod.mk.injEq, Json.str.injEq,
      Json.arr.injEq, TypeRef.toJson_injective.eq_iff,
      (List.map_injective_iff.mpr Modifier.toJson_injective).eq_iff, true_and, and_true] at h
    obtain ⟨rfl, rfl, hinitializer', rfl⟩ := h
    obtain rfl : initializer = initializer' := hinitializer initializer' hinitializer'
    rfl

/-- An expression can be told from its JSON value. -/
lemma Expression.toJson_injective : Function.Injective Expression.toJson :=
  toJson_injective_nested.1

/-- A variable can be told from its JSON value. -/
lemma Variable.toJson_injective : Function.Injective Variable.toJson :=
  toJson_injective_nested.2

/-- A statement can be told from its JSON value. -/
lemma Statement.toJson_injective : Function.Injective Statement.toJson := by
  intro s
  induction s using Statement.nested_induction with
  | hstmt s ih =>
    obtain ⟨kind, expressions, condition, statements, initializations, updates⟩ := s
    rintro ⟨kind', expressions', condition', statements', initializations', updates'⟩ h
    simp only [Statement.toJson, Statement.toJsons_eq_map, Json.obj.injEq, List.cons.injEq,
      Prod.mk.injEq, Json.arr.injEq, Kind.toJson_injective.eq_iff,
      Expression.toJson_injective.eq_iff,
      (List.map_injective_iff.mpr Expression.toJson_injective).eq_iff, true_and, and_true] at h
    obtain ⟨rfl, rfl, rfl, hstatements, rfl, rfl⟩ := h
    obtain rfl : statements = statements' :=
      eq_of_map_eq_map (fun s hs s' => @ih s hs s') hstatements
    rfl

/-! ### Methods, declarations, namespaces and source files -/

/-- A method can be told from its JSON value. -/
lemma Method.toJson_injective : Function.Injective Method.toJson := by
  rintro ⟨name, returnType, modifiers, arguments, statements, content⟩ m' h
  simp only [Method.toJson, Json.obj.injEq, List.cons.injEq, Prod.mk.injEq, Json.str.injEq,
    Json.arr.injEq, TypeRef.toJson_injective.eq_iff,
    (List.map_injective_iff.mpr Modifier.toJson_injective).eq_iff,
    (List.map_injective_iff.mpr Variable.toJson_injective).eq_iff,
    (List.map_injective_iff.mpr Statement.toJson_injective).eq_iff,
    (List.map_injective_iff.mpr Expression.toJson_injective).eq_iff, true_and, and_true] at h
  obtain ⟨rfl, rfl, rfl, rfl, rfl, rfl⟩ := h
  rfl

/-- A declaration can be told from its JSON value. -/
lemma Declaration.toJson_injective : Function.Injective Declaration.toJson := by
  intro d
  induction d using Declaration.nested_induction with
  | hdecl d ih =>
    obtain ⟨name, kind, modifiers, fields, methods, parents, nested⟩ := d
    rintro ⟨name', kind', modifiers', fields', methods', parents', nested'⟩ h
    simp only [Declaration.toJson, Declaration.toJsons_eq_map, Json.obj.injEq, List.cons.injEq,
      Prod.mk.injEq, Json.str.injEq, Json.arr.injEq, Kind.toJson_injective.eq_iff,
      (List.map_injective_iff.mpr Modifier.toJson_injective).eq_iff,
      (List.map_injective_iff.mpr Variable.toJson_injective).eq_iff,
      (List.map_injective_iff.mpr Method.toJson_injective).eq_iff,
      (List.map_injective_iff.mpr TypeRef.toJson_injective).eq_iff, true_and, and_true] at h
    obtain ⟨rfl, rfl, rfl, rfl, rfl, rfl, hnested⟩ := h
    obtain rfl : nested = nested' := eq_of_map_eq_map (fun d hd d' => @ih d hd d') hnested
    rfl

/-- A namespace can be told from its JSON value. -/
lemma Namespace.toJson_injective : Function.Injective Namespace.toJson := by
  rintro ⟨name, modifiers, declarations⟩ n' h
  simp only [Namespace.toJson, Json.obj.injEq, List.cons.injEq, Prod.mk.injEq, Json.str.injEq,
    Json.arr.injEq, (List.map_injective_iff.mpr Modifier.toJson_injective).eq_iff,
    (List.map_injective_iff.mpr Declaration.toJson_injective).eq_iff, true_and, and_true] at h
  obtain ⟨rfl, rfl, rfl⟩ := h
  rfl

/-- A root can be told from its JSON value. -/
lemma Root.toJson_injective : Function.Injective Root.toJson := by
  rintro ⟨imports, namespaces⟩ r' h
  simp only [Root.toJson, Json.obj.injEq, List.cons.injEq, Prod.mk.injEq, Json.arr.injEq,
    Json.texts_injective.eq_iff, (List.map_injective_iff.mpr Namespace.toJson_injective).eq_iff,
    true_and, and_true] at h
  obtain ⟨rfl, rfl⟩ := h
  rfl

/-! ### Exports -/

/-- Lists of source files with the same paths and trees as JSON are equal. -/
lemma Export.trees_injective : Function.Injective Export.trees := by
  intro files files' h
  have hfile : Function.Injective fun f : SourceFile =>
      Json.obj [("path", .str f.path), ("root", f.root.toJson)] := by
    rintro ⟨path, root⟩ f' hf
    simp only [Json.obj.injEq, List.cons.injEq, Prod.mk.injEq, Json.str.injEq,
      Root.toJson_injective.eq_iff, true_and, and_true] at hf
    obtain ⟨rfl, rfl⟩ := hf
    rfl
  exact List.map_injective_iff.mpr hfile (Json.arr.inj h)

/-- Two lists of source files with the same JSON export are equal: they have as many files, with
the same paths and the same trees. -/
theorem Export.render_json_injective : Function.Injective (Export.render .json) := by
  intro files files' h
  exact Export.trees_injective (Json.pretty_injective h)

end Arbor
