import Arbor.Conversion
import Mathlib.Data.List.Forall2
import Mathlib.Tactic.Lemma

/-!
# What rebuilding gives

A `Conversion` carries notices beside its result.  The first part of this file looks at
the result alone: it passes through `bind` as it would without notices, and a list is
converted exactly when each of its members is.

The second part says for each of the nine types of message when rebuilding succeeds and
with which node.  The equation lemmas `rebuild_eq` write the definitions with the fields
of the message, and a structure `Rebuilds` lists, field by field, how a message and the
node rebuilt from it hang together.  Everything said elsewhere about successful
rebuilding goes through the lemmas `rebuild_eq_ok_iff`.
-/

namespace Arbor

/-! ### Results -/

namespace Conversion

variable {α β γ : Type}

@[simp] lemma result_pure (a : α) : (pure a : Conversion α).result = .ok a := rfl

/-- A failed step ends the conversion with its error, any other hands its value on. -/
lemma result_bind (x : Conversion α) (f : α → Conversion β) :
    (x >>= f).result =
      match x.result with
      | .error e => .error e
      | .ok a => (f a).result := by
  obtain ⟨ns, r⟩ := x
  cases r <;> rfl

/-- Notices aside, a sequence of two steps depends on the results of the steps only. -/
lemma result_bind_congr {x y : Conversion α} {f g : α → Conversion β}
    (hxy : x.result = y.result) (hfg : ∀ a, y.result = .ok a → (f a).result = (g a).result) :
    (x >>= f).result = (y >>= g).result := by
  rw [result_bind, result_bind, hxy]
  cases hy : y.result with
  | error e => rfl
  | ok a => exact hfg a hy

/-- A sequence of two steps succeeds when both do. -/
lemma bind_eq_ok_iff {x : Conversion α} {f : α → Conversion β} {b : β} :
    (x >>= f).result = .ok b ↔ ∃ a, x.result = .ok a ∧ (f a).result = .ok b := by
  rw [result_bind]
  cases hx : x.result with
  | error e => simp
  | ok a => simp

/-- A tag becomes the kind that has this tag. -/
lemma kindOfTag_eq_ok_iff {κ : Type} [Kind κ] {noun : String} {tag : Int} {k : κ} :
    (kindOfTag noun tag : Conversion κ).result = .ok k ↔ Kind.tag k = tag := by
  rw [← Kind.ofTag?_eq_some_iff]
  unfold kindOfTag
  cases h : (Kind.ofTag? tag : Option κ) with
  | none => simp [fail]
  | some j => simp

/-- Lists are converted member by member. -/
lemma each_eq_ok_iff {f : α → Conversion β} {as : List α} {bs : List β} :
    (each f as).result = .ok bs ↔ List.Forall₂ (fun a b => (f a).result = .ok b) as bs := by
  induction as generalizing bs with
  | nil =>
    rw [each, result_pure, List.forall₂_nil_left_iff]
    exact ⟨fun h => (Except.ok.inj h).symm, fun h => h ▸ rfl⟩
  | cons a as ih =>
    rw [each, bind_eq_ok_iff, List.forall₂_cons_left_iff]
    constructor
    · rintro ⟨b, hb, h⟩
      obtain ⟨bs', hbs, h⟩ := bind_eq_ok_iff.mp h
      exact ⟨b, bs', hb, ih.mp hbs, (Except.ok.inj h).symm⟩
    · rintro ⟨b, bs', hb, hbs, rfl⟩
      exact ⟨b, hb, bind_eq_ok_iff.mpr ⟨bs', ih.mpr hbs, rfl⟩⟩

/-- If the members of a list can be replaced one by one without changing the result, so
can the list. -/
lemma result_each_map {f : β → Conversion γ} {g : α → Conversion γ} {p : α → β} {as : List α}
    (h : ∀ a ∈ as, (f (p a)).result = (g a).result) :
    (each f (as.map p)).result = (each g as).result := by
  induction as with
  | nil => rfl
  | cons a as ih =>
    rw [List.map_cons, each, each]
    refine result_bind_congr (h a List.mem_cons_self) fun b _ => ?_
    exact result_bind_congr (ih fun a' ha' => h a' (List.mem_cons_of_mem _ ha')) fun _ _ => rfl

end Conversion

/-! ### Types, modifiers, expressions and variables -/

namespace Message

open Conversion

/-- Members that are related one by one stay related when the members of one list are
changed. -/
lemma forall₂_map_right {α β γ : Type} {R : α → β → Prop} {S : α → γ → Prop} {f : β → γ}
    {as : List α} {bs : List β} (hRS : ∀ a ∈ as, ∀ b, R a b → S a (f b))
    (h : List.Forall₂ R as bs) : List.Forall₂ S as (bs.map f) := by
  rw [List.forall₂_map_right_iff]
  induction h with
  | nil => exact .nil
  | cons hab _ ih =>
    exact .cons (hRS _ List.mem_cons_self _ hab)
      (ih fun a ha => hRS a (List.mem_cons_of_mem _ ha))

/-- What holds of everything that is rebuilt holds of all members of a rebuilt list. -/
lemma forall_mem_of_forall₂ {α β : Type} {R : α → β → Prop} {Q : β → Prop} {as : List α}
    {bs : List β} (hQ : ∀ a ∈ as, ∀ b, R a b → Q b) (h : List.Forall₂ R as bs) :
    ∀ b ∈ bs, Q b := by
  induction h with
  | nil => exact fun b hb => nomatch hb
  | cons hab _ ih =>
    have hhead := hQ _ List.mem_cons_self _ hab
    have htail := ih fun a ha => hQ a (List.mem_cons_of_mem _ ha)
    exact List.forall_mem_cons.mpr ⟨hhead, htail⟩

/-- How a message and the type rebuilt from it hang together. -/
structure TypeRef.Rebuilds (m : TypeRef) (t : Arbor.TypeRef) : Prop where
  name : t.name = m.name
  kind : Kind.tag t.kind = m.kind

/-- Rebuilding a type succeeds with the type that has the message's name and kind. -/
lemma TypeRef.rebuild_eq_ok_iff {m : TypeRef} {t : Arbor.TypeRef} :
    m.rebuild.result = .ok t ↔ m.Rebuilds t := by
  unfold TypeRef.rebuild
  rw [bind_eq_ok_iff]
  constructor
  · rintro ⟨kind, hkind, ht⟩
    cases ht
    exact ⟨rfl, kindOfTag_eq_ok_iff.mp hkind⟩
  · rintro ⟨hname, hkind⟩
    exact ⟨t.kind, kindOfTag_eq_ok_iff.mpr hkind, by rw [result_pure, ← hname]⟩

/-- How a message and the modifier rebuilt from it hang together. -/
structure Modifier.Rebuilds (m : Modifier) (n : Arbor.Modifier) : Prop where
  name : n.name = m.name
  kind : Kind.tag n.kind = m.kind
  membersAndValues : n.membersAndValues = m.membersAndValues
  visibility : Kind.tag n.visibility = m.visibility
  other : n.other = m.other

/-- Rebuilding a modifier succeeds with the modifier that has the message's fields. -/
lemma Modifier.rebuild_eq_ok_iff {m : Modifier} {n : Arbor.Modifier} :
    m.rebuild.result = .ok n ↔ m.Rebuilds n := by
  unfold Modifier.rebuild
  simp only [bind_eq_ok_iff, kindOfTag_eq_ok_iff]
  constructor
  · rintro ⟨kind, hkind, visibility, hvisibility, hn⟩
    cases hn
    exact ⟨rfl, hkind, rfl, hvisibility, rfl⟩
  · intro h
    refine ⟨n.kind, h.kind, n.visibility, h.visibility, ?_⟩
    rw [result_pure, ← h.name, ← h.membersAndValues, ← h.other]

/-- Rebuilding an expression, in terms of its fields. -/
lemma Expression.rebuild_eq (m : Expression) :
    m.rebuild = (do
      let kind ← kindOfTag "expression" m.kind
      let newType ← (m.newType.getD {}).rebuild
      let arguments ←
        (if kind = .methodCall then each Expression.rebuild m.arguments else pure [])
      let declared ← each Variable.rebuild m.declared
      let operands ← each Expression.rebuild m.operands
      pure ⟨kind, m.literal, m.methodName, m.variableName, arguments, declared, m.isPostfix,
        newType, operands⟩) := by
  cases m
  simp only [Expression.rebuild, Expression.rebuildAll_eq_each, Variable.rebuildAll_eq_each]
  congr! 5 with kind newType
  split <;> rfl

/-- Rebuilding a variable, in terms of its fields. -/
lemma Variable.rebuild_eq (m : Variable) :
    m.rebuild = (do
      let modifiers ← each Modifier.rebuild m.modifiers
      let type ← (m.declaredType.getD {}).rebuild
      let initializer ← Expression.rebuild? m.initializer
      pure ⟨m.name, type, initializer, modifiers⟩) := by
  obtain ⟨name, declaredType, initializer, modifiers, stray⟩ := m
  rw [Variable.rebuild]
  cases initializer <;> rfl

/-- How a message and the expression rebuilt from it hang together.  Arguments come along
on method calls only. -/
structure Expression.Rebuilds (m : Expression) (e : Arbor.Expression) : Prop where
  kind : Kind.tag e.kind = m.kind
  literal : e.literal = m.literal
  methodName : e.methodName = m.methodName
  variableName : e.variableName = m.variableName
  arguments : if e.kind = .methodCall
    then List.Forall₂ (fun m e => m.rebuild.result = .ok e) m.arguments e.arguments
    else e.arguments = []
  declared : List.Forall₂ (fun m v => m.rebuild.result = .ok v) m.declared e.declared
  isPostfix : e.isPostfix = m.isPostfix
  newType : (m.newType.getD {}).Rebuilds e.newType
  operands : List.Forall₂ (fun m e => m.rebuild.result = .ok e) m.operands e.operands

/-- Rebuilding an expression succeeds with the expression that has the message's texts,
flag and kind and whose children are rebuilt from the message's children. -/
lemma Expression.rebuild_eq_ok_iff {m : Expression} {e : Arbor.Expression} :
    m.rebuild.result = .ok e ↔ m.Rebuilds e := by
  rw [Expression.rebuild_eq]
  simp only [bind_eq_ok_iff, kindOfTag_eq_ok_iff, TypeRef.rebuild_eq_ok_iff]
  constructor
  · rintro ⟨kind, hkind, newType, hnewType, arguments, harguments, declared, hdeclared, operands,
      hoperands, he⟩
    cases he
    refine ⟨hkind, rfl, rfl, rfl, ?_, each_eq_ok_iff.mp hdeclared, rfl, hnewType,
      each_eq_ok_iff.mp hoperands⟩
    split at harguments
    · next hcall => rw [if_pos hcall]; exact each_eq_ok_iff.mp harguments
    · next hcall => rw [if_neg hcall]; exact (Except.ok.inj harguments).symm
  · intro h
    refine ⟨e.kind, h.kind, e.newType, h.newType, e.arguments, ?_, e.declared,
      each_eq_ok_iff.mpr h.declared, e.operands, each_eq_ok_iff.mpr h.operands, ?_⟩
    · have harguments := h.arguments
      split at harguments
      · next hcall => rw [if_pos hcall]; exact each_eq_ok_iff.mpr harguments
      · next hcall => rw [if_neg hcall, result_pure, harguments]
    · rw [result_pure, ← h.literal, ← h.methodName, ← h.variableName, ← h.isPostfix]
      cases e
      rfl

/-- How a message and the variable rebuilt from it hang together. -/
structure Variable.Rebuilds (m : Variable) (v : Arbor.Variable) : Prop where
  name : v.name = m.name
  type : (m.declaredType.getD {}).Rebuilds v.type
  initializer : (Expression.rebuild? m.initializer).result = .ok v.initializer
  modifiers : List.Forall₂ Modifier.Rebuilds m.modifiers v.modifiers

/-- Rebuilding a variable succeeds with the variable that has the message's name and whose
children are rebuilt from the message's children. -/
lemma Variable.rebuild_eq_ok_iff {m : Variable} {v : Arbor.Variable} :
    m.rebuild.result = .ok v ↔ m.Rebuilds v := by
  rw [Variable.rebuild_eq]
  simp only [bind_eq_ok_iff, each_eq_ok_iff, TypeRef.rebuild_eq_ok_iff,
    Modifier.rebuild_eq_ok_iff]
  constructor
  · rintro ⟨modifiers, hmodifiers, type, htype, initializer, hinitializer, hv⟩
    cases hv
    exact ⟨rfl, htype, hinitializer, hmodifiers⟩
  · intro h
    refine ⟨v.modifiers, h.modifiers, v.type, h.type, v.initializer, h.initializer, ?_⟩
    rw [result_pure, ← h.name]
    cases v
    rfl

/-! ### Statements and methods -/

/-- Rebuilding a statement, in terms of its fields. -/
lemma Statement.rebuild_eq (limits : Limits) (depth : Nat) (m : Statement) :
    m.rebuild limits depth = (do
      let kind ← kindOfTag "statement" m.kind
      let expressions ← each Expression.rebuild m.expressions
      let initializations ← each Expression.rebuild m.initializations
      let updates ← each Expression.rebuild m.updates
      let condition ← Expression.rebuild? m.condition
      let statements ←
        (if Limits.allows limits.statements depth then
          each (Statement.rebuild limits (depth + 1)) m.statements
        else if m.statements.isEmpty then pure []
        else do
          note (.droppedStatements m.statements.length kind depth)
          pure [])
      pure ⟨kind, expressions, condition, statements, initializations, updates⟩) := by
  cases m
  simp only [Statement.rebuild, Statement.rebuildAll_eq_each]
  congr! 11 with kind expressions initializations updates condition
  split
  · rfl
  · split <;> rfl

/-- How a message and the statement rebuilt from it at the given depth hang together. -/
structure Statement.Rebuilds (limits : Limits) (depth : Nat) (m : Statement)
    (s : Arbor.Statement) : Prop where
  kind : Kind.tag s.kind = m.kind
  expressions : List.Forall₂ (fun m e => m.rebuild.result = .ok e) m.expressions s.expressions
  condition : (Expression.rebuild? m.condition).result = .ok s.condition
  statements : if Limits.allows limits.statements depth
    then List.Forall₂ (fun m s => (m.rebuild limits (depth + 1)).result = .ok s)
      m.statements s.statements
    else s.statements = []
  initializations : List.Forall₂ (fun m e => m.rebuild.result = .ok e)
    m.initializations s.initializations
  updates : List.Forall₂ (fun m e => m.rebuild.result = .ok e) m.updates s.updates

/-- What is nested in a node that the limits cut off is dropped, whether or not a notice
is written. -/
lemma dropped_eq_ok {α : Type} {p : Prop} [Decidable p] {n : Notice} {as : List α} :
    (if p then pure [] else do note n; pure [] : Conversion (List α)).result = .ok as ↔
      as = [] := by
  have hnil : (if p then pure [] else do note n; pure [] : Conversion (List α)).result =
      .ok [] := by
    split <;> rfl
  rw [hnil]
  exact ⟨fun h => (Except.ok.inj h).symm, fun h => h ▸ rfl⟩

/-- Rebuilding a statement succeeds with the statement whose children are rebuilt from the
message's children, the nested ones as far as the limits allow. -/
lemma Statement.rebuild_eq_ok_iff {limits : Limits} {depth : Nat} {m : Statement}
    {s : Arbor.Statement} :
    (m.rebuild limits depth).result = .ok s ↔ m.Rebuilds limits depth s := by
  rw [Statement.rebuild_eq]
  simp only [bind_eq_ok_iff, kindOfTag_eq_ok_iff]
  constructor
  · rintro ⟨kind, hkind, expressions, hexpressions, initializations, hinitializations, updates,
      hupdates, condition, hcondition, statements, hstatements, hs⟩
    cases hs
    refine ⟨hkind, each_eq_ok_iff.mp hexpressions, hcondition, ?_,
      each_eq_ok_iff.mp hinitializations, each_eq_ok_iff.mp hupdates⟩
    split at hstatements
    · next hallow => rw [if_pos hallow]; exact each_eq_ok_iff.mp hstatements
    · next hallow => rw [if_neg hallow]; exact dropped_eq_ok.mp hstatements
  · intro h
    refine ⟨s.kind, h.kind, s.expressions, each_eq_ok_iff.mpr h.expressions, s.initializations,
      each_eq_ok_iff.mpr h.initializations, s.updates, each_eq_ok_iff.mpr h.updates, s.condition,
      h.condition, s.statements, ?_, by cases s; rfl⟩
    have hstatements := h.statements
    split at hstatements
    · next hallow => rw [if_pos hallow]; exact each_eq_ok_iff.mpr hstatements
    · next hallow => rw [if_neg hallow]; exact dropped_eq_ok.mpr hstatements

/-- How a message and the method rebuilt from it hang together. -/
structure Method.Rebuilds (limits : Limits) (m : Method) (n : Arbor.Method) : Prop where
  name : n.name = m.name
  returnType : (m.returnType.getD {}).Rebuilds n.returnType
  modifiers : List.Forall₂ Modifier.Rebuilds m.modifiers n.modifiers
  arguments : List.Forall₂ (fun m v => m.rebuild.result = .ok v) m.arguments n.arguments
  statements : List.Forall₂ (fun m s => (m.rebuild limits 0).result = .ok s)
    m.statements n.statements
  content : List.Forall₂ (fun m e => m.rebuild.result = .ok e) m.content n.content

/-- Rebuilding a method succeeds with the method that has the message's name and whose
children are rebuilt from the message's children. -/
lemma Method.rebuild_eq_ok_iff {limits : Limits} {m : Method} {n : Arbor.Method} :
    (m.rebuild limits).result = .ok n ↔ m.Rebuilds limits n := by
  unfold Method.rebuild
  simp only [bind_eq_ok_iff, each_eq_ok_iff, TypeRef.rebuild_eq_ok_iff,
    Modifier.rebuild_eq_ok_iff]
  constructor
  · rintro ⟨returnType, hreturnType, modifiers, hmodifiers, arguments, harguments, statements,
      hstatements, content, hcontent, hn⟩
    cases hn
    exact ⟨rfl, hreturnType, hmodifiers, harguments, hstatements, hcontent⟩
  · intro h
    refine ⟨n.returnType, h.returnType, n.modifiers, h.modifiers, n.arguments, h.arguments,
      n.statements, h.statements, n.content, h.content, ?_⟩
    rw [result_pure, ← h.name]

/-! ### Declarations, namespaces and source files -/

/-- Rebuilding a declaration, in terms of its fields. -/
lemma Declaration.rebuild_eq (limits : Limits) (depth : Nat) (m : Declaration) :
    m.rebuild limits depth = (do
      let kind ← kindOfTag "declaration" m.kind
      let modifiers ← each Modifier.rebuild m.modifiers
      let parents ← each TypeRef.rebuild m.parents
      let fields ← each Variable.rebuild m.fields
      let methods ← each (Method.rebuild limits) m.methods
      let nested ←
        (if Limits.allows limits.declarations depth then
          each (Declaration.rebuild limits (depth + 1)) m.nested
        else if m.nested.isEmpty then pure []
        else do
          note (.droppedDeclarations m.nested.length m.name depth)
          pure [])
      pure ⟨m.name, kind, modifiers, fields, methods, parents, nested⟩) := by
  cases m
  simp only [Declaration.rebuild, Declaration.rebuildAll_eq_each]
  congr! 11 with kind modifiers parents fields methods
  split
  · rfl
  · split <;> rfl

/-- How a message and the declaration rebuilt from it at the given depth hang together. -/
structure Declaration.Rebuilds (limits : Limits) (depth : Nat) (m : Declaration)
    (d : Arbor.Declaration) : Prop where
  name : d.name = m.name
  kind : Kind.tag d.kind = m.kind
  modifiers : List.Forall₂ Modifier.Rebuilds m.modifiers d.modifiers
  fields : List.Forall₂ (fun m v => m.rebuild.result = .ok v) m.fields d.fields
  methods : List.Forall₂ (Method.Rebuilds limits) m.methods d.methods
  parents : List.Forall₂ TypeRef.Rebuilds m.parents d.parents
  nested : if Limits.allows limits.declarations depth
    then List.Forall₂ (fun m d => (m.rebuild limits (depth + 1)).result = .ok d)
      m.nested d.nested
    else d.nested = []

/-- Rebuilding a declaration succeeds with the declaration that has the message's name and
kind and whose children are rebuilt from the message's children, the nested ones as far as
the limits allow. -/
lemma Declaration.rebuild_eq_ok_iff {limits : Limits} {depth : Nat} {m : Declaration}
    {d : Arbor.Declaration} :
    (m.rebuild limits depth).result = .ok d ↔ m.Rebuilds limits depth d := by
  rw [Declaration.rebuild_eq]
  simp only [bind_eq_ok_iff, kindOfTag_eq_ok_iff]
  constructor
  · rintro ⟨kind, hkind, modifiers, hmodifiers, parents, hparents, fields, hfields, methods,
      hmethods, nested, hnested, hd⟩
    cases hd
    simp only [each_eq_ok_iff, Modifier.rebuild_eq_ok_iff, TypeRef.rebuild_eq_ok_iff,
      Method.rebuild_eq_ok_iff] at hmodifiers hparents hfields hmethods
    refine ⟨rfl, hkind, hmodifiers, hfields, hmethods, hparents, ?_⟩
    split at hnested
    · next hallow => rw [if_pos hallow]; exact each_eq_ok_iff.mp hnested
    · next hallow => rw [if_neg hallow]; exact dropped_eq_ok.mp hnested
  · intro h
    refine ⟨d.kind, h.kind, d.modifiers, ?_, d.parents, ?_, d.fields, ?_, d.methods, ?_, d.nested,
      ?_, ?_⟩
    · simpa only [each_eq_ok_iff, Modifier.rebuild_eq_ok_iff] using h.modifiers
    · simpa only [each_eq_ok_iff, TypeRef.rebuild_eq_ok_iff] using h.parents
    · simpa only [each_eq_ok_iff] using h.fields
    · simpa only [each_eq_ok_iff, Method.rebuild_eq_ok_iff] using h.methods
    · have hnested := h.nested
      split at hnested
      · next hallow => rw [if_pos hallow]; exact each_eq_ok_iff.mpr hnested
      · next hallow => rw [if_neg hallow]; exact dropped_eq_ok.mpr hnested
    · rw [result_pure, ← h.name]
      cases d
      rfl

/-- How a message and the namespace rebuilt from it hang together. -/
structure Namespace.Rebuilds (limits : Limits) (m : Namespace) (n : Arbor.Namespace) : Prop where
  name : n.name = m.name
  modifiers : List.Forall₂ Modifier.Rebuilds m.modifiers n.modifiers
  declarations : List.Forall₂ (Declaration.Rebuilds limits 0) m.declarations n.declarations

/-- Rebuilding a namespace succeeds with the namespace that has the message's name and
whose children are rebuilt from the message's children. -/
lemma Namespace.rebuild_eq_ok_iff {limits : Limits} {m : Namespace} {n : Arbor.Namespace} :
    (m.rebuild limits).result = .ok n ↔ m.Rebuilds limits n := by
  unfold Namespace.rebuild
  simp only [bind_eq_ok_iff, each_eq_ok_iff, Modifier.rebuild_eq_ok_iff,
    Declaration.rebuild_eq_ok_iff]
  constructor
  · rintro ⟨modifiers, hmodifiers, declarations, hdeclarations, hn⟩
    cases hn
    exact ⟨rfl, hmodifiers, hdeclarations⟩
  · intro h
    refine ⟨n.modifiers, h.modifiers, n.declarations, h.declarations, ?_⟩
    rw [result_pure, ← h.name]

/-- How a message and the tree rebuilt from it hang together. -/
structure Root.Rebuilds (limits : Limits) (m : Root) (t : Arbor.Root) : Prop where
  imports : t.imports = m.imports
  namespaces : List.Forall₂ (Namespace.Rebuilds limits) m.namespaces t.namespaces

/-- Rebuilding a source file succeeds with the tree that has the message's imports and
whose namespaces are rebuilt from the message's namespaces. -/
lemma Root.rebuild_eq_ok_iff {limits : Limits} {m : Root} {t : Arbor.Root} :
    (m.rebuild limits).result = .ok t ↔ m.Rebuilds limits t := by
  unfold Root.rebuild
  simp only [bind_eq_ok_iff, each_eq_ok_iff, Namespace.rebuild_eq_ok_iff]
  constructor
  · rintro ⟨namespaces, hnamespaces, -, -, ht⟩
    cases ht
    exact ⟨rfl, hnamespaces⟩
  · intro h
    refine ⟨t.namespaces, h.namespaces, (), rfl, ?_⟩
    rw [result_pure, ← h.imports]

/-- Converting a message succeeds when it has no misfit and can be rebuilt. -/
lemma Root.convert_eq_ok_iff {limits : Limits} {m : Root} {t : Arbor.Root} :
    (m.convert limits).result = .ok t ↔ m.misfit? = none ∧ m.Rebuilds limits t := by
  rw [← Root.rebuild_eq_ok_iff]
  unfold Root.convert
  cases h : m.misfit? with
  | none => simp
  | some misfit => simp [fail]

end Message

end Arbor
