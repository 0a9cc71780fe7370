import Arbor.Proofs.Induction
import Arbor.Proofs.Rebuild

/-!
# The tags that rebuilding goes through

Rebuilding a message looks at one tag after the other and stops at the first that stands for no
kind.  This file writes the tags down as a list.

* `Noun` says what a tag is the kind of, and `Noun.members` which tags the schema declares for it.
* `Root.tags` lists the tags of the nodes that the limits keep, in the order in which they are
  looked at.  Arguments count on method calls only, and what is absent has no tag.
* `Conversion.Reads x tags` says that the conversion `x` is decided by the tags: it fails at the
  first undeclared tag and succeeds if there is none.  It is closed under sequences and lists, so
  that the proof for each function that rebuilds a message follows its `do` block.

The main result is `Root.reads_rebuild`.
-/

namespace Arbor

namespace Message

/-! ## Declared tags -/

/-- What a tag is the kind of. -/
inductive Noun where
  | expression
  | statement
  | declaration
  | type
  | modifier
  | visibility
  deriving DecidableEq, Inhabited

namespace Noun

/-- The word under which a tag is reported. -/
def text : Noun → String
  | expression => "expression"
  | statement => "statement"
  | declaration => "declaration"
  | type => "type"
  | modifier => "modifier"
  | visibility => "visibility"

/-- The names and numbers that the schema declares.  Types are of the same kinds as
declarations. -/
def members : Noun → List (String × Int)
  | expression => [("OTHER", 0), ("ASSIGN", 1), ("CAST", 2), ("CONDITIONAL", 3), ("LITERAL", 4),
      ("FIELD_ACCESS", 5), ("RETURN_VALUE", 6), ("NEW", 7), ("METHODCALL", 8), ("TYPECOMPARE", 9),
      ("VARIABLE_DECLARATION", 10)]
  | statement => [("OTHER", 0), ("BLOCK", 1), ("EXPRESSION", 2), ("IF", 3), ("WHILE", 4), ("DO", 5),
      ("FOR", 6), ("FOREACH", 7), ("SWITCH", 8), ("CASE", 9), ("TRY", 10), ("CATCH", 11),
      ("THROW", 12), ("RETURN", 13), ("BREAK", 14), ("CONTINUE", 15), ("LABEL", 16),
      ("SYNCHRONIZED", 17), ("ASSERT", 18), ("EMPTY", 19), ("TYPE_DECLARATION", 20)]
  | declaration | type => [("OTHER", 0), ("CLASS", 1), ("INTERFACE", 2), ("ENUM", 3),
      ("ANNOTATION", 4), ("PRIMITIVE", 5), ("GENERIC", 6), ("ARRAY", 7), ("STRUCT", 8)]
  | modifier => [("OTHER", 0), ("ANNOTATION", 1), ("ACCESS", 2), ("FINAL", 3), ("STATIC", 4),
      ("ABSTRACT", 5), ("SYNCHRONIZED", 6)]
  | visibility => [("NONE", 0), ("PUBLIC", 1), ("PRIVATE", 2), ("PROTECTED", 3), ("NAMESPACE", 4)]

end Noun

/-- A tag of a message, with what it is the kind of. -/
structure Tag where
  noun : Noun
  value : Int
  deriving DecidableEq, Inhabited

namespace Tag

/-- Whether the schema declares the tag. -/
def declared (t : Tag) : Bool :=
  t.noun.members.any (·.2 == t.value)

/-- The name of the kind that a tag is translated into. -/
def kindName? : Tag → Option String
  | ⟨.expression, n⟩ => (Kind.ofTag? n : Option ExpressionKind).map Kind.name
  | ⟨.statement, n⟩ => (Kind.ofTag? n : Option StatementKind).map Kind.name
  | ⟨.declaration, n⟩ => (Kind.ofTag? n : Option DeclarationKind).map Kind.name
  | ⟨.type, n⟩ => (Kind.ofTag? n : Option DeclarationKind).map Kind.name
  | ⟨.modifier, n⟩ => (Kind.ofTag? n : Option ModifierKind).map Kind.name
  | ⟨.visibility, n⟩ => (Kind.ofTag? n : Option Visibility).map Kind.name

/-- An enumeration that has exactly the given members translates the tag of a member into the
kind of the same name. -/
lemma map_name_ofTag?_eq_some_iff {κ : Type} [Kind κ] {members : List (String × Int)}
    (hsub : ∀ p ∈ members, p ∈ (Kind.all : List κ).map fun k => (Kind.name k, Kind.tag k))
    (hsup : ∀ p ∈ (Kind.all : List κ).map fun k => (Kind.name k, Kind.tag k), p ∈ members)
    {n : Int} {name : String} :
    (Kind.ofTag? n : Option κ).map Kind.name = some name ↔ (name, n) ∈ members := by
  rw [Option.map_eq_some_iff]
  constructor
  · rintro ⟨k, hk, rfl⟩
    rw [← Kind.tag_of_ofTag? hk]
    exact hsup _ (List.mem_map_of_mem (Kind.mem_all k))
  · intro hmem
    obtain ⟨k, -, hk⟩ := List.mem_map.mp (hsub _ hmem)
    obtain ⟨hname, htag⟩ := Prod.mk.inj hk
    exact ⟨k, Kind.ofTag?_eq_some_iff.mpr htag, hname⟩

/-- Declared tags are translated by name, and no others are. -/
lemma kindName?_eq_some_iff {t : Tag} {name : String} :
    t.kindName? = some name ↔ (name, t.value) ∈ t.noun.members := by
  obtain ⟨noun, n⟩ := t
  change _ ↔ (name, n) ∈ noun.members
  cases noun <;> exact map_name_ofTag?_eq_some_iff (by decide) (by decide)

/-- A tag is declared exactly if it is translated. -/
lemma declared_eq_isSome (t : Tag) : t.declared = t.kindName?.isSome := by
  rw [Bool.eq_iff_iff, declared, List.any_eq_true, Option.isSome_iff_exists]
  constructor
  · rintro ⟨⟨name, n⟩, hmem, hn⟩
    cases beq_iff_eq.mp hn
    exact ⟨name, kindName?_eq_some_iff.mpr hmem⟩
  · rintro ⟨name, hname⟩
    exact ⟨_, kindName?_eq_some_iff.mp hname, beq_self_eq_true _⟩

end Tag

/-! ## The tags of a message -/

def TypeRef.tags (m : TypeRef) : List Tag :=
  [⟨.type, m.kind⟩]

def Modifier.tags (m : Modifier) : List Tag :=
  [⟨.modifier, m.kind⟩, ⟨.visibility, m.visibility⟩]

mutual

/-- The kind, then the tags of the new type, of the arguments of a method call, of the declared
variables and of the operands. -/
def Expression.tags : Expression → List Tag
  | ⟨kind, _, _, _, arguments, declared, _, newType, operands, _⟩ =>
    ⟨.expression, kind⟩ :: (newType.toList.flatMap TypeRef.tags ++
      ((if kind = ExpressionKind.methodCall.tag then Expression.tagsAll arguments else []) ++
        (Variable.tagsAll declared ++ Expression.tagsAll operands)))

def Expression.tagsAll : List Expression → List Tag
  | [] => []
  | m :: ms => m.tags ++ Expression.tagsAll ms

/-- The tags of the modifiers, of the type and of the initializer. -/
def Variable.tags : Variable → List Tag
  | ⟨_, declaredType, initializer, modifiers, _⟩ =>
    modifiers.flatMap Modifier.tags ++ (declaredType.toList.flatMap TypeRef.tags ++
      match initializer with
      | none => []
      | some m => m.tags)

def Variable.tagsAll : List Variable → List Tag
  | [] => []
  | m :: ms => m.tags ++ Variable.tagsAll ms

end

mutual

/-- The kind, then the tags of the expressions, initializations and updates, of the condition and
of the nested statements, if the limits keep them at this depth. -/
def Statement.tags (limits : Limits) (depth : Nat) : Statement → List Tag
  | ⟨kind, expressions, condition, statements, initializations, updates, _⟩ =>
    ⟨.statement, kind⟩ :: (expressions.flatMap Expression.tags ++
      (initializations.flatMap Expression.tags ++ (updates.flatMap Expression.tags ++
        (condition.toList.flatMap Expression.tags ++
          if Limits.allows limits.statements depth then
            Statement.tagsAll limits (depth + 1) statements
          else []))))

def Statement.tagsAll (limits : Limits) (depth : Nat) : List Statement → List Tag
  | [] => []
  | m :: ms => m.tags limits depth ++ Statement.tagsAll limits depth ms

end

/-- The tags of the return type, of the modifiers, of the arguments, of the statements and of the
content. -/
def Method.tags (limits : Limits) (m : Method) : List Tag :=
  m.returnType.toList.flatMap TypeRef.tags ++ (m.modifiers.flatMap Modifier.tags ++
    (m.arguments.flatMap Variable.tags ++ (m.statements.flatMap (Statement.tags limits 0) ++
      m.content.flatMap Expression.tags)))

mutual

/-- The kind, then the tags of the modifiers, parents, fields and methods and of the nested
declarations, if the limits keep them at this depth. -/
def Declaration.tags (limits : Limits) (depth : Nat) : Declaration → List Tag
  | ⟨_, kind, modifiers, fields, methods, parents, nested, _⟩ =>
    ⟨.declaration, kind⟩ :: (modifiers.flatMap Modifier.tags ++ (parents.flatMap TypeRef.tags ++
      (fields.flatMap Variable.tags ++ (methods.flatMap (Method.tags limits) ++
        if Limits.allows limits.declarations depth then
          Declaration.tagsAll limits (depth + 1) nested
        else []))))

def Declaration.tagsAll (limits : Limits) (depth : Nat) : List Declaration → List Tag
  | [] => []
  | m :: ms => m.tags limits depth ++ Declaration.tagsAll limits depth ms

end

/-- The tags of the modifiers and of the declarations. -/
def Namespace.tags (limits : Limits) (m : Namespace) : List Tag :=
  m.modifiers.flatMap Modifier.tags ++ m.declarations.flatMap (Declaration.tags limits 0)

/-- The tags of a source file, as far as the limits keep them, in the order in which they are
looked at. -/
def Root.tags (limits : Limits) (m : Root) : List Tag :=
  m.namespaces.flatMap (Namespace.tags limits)

/-! ### In terms of the fields -/

/-- The tags of a list of expressions are those of its members. -/
lemma Expression.tagsAll_eq_flatMap (ms : List Expression) :
    Expression.tagsAll ms = ms.flatMap Expression.tags := by
  induction ms with
  | nil => rfl
  | cons m ms ih => rw [Expression.tagsAll, ih, List.flatMap_cons]

/-- The tags of a list of variables are those of its members. -/
lemma Variable.tagsAll_eq_flatMap (ms : List Variable) :
    Variable.tagsAll ms = ms.flatMap Variable.tags := by
  induction ms with
  | nil => rfl
  | cons m ms ih => rw [Variable.tagsAll, ih, List.flatMap_cons]

/-- The tags of a list of statements are those of its members. -/
lemma Statement.tagsAll_eq_flatMap (limits : Limits) (depth : Nat) (ms : List Statement) :
    Statement.tagsAll limits depth ms = ms.flatMap (Statement.tags limits depth) := by
  induction ms with
  | nil => rfl
  | cons m ms ih => rw [Statement.tagsAll, ih, List.flatMap_cons]

/-- The tags of a list of declarations are those of its members. -/
lemma Declaration.tagsAll_eq_flatMap (limits : Limits) (depth : Nat) (ms : List Declaration) :
    Declaration.tagsAll limits depth ms = ms.flatMap (Declaration.tags limits depth) := by
  induction ms with
  | nil => rfl
  | cons m ms ih => rw [Declaration.tagsAll, ih, List.flatMap_cons]

/-- The tags of an expression, field by field.  Arguments count on method calls only. -/
lemma Expression.tags_eq (m : Expression) :
    m.tags =
      [⟨.expression, m.kind⟩] ++ (m.newType.toList.flatMap TypeRef.tags ++
        ((if m.kind = ExpressionKind.methodCall.tag then m.arguments.flatMap Expression.tags
          else []) ++
          (m.declared.flatMap Variable.tags ++ m.operands.flatMap Expression.tags))) := by
  cases m
  simp only [Expression.tags, Expression.tagsAll_eq_flatMap, Variable.tagsAll_eq_flatMap,
    List.singleton_append]

/-- The tags of a variable, field by field. -/
lemma Variable.tags_eq (m : Variable) :
    m.tags =
      m.modifiers.flatMap Modifier.tags ++ (m.declaredType.toList.flatMap TypeRef.tags ++
        m.initializer.toList.flatMap Expression.tags) := by
  obtain ⟨name, declaredType, initializer, modifiers, stray⟩ := m
  cases initializer <;> simp [Variable.tags]

/-- The tags of a statement, field by field.  The statements in it count if the limits allow
them. -/
lemma Statement.tags_eq (limits : Limits) (depth : Nat) (m : Statement) :
    m.tags limits depth =
      [⟨.statement, m.kind⟩] ++ (m.expressions.flatMap Expression.tags ++
        (m.initializations.flatMap Expression.tags ++ (m.updates.flatMap Expression.tags ++
          (m.condition.toList.flatMap Expression.tags ++
            if Limits.allows limits.statements depth then
              m.statements.flatMap (Statement.tags limits (depth + 1))
            else [])))) := by
  cases m
  simp only [Statement.tags, Statement.tagsAll_eq_flatMap, List.singleton_append]

/-- The tags of a declaration, field by field.  The declarations in it count if the limits allow
them. -/
lemma Declaration.tags_eq (limits : Limits) (depth : Nat) (m : Declaration) :
    m.tags limits depth =
      [⟨.declaration, m.kind⟩] ++ (m.modifiers.flatMap Modifier.tags ++
        (m.parents.flatMap TypeRef.tags ++ (m.fields.flatMap Variable.tags ++
          (m.methods.flatMap (Method.tags limits) ++
            if Limits.allows limits.declarations depth then
              m.nested.flatMap (Declaration.tags limits (depth + 1))
            else [])))) := by
  cases m
  simp only [Declaration.tags, Declaration.tagsAll_eq_flatMap, List.singleton_append]

end Message

/-! ## Conversions decided by tags -/

namespace Conversion

open Message

variable {α β : Type}

/-- The conversion fails at the first undeclared tag and succeeds if there is none. -/
def Reads (x : Conversion α) (tags : List Tag) : Prop :=
  match tags.find? (!·.declared) with
  | some t => x.result = .error (.unknownKind t.noun.text t.value)
  | none => ∃ a, x.result = .ok a

/-- A conversion that only gives a value looks at no tags. -/
lemma reads_pure (a : α) : (pure a : Conversion α).Reads [] :=
  ⟨a, rfl⟩

/-- A conversion that only gives a notice looks at no tags. -/
lemma reads_note (n : Notice) : (note n).Reads [] :=
  ⟨(), rfl⟩

/-- A tag is read by translating it. -/
lemma reads_kindOfTag {κ : Type} [Kind κ] (noun : Noun) (n : Int)
    (hname : (Tag.mk noun n).kindName? = (Kind.ofTag? n : Option κ).map Kind.name) :
    (kindOfTag noun.text n : Conversion κ).Reads [⟨noun, n⟩] := by
  have hdeclared : (Tag.mk noun n).declared = (Kind.ofTag? n : Option κ).isSome := by
    rw [Tag.declared_eq_isSome, hname, Option.isSome_map]
  unfold Reads kindOfTag
  cases hkind : (Kind.ofTag? n : Option κ) with
  | none => simp [hdeclared, hkind, fail]
  | some k => simp [hdeclared, hkind]

/-- A sequence of two steps reads the tags of the first and then those of the second, whatever
the first results in. -/
lemma Reads.bind {x : Conversion α} {f : α → Conversion β} {tags tags' : List Tag}
    (hx : x.Reads tags) (hf : ∀ a, x.result = .ok a → (f a).Reads tags') :
    (x >>= f).Reads (tags ++ tags') := by
  unfold Reads at hx ⊢
  rw [List.find?_append, result_bind]
  cases htags : tags.find? (!·.declared) with
  | some t =>
    rw [htags] at hx
    simp [show x.result = _ from hx]
  | none =>
    rw [htags] at hx
    obtain ⟨a, ha⟩ := hx
    simp only [ha, Option.none_or]
    exact hf a ha

/-- What is computed from a result reads nothing. -/
lemma Reads.bind_pure {x : Conversion α} {f : α → β} {tags : List Tag} (hx : x.Reads tags) :
    (x >>= fun a => pure (f a)).Reads tags := by
  have h := hx.bind fun a _ => reads_pure (f a)
  rwa [List.append_nil] at h

/-- A list is read member by member. -/
lemma reads_each {f : α → Conversion β} {tags : α → List Tag} {as : List α}
    (h : ∀ a ∈ as, (f a).Reads (tags a)) : (each f as).Reads (as.flatMap tags) := by
  induction as with
  | nil => exact reads_pure []
  | cons a as ih =>
    rw [each, List.flatMap_cons]
    refine (h a List.mem_cons_self).bind fun b _ => ?_
    exact (ih fun a' ha' => h a' (List.mem_cons_of_mem _ ha')).bind_pure

/-- What the limits cut off is not read. -/
lemma reads_dropped {p : Prop} [Decidable p] (n : Notice) :
    (if p then pure [] else do note n; pure [] : Conversion (List α)).Reads [] := by
  split
  · exact reads_pure []
  · exact (reads_note n).bind_pure

end Conversion

namespace Message

open Conversion

/-- Rebuilding a type is decided by its tags. -/
lemma TypeRef.reads_rebuild (m : TypeRef) : m.rebuild.Reads m.tags :=
  (reads_kindOfTag .type _ rfl).bind_pure

/-- An absent type is rebuilt without reading a tag. -/
lemma TypeRef.reads_rebuild_getD (o : Option TypeRef) :
    (o.getD {}).rebuild.Reads (o.toList.flatMap TypeRef.tags) := by
  cases o with
  | none => exact ⟨_, rfl⟩
  | some m => simpa using m.reads_rebuild

/-- Rebuilding a modifier is decided by its tags. -/
lemma Modifier.reads_rebuild (m : Modifier) : m.rebuild.Reads m.tags :=
  (reads_kindOfTag .modifier _ rfl).bind fun _ _ => (reads_kindOfTag .visibility _ rfl).bind_pure

/-- An absent expression is rebuilt without reading a tag. -/
lemma Expression.reads_rebuild? {o : Option Expression}
    (h : ∀ m ∈ o, m.rebuild.Reads m.tags) :
    (Expression.rebuild? o).Reads (o.toList.flatMap Expression.tags) := by
  cases o with
  | none => exact reads_pure _
  | some m => simpa [Expression.rebuild?] using h m rfl

/-- Expressions and variables contain each other, so their rebuilding is followed by one
induction. -/
lemma reads_rebuild_nested :
    (∀ m : Expression, m.rebuild.Reads m.tags) ∧ ∀ m : Variable, m.rebuild.Reads m.tags := by
  apply nested_induction
  · intro m iharguments ihdeclared ihoperands
    rw [Expression.rebuild_eq, Expression.tags_eq]
    refine (reads_kindOfTag .expression _ rfl).bind fun kind hkind => ?_
    refine (TypeRef.reads_rebuild_getD _).bind fun newType _ => ?_
    -- The branch is taken on the kind, the tags are listed by the tag of the kind.
    have hcall : m.kind = ExpressionKind.methodCall.tag ↔ kind = .methodCall := by
      rw [← kindOfTag_eq_ok_iff.mp hkind]
      exact ⟨Kind.tag_injective, congrArg Kind.tag⟩
    refine Reads.bind ?_ fun arguments _ => ?_
    · simp only [hcall]
      split
      · exact reads_each iharguments
      · exact reads_pure _
    exact (reads_each ihdeclared).bind fun declared _ => (reads_each ihoperands).bind_pure
  · intro m ihinitializer
    rw [Variable.rebuild_eq, Variable.tags_eq]
    refine (reads_each fun n _ => n.reads_rebuild).bind fun modifiers _ => ?_
    refine (TypeRef.reads_rebuild_getD _).bind fun type _ => ?_
    exact (Expression.reads_rebuild? ihinitializer).bind_pure

/-- Rebuilding an expression is decided by its tags. -/
lemma Expression.reads_rebuild (m : Expression) : m.rebuild.Reads m.tags :=
  reads_rebuild_nested.1 m

/-- Rebuilding a variable is decided by its tags. -/
lemma Variable.reads_rebuild (m : Variable) : m.rebuild.Reads m.tags :=
  reads_rebuild_nested.2 m

/-- Rebuilding a statement is decided by its tags, at every depth. -/
lemma Statement.reads_rebuild (limits : Limits) (m : Statement) :
    ∀ depth, (m.rebuild limits depth).Reads (m.tags limits depth) := by
  induction m using Statement.nested_induction with
  | hstmt m ih =>
    intro depth
    rw [Statement.rebuild_eq, Statement.tags_eq]
    refine (reads_kindOfTag .statement _ rfl).bind fun kind _ => ?_
    refine (reads_each fun e _ => e.reads_rebuild).bind fun expressions _ => ?_
    refine (reads_each fun e _ => e.reads_rebuild).bind fun initializations _ => ?_
    refine (reads_each fun e _ => e.reads_rebuild).bind fun updates _ => ?_
    refine (Expression.reads_rebuild? fun e _ => e.reads_rebuild).bind fun condition _ => ?_
    refine Reads.bind_pure ?_
    split
    · exact reads_each fun s hs => ih s hs (depth + 1)
    · exact reads_dropped _

/-- Rebuilding a method is decided by its tags. -/
lemma Method.reads_rebuild (limits : Limits) (m : Method) :
    (m.rebuild limits).Reads (m.tags limits) := by
  unfold Method.rebuild Method.tags
  refine (TypeRef.reads_rebuild_getD _).bind fun returnType _ => ?_
  refine (reads_each fun n _ => n.reads_rebuild).bind fun modifiers _ => ?_
  refine (reads_each fun v _ => v.reads_rebuild).bind fun arguments _ => ?_
  refine (reads_each fun s _ => s.reads_rebuild limits 0).bind fun statements _ => ?_
  exact (reads_each fun e _ => e.reads_rebuild).bind_pure

/-- Rebuilding a declaration is decided by its tags, at every depth. -/
lemma Declaration.reads_rebuild (limits : Limits) (m : Declaration) :
    ∀ depth, (m.rebuild limits depth).Reads (m.tags limits depth) := by
  induction m using Declaration.nested_induction with
  | hdecl m ih =>
    intro depth
    rw [Declaration.rebuild_eq, Declaration.tags_eq]
    refine (reads_kindOfTag .declaration _ rfl).bind fun kind _ => ?_
    refine (reads_each fun n _ => n.reads_rebuild).bind fun modifiers _ => ?_
    refine (reads_each fun t _ => t.reads_rebuild).bind fun parents _ => ?_
    refine (reads_each fun v _ => v.reads_rebuild).bind fun fields _ => ?_
    refine (reads_each fun n _ => n.reads_rebuild limits).bind fun methods _ => ?_
    refine Reads.bind_pure ?_
    split
    · exact reads_each fun d hd => ih d hd (depth + 1)
    · exact reads_dropped _

/-- Rebuilding a namespace is decided by its tags. -/
lemma Namespace.reads_rebuild (limits : Limits) (m : Namespace) :
    (m.rebuild limits).Reads (m.tags limits) := by
  unfold Namespace.rebuild Namespace.tags
  refine (reads_each fun n _ => n.reads_rebuild).bind fun modifiers _ => ?_
  exact (reads_each fun d _ => d.reads_rebuild limits 0).bind_pure

/-- Rebuilding a source file is decided by its tags. -/
theorem Root.reads_rebuild (limits : Limits) (m : Root) :
    (m.rebuild limits).Reads (m.tags limits) := by
  rw [Root.rebuild, Root.tags, ← List.append_nil (List.flatMap _ _)]
  exact (reads_each fun n _ => n.reads_rebuild limits).bind fun _ _ => (reads_note _).bind_pure

end Message

end Arbor
