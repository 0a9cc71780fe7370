import Arbor.Proofs.Pruning
import Arbor.Proofs.Tidy

/-!
# Conversion keeps what the limits keep

A tree that comes out of a conversion can be turned into a message again.  That message is
the converted one, pruned to the limits and tidied: nothing else is lost, doubled or moved
to another place.  The equation is also sufficient.  A message without misfits is
converted to a tree exactly if the tree's own message is the pruned and tidied message.

The lemmas `rebuild_iff_toMessage` prove this type by type.  In each of them the fields of
the node and of the message are compared one by one; lists are compared member by member,
and single children by what is left of them after tidying.
-/

namespace Arbor.Message

open Conversion

/-! ### Lists and single children -/

/-- Lists are related member by member exactly if their images are equal. -/
lemma forall₂_iff_map_eq {α β γ δ : Type} {R : α → β → Prop} {f : α → γ} {g : γ → δ} {h : β → δ}
    {as : List α} (hR : ∀ a ∈ as, ∀ b, R a b ↔ h b = g (f a)) {bs : List β} :
    List.Forall₂ R as bs ↔ bs.map h = (as.map f).map g := by
  induction as generalizing bs with
  | nil => simp
  | cons a as ih =>
    have ih' := fun bs' => @ih (fun a' ha' => hR a' (List.mem_cons_of_mem _ ha')) bs'
    cases bs with
    | nil => simp
    | cons b bs =>
      rw [List.forall₂_cons, ih', hR a List.mem_cons_self]
      simp only [List.map_cons, List.cons.injEq]

/-- A list that is dropped on one side is dropped on the other as well. -/
lemma kept_iff_map_eq {α β γ δ : Type} {p q : Prop} [Decidable p] [Decidable q] (hpq : p ↔ q)
    {R : α → β → Prop} {f : α → γ} {g : γ → δ} {h : β → δ} {as : List α}
    (hR : ∀ a ∈ as, ∀ b, R a b ↔ h b = g (f a)) {bs : List β} :
    (if p then List.Forall₂ R as bs else bs = []) ↔
      bs.map h = (if q then as.map f else []).map g := by
  by_cases hp : p
  · rw [if_pos hp, if_pos (hpq.mp hp)]
    exact forall₂_iff_map_eq hR
  · rw [if_neg hp, if_neg (fun hq => hp (hpq.mpr hq)), List.map_nil, List.map_eq_nil_iff]

/-- Taking out the default value confuses no two values, if an absent value counts as the
default. -/
lemma filter_some_eq_iff {α : Type} {d : α} {p : α → Bool} (hp : ∀ a, p a = false ↔ a = d)
    {a b : α} : (some a).filter p = (some b).filter p ↔ a = b := by
  constructor
  · intro h
    cases ha : p a <;> cases hb : p b <;> simp only [Option.filter, ha, hb] at h
    · rw [(hp a).mp ha, (hp b).mp hb]
    · cases h
    · cases h
    · exact Option.some.inj h
  · rintro rfl
    rfl

/-- The default type is the one that is left out. -/
lemma TypeRef.ne_default_eq_false_iff (m : TypeRef) : decide (m ≠ {}) = false ↔ m = {} := by
  simp

/-- The default expression is the one that is left out. -/
lemma Expression.not_isDefault_eq_false_iff (m : Expression) : (!m.isDefault) = false ↔ m = {} := by
  rw [Bool.not_eq_false', Expression.isDefault_iff]

/-- An absent type mention is tidied as one without content is. -/
lemma TypeRef.tidy?_map_prune (o : Option TypeRef) :
    TypeRef.tidy? (o.map TypeRef.prune) = (some (o.getD {}).prune.tidy).filter (· ≠ {}) := by
  cases o <;> rfl

/-! ### Types, modifiers, expressions and variables -/

/-- A type is rebuilt from a message exactly if its own message is what is left of it. -/
lemma TypeRef.rebuilds_iff_toMessage (m : TypeRef) (t : Arbor.TypeRef) :
    m.Rebuilds t ↔ t.toMessage = m.prune.tidy := by
  unfold Arbor.TypeRef.toMessage TypeRef.tidy TypeRef.prune
  rw [TypeRef.mk.injEq]
  exact ⟨fun h => ⟨h.name, h.kind, rfl⟩, fun h => ⟨h.1, h.2.1⟩⟩

/-- The same holds for a type that may be left out. -/
lemma TypeRef.getD_rebuilds_iff_toMessage {o : Option TypeRef} {t : Arbor.TypeRef} :
    (o.getD {}).Rebuilds t ↔ t.toMessage? = TypeRef.tidy? (o.map TypeRef.prune) := by
  rw [TypeRef.rebuilds_iff_toMessage, TypeRef.tidy?_map_prune, TypeRef.toMessage?_eq_filter]
  exact (filter_some_eq_iff TypeRef.ne_default_eq_false_iff).symm

/-- A modifier is rebuilt from a message exactly if its own message is what is left of it. -/
lemma Modifier.rebuilds_iff_toMessage (m : Modifier) (n : Arbor.Modifier) :
    m.Rebuilds n ↔ n.toMessage = m.prune.tidy := by
  unfold Arbor.Modifier.toMessage Modifier.tidy Modifier.prune
  rw [Modifier.mk.injEq]
  exact ⟨fun h => ⟨h.name, h.kind, h.membersAndValues, h.visibility, h.other, rfl⟩,
    fun h => ⟨h.1, h.2.1, h.2.2.1, h.2.2.2.1, h.2.2.2.2.1⟩⟩

/-- The same holds for lists of modifiers. -/
lemma Modifier.forall₂_rebuilds_iff {ms : List Modifier} {ns : List Arbor.Modifier} :
    List.Forall₂ Modifier.Rebuilds ms ns ↔
      ns.map Arbor.Modifier.toMessage = (ms.map Modifier.prune).map Modifier.tidy :=
  forall₂_iff_map_eq fun m _ => Modifier.rebuilds_iff_toMessage m

/-- What an absent or present expression is rebuilt to, provided the present one behaves as
expressions do. -/
lemma Expression.rebuild?_iff_toMessage {o : Option Expression} {e : Arbor.Expression}
    (ho : ∀ m ∈ o, ∀ e, m.rebuild.result = .ok e ↔ e.toMessage = m.prune.tidy) :
    (Expression.rebuild? o).result = .ok e ↔
      e.toMessage? = Expression.tidy? (o.map Expression.prune) := by
  rw [Expression.toMessage?_eq_filter]
  cases o with
  | none =>
    have hnone : Expression.tidy? (none.map Expression.prune) =
        (some {}).filter (!·.isDefault) := rfl
    rw [hnone, filter_some_eq_iff Expression.not_isDefault_eq_false_iff,
      Arbor.Expression.toMessage_eq_default_iff]
    exact ⟨fun h => (Except.ok.inj h).symm, fun h => h ▸ rfl⟩
  | some m =>
    have hsome : Expression.tidy? ((some m).map Expression.prune) =
        (some m.prune.tidy).filter (!·.isDefault) := rfl
    rw [hsome, filter_some_eq_iff Expression.not_isDefault_eq_false_iff]
    exact ho m rfl e

/-- The kind of a node is that of a method call exactly if the tag it comes from is. -/
lemma Expression.isCall_iff {tag : Int} {kind : ExpressionKind} (hkind : Kind.tag kind = tag) :
    kind = .methodCall ↔ tag = ExpressionKind.methodCall.tag := by
  rw [← hkind]
  exact ⟨fun h => h ▸ rfl, fun h => Kind.tag_injective h⟩

/-- An expression or variable is rebuilt to exactly that node whose message is the pruned
and tidied message. -/
lemma rebuild_iff_toMessage_nested :
    (∀ m : Expression, ∀ e, m.rebuild.result = .ok e ↔ e.toMessage = m.prune.tidy) ∧
      ∀ m : Variable, ∀ v, m.rebuild.result = .ok v ↔ v.toMessage = m.prune.tidy := by
  apply nested_induction
  · intro m iharguments ihdeclared ihoperands e
    rw [Expression.rebuild_eq_ok_iff, Arbor.Expression.toMessage_eq, Expression.tidy_eq,
      Expression.prune_eq, Expression.mk.injEq]
    constructor
    · intro h
      exact ⟨h.kind, h.literal, h.methodName, h.variableName,
        (kept_iff_map_eq (Expression.isCall_iff h.kind) iharguments).mp h.arguments,
        (forall₂_iff_map_eq ihdeclared).mp h.declared, h.isPostfix,
        TypeRef.getD_rebuilds_iff_toMessage.mp h.newType,
        (forall₂_iff_map_eq ihoperands).mp h.operands, rfl⟩
    · rintro ⟨hkind, hliteral, hmethodName, hvariableName, harguments, hdeclared, hisPostfix,
        hnewType, hoperands, -⟩
      exact ⟨hkind, hliteral, hmethodName, hvariableName,
        (kept_iff_map_eq (Expression.isCall_iff hkind) iharguments).mpr harguments,
        (forall₂_iff_map_eq ihdeclared).mpr hdeclared, hisPostfix,
        TypeRef.getD_rebuilds_iff_toMessage.mpr hnewType,
        (forall₂_iff_map_eq ihoperands).mpr hoperands⟩
  · intro m ihinitializer v
    rw [Variable.rebuild_eq_ok_iff, Arbor.Variable.toMessage_eq, Variable.tidy_eq,
      Variable.prune_eq, Variable.mk.injEq]
    constructor
    · intro h
      exact ⟨h.name, TypeRef.getD_rebuilds_iff_toMessage.mp h.type,
        (Expression.rebuild?_iff_toMessage ihinitializer).mp h.initializer,
        Modifier.forall₂_rebuilds_iff.mp h.modifiers, rfl⟩
    · rintro ⟨hname, htype, hinitializer, hmodifiers, -⟩
      exact ⟨hname, TypeRef.getD_rebuilds_iff_toMessage.mpr htype,
        (Expression.rebuild?_iff_toMessage ihinitializer).mpr hinitializer,
        Modifier.forall₂_rebuilds_iff.mpr hmodifiers⟩

/-- The same holds for lists of expressions. -/
lemma Expression.forall₂_rebuild_iff {ms : List Expression} {es : List Arbor.Expression} :
    List.Forall₂ (fun m e => m.rebuild.result = .ok e) ms es ↔
      es.map Arbor.Expression.toMessage = (ms.map Expression.prune).map Expression.tidy :=
  forall₂_iff_map_eq fun m _ => rebuild_iff_toMessage_nested.1 m

/-- The same holds for lists of variables. -/
lemma Variable.forall₂_rebuild_iff {ms : List Variable} {vs : List Arbor.Variable} :
    List.Forall₂ (fun m v => m.rebuild.result = .ok v) ms vs ↔
      vs.map Arbor.Variable.toMessage = (ms.map Variable.prune).map Variable.tidy :=
  forall₂_iff_map_eq fun m _ => rebuild_iff_toMessage_nested.2 m

/-! ### Statements and methods -/

/-- A statement is rebuilt at a depth to exactly that node whose message is the message
pruned at this depth and tidied. -/
lemma Statement.rebuild_iff_toMessage (limits : Limits) (m : Statement) :
    ∀ depth s, (m.rebuild limits depth).result = .ok s ↔
      s.toMessage = (m.prune limits depth).tidy := by
  induction m using Statement.nested_induction with
  | hstmt m ih =>
    intro depth s
    have hcondition : (Expression.rebuild? m.condition).result = .ok s.condition ↔
        s.condition.toMessage? = Expression.tidy? (m.condition.map Expression.prune) :=
      Expression.rebuild?_iff_toMessage fun m _ => rebuild_iff_toMessage_nested.1 m
    have hstatements : (if Limits.allows limits.statements depth
        then List.Forall₂ (fun m s => (m.rebuild limits (depth + 1)).result = .ok s)
          m.statements s.statements
        else s.statements = []) ↔
        s.statements.map Arbor.Statement.toMessage =
          (if Limits.allows limits.statements depth then
            m.statements.map (Statement.prune limits (depth + 1)) else []).map Statement.tidy :=
      kept_iff_map_eq Iff.rfl fun m' hm' => ih m' hm' (depth + 1)
    rw [Statement.rebuild_eq_ok_iff, Arbor.Statement.toMessage_eq, Statement.tidy_eq,
      Statement.prune_eq, Statement.mk.injEq]
    constructor
    · intro h
      exact ⟨h.kind, Expression.forall₂_rebuild_iff.mp h.expressions, hcondition.mp h.condition,
        hstatements.mp h.statements, Expression.forall₂_rebuild_iff.mp h.initializations,
        Expression.forall₂_rebuild_iff.mp h.updates, rfl⟩
    · rintro ⟨h₁, h₂, h₃, h₄, h₅, h₆, -⟩
      exact ⟨h₁, Expression.forall₂_rebuild_iff.mpr h₂, hcondition.mpr h₃, hstatements.mpr h₄,
        Expression.forall₂_rebuild_iff.mpr h₅, Expression.forall₂_rebuild_iff.mpr h₆⟩

/-- A method is rebuilt to exactly that node whose message is the pruned and tidied
message. -/
lemma Method.rebuilds_iff_toMessage (limits : Limits) (m : Method) (n : Arbor.Method) :
    m.Rebuilds limits n ↔ n.toMessage = (m.prune limits).tidy := by
  have hstatements :
      List.Forall₂ (fun m s => (m.rebuild limits 0).result = .ok s) m.statements n.statements ↔
        n.statements.map Arbor.Statement.toMessage =
          (m.statements.map (Statement.prune limits 0)).map Statement.tidy :=
    forall₂_iff_map_eq fun m' _ => Statement.rebuild_iff_toMessage limits m' 0
  unfold Arbor.Method.toMessage Method.tidy Method.prune
  rw [Method.mk.injEq]
  constructor
  · intro h
    exact ⟨h.name, TypeRef.getD_rebuilds_iff_toMessage.mp h.returnType,
      Modifier.forall₂_rebuilds_iff.mp h.modifiers, Variable.forall₂_rebuild_iff.mp h.arguments,
      hstatements.mp h.statements, Expression.forall₂_rebuild_iff.mp h.content, rfl⟩
  · rintro ⟨h₁, h₂, h₃, h₄, h₅, h₆, -⟩
    exact ⟨h₁, TypeRef.getD_rebuilds_iff_toMessage.mpr h₂, Modifier.forall₂_rebuilds_iff.mpr h₃,
      Variable.forall₂_rebuild_iff.mpr h₄, hstatements.mpr h₅,
      Expression.forall₂_rebuild_iff.mpr h₆⟩

/-! ### Declarations, namespaces and source files -/

/-- A declaration is rebuilt at a depth to exactly that node whose message is the message
pruned at this depth and tidied. -/
lemma Declaration.rebuild_iff_toMessage (limits : Limits) (m : Declaration) :
    ∀ depth d, (m.rebuild limits depth).result = .ok d ↔
      d.toMessage = (m.prune limits depth).tidy := by
  induction m using Declaration.nested_induction with
  | hdecl m ih =>
    intro depth d
    have hmethods : List.Forall₂ (Method.Rebuilds limits) m.methods d.methods ↔
        d.methods.map Arbor.Method.toMessage =
          (m.methods.map (Method.prune limits)).map Method.tidy :=
      forall₂_iff_map_eq fun n _ => Method.rebuilds_iff_toMessage limits n
    have hparents : List.Forall₂ TypeRef.Rebuilds m.parents d.parents ↔
        d.parents.map Arbor.TypeRef.toMessage =
          (m.parents.map TypeRef.prune).map TypeRef.tidy :=
      forall₂_iff_map_eq fun t _ => TypeRef.rebuilds_iff_toMessage t
    have hnested : (if Limits.allows limits.declarations depth
        then List.Forall₂ (fun m d => (m.rebuild limits (depth + 1)).result = .ok d)
          m.nested d.nested
        else d.nested = []) ↔
        d.nested.map Arbor.Declaration.toMessage =
          (if Limits.allows limits.declarations depth then
            m.nested.map (Declaration.prune limits (depth + 1)) else []).map Declaration.tidy :=
      kept_iff_map_eq Iff.rfl fun m' hm' => ih m' hm' (depth + 1)
    rw [Declaration.rebuild_eq_ok_iff, Arbor.Declaration.toMessage_eq, Declaration.tidy_eq,
      Declaration.prune_eq, Declaration.mk.injEq]
    constructor
    · intro h
      exact ⟨h.name, h.kind, Modifier.forall₂_rebuilds_iff.mp h.modifiers,
        Variable.forall₂_rebuild_iff.mp h.fields, hmethods.mp h.methods, hparents.mp h.parents,
        hnested.mp h.nested, rfl⟩
    · rintro ⟨h₁, h₂, h₃, h₄, h₅, h₆, h₇, -⟩
      exact ⟨h₁, h₂, Modifier.forall₂_rebuilds_iff.mpr h₃, Variable.forall₂_rebuild_iff.mpr h₄,
        hmethods.mpr h₅, hparents.mpr h₆, hnested.mpr h₇⟩

/-- A namespace is rebuilt to exactly that node whose message is the pruned and tidied
message. -/
lemma Namespace.rebuilds_iff_toMessage (limits : Limits) (m : Namespace) (n : Arbor.Namespace) :
    m.Rebuilds limits n ↔ n.toMessage = (m.prune limits).tidy := by
  have hdeclarations :
      List.Forall₂ (Declaration.Rebuilds limits 0) m.declarations n.declarations ↔
        n.declarations.map Arbor.Declaration.toMessage =
          (m.declarations.map (Declaration.prune limits 0)).map Declaration.tidy := by
    refine forall₂_iff_map_eq fun m' _ d => ?_
    rw [← Declaration.rebuild_eq_ok_iff]
    exact Declaration.rebuild_iff_toMessage limits m' 0 d
  unfold Arbor.Namespace.toMessage Namespace.tidy Namespace.prune
  rw [Namespace.mk.injEq]
  constructor
  · intro h
    exact ⟨h.name, Modifier.forall₂_rebuilds_iff.mp h.modifiers,
      hdeclarations.mp h.declarations, rfl⟩
  · rintro ⟨h₁, h₂, h₃, -⟩
    exact ⟨h₁, Modifier.forall₂_rebuilds_iff.mpr h₂, hdeclarations.mpr h₃⟩

/-- A source file is rebuilt to exactly that tree whose message is the pruned and tidied
message. -/
lemma Root.rebuilds_iff_toMessage (limits : Limits) (m : Root) (t : Arbor.Root) :
    m.Rebuilds limits t ↔ t.toMessage = (m.prune limits).tidy := by
  have hnamespaces :
      List.Forall₂ (Namespace.Rebuilds limits) m.namespaces t.namespaces ↔
        t.namespaces.map Arbor.Namespace.toMessage =
          (m.namespaces.map (Namespace.prune limits)).map Namespace.tidy :=
    forall₂_iff_map_eq fun n _ => Namespace.rebuilds_iff_toMessage limits n
  unfold Arbor.Root.toMessage Root.tidy Root.prune
  rw [Root.mk.injEq]
  constructor
  · intro h
    exact ⟨h.imports, hnamespaces.mp h.namespaces, rfl⟩
  · rintro ⟨h₁, h₂, -⟩
    exact ⟨h₁, hnamespaces.mpr h₂⟩

/-- A message is converted to a tree exactly if it has no misfit and the tree's own message
is what pruning and tidying leave of it. -/
theorem Root.convert_eq_ok_iff_toMessage (limits : Limits) (m : Root) (t : Arbor.Root) :
    (m.convert limits).result = .ok t ↔
      m.misfit? = none ∧ t.toMessage = (m.prune limits).tidy := by
  rw [Root.convert_eq_ok_iff, Root.rebuilds_iff_toMessage]

end Arbor.Message
