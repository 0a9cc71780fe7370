import Arbor.Proofs.Embedding
import Arbor.Proofs.Rebuild

/-!
# Trees come back from their messages

A tree is turned into a message and rebuilt from it.  Two things can get lost on the way:
nodes that the nesting limits cut off, and arguments of expressions that are no method
calls.  `Root.within` and `Root.argumentsOnCalls` say that a tree has neither; both are
computable.

`Root.rebuilds_toMessage`: such a tree is rebuilt from its message as it was.
-/

namespace Arbor

/-! ### Trees within limits -/

/-- Whether a node may stand at the given depth.  What the limits allow at one depth stands
one level deeper. -/
def Limits.reaches (limit : Option Nat) (depth : Nat) : Bool :=
  match limit with
  | none => true
  | some max => depth ≤ max

/-- A depth whose contents are allowed is one from which the next depth is reached. -/
lemma Limits.allows_eq_reaches (limit : Option Nat) (depth : Nat) :
    allows limit depth = reaches limit (depth + 1) := by
  cases limit <;> rfl

/-- The outermost level is within all limits. -/
lemma Limits.reaches_zero (limit : Option Nat) : Limits.reaches limit 0 = true := by
  cases limit with
  | none => rfl
  | some max => exact decide_eq_true (Nat.zero_le max)

/-- What is reached at a depth is reached at smaller depths. -/
lemma Limits.reaches_of_succ {limit : Option Nat} {depth : Nat}
    (h : reaches limit (depth + 1) = true) : reaches limit depth = true := by
  cases limit with
  | none => rfl
  | some max => exact decide_eq_true (Nat.le_of_succ_le (of_decide_eq_true h))

/-- A node that the limits reach may hold something, unless it is at the last depth. -/
lemma Limits.reaches_cases {limit : Option Nat} {depth : Nat} (h : reaches limit depth = true) :
    (allows limit depth = true ∧ limit ≠ some depth) ∨
      (allows limit depth = false ∧ limit = some depth) := by
  cases limit with
  | none => exact .inl ⟨rfl, nofun⟩
  | some max =>
    have hle : depth ≤ max := of_decide_eq_true h
    rcases Nat.lt_or_eq_of_le hle with hlt | rfl
    · exact .inl ⟨decide_eq_true hlt, fun heq => Nat.ne_of_gt hlt (Option.some.inj heq)⟩
    · exact .inr ⟨decide_eq_false (Nat.lt_irrefl depth), rfl⟩

mutual

/-- Whether a statement at the given depth, and all statements in it, are within the
limits. -/
def Statement.within (limits : Limits) (depth : Nat) : Statement → Bool
  | ⟨_, _, _, statements, _, _⟩ =>
    Limits.reaches limits.statements depth && Statement.allWithin limits (depth + 1) statements

/-- Whether statements at the given depth, and all statements in them, are within the
limits. -/
def Statement.allWithin (limits : Limits) (depth : Nat) : List Statement → Bool
  | [] => true
  | s :: ss => s.within limits depth && Statement.allWithin limits depth ss

end

/-- Whether all statements of a method are within the limits. -/
def Method.within (limits : Limits) (m : Method) : Bool :=
  m.statements.all (Statement.within limits 0)

mutual

/-- Whether a declaration at the given depth, and all declarations and statements in it, are
within the limits. -/
def Declaration.within (limits : Limits) (depth : Nat) : Declaration → Bool
  | ⟨_, _, _, _, methods, _, nested⟩ =>
    Limits.reaches limits.declarations depth && methods.all (Method.within limits) &&
      Declaration.allWithin limits (depth + 1) nested

/-- Whether declarations at the given depth, and all declarations and statements in them,
are within the limits. -/
def Declaration.allWithin (limits : Limits) (depth : Nat) : List Declaration → Bool
  | [] => true
  | d :: ds => d.within limits depth && Declaration.allWithin limits depth ds

end

/-- Whether all declarations and statements of a namespace are within the limits. -/
def Namespace.within (limits : Limits) (n : Namespace) : Bool :=
  n.declarations.all (Declaration.within limits 0)

/-- Whether all declarations and statements of a source file are within the limits. -/
def Root.within (limits : Limits) (r : Root) : Bool :=
  r.namespaces.all (Namespace.within limits)

/-- A list of statements is within limits if all its members are. -/
lemma Statement.allWithin_eq_all (limits : Limits) (depth : Nat) (ss : List Statement) :
    Statement.allWithin limits depth ss = ss.all (Statement.within limits depth) := by
  induction ss with
  | nil => rfl
  | cons s ss ih => rw [Statement.allWithin, ih, List.all_cons]

/-- A list of declarations is within limits if all its members are. -/
lemma Declaration.allWithin_eq_all (limits : Limits) (depth : Nat) (ds : List Declaration) :
    Declaration.allWithin limits depth ds = ds.all (Declaration.within limits depth) := by
  induction ds with
  | nil => rfl
  | cons d ds ih => rw [Declaration.allWithin, ih, List.all_cons]

/-- A statement is within limits if its depth is reached and the statements in it are within
them. -/
lemma Statement.within_iff {limits : Limits} {depth : Nat} {s : Statement} :
    s.within limits depth = true ↔
      Limits.reaches limits.statements depth = true ∧
        ∀ s' ∈ s.statements, s'.within limits (depth + 1) = true := by
  cases s
  simp only [Statement.within, Statement.allWithin_eq_all, Bool.and_eq_true, List.all_eq_true]

/-- A declaration is within limits if its depth is reached and what is in it is within them. -/
lemma Declaration.within_iff {limits : Limits} {depth : Nat} {d : Declaration} :
    d.within limits depth = true ↔
      Limits.reaches limits.declarations depth = true ∧
        (∀ m ∈ d.methods, m.within limits = true) ∧
        ∀ d' ∈ d.nested, d'.within limits (depth + 1) = true := by
  cases d
  simp only [Declaration.within, Declaration.allWithin_eq_all, Bool.and_eq_true,
    List.all_eq_true, and_assoc]

/-- Where the limits keep nothing, a statement within them has nothing nested in it. -/
lemma Statement.statements_eq_nil_of_within {limits : Limits} {depth : Nat} {s : Statement}
    (h : s.within limits depth = true) (hallow : ¬ Limits.allows limits.statements depth) :
    s.statements = [] := by
  -- A nested statement would stand one level deeper, where the limits do not reach.
  rw [Limits.allows_eq_reaches] at hallow
  rw [List.eq_nil_iff_forall_not_mem]
  intro s' hs'
  have hs'within := (Statement.within_iff.mp h).2 s' hs'
  exact hallow (Statement.within_iff.mp hs'within).1

/-- Where the limits keep nothing, a declaration within them has nothing nested in it. -/
lemma Declaration.nested_eq_nil_of_within {limits : Limits} {depth : Nat} {d : Declaration}
    (h : d.within limits depth = true) (hallow : ¬ Limits.allows limits.declarations depth) :
    d.nested = [] := by
  rw [Limits.allows_eq_reaches] at hallow
  rw [List.eq_nil_iff_forall_not_mem]
  intro d' hd'
  have hd'within := (Declaration.within_iff.mp h).2.2 d' hd'
  exact hallow (Declaration.within_iff.mp hd'within).1

/-! ### Arguments on method calls only -/

mutual

/-- Whether an expression and all expressions in it have arguments on method calls only. -/
def Expression.argumentsOnCalls : Expression → Bool
  | ⟨kind, _, _, _, arguments, declared, _, _, operands⟩ =>
    (kind == .methodCall || arguments.isEmpty) && Expression.allOnCalls arguments &&
      Variable.allOnCalls declared && Expression.allOnCalls operands

/-- Whether expressions have arguments on method calls only. -/
def Expression.allOnCalls : List Expression → Bool
  | [] => true
  | e :: es => e.argumentsOnCalls && Expression.allOnCalls es

/-- Whether the expressions in a variable have arguments on method calls only. -/
def Variable.argumentsOnCalls : Variable → Bool
  | ⟨_, _, initializer, _⟩ => initializer.argumentsOnCalls

/-- Whether the expressions in variables have arguments on method calls only. -/
def Variable.allOnCalls : List Variable → Bool
  | [] => true
  | v :: vs => v.argumentsOnCalls && Variable.allOnCalls vs

end

mutual

/-- Whether the expressions in a statement have arguments on method calls only. -/
def Statement.argumentsOnCalls : Statement → Bool
  | ⟨_, expressions, condition, statements, initializations, updates⟩ =>
    expressions.all Expression.argumentsOnCalls && condition.argumentsOnCalls &&
      Statement.allOnCalls statements && initializations.all Expression.argumentsOnCalls &&
      updates.all Expression.argumentsOnCalls

/-- Whether the expressions in statements have arguments on method calls only. -/
def Statement.allOnCalls : List Statement → Bool
  | [] => true
  | s :: ss => s.argumentsOnCalls && Statement.allOnCalls ss

end

/-- Whether the expressions in a method have arguments on method calls only. -/
def Method.argumentsOnCalls (m : Method) : Bool :=
  m.arguments.all Variable.argumentsOnCalls && m.statements.all Statement.argumentsOnCalls &&
    m.content.all Expression.argumentsOnCalls

mutual

/-- Whether the expressions in a declaration have arguments on method calls only. -/
def Declaration.argumentsOnCalls : Declaration → Bool
  | ⟨_, _, _, fields, methods, _, nested⟩ =>
    fields.all Variable.argumentsOnCalls && methods.all Method.argumentsOnCalls &&
      Declaration.allOnCalls nested

/-- Whether the expressions in declarations have arguments on method calls only. -/
def Declaration.allOnCalls : List Declaration → Bool
  | [] => true
  | d :: ds => d.argumentsOnCalls && Declaration.allOnCalls ds

end

/-- Whether the expressions in a source file have arguments on method calls only. -/
def Root.argumentsOnCalls (r : Root) : Bool :=
  r.namespaces.all fun n => n.declarations.all Declaration.argumentsOnCalls

/-- Arguments in a list of expressions are looked for in all its members. -/
lemma Expression.allOnCalls_eq_all (es : List Expression) :
    Expression.allOnCalls es = es.all Expression.argumentsOnCalls := by
  induction es with
  | nil => rfl
  | cons e es ih => rw [Expression.allOnCalls, ih, List.all_cons]

/-- Arguments in a list of variables are looked for in all its members. -/
lemma Variable.allOnCalls_eq_all (vs : List Variable) :
    Variable.allOnCalls vs = vs.all Variable.argumentsOnCalls := by
  induction vs with
  | nil => rfl
  | cons v vs ih => rw [Variable.allOnCalls, ih, List.all_cons]

/-- Arguments in a list of statements are looked for in all its members. -/
lemma Statement.allOnCalls_eq_all (ss : List Statement) :
    Statement.allOnCalls ss = ss.all Statement.argumentsOnCalls := by
  induction ss with
  | nil => rfl
  | cons s ss ih => rw [Statement.allOnCalls, ih, List.all_cons]

/-- Arguments in a list of declarations are looked for in all its members. -/
lemma Declaration.allOnCalls_eq_all (ds : List Declaration) :
    Declaration.allOnCalls ds = ds.all Declaration.argumentsOnCalls := by
  induction ds with
  | nil => rfl
  | cons d ds ih => rw [Declaration.allOnCalls, ih, List.all_cons]

/-- An expression that is no method call has no arguments, and the same is true of the expressions
in it. -/
lemma Expression.argumentsOnCalls_iff {e : Expression} :
    e.argumentsOnCalls = true ↔
      (e.kind = .methodCall ∨ e.arguments = []) ∧
        (∀ a ∈ e.arguments, a.argumentsOnCalls = true) ∧
        (∀ v ∈ e.declared, v.argumentsOnCalls = true) ∧
        ∀ o ∈ e.operands, o.argumentsOnCalls = true := by
  cases e
  simp only [Expression.argumentsOnCalls, Expression.allOnCalls_eq_all,
    Variable.allOnCalls_eq_all, Bool.and_eq_true, Bool.or_eq_true, beq_iff_eq,
    List.isEmpty_iff, List.all_eq_true, and_assoc]

/-- A variable has arguments on calls only if its initializer does. -/
lemma Variable.argumentsOnCalls_iff {v : Variable} :
    v.argumentsOnCalls = true ↔ v.initializer.argumentsOnCalls = true := by
  cases v
  rfl

/-- A statement has arguments on calls only if all expressions and statements in it do. -/
lemma Statement.argumentsOnCalls_iff {s : Statement} :
    s.argumentsOnCalls = true ↔
      (∀ e ∈ s.expressions, e.argumentsOnCalls = true) ∧
        s.condition.argumentsOnCalls = true ∧
        (∀ s' ∈ s.statements, s'.argumentsOnCalls = true) ∧
        (∀ e ∈ s.initializations, e.argumentsOnCalls = true) ∧
        ∀ e ∈ s.updates, e.argumentsOnCalls = true := by
  cases s
  simp only [Statement.argumentsOnCalls, Statement.allOnCalls_eq_all, Bool.and_eq_true,
    List.all_eq_true, and_assoc]

/-- A method has arguments on calls only if all that it contains does. -/
lemma Method.argumentsOnCalls_iff {m : Method} :
    m.argumentsOnCalls = true ↔
      (∀ v ∈ m.arguments, v.argumentsOnCalls = true) ∧
        (∀ s ∈ m.statements, s.argumentsOnCalls = true) ∧
        ∀ e ∈ m.content, e.argumentsOnCalls = true := by
  simp only [Method.argumentsOnCalls, Bool.and_eq_true, List.all_eq_true, and_assoc]

/-- A declaration has arguments on calls only if all that it contains does. -/
lemma Declaration.argumentsOnCalls_iff {d : Declaration} :
    d.argumentsOnCalls = true ↔
      (∀ v ∈ d.fields, v.argumentsOnCalls = true) ∧
        (∀ m ∈ d.methods, m.argumentsOnCalls = true) ∧
        ∀ d' ∈ d.nested, d'.argumentsOnCalls = true := by
  cases d
  simp only [Declaration.argumentsOnCalls, Declaration.allOnCalls_eq_all, Bool.and_eq_true,
    List.all_eq_true, and_assoc]

/-! ### Rebuilding -/

/-- The message of a type, or its absence, gives the type back. -/
lemma TypeRef.rebuilds_toMessage? (t : TypeRef) : (t.toMessage?.getD {}).Rebuilds t := by
  unfold TypeRef.toMessage?
  split
  · next h =>
    rw [h]
    exact ⟨rfl, rfl⟩
  · exact ⟨rfl, rfl⟩

/-- Every type is rebuilt from its message. -/
lemma TypeRef.rebuilds_toMessage (t : TypeRef) : t.toMessage.Rebuilds t :=
  ⟨rfl, rfl⟩

/-- Every modifier is rebuilt from its message. -/
lemma Modifier.rebuilds_toMessage (m : Modifier) : m.toMessage.Rebuilds m :=
  ⟨rfl, rfl, rfl, rfl, rfl⟩

/-- If an expression is rebuilt from its message, it is also rebuilt where the message of
the placeholder is left out. -/
lemma Expression.rebuild?_toMessage? {e : Expression} (h : e.toMessage.rebuild.result = .ok e) :
    (Message.Expression.rebuild? e.toMessage?).result = .ok e := by
  unfold Expression.toMessage?
  split
  · next hplaceholder =>
    rw [Expression.isPlaceholder_iff.mp hplaceholder]
    rfl
  · exact h

/-- Messages that give the nodes they were made from, one by one, give the list. -/
lemma forall₂_map_of_forall {α β : Type} {R : β → α → Prop} {f : α → β} {as : List α}
    (h : ∀ a ∈ as, R (f a) a) : List.Forall₂ R (as.map f) as := by
  rw [List.forall₂_map_left_iff, List.forall₂_same]
  exact h

/-- The same for a list that is kept on a condition, if it is empty without it. -/
lemma kept_map_of_forall {α β : Type} {p : Prop} [Decidable p] {R : β → α → Prop} {f : α → β}
    {as : List α} (h : ∀ a ∈ as, R (f a) a) (hnil : ¬ p → as = []) :
    if p then List.Forall₂ R (as.map f) as else as = [] := by
  split
  · exact forall₂_map_of_forall h
  · next hp => exact hnil hp

/-- Expressions and variables contain each other, so that they come back is shown by one
induction. -/
lemma rebuild_toMessage_nested :
    (∀ e : Expression, e.argumentsOnCalls = true → e.toMessage.rebuild.result = .ok e) ∧
      ∀ v : Variable, v.argumentsOnCalls = true → v.toMessage.rebuild.result = .ok v := by
  apply nested_induction
  · intro e iharguments ihdeclared ihoperands h
    obtain ⟨hcall, harguments, hdeclared, hoperands⟩ := Expression.argumentsOnCalls_iff.mp h
    rw [Message.Expression.rebuild_eq_ok_iff, Expression.toMessage_eq]
    refine ⟨rfl, rfl, rfl, rfl, ?_, ?_, rfl, e.newType.rebuilds_toMessage?, ?_⟩
    · exact kept_map_of_forall (fun a ha => iharguments a ha (harguments a ha))
        hcall.resolve_left
    · exact forall₂_map_of_forall fun v hv => ihdeclared v hv (hdeclared v hv)
    · exact forall₂_map_of_forall fun o ho => ihoperands o ho (hoperands o ho)
  · intro v ihinitializer h
    have hinitializer := ihinitializer (Variable.argumentsOnCalls_iff.mp h)
    rw [Message.Variable.rebuild_eq_ok_iff, Variable.toMessage_eq]
    exact ⟨rfl, v.type.rebuilds_toMessage?, Expression.rebuild?_toMessage? hinitializer,
      forall₂_map_of_forall fun m _ => m.rebuilds_toMessage⟩

/-- A statement within limits comes back from its message, at every depth. -/
lemma Statement.rebuild_toMessage (limits : Limits) (s : Statement) :
    ∀ depth, s.within limits depth = true → s.argumentsOnCalls = true →
      (s.toMessage.rebuild limits depth).result = .ok s := by
  induction s using Statement.nested_induction with
  | hstmt s ih =>
    intro depth hwithin hcalls
    obtain ⟨hexpressions, hcondition, hstatements, hinitializations, hupdates⟩ :=
      Statement.argumentsOnCalls_iff.mp hcalls
    have hexpr := rebuild_toMessage_nested.1
    rw [Message.Statement.rebuild_eq_ok_iff, Statement.toMessage_eq]
    refine ⟨rfl, forall₂_map_of_forall fun e he => hexpr e (hexpressions e he),
      Expression.rebuild?_toMessage? (hexpr s.condition hcondition), ?_,
      forall₂_map_of_forall fun e he => hexpr e (hinitializations e he),
      forall₂_map_of_forall fun e he => hexpr e (hupdates e he)⟩
    have hdeeper := (Statement.within_iff.mp hwithin).2
    exact kept_map_of_forall
      (fun s' hs' => ih s' hs' (depth + 1) (hdeeper s' hs') (hstatements s' hs'))
      (Statement.statements_eq_nil_of_within hwithin)

/-- A method within limits comes back from its message. -/
lemma Method.rebuilds_toMessage {limits : Limits} {m : Method} (hwithin : m.within limits = true)
    (hcalls : m.argumentsOnCalls = true) : m.toMessage.Rebuilds limits m := by
  obtain ⟨harguments, hstatements, hcontent⟩ := Method.argumentsOnCalls_iff.mp hcalls
  have hdepth : ∀ s ∈ m.statements, s.within limits 0 = true := List.all_eq_true.mp hwithin
  refine ⟨rfl, m.returnType.rebuilds_toMessage?,
    forall₂_map_of_forall fun n _ => n.rebuilds_toMessage, ?_, ?_, ?_⟩
  · exact forall₂_map_of_forall fun v hv => rebuild_toMessage_nested.2 v (harguments v hv)
  · exact forall₂_map_of_forall fun s hs =>
      Statement.rebuild_toMessage limits s 0 (hdepth s hs) (hstatements s hs)
  · exact forall₂_map_of_forall fun e he => rebuild_toMessage_nested.1 e (hcontent e he)

/-- A declaration within limits comes back from its message, at every depth. -/
lemma Declaration.rebuild_toMessage (limits : Limits) (d : Declaration) :
    ∀ depth, d.within limits depth = true → d.argumentsOnCalls = true →
      (d.toMessage.rebuild limits depth).result = .ok d := by
  induction d using Declaration.nested_induction with
  | hdecl d ih =>
    intro depth hwithin hcalls
    obtain ⟨hfields, hmethods, hnested⟩ := Declaration.argumentsOnCalls_iff.mp hcalls
    obtain ⟨-, hmethodsWithin, hdeeper⟩ := Declaration.within_iff.mp hwithin
    rw [Message.Declaration.rebuild_eq_ok_iff, Declaration.toMessage_eq]
    refine ⟨rfl, rfl, forall₂_map_of_forall fun m _ => m.rebuilds_toMessage,
      forall₂_map_of_forall fun v hv => rebuild_toMessage_nested.2 v (hfields v hv),
      forall₂_map_of_forall fun m hm =>
        Method.rebuilds_toMessage (hmethodsWithin m hm) (hmethods m hm),
      forall₂_map_of_forall fun t _ => t.rebuilds_toMessage, ?_⟩
    exact kept_map_of_forall
      (fun d' hd' => ih d' hd' (depth + 1) (hdeeper d' hd') (hnested d' hd'))
      (Declaration.nested_eq_nil_of_within hwithin)

/-- A tree within the limits, with arguments on method calls only, is rebuilt from its
message. -/
theorem Root.rebuilds_toMessage {limits : Limits} {t : Root} (hwithin : t.within limits = true)
    (hcalls : t.argumentsOnCalls = true) : t.toMessage.Rebuilds limits t := by
  have hwithin' : ∀ n ∈ t.namespaces, ∀ d ∈ n.declarations, d.within limits 0 = true :=
    fun n hn => List.all_eq_true.mp (List.all_eq_true.mp hwithin n hn)
  have hcalls' : ∀ n ∈ t.namespaces, ∀ d ∈ n.declarations, d.argumentsOnCalls = true :=
    fun n hn => List.all_eq_true.mp (List.all_eq_true.mp hcalls n hn)
  refine ⟨rfl, forall₂_map_of_forall fun n hn => ⟨rfl, ?_, ?_⟩⟩
  · exact forall₂_map_of_forall fun m _ => m.rebuilds_toMessage
  · refine forall₂_map_of_forall fun d hd => ?_
    rw [← Message.Declaration.rebuild_eq_ok_iff]
    exact Declaration.rebuild_toMessage limits d 0 (hwithin' n hn d hd) (hcalls' n hn d hd)

end Arbor
