import Arbor.Message.Prune
import Arbor.Proofs.Induction
import Arbor.Proofs.Misfit
import Arbor.Proofs.Rebuild

/-!
# Limits act by pruning

Converting a message under limits is the same as pruning it to the limits first and
converting what is left without limits.  Two facts carry this.

* A pruned message has no misfit if the whole message has none (`Root.misfit?_prune`).
* Rebuilding a pruned node without limits gives the same result as rebuilding the whole
  node within them, at every depth (`Statement.rebuild_prune`,
  `Declaration.rebuild_prune`).  The depth that the unlimited side counts is never looked
  at, so it may differ from the depth at which the node was pruned.

Both are proved by induction over the nesting, one lemma for each type of message.
`Root.result_convert_eq_prune` puts them together.
-/

namespace Arbor.Message

open Conversion

/-! ### Pruning in terms of the fields -/

/-- Pruning an expression drops its strays, and the arguments if it is no method call. -/
lemma Expression.prune_eq (m : Expression) :
    m.prune =
      { kind := m.kind, literal := m.literal, methodName := m.methodName,
        variableName := m.variableName,
        arguments :=
          if m.kind = ExpressionKind.methodCall.tag then m.arguments.map Expression.prune else [],
        declared := m.declared.map Variable.prune, isPostfix := m.isPostfix,
        newType := m.newType.map TypeRef.prune, operands := m.operands.map Expression.prune,
        stray := Wire.MessageType.expr.known m.stray } := by
  cases m
  simp only [Expression.prune, Expression.pruneAll_eq_map, Variable.pruneAll_eq_map]

/-- Pruning a variable drops its strays and prunes what it contains. -/
lemma Variable.prune_eq (m : Variable) :
    m.prune =
      { name := m.name, declaredType := m.declaredType.map TypeRef.prune,
        initializer := m.initializer.map Expression.prune,
        modifiers := m.modifiers.map Modifier.prune,
        stray := Wire.MessageType.var.known m.stray } := by
  obtain ⟨name, declaredType, initializer, modifiers, stray⟩ := m
  cases initializer <;> simp [Variable.prune]

/-- Pruning a statement drops its strays, and the statements in it if the limits do not allow
them. -/
lemma Statement.prune_eq (limits : Limits) (depth : Nat) (m : Statement) :
    m.prune limits depth =
      { kind := m.kind, expressions := m.expressions.map Expression.prune,
        condition := m.condition.map Expression.prune,
        statements :=
          if Limits.allows limits.statements depth then
            m.statements.map (Statement.prune limits (depth + 1))
          else [],
        initializations := m.initializations.map Expression.prune,
        updates := m.updates.map Expression.prune,
        stray := Wire.MessageType.stmt.known m.stray } := by
  cases m
  simp only [Statement.prune, Statement.pruneAll_eq_map]

/-- Pruning a declaration drops its strays, and the declarations in it if the limits do not allow
them. -/
lemma Declaration.prune_eq (limits : Limits) (depth : Nat) (m : Declaration) :
    m.prune limits depth =
      { name := m.name, kind := m.kind, modifiers := m.modifiers.map Modifier.prune,
        fields := m.fields.map Variable.prune, methods := m.methods.map (Method.prune limits),
        parents := m.parents.map TypeRef.prune,
        nested :=
          if Limits.allows limits.declarations depth then
            m.nested.map (Declaration.prune limits (depth + 1))
          else [],
        stray := Wire.MessageType.decl.known m.stray } := by
  cases m
  simp only [Declaration.prune, Declaration.pruneAll_eq_map]

/-! ### Pruned messages have no new misfits -/

/-- Pruning strays only removes some of them. -/
lemma forall_known {t : Wire.MessageType} {stray : List Nat} {p : Nat → Prop}
    (h : ∀ n ∈ stray, p n) : ∀ n ∈ t.known stray, p n :=
  fun n hn => h n (List.mem_filter.mp hn).1

/-- Pruning a type brings no misfit in. -/
lemma TypeRef.misfit?_prune {m : TypeRef} (h : m.misfit? = none) : m.prune.misfit? = none :=
  TypeRef.misfit?_eq_none_iff.mpr (forall_known (TypeRef.misfit?_eq_none_iff.mp h))

/-- Pruning a modifier brings no misfit in. -/
lemma Modifier.misfit?_prune {m : Modifier} (h : m.misfit? = none) : m.prune.misfit? = none :=
  Modifier.misfit?_eq_none_iff.mpr (forall_known (Modifier.misfit?_eq_none_iff.mp h))

/-- A member of a pruned list comes from a member of the list. -/
lemma forall_mem_map_of_forall {α β : Type} {f : α → β} {p : α → Prop} {q : β → Prop} {as : List α}
    (hpq : ∀ a ∈ as, p a → q (f a)) (h : ∀ a ∈ as, p a) : ∀ b ∈ as.map f, q b := by
  intro b hb
  obtain ⟨a, ha, rfl⟩ := List.mem_map.mp hb
  exact hpq a ha (h a ha)

/-- What holds for a pruned submessage, if there is one, comes from the submessage. -/
lemma forall_mem_optionMap_of_forall {α β : Type} {f : α → β} {p : α → Prop} {q : β → Prop}
    {o : Option α} (hpq : ∀ a ∈ o, p a → q (f a)) (h : ∀ a ∈ o, p a) : ∀ b ∈ o.map f, q b := by
  intro b hb
  obtain ⟨a, ha, rfl⟩ := Option.map_eq_some_iff.mp hb
  exact hpq a ha (h a ha)

/-- Pruning keeps expressions and variables free of misfits. -/
lemma misfit?_prune_nested :
    (∀ m : Expression, m.misfit? = none → m.prune.misfit? = none) ∧
      ∀ m : Variable, m.misfit? = none → m.prune.misfit? = none := by
  apply nested_induction
  · intro m iharguments ihdeclared ihoperands h
    obtain ⟨hstray, harguments, hdeclared, hnewType, hoperands⟩ :=
      Expression.misfit?_eq_none_iff.mp h
    rw [Expression.prune_eq, Expression.misfit?_eq_none_iff]
    refine ⟨forall_known hstray, ?_, forall_mem_map_of_forall ihdeclared hdeclared,
      forall_mem_optionMap_of_forall (fun _ _ => TypeRef.misfit?_prune) hnewType,
      forall_mem_map_of_forall ihoperands hoperands⟩
    split
    · exact forall_mem_map_of_forall iharguments harguments
    · exact fun _ ha => nomatch ha
  · intro m ihinitializer h
    obtain ⟨hstray, htype, hinitializer, hmodifiers⟩ := Variable.misfit?_eq_none_iff.mp h
    rw [Variable.prune_eq, Variable.misfit?_eq_none_iff]
    exact ⟨forall_known hstray,
      forall_mem_optionMap_of_forall (fun _ _ => TypeRef.misfit?_prune) htype,
      forall_mem_optionMap_of_forall ihinitializer hinitializer,
      forall_mem_map_of_forall (fun _ _ => Modifier.misfit?_prune) hmodifiers⟩

/-- Pruning keeps a statement free of misfits. -/
lemma Statement.misfit?_prune (limits : Limits) (m : Statement) :
    ∀ depth, m.misfit? = none → (m.prune limits depth).misfit? = none := by
  induction m using Statement.nested_induction with
  | hstmt m ih =>
    intro depth h
    obtain ⟨hstray, hexpressions, hcondition, hstatements, hinitializations, hupdates⟩ :=
      Statement.misfit?_eq_none_iff.mp h
    rw [Statement.prune_eq, Statement.misfit?_eq_none_iff]
    refine ⟨forall_known hstray,
      forall_mem_map_of_forall (fun e _ => misfit?_prune_nested.1 e) hexpressions,
      forall_mem_optionMap_of_forall (fun e _ => misfit?_prune_nested.1 e) hcondition, ?_,
      forall_mem_map_of_forall (fun e _ => misfit?_prune_nested.1 e) hinitializations,
      forall_mem_map_of_forall (fun e _ => misfit?_prune_nested.1 e) hupdates⟩
    split
    · exact forall_mem_map_of_forall (fun s hs => ih s hs (depth + 1)) hstatements
    · exact fun _ hs => nomatch hs

/-- Pruning keeps a method free of misfits. -/
lemma Method.misfit?_prune (limits : Limits) {m : Method} (h : m.misfit? = none) :
    (m.prune limits).misfit? = none := by
  obtain ⟨hstray, hreturnType, hmodifiers, harguments, hstatements, hcontent⟩ :=
    Method.misfit?_eq_none_iff.mp h
  exact Method.misfit?_eq_none_iff.mpr ⟨forall_known hstray,
    forall_mem_optionMap_of_forall (fun _ _ => TypeRef.misfit?_prune) hreturnType,
    forall_mem_map_of_forall (fun _ _ => Modifier.misfit?_prune) hmodifiers,
    forall_mem_map_of_forall (fun v _ => misfit?_prune_nested.2 v) harguments,
    forall_mem_map_of_forall (fun s _ => Statement.misfit?_prune limits s 0) hstatements,
    forall_mem_map_of_forall (fun e _ => misfit?_prune_nested.1 e) hcontent⟩

/-- Pruning keeps a declaration free of misfits. -/
lemma Declaration.misfit?_prune (limits : Limits) (m : Declaration) :
    ∀ depth, m.misfit? = none → (m.prune limits depth).misfit? = none := by
  induction m using Declaration.nested_induction with
  | hdecl m ih =>
    intro depth h
    obtain ⟨hstray, hmodifiers, hfields, hmethods, hparents, hnested⟩ :=
      Declaration.misfit?_eq_none_iff.mp h
    rw [Declaration.prune_eq, Declaration.misfit?_eq_none_iff]
    refine ⟨forall_known hstray,
      forall_mem_map_of_forall (fun _ _ => Modifier.misfit?_prune) hmodifiers,
      forall_mem_map_of_forall (fun v _ => misfit?_prune_nested.2 v) hfields,
      forall_mem_map_of_forall (fun _ _ => Method.misfit?_prune limits) hmethods,
      forall_mem_map_of_forall (fun _ _ => TypeRef.misfit?_prune) hparents, ?_⟩
    split
    · exact forall_mem_map_of_forall (fun d hd => ih d hd (depth + 1)) hnested
    · exact fun _ hd => nomatch hd

/-- Pruning keeps a namespace free of misfits. -/
lemma Namespace.misfit?_prune (limits : Limits) {m : Namespace} (h : m.misfit? = none) :
    (m.prune limits).misfit? = none := by
  obtain ⟨hstray, hmodifiers, hdeclarations⟩ := Namespace.misfit?_eq_none_iff.mp h
  exact Namespace.misfit?_eq_none_iff.mpr ⟨forall_known hstray,
    forall_mem_map_of_forall (fun _ _ => Modifier.misfit?_prune) hmodifiers,
    forall_mem_map_of_forall (fun d _ => Declaration.misfit?_prune limits d 0) hdeclarations⟩

/-- Pruning keeps a source file free of misfits. -/
lemma Root.misfit?_prune (limits : Limits) {m : Root} (h : m.misfit? = none) :
    (m.prune limits).misfit? = none := by
  obtain ⟨hstray, hnamespaces⟩ := Root.misfit?_eq_none_iff.mp h
  exact Root.misfit?_eq_none_iff.mpr ⟨forall_known hstray,
    forall_mem_map_of_forall (fun _ _ => Namespace.misfit?_prune limits) hnamespaces⟩

/-! ### Rebuilding pruned messages -/

/-- Rebuilding never looks at strays. -/
lemma TypeRef.rebuild_getD_prune (o : Option TypeRef) :
    ((o.map TypeRef.prune).getD {}).rebuild = (o.getD {}).rebuild := by
  cases o <;> rfl

/-- Only the arguments of method calls are looked at, so pruning an expression or variable
does not change what is rebuilt from it. -/
lemma rebuild_prune_nested :
    (∀ m : Expression, m.prune.rebuild.result = m.rebuild.result) ∧
      ∀ m : Variable, m.prune.rebuild.result = m.rebuild.result := by
  apply nested_induction
  · intro m iharguments ihdeclared ihoperands
    rw [Expression.prune_eq, Expression.rebuild_eq, Expression.rebuild_eq m]
    refine result_bind_congr rfl fun kind hkind => ?_
    refine result_bind_congr (by rw [TypeRef.rebuild_getD_prune]) fun newType _ => ?_
    refine result_bind_congr ?_ fun arguments _ => ?_
    · -- the tag of the message decides about the arguments, and it is the tag of `kind`
      by_cases hcall : kind = .methodCall
      · have htag : m.kind = ExpressionKind.methodCall.tag := by
          rw [← kindOfTag_eq_ok_iff.mp hkind, hcall]
          rfl
        rw [if_pos hcall, if_pos hcall, if_pos htag]
        exact result_each_map iharguments
      · rw [if_neg hcall, if_neg hcall]
    refine result_bind_congr (result_each_map ihdeclared) fun declared _ => ?_
    exact result_bind_congr (result_each_map ihoperands) fun operands _ => rfl
  · intro m ihinitializer
    rw [Variable.prune_eq, Variable.rebuild_eq, Variable.rebuild_eq m]
    refine result_bind_congr (result_each_map fun _ _ => rfl) fun modifiers _ => ?_
    refine result_bind_congr (by rw [TypeRef.rebuild_getD_prune]) fun type _ => ?_
    refine result_bind_congr ?_ fun initializer _ => rfl
    cases hinitializer : m.initializer with
    | none => rfl
    | some e => exact ihinitializer e hinitializer

/-- Pruning does not change what an expression is rebuilt to. -/
lemma Expression.rebuild_prune (m : Expression) : m.prune.rebuild.result = m.rebuild.result :=
  rebuild_prune_nested.1 m

/-- Pruning does not change what a variable is rebuilt to. -/
lemma Variable.rebuild_prune (m : Variable) : m.prune.rebuild.result = m.rebuild.result :=
  rebuild_prune_nested.2 m

/-- The same for a list of expressions. -/
lemma Expression.each_rebuild_prune (ms : List Expression) :
    (each Expression.rebuild (ms.map Expression.prune)).result =
      (each Expression.rebuild ms).result :=
  result_each_map fun m _ => m.rebuild_prune

/-- The same for an expression that may be absent. -/
lemma Expression.rebuild?_prune (o : Option Expression) :
    (Expression.rebuild? (o.map Expression.prune)).result = (Expression.rebuild? o).result := by
  cases o with
  | none => rfl
  | some m => exact m.rebuild_prune

/-- What pruning leaves of a list is converted as the list is, if both drop it together.  A
notice about the dropped members makes no difference to the result. -/
lemma result_each_kept {α β γ : Type} {f : α → Conversion γ} {g : β → Conversion γ} {q : α → β}
    {as : List α} {allowed : Bool} {n : Notice}
    (h : ∀ a ∈ as, (g (q a)).result = (f a).result) :
    (each g (if allowed then as.map q else [])).result =
      (if allowed then each f as
        else if as.isEmpty then pure []
        else do
          note n
          pure []).result := by
  cases allowed with
  | true => exact result_each_map h
  | false => exact (dropped_eq_ok.mpr rfl).symm

/-- A pruned statement is rebuilt without limits as the whole statement is within them.
The depth counted without limits, `depth'`, plays no part. -/
lemma Statement.rebuild_prune (limits : Limits) (m : Statement) :
    ∀ depth depth', ((m.prune limits depth).rebuild .unbounded depth').result =
      (m.rebuild limits depth).result := by
  induction m using Statement.nested_induction with
  | hstmt m ih =>
    intro depth depth'
    rw [Statement.prune_eq, Statement.rebuild_eq, Statement.rebuild_eq limits depth m]
    refine result_bind_congr rfl fun kind _ => ?_
    refine result_bind_congr (Expression.each_rebuild_prune _) fun expressions _ => ?_
    refine result_bind_congr (Expression.each_rebuild_prune _) fun initializations _ => ?_
    refine result_bind_congr (Expression.each_rebuild_prune _) fun updates _ => ?_
    refine result_bind_congr (Expression.rebuild?_prune _) fun condition _ => ?_
    refine result_bind_congr ?_ fun statements _ => rfl
    rw [if_pos (show Limits.allows Limits.unbounded.statements depth' from rfl)]
    exact result_each_kept fun s hs => ih s hs (depth + 1) (depth' + 1)

/-- A pruned method is rebuilt without limits as the whole method is within them: the depth
of statements starts anew in each method. -/
lemma Method.rebuild_prune (limits : Limits) (m : Method) :
    ((m.prune limits).rebuild .unbounded).result = (m.rebuild limits).result := by
  unfold Method.rebuild Method.prune
  refine result_bind_congr (by rw [TypeRef.rebuild_getD_prune]) fun returnType _ => ?_
  refine result_bind_congr (result_each_map fun _ _ => rfl) fun modifiers _ => ?_
  refine result_bind_congr (result_each_map fun v _ => v.rebuild_prune) fun arguments _ => ?_
  refine result_bind_congr (result_each_map fun s _ => s.rebuild_prune limits 0 0)
    fun statements _ => ?_
  exact result_bind_congr (Expression.each_rebuild_prune _) fun content _ => rfl

/-- A pruned declaration is rebuilt without limits as the whole declaration is within them.
The depth counted without limits, `depth'`, plays no part. -/
lemma Declaration.rebuild_prune (limits : Limits) (m : Declaration) :
    ∀ depth depth', ((m.prune limits depth).rebuild .unbounded depth').result =
      (m.rebuild limits depth).result := by
  induction m using Declaration.nested_induction with
  | hdecl m ih =>
    intro depth depth'
    rw [Declaration.prune_eq, Declaration.rebuild_eq, Declaration.rebuild_eq limits depth m]
    refine result_bind_congr rfl fun kind _ => ?_
    refine result_bind_congr (result_each_map fun _ _ => rfl) fun modifiers _ => ?_
    refine result_bind_congr (result_each_map fun _ _ => rfl) fun parents _ => ?_
    refine result_bind_congr (result_each_map fun v _ => v.rebuild_prune) fun fields _ => ?_
    refine result_bind_congr (result_each_map fun n _ => n.rebuild_prune limits)
      fun methods _ => ?_
    refine result_bind_congr ?_ fun nested _ => rfl
    rw [if_pos (show Limits.allows Limits.unbounded.declarations depth' from rfl)]
    exact result_each_kept fun d hd => ih d hd (depth + 1) (depth' + 1)

/-- A pruned namespace is rebuilt without limits as the whole namespace is within them. -/
lemma Namespace.rebuild_prune (limits : Limits) (m : Namespace) :
    ((m.prune limits).rebuild .unbounded).result = (m.rebuild limits).result := by
  unfold Namespace.rebuild Namespace.prune
  refine result_bind_congr (result_each_map fun _ _ => rfl) fun modifiers _ => ?_
  exact result_bind_congr (result_each_map fun d _ => d.rebuild_prune limits 0 0)
    fun declarations _ => rfl

/-- A pruned source file is rebuilt without limits as the whole file is within them. -/
lemma Root.rebuild_prune (limits : Limits) (m : Root) :
    ((m.prune limits).rebuild .unbounded).result = (m.rebuild limits).result := by
  unfold Root.rebuild Root.prune
  exact result_bind_congr (result_each_map fun n _ => n.rebuild_prune limits)
    fun namespaces _ => rfl

/-! ### Conversion -/

/-- A message without misfits is converted under limits, to a tree or to an error, exactly
as the message pruned to the limits is converted without any. -/
theorem Root.result_convert_eq_prune (limits : Limits) (m : Root) (h : m.misfit? = none) :
    (m.convert limits).result = ((m.prune limits).convert .unbounded).result := by
  have hprune : (m.prune limits).misfit? = none := Root.misfit?_prune limits h
  unfold Root.convert
  rw [h, hprune]
  exact (Root.rebuild_prune limits m).symm

/-- A message that is at fault only where limits of zero cut it off: a nested declaration and
a nested statement are of kinds that do not exist, and so is an argument of a literal. -/
def Root.faultyBelow : Root where
  namespaces := [
    { declarations := [
        { methods := [
            { statements := [
                { kind := 1, expressions := [{ kind := 4, arguments := [{ kind := 98 }] }],
                  statements := [{ kind := 99 }] }] }],
          nested := [{ kind := 97 }] }] }]
  stray := [42]

/-- A message with a fault below what the limits keep. -/
theorem Root.result_convert_eq_prune_faultyBelow :
    let limits : Limits := { statements := some 0, declarations := some 0 }
    faultyBelow.misfit? = none ∧
      (faultyBelow.convert limits).result = ((faultyBelow.prune limits).convert .unbounded).result ∧
      (faultyBelow.convert .unbounded).result = .error (.unknownKind "statement" 99) :=
  ⟨rfl, result_convert_eq_prune _ faultyBelow rfl, rfl⟩

end Arbor.Message
