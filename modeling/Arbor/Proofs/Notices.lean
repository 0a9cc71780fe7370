import Arbor.Proofs.Holders

/-!
# What is dropped is noted

Rebuilding a message writes a notice for each holder that is cut, and one at the end.
`Conversion.Reports` says that the notices of a conversion are about given holders, one notice for
each and in their order, as far as the conversion gets.  It is closed under sequences and lists, so
that the proof for each function that rebuilds a message follows its `do` block.

The main result is `Root.notices_convert`.
-/

namespace Arbor

/-! ### Conversions that report holders -/

/-- `h.Reported n`: the notice says how much is dropped below the holder, what the holder is and how
deep it is. -/
inductive Message.Holder.Reported : Message.Holder → Notice → Prop where
  | declaration (depth : Nat) (name : String) (held : Nat) :
      Reported (declaration depth name held) (.droppedDeclarations held name depth)
  | statement (outer depth : Nat) (kind : StatementKind) (held : Nat) :
      Reported (statement outer depth (Kind.tag kind) held) (.droppedStatements held kind depth)

namespace Conversion

open Message (Holder)

variable {α β : Type}

/-- The notices of the conversion are about the given holders, one for each and in their order:
about the first few if the conversion fails, about all if it succeeds. -/
def Reports (x : Conversion α) (holders : List Holder) : Prop :=
  ∃ first, first <+: holders ∧ List.Forall₂ Holder.Reported first x.notices ∧
    ∀ a, x.result = .ok a → first = holders

/-- A conversion that only gives a value reports nothing. -/
lemma reports_pure (a : α) : (pure a : Conversion α).Reports [] :=
  ⟨[], List.nil_prefix, .nil, fun _ _ => rfl⟩

/-- Looking up a kind reports nothing. -/
lemma reports_kindOfTag {κ : Type} [Kind κ] (noun : String) (tag : Int) :
    (kindOfTag noun tag : Conversion κ).Reports [] := by
  unfold kindOfTag
  cases (Kind.ofTag? tag : Option κ) with
  | none => exact ⟨[], List.nil_prefix, .nil, fun _ _ => rfl⟩
  | some k => exact reports_pure k

/-- A notice is reported about its holder. -/
lemma reports_note {h : Holder} {n : Notice} (hn : h.Reported n) : (note n).Reports [h] :=
  ⟨[h], List.prefix_rfl, .cons hn .nil, fun _ _ => rfl⟩

/-- A sequence of two steps reports the holders of the first and then those of the second. -/
lemma Reports.bind {x : Conversion α} {f : α → Conversion β} {holders holders' : List Holder}
    (hx : x.Reports holders) (hf : ∀ a, x.result = .ok a → (f a).Reports holders') :
    (x >>= f).Reports (holders ++ holders') := by
  obtain ⟨notices, result⟩ := x
  obtain ⟨first, hfirst, hnotices, hall⟩ := hx
  cases result with
  | error e =>
    rw [mk_error_bind]
    exact ⟨first, hfirst.trans (List.prefix_append _ _), hnotices, nofun⟩
  | ok a =>
    obtain ⟨first', hfirst', hnotices', hall'⟩ := hf a rfl
    have hwhole : first = holders := hall a rfl
    subst hwhole
    rw [mk_ok_bind]
    refine ⟨first ++ first', List.prefix_append_right_inj _ |>.mpr hfirst',
      List.rel_append hnotices hnotices', fun b hb => ?_⟩
    rw [hall' b hb]

/-- What is computed from a result reports nothing. -/
lemma Reports.bind_pure {x : Conversion α} {f : α → β} {holders : List Holder}
    (hx : x.Reports holders) : (x >>= fun a => pure (f a)).Reports holders := by
  have h := hx.bind fun a _ => reports_pure (f a)
  rwa [List.append_nil] at h

/-- A step that reports nothing leaves the reports to the next. -/
lemma Reports.nil_bind {x : Conversion α} {f : α → Conversion β} {holders : List Holder}
    (hx : x.Reports []) (hf : ∀ a, x.result = .ok a → (f a).Reports holders) :
    (x >>= f).Reports holders :=
  hx.bind hf

/-- A list reports member by member. -/
lemma reports_each {f : α → Conversion β} {holders : α → List Holder} {as : List α}
    (h : ∀ a ∈ as, (f a).Reports (holders a)) : (each f as).Reports (as.flatMap holders) := by
  induction as with
  | nil => exact reports_pure []
  | cons a as ih =>
    rw [each, List.flatMap_cons]
    have hhead := h a List.mem_cons_self
    have htail := ih fun a' ha' => h a' (List.mem_cons_of_mem _ ha')
    exact hhead.bind fun b _ => htail.bind_pure

/-- A list whose members report nothing reports nothing. -/
lemma reports_each_nil {f : α → Conversion β} {as : List α} (h : ∀ a ∈ as, (f a).Reports []) :
    (each f as).Reports [] := by
  have hnil : (as.flatMap fun _ => ([] : List Holder)) = [] :=
    List.flatMap_eq_nil_iff.mpr fun _ _ => rfl
  have heach := reports_each h
  rwa [hnil] at heach

end Conversion

namespace Message

open Conversion

/-- Rebuilding a type reports nothing. -/
lemma TypeRef.reports_rebuild (m : TypeRef) : m.rebuild.Reports [] :=
  (reports_kindOfTag _ _).bind_pure

/-- Rebuilding a modifier reports nothing. -/
lemma Modifier.reports_rebuild (m : Modifier) : m.rebuild.Reports [] :=
  (reports_kindOfTag _ _).nil_bind fun _ _ => (reports_kindOfTag _ _).bind_pure

/-- Rebuilding an expression that may be left out reports nothing, if rebuilding the expression does
not. -/
lemma Expression.reports_rebuild? {o : Option Expression} (h : ∀ m ∈ o, m.rebuild.Reports []) :
    (Expression.rebuild? o).Reports [] := by
  cases o with
  | none => exact reports_pure _
  | some m => exact h m rfl

/-- Nothing is dropped below expressions and variables. -/
lemma reports_rebuild_nested :
    (∀ m : Expression, m.rebuild.Reports []) ∧ ∀ m : Variable, m.rebuild.Reports [] := by
  apply nested_induction
  · intro m iharguments ihdeclared ihoperands
    rw [Expression.rebuild_eq]
    refine (reports_kindOfTag _ _).nil_bind fun kind _ => ?_
    refine (TypeRef.reports_rebuild _).nil_bind fun newType _ => ?_
    refine Reports.nil_bind ?_ fun arguments _ => ?_
    · split
      · exact reports_each_nil iharguments
      · exact reports_pure _
    refine (reports_each_nil ihdeclared).nil_bind fun declared _ => ?_
    exact (reports_each_nil ihoperands).bind_pure
  · intro m ihinitializer
    rw [Variable.rebuild_eq]
    refine (reports_each_nil fun n _ => n.reports_rebuild).nil_bind fun modifiers _ => ?_
    refine (TypeRef.reports_rebuild _).nil_bind fun type _ => ?_
    exact (Expression.reports_rebuild? ihinitializer).bind_pure

/-- Rebuilding an expression reports nothing. -/
lemma Expression.reports_rebuild (m : Expression) : m.rebuild.Reports [] :=
  reports_rebuild_nested.1 m

/-- Rebuilding a variable reports nothing. -/
lemma Variable.reports_rebuild (m : Variable) : m.rebuild.Reports [] :=
  reports_rebuild_nested.2 m

/-- What a node at the last depth holds is dropped with a notice, unless it holds nothing. -/
lemma reports_dropped {α β : Type} {limits : Limits} {h : Holder} {n : Notice} {as : List α}
    (hn : h.Reported n) (hkept : h.kept limits = true) (hlast : h.last limits = true)
    (hheld : h.held = as.length) :
    (if as.isEmpty then pure [] else do note n; pure [] : Conversion (List β)).Reports
      ([h].filter (Holder.cut limits)) := by
  have hcut : h.cut limits = !as.isEmpty := by
    rw [Holder.cut, hkept, hlast, hheld]
    cases as <;> rfl
  rw [List.filter_singleton, hcut]
  cases as with
  | nil => exact reports_pure []
  | cons a as => exact (reports_note hn).bind_pure

/-- A statement that the limits reach reports the holders in it that are cut. -/
lemma Statement.reports_rebuild {limits : Limits} {outer : Nat} (m : Statement)
    (houter : Limits.reaches limits.declarations outer = true) :
    ∀ depth, Limits.reaches limits.statements depth = true →
      (m.rebuild limits depth).Reports ((m.holders outer depth).filter (Holder.cut limits)) := by
  induction m using Statement.nested_induction with
  | hstmt m ih =>
    intro depth hreach
    have hown : (Holder.statement outer depth m.kind m.statements.length).kept limits = true :=
      Bool.and_eq_true_iff.mpr ⟨houter, hreach⟩
    rw [Statement.rebuild_eq, Statement.filter_holders fun _ => Holder.kept_of_cut]
    refine (reports_kindOfTag _ _).nil_bind fun kind hkind => ?_
    refine (reports_each_nil fun e _ => e.reports_rebuild).nil_bind fun expressions _ => ?_
    refine (reports_each_nil fun e _ => e.reports_rebuild).nil_bind fun initializations _ => ?_
    refine (reports_each_nil fun e _ => e.reports_rebuild).nil_bind fun updates _ => ?_
    refine (Expression.reports_rebuild? fun e _ => e.reports_rebuild).nil_bind fun condition _ => ?_
    refine Reports.bind_pure ?_
    rcases Limits.reaches_cases hreach with ⟨hallow, hlimit⟩ | ⟨hallow, hlimit⟩
    · have hnone : [Holder.statement outer depth m.kind m.statements.length].filter
          (Holder.cut limits) = [] := by
        simp [Holder.cut, Holder.last, hlimit]
      rw [hnone, List.nil_append, if_pos hallow, if_pos hallow]
      refine reports_each fun s hs => ih s hs (depth + 1) ?_
      rwa [← Limits.allows_eq_reaches]
    · have hreported : (Holder.statement outer depth m.kind m.statements.length).Reported
          (.droppedStatements m.statements.length kind depth) := by
        rw [← kindOfTag_eq_ok_iff.mp hkind]
        exact .statement outer depth kind _
      rw [hallow, if_neg Bool.false_ne_true, if_neg Bool.false_ne_true, List.append_nil]
      exact reports_dropped hreported hown (decide_eq_true hlimit) rfl

/-- Rebuilding a method reports its holders that are cut. -/
lemma Method.reports_rebuild {limits : Limits} {outer : Nat} (m : Method)
    (houter : Limits.reaches limits.declarations outer = true) :
    (m.rebuild limits).Reports ((m.holders outer).filter (Holder.cut limits)) := by
  rw [Method.holders, List.filter_flatMap]
  refine (TypeRef.reports_rebuild _).nil_bind fun returnType _ => ?_
  refine (reports_each_nil fun n _ => n.reports_rebuild).nil_bind fun modifiers _ => ?_
  refine (reports_each_nil fun v _ => v.reports_rebuild).nil_bind fun arguments _ => ?_
  have hstatements : (each (Statement.rebuild limits 0) m.statements).Reports
      (m.statements.flatMap fun s => (s.holders outer 0).filter (Holder.cut limits)) :=
    reports_each fun s _ => s.reports_rebuild houter 0 (Limits.reaches_zero _)
  rw [← List.append_nil (List.flatMap _ _)]
  refine hstatements.bind fun statements _ => ?_
  exact (reports_each_nil fun e _ => e.reports_rebuild).bind_pure

/-- A declaration that the limits reach reports the holders in it that are cut, those in its methods
first. -/
lemma Declaration.reports_rebuild {limits : Limits} (m : Declaration) :
    ∀ depth, Limits.reaches limits.declarations depth = true →
      (m.rebuild limits depth).Reports ((m.holders depth).filter (Holder.cut limits)) := by
  induction m using Declaration.nested_induction with
  | hdecl m ih =>
    intro depth hreach
    rw [Declaration.rebuild_eq, Declaration.filter_holders fun _ => Holder.kept_of_cut]
    refine (reports_kindOfTag _ _).nil_bind fun kind _ => ?_
    refine (reports_each_nil fun n _ => n.reports_rebuild).nil_bind fun modifiers _ => ?_
    refine (reports_each_nil fun t _ => t.reports_rebuild).nil_bind fun parents _ => ?_
    refine (reports_each_nil fun v _ => v.reports_rebuild).nil_bind fun fields _ => ?_
    refine (reports_each fun n _ => n.reports_rebuild hreach).bind fun methods _ => ?_
    refine Reports.bind_pure ?_
    rcases Limits.reaches_cases hreach with ⟨hallow, hlimit⟩ | ⟨hallow, hlimit⟩
    · have hnone : [Holder.declaration depth m.name m.nested.length].filter
          (Holder.cut limits) = [] := by
        simp [Holder.cut, Holder.last, hlimit]
      rw [hnone, List.nil_append, if_pos hallow, if_pos hallow]
      refine reports_each fun d hd => ih d hd (depth + 1) ?_
      rwa [← Limits.allows_eq_reaches]
    · rw [hallow, if_neg Bool.false_ne_true, if_neg Bool.false_ne_true, List.append_nil]
      exact reports_dropped (.declaration depth m.name _) hreach (decide_eq_true hlimit) rfl

/-- Rebuilding a namespace reports its holders that are cut. -/
lemma Namespace.reports_rebuild {limits : Limits} (m : Namespace) :
    (m.rebuild limits).Reports (m.holders.filter (Holder.cut limits)) := by
  rw [Namespace.holders, List.filter_flatMap]
  refine (reports_each_nil fun n _ => n.reports_rebuild).nil_bind fun modifiers _ => ?_
  refine Reports.bind_pure (reports_each fun d _ => ?_)
  exact d.reports_rebuild 0 (Limits.reaches_zero _)

/-- Rebuilding the namespaces of a source file reports the holders that are cut. -/
lemma Root.reports_namespaces (limits : Limits) (m : Root) :
    (each (Namespace.rebuild limits) m.namespaces).Reports
      (m.holders.filter (Holder.cut limits)) := by
  rw [Root.holders, List.filter_flatMap]
  exact reports_each fun n _ => n.reports_rebuild

/-! ### The notices of a conversion -/

/-- The notices of a rebuilt source file: those about holders, then one about the whole. -/
lemma Root.notices_rebuild {limits : Limits} {m : Root} {t : Arbor.Root}
    (h : m.Rebuilds limits t) :
    ∃ dropped, (m.rebuild limits).notices =
        dropped ++ [.rebuilt t.imports.length t.namespaces.length] ∧
      List.Forall₂ Holder.Reported (m.holders.filter (Holder.cut limits)) dropped := by
  obtain ⟨first, -, hdropped, hall⟩ := m.reports_namespaces limits
  have hnamespaces : (each (Namespace.rebuild limits) m.namespaces).result = .ok t.namespaces := by
    simp only [each_eq_ok_iff, Namespace.rebuild_eq_ok_iff]
    exact h.namespaces
  rw [hall _ hnamespaces] at hdropped
  refine ⟨_, ?_, hdropped⟩
  rw [Root.rebuild, bind_def, andThen, hnamespaces, h.imports]
  rfl

/-- A source file that cannot be rebuilt has notices about holders only. -/
lemma Root.notices_rebuild_of_error {limits : Limits} {m : Root} {e : ConvertError}
    (h : (m.rebuild limits).result = .error e) :
    ∀ n ∈ (m.rebuild limits).notices, ∃ holder : Holder, holder.Reported n := by
  obtain ⟨first, -, hdropped, -⟩ := m.reports_namespaces limits
  cases hnamespaces : (each (Namespace.rebuild limits) m.namespaces).result with
  | error e' =>
    rw [Root.rebuild, bind_def, andThen, hnamespaces]
    exact forall_mem_of_forall₂ (fun holder _ _ hreported => ⟨holder, hreported⟩) hdropped
  | ok namespaces =>
    rw [Root.rebuild, bind_def, andThen, hnamespaces] at h
    cases h

/-- What is dropped is noted, and nothing else is.  If a message is converted to a tree, then the
tree has the holders that the limits keep.  There is one notice for each of them that is at the last
depth and holds something, in the order in which the message is rebuilt, and a last notice about the
whole tree.  There is no notice about a holder exactly if the message is converted to the same tree
without limits.  A conversion that fails does not say that the tree is complete. -/
theorem Root.notices_convert (limits : Limits) (m : Root) :
    (∀ t, (m.convert limits).result = .ok t →
      t.toMessage.holders =
          (m.holders.filter (Holder.kept limits)).map (Holder.emptied limits) ∧
        ∃ dropped,
          (m.convert limits).notices =
              dropped ++ [.rebuilt t.imports.length t.namespaces.length] ∧
            List.Forall₂ Holder.Reported (m.holders.filter (Holder.cut limits)) dropped ∧
            (dropped = [] ↔ (m.convert .unbounded).result = .ok t)) ∧
      ∀ e, (m.convert limits).result = .error e →
        ∀ imports namespaces, .rebuilt imports namespaces ∉ (m.convert limits).notices := by
  constructor
  · intro t h
    obtain ⟨hmisfit, hrebuilds⟩ := Root.convert_eq_ok_iff.mp h
    obtain ⟨dropped, hnotices, hdropped⟩ := Root.notices_rebuild hrebuilds
    have hconvert : m.convert limits = m.rebuild limits := by
      rw [Root.convert, hmisfit]
    have hnone : dropped = [] ↔ m.holders.filter (Holder.cut limits) = [] := by
      rw [← List.length_eq_zero_iff, ← List.length_eq_zero_iff, hdropped.length_eq]
    refine ⟨Root.holders_toMessage hrebuilds, dropped, hconvert ▸ hnotices, hdropped, ?_⟩
    rw [hnone, Root.uncut_iff_rebuilds_unbounded hrebuilds, Root.convert_eq_ok_iff]
    exact (and_iff_right hmisfit).symm
  · intro e h imports namespaces hmem
    cases hmisfit : m.misfit? with
    | some misfit =>
      rw [Root.convert, hmisfit] at hmem
      cases hmem
    | none =>
      rw [Root.convert, hmisfit] at h hmem
      obtain ⟨holder, hreported⟩ := Root.notices_rebuild_of_error h _ hmem
      cases hreported

/-- A declaration with a method whose statement holds two statements, one of them of a kind that
does not exist, and with a declaration nested in it. -/
def Root.cutTwice : Root where
  namespaces := [
    { declarations := [
        { name := "C",
          methods := [
            { statements := [{ kind := 3, statements := [{ kind := 13 }, { kind := 99 }] }] }],
          nested := [{ name := "D" }] }] }]

/-- If no nesting is allowed, then two notices say what is dropped, the one about the statement
first.  Without limits the conversion fails, since it looks at what was dropped. -/
theorem Root.notices_convert_cutTwice :
    let flat : Limits := { statements := some 0, declarations := some 0 }
    (∃ t dropped, (cutTwice.convert flat).result = .ok t ∧
      (cutTwice.convert flat).notices = dropped ++ [.rebuilt 0 1] ∧
      List.Forall₂ Holder.Reported [.statement 0 0 3 2, .declaration 0 "C" 1] dropped ∧
      dropped ≠ []) ∧
    (cutTwice.convert .unbounded).result = .error (.unknownKind "statement" 99) ∧
    .rebuilt 0 1 ∉ (cutTwice.convert .unbounded).notices := by
  intro flat
  have herror : (cutTwice.convert .unbounded).result = .error (.unknownKind "statement" 99) := rfl
  obtain ⟨-, dropped, hnotices, hdropped, hiff⟩ := (Root.notices_convert flat cutTwice).1 _ rfl
  refine ⟨⟨_, dropped, rfl, hnotices, hdropped, fun hnil => ?_⟩, herror,
    (Root.notices_convert .unbounded cutTwice).2 _ herror 0 1⟩
  have hsame := hiff.mp hnil
  rw [herror] at hsame
  cases hsame

end Message

end Arbor
