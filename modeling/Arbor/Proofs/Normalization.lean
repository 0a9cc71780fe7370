import Arbor.Node.Equality
import Arbor.Proofs.Thinning

/-!
# Converting brings data into normal form

Many byte strings give one tree: numbers may be written with more bytes than necessary, single
fields may be repeated, records that fit no field are skipped, defaults may be spelled out.
The tree itself has a normal form, its canonical bytes.

A converted tree keeps to the limits (`Message.Root.Rebuilds.within`) and has arguments on
method calls only (`Message.Root.Rebuilds.argumentsOnCalls`).  Its canonical bytes nest messages
no deeper than the data it came from, so they can be decoded, and they give the tree once more
(`Root.ofBytes_canonicalizes`).
-/

namespace Arbor

namespace Message

/-! ### Members of rebuilt lists -/

section Members

variable {α β : Type} {R : α → β → Prop} {Q : β → Prop} {as : List α} {bs : List β}

/-- What holds of everything that is rebuilt holds of all members of a list that is rebuilt on a
condition. -/
lemma forall_mem_of_kept {p : Prop} [Decidable p] (hQ : p → ∀ a ∈ as, ∀ b, R a b → Q b)
    (h : if p then List.Forall₂ R as bs else bs = []) : ∀ b ∈ bs, Q b := by
  split at h
  · next hp => exact forall_mem_of_forall₂ (hQ hp) h
  · rw [h]
    exact fun b hb => nomatch hb

end Members

/-! ### Rebuilt trees keep to the limits -/

/-- A rebuilt statement is within the limits. -/
lemma Statement.within_rebuild (limits : Limits) (m : Statement) :
    ∀ depth s, Limits.reaches limits.statements depth = true →
      (m.rebuild limits depth).result = .ok s → s.within limits depth = true := by
  induction m using Statement.nested_induction with
  | hstmt m ih =>
    intro depth s hdepth h
    have hm := Statement.rebuild_eq_ok_iff.mp h
    refine Arbor.Statement.within_iff.mpr ⟨hdepth, forall_mem_of_kept ?_ hm.statements⟩
    intro hallow m' hm' s' hs'
    rw [Limits.allows_eq_reaches] at hallow
    exact ih m' hm' (depth + 1) s' hallow hs'

/-- A rebuilt method is within the limits. -/
lemma Method.Rebuilds.within {limits : Limits} {m : Method} {n : Arbor.Method}
    (h : m.Rebuilds limits n) : n.within limits = true := by
  refine List.all_eq_true.mpr (forall_mem_of_forall₂ ?_ h.statements)
  intro m' _ s hs
  exact m'.within_rebuild limits 0 s (Limits.reaches_zero _) hs

/-- A rebuilt declaration is within the limits. -/
lemma Declaration.within_rebuild (limits : Limits) (m : Declaration) :
    ∀ depth d, Limits.reaches limits.declarations depth = true →
      (m.rebuild limits depth).result = .ok d → d.within limits depth = true := by
  induction m using Declaration.nested_induction with
  | hdecl m ih =>
    intro depth d hdepth h
    have hm := Declaration.rebuild_eq_ok_iff.mp h
    have hmethods : ∀ n ∈ d.methods, n.within limits = true :=
      forall_mem_of_forall₂ (fun _ _ _ hn => hn.within) hm.methods
    refine Arbor.Declaration.within_iff.mpr ⟨hdepth, hmethods, forall_mem_of_kept ?_ hm.nested⟩
    intro hallow m' hm' d' hd'
    rw [Limits.allows_eq_reaches] at hallow
    exact ih m' hm' (depth + 1) d' hallow hd'

/-- A rebuilt tree has nothing that is nested deeper than the limits reach. -/
theorem Root.Rebuilds.within {limits : Limits} {m : Root} {t : Arbor.Root}
    (h : m.Rebuilds limits t) : t.within limits = true := by
  refine List.all_eq_true.mpr (forall_mem_of_forall₂ ?_ h.namespaces)
  intro m' _ n hn
  refine List.all_eq_true.mpr (forall_mem_of_forall₂ ?_ hn.declarations)
  intro m'' _ d hd
  exact m''.within_rebuild limits 0 d (Limits.reaches_zero _) (Declaration.rebuild_eq_ok_iff.mpr hd)

/-! ### Rebuilt trees have arguments on method calls only -/

/-- An expression in the place of an absent one is the placeholder, which has no arguments. -/
lemma Expression.argumentsOnCalls_rebuild? {o : Option Expression} {e : Arbor.Expression}
    (hcalls : ∀ m ∈ o, ∀ e, m.rebuild.result = .ok e → e.argumentsOnCalls = true)
    (h : (Expression.rebuild? o).result = .ok e) : e.argumentsOnCalls = true := by
  cases o with
  | none =>
    cases h
    rfl
  | some m => exact hcalls m rfl e h

/-- Expressions and variables contain each other, so one induction shows that rebuilding leaves
arguments on method calls only. -/
lemma argumentsOnCalls_rebuild_nested :
    (∀ m : Expression, ∀ e, m.rebuild.result = .ok e → e.argumentsOnCalls = true) ∧
      ∀ m : Variable, ∀ v, m.rebuild.result = .ok v → v.argumentsOnCalls = true := by
  apply nested_induction
  · intro m iharguments ihdeclared ihoperands e h
    have hm := Expression.rebuild_eq_ok_iff.mp h
    have hcall : e.kind = .methodCall ∨ e.arguments = [] := by
      have harguments := hm.arguments
      split at harguments
      · next hkind => exact .inl hkind
      · exact .inr harguments
    exact Arbor.Expression.argumentsOnCalls_iff.mpr
      ⟨hcall, forall_mem_of_kept (fun _ => iharguments) hm.arguments,
        forall_mem_of_forall₂ ihdeclared hm.declared,
        forall_mem_of_forall₂ ihoperands hm.operands⟩
  · intro m ihinitializer v h
    have hm := Variable.rebuild_eq_ok_iff.mp h
    exact Arbor.Variable.argumentsOnCalls_iff.mpr
      (Expression.argumentsOnCalls_rebuild? ihinitializer hm.initializer)

/-- A rebuilt expression has arguments on method calls only. -/
lemma Expression.argumentsOnCalls_rebuild (m : Expression) (e : Arbor.Expression)
    (h : m.rebuild.result = .ok e) : e.argumentsOnCalls = true :=
  argumentsOnCalls_rebuild_nested.1 m e h

/-- A rebuilt variable has arguments on method calls only. -/
lemma Variable.argumentsOnCalls_rebuild (m : Variable) (v : Arbor.Variable)
    (h : m.rebuild.result = .ok v) : v.argumentsOnCalls = true :=
  argumentsOnCalls_rebuild_nested.2 m v h

/-- A rebuilt statement has arguments on method calls only. -/
lemma Statement.argumentsOnCalls_rebuild (limits : Limits) (m : Statement) :
    ∀ depth s, (m.rebuild limits depth).result = .ok s → s.argumentsOnCalls = true := by
  induction m using Statement.nested_induction with
  | hstmt m ih =>
    intro depth s h
    have hm := Statement.rebuild_eq_ok_iff.mp h
    have hexpr := Expression.argumentsOnCalls_rebuild
    exact Arbor.Statement.argumentsOnCalls_iff.mpr
      ⟨forall_mem_of_forall₂ (fun m' _ => hexpr m') hm.expressions,
        Expression.argumentsOnCalls_rebuild? (fun m' _ => hexpr m') hm.condition,
        forall_mem_of_kept (fun _ m' hm' => ih m' hm' (depth + 1)) hm.statements,
        forall_mem_of_forall₂ (fun m' _ => hexpr m') hm.initializations,
        forall_mem_of_forall₂ (fun m' _ => hexpr m') hm.updates⟩

/-- A rebuilt method has arguments on method calls only. -/
lemma Method.Rebuilds.argumentsOnCalls {limits : Limits} {m : Method} {n : Arbor.Method}
    (h : m.Rebuilds limits n) : n.argumentsOnCalls = true :=
  Arbor.Method.argumentsOnCalls_iff.mpr
    ⟨forall_mem_of_forall₂ (fun m' _ => m'.argumentsOnCalls_rebuild) h.arguments,
      forall_mem_of_forall₂ (fun m' _ => m'.argumentsOnCalls_rebuild limits 0) h.statements,
      forall_mem_of_forall₂ (fun m' _ => m'.argumentsOnCalls_rebuild) h.content⟩

/-- A rebuilt declaration has arguments on method calls only. -/
lemma Declaration.argumentsOnCalls_rebuild (limits : Limits) (m : Declaration) :
    ∀ depth d, (m.rebuild limits depth).result = .ok d → d.argumentsOnCalls = true := by
  induction m using Declaration.nested_induction with
  | hdecl m ih =>
    intro depth d h
    have hm := Declaration.rebuild_eq_ok_iff.mp h
    exact Arbor.Declaration.argumentsOnCalls_iff.mpr
      ⟨forall_mem_of_forall₂ (fun m' _ => m'.argumentsOnCalls_rebuild) hm.fields,
        forall_mem_of_forall₂ (fun _ _ _ hn => hn.argumentsOnCalls) hm.methods,
        forall_mem_of_kept (fun _ m' hm' => ih m' hm' (depth + 1)) hm.nested⟩

/-- A rebuilt tree has arguments on method calls only. -/
theorem Root.Rebuilds.argumentsOnCalls {limits : Limits} {m : Root} {t : Arbor.Root}
    (h : m.Rebuilds limits t) : t.argumentsOnCalls = true := by
  refine List.all_eq_true.mpr (forall_mem_of_forall₂ ?_ h.namespaces)
  intro m' _ n hn
  refine List.all_eq_true.mpr (forall_mem_of_forall₂ ?_ hn.declarations)
  intro m'' _ d hd
  exact m''.argumentsOnCalls_rebuild limits 0 d (Declaration.rebuild_eq_ok_iff.mpr hd)

end Message

/-! ### Trees without limits -/

/-- Every statement is within no limits. -/
lemma Statement.within_unbounded (s : Statement) : ∀ depth, s.within .unbounded depth = true := by
  induction s using Statement.nested_induction with
  | hstmt s ih => exact fun depth => Statement.within_iff.mpr ⟨rfl, fun s' hs' => ih s' hs' _⟩

/-- Every declaration is within no limits. -/
lemma Declaration.within_unbounded (d : Declaration) :
    ∀ depth, d.within .unbounded depth = true := by
  induction d using Declaration.nested_induction with
  | hdecl d ih =>
    intro depth
    have hmethods : ∀ m ∈ d.methods, m.within .unbounded = true :=
      fun m _ => List.all_eq_true.mpr fun s _ => s.within_unbounded 0
    exact Declaration.within_iff.mpr ⟨rfl, hmethods, fun d' hd' => ih d' hd' _⟩

/-- Without limits there is nothing to be lost to them. -/
lemma Root.within_unbounded (t : Root) : t.within .unbounded = true :=
  List.all_eq_true.mpr fun _ _ => List.all_eq_true.mpr fun d _ => d.within_unbounded 0

/-! ### The normal form -/

/-- The records of a message of a tree leave no misfit. -/
lemma Root.misfit?_ofRecords_records (t : Root) :
    (Message.Root.ofRecords t.toMessage.records).misfit? = none := by
  rw [Message.Root.misfit?_ofRecords]
  exact Wire.clean_of_fits _ _ t.fits_records

/-- If the canonical bytes of a tree can be decoded, they give the tree, under all limits that it
keeps to. -/
lemma Root.ofBytes_toBytes_of_decodeRoot {limits : Limits} {t : Root}
    (hdecode : Wire.decodeRoot t.toBytes = .ok t.toMessage.records)
    (hwithin : t.within limits = true) (hcalls : t.argumentsOnCalls = true) :
    (Root.ofBytes limits t.toBytes).result = .ok t := by
  refine Root.ofBytes_eq_ok_iff.mpr ⟨_, hdecode, t.misfit?_ofRecords_records, ?_⟩
  rw [Root.ofRecords_records]
  exact Root.rebuilds_toMessage hwithin hcalls

/-- A converted tree keeps to the limits and has arguments on method calls only.  Its canonical
bytes are not nested too deep for a decoder, and they give the tree again, under the same limits
and without limits.  Positions in the data have to fit 64 bits, as a decoder counts them so. -/
theorem Root.ofBytes_canonicalizes (limits : Limits) (bytes : Wire.Bytes) (t : Root)
    (h : (Root.ofBytes limits bytes).result = .ok t) :
    t.within limits = true ∧ t.argumentsOnCalls = true ∧
      Wire.nesting t.toMessage.records ≤ Wire.maxLevel ∧
      (bytes.length < 0x10000000000000000 →
        (Root.ofBytes limits t.toBytes).result = .ok t ∧
          (Root.ofBytes .unbounded t.toBytes).result = .ok t) := by
  obtain ⟨rs, -, -, hrebuilds⟩ := Root.ofBytes_eq_ok_iff.mp h
  have hwithin := hrebuilds.within
  have hcalls := hrebuilds.argumentsOnCalls
  have hbounded := Root.bounded_of_ofBytes h
  have hnesting := hbounded.nesting_le
  refine ⟨hwithin, hcalls, hnesting, fun hlength => ?_⟩
  have hdecode : Wire.decodeRoot t.toBytes = .ok t.toMessage.records :=
    Root.decodeRoot_toBytes_of_longest hnesting (Nat.lt_of_le_of_lt hbounded.length hlength)
      hbounded.longest
  exact ⟨Root.ofBytes_toBytes_of_decodeRoot hdecode hwithin hcalls,
    Root.ofBytes_toBytes_of_decodeRoot hdecode t.within_unbounded hcalls⟩

/-- Data that is not in normal form: the import stands last, a name is given twice, a kind is
written with a byte too many and another is a default, a record fits no field, an expression that
is no method call has an argument, and a statement and a declaration are nested. -/
def Root.untidyBytes : Wire.Bytes :=
  [0x12, 0x1d, 0x1a, 0x1b, 0x2a, 0x13, 0x0a, 0x01, 0x61, 0x0a, 0x01, 0x62, 0x2a, 0x0b, 0x08, 0x01,
    0x12, 0x05, 0x08, 0x81, 0x00, 0x2a, 0x00, 0x22, 0x00, 0x10, 0x00, 0x78, 0x01, 0x3a, 0x00, 0x0a,
    0x01, 0x78]

/-- The tree of the untidy data. -/
def Root.tidied : Root where
  imports := ["x"]
  namespaces := [
    { declarations := [
        { methods := [
            { name := "b",
              statements := [{ kind := .block, expressions := [{ kind := .assign }] }] }] }] }]

/-- Bytes that are not canonical, under limits that keep the outermost levels only. -/
theorem Root.ofBytes_canonicalizes_untidyBytes :
    let limits : Limits := { statements := some 0, declarations := some 0 }
    (Root.ofBytes limits untidyBytes).result = .ok tidied ∧
      (tidied.within limits = true ∧ tidied.argumentsOnCalls = true ∧
        Wire.nesting tidied.toMessage.records ≤ Wire.maxLevel) ∧
      tidied.toBytes ≠ untidyBytes ∧
      (Root.ofBytes limits tidied.toBytes).result = .ok tidied ∧
      (Root.ofBytes .unbounded tidied.toBytes).result = .ok tidied := by
  intro limits
  have htree : (Root.ofBytes limits untidyBytes).result = .ok tidied := by
    decide +kernel
  obtain ⟨hwithin, hcalls, hnesting, hagain⟩ :=
    Root.ofBytes_canonicalizes limits untidyBytes tidied htree
  exact ⟨htree, ⟨hwithin, hcalls, hnesting⟩, by decide +kernel, hagain (by decide)⟩

end Arbor
