import Arbor.Proofs.Layers
import Arbor.Proofs.Normalization

/-!
# How deep converted trees are

A decoder goes a fixed number of levels into nested messages.  A step down in a tree is a step
into a nested message, or it leads to a single child that has no message: the placeholder or the
unnamed type.  Nothing is below that type, and nothing but that type is below the placeholder, so
there are at most two steps of the second kind, at the end (`Node.length_le_of_at?`).

`Root.depth_bounded` draws the conclusions for all that goes down a converted tree or the message
that it is converted from.
-/

namespace Arbor

/-! ### Steps down -/

/-- A child that has a message nests messages one level less than its parent. -/
lemma Node.nesting_lt_of_mem_written {n c : Node} {slot : Slot} (hslot : slot ∈ n.slots)
    (hc : c ∈ slot.written) : Wire.nesting c.records < Wire.nesting n.records := by
  have hmem : c.records ∈ (n.slots.flatMap Slot.written).map Node.records :=
    List.mem_map_of_mem (List.mem_flatMap.mpr ⟨slot, hslot, hc⟩)
  exact Wire.nesting_lt_of_mem_bodies (n.perm_bodies_records.mem_iff.mpr hmem)

/-- A step down leads into a nested message, or to a node without one. -/
lemma Node.nesting_child? {n c : Node} {k : Nat × Nat} (h : n.child? k = some c) :
    Wire.nesting c.records < Wire.nesting n.records ∨ c = .expr .placeholder ∨ c = .type {} := by
  obtain ⟨slot, hslot, hc⟩ := Node.exists_slot_of_child? h
  rcases Slot.mem_written_or hc with hwritten | hblank
  · exact .inl (Node.nesting_lt_of_mem_written hslot hwritten)
  · exact .inr hblank

/-- A node stands no more than two levels deeper than messages are nested.  The induction goes down
the position: a step into a message uses up one level, a step to a node without a message is
followed by at most one more. -/
theorem Node.length_le_of_at? {n m : Node} {x : Position} (h : n.at? x = some m) :
    x.length ≤ Wire.nesting n.records + 2 ∧
      (Wire.nesting n.records < x.length → m = .expr .placeholder ∨ m = .type {}) := by
  induction x generalizing n with
  | nil => exact ⟨Nat.zero_le _, fun hlt => absurd hlt (Nat.not_lt_zero _)⟩
  | cons k x ih =>
    obtain ⟨c, hc, hm⟩ := Option.bind_eq_some_iff.mp h
    rw [List.length_cons]
    rcases Node.nesting_child? hc with hlt | rfl | rfl
    · obtain ⟨hlength, hblank⟩ := ih hm
      exact ⟨by omega, fun hdeep => hblank (by omega)⟩
    · obtain ⟨hlength, hblank⟩ := Node.at?_placeholder hm
      exact ⟨by omega, fun _ => hblank⟩
    · obtain ⟨rfl, rfl⟩ := Node.at?_type hm
      exact ⟨by rw [List.length_nil]; omega, fun _ => .inr rfl⟩

/-! ### Depths of statements and declarations -/

/-- Keep the same number of levels of statements and of declarations. -/
def Limits.both (max : Nat) : Limits where
  statements := some max
  declarations := some max

/-- A statement is within a limit that its records do not nest beyond. -/
lemma Statement.within_both {max : Nat} (s : Statement) :
    ∀ depth, depth + Wire.nesting s.toMessage.records ≤ max →
      s.within (.both max) depth = true := by
  induction s using Statement.nested_induction with
  | hstmt s ih =>
    intro depth h
    refine Statement.within_iff.mpr ⟨decide_eq_true (by omega), fun s' hs' => ?_⟩
    have hlt : Wire.nesting s'.toMessage.records < Wire.nesting s.toMessage.records := by
      have hslot : Slot.many (s.statements.map .stmt) ∈ (Node.stmt s).slots := by
        simp [Node.slots]
      exact Node.nesting_lt_of_mem_written (c := .stmt s') hslot (List.mem_map_of_mem hs')
    exact ih s' hs' (depth + 1) (by omega)

/-- A method is within a limit that its records do not nest beyond. -/
lemma Method.within_both {max : Nat} {m : Method}
    (h : Wire.nesting m.toMessage.records ≤ max) : m.within (.both max) = true := by
  refine List.all_eq_true.mpr fun s hs => s.within_both 0 ?_
  have hlt : Wire.nesting s.toMessage.records < Wire.nesting m.toMessage.records := by
    have hslot : Slot.many (m.statements.map .stmt) ∈ (Node.method m).slots := by
      simp [Node.slots]
    exact Node.nesting_lt_of_mem_written (c := .stmt s) hslot (List.mem_map_of_mem hs)
  omega

/-- A declaration is within a limit that its records do not nest beyond. -/
lemma Declaration.within_both {max : Nat} (d : Declaration) :
    ∀ depth, depth + Wire.nesting d.toMessage.records ≤ max →
      d.within (.both max) depth = true := by
  induction d using Declaration.nested_induction with
  | hdecl d ih =>
    intro depth h
    refine Declaration.within_iff.mpr
      ⟨decide_eq_true (by omega), fun m hm => ?_, fun d' hd' => ?_⟩
    · have hslot : Slot.many (d.methods.map .method) ∈ (Node.decl d).slots := by
        simp [Node.slots]
      have hlt : Wire.nesting m.toMessage.records < Wire.nesting d.toMessage.records :=
        Node.nesting_lt_of_mem_written (c := .method m) hslot (List.mem_map_of_mem hm)
      exact Method.within_both (by omega)
    · have hslot : Slot.many (d.nested.map .decl) ∈ (Node.decl d).slots := by
        simp [Node.slots]
      have hlt : Wire.nesting d'.toMessage.records < Wire.nesting d.toMessage.records :=
        Node.nesting_lt_of_mem_written (c := .decl d') hslot (List.mem_map_of_mem hd')
      exact ih d' hd' (depth + 1) (by omega)

/-- Statements and declarations are nested no deeper than messages. -/
lemma Root.within_both {max : Nat} {t : Root} (h : Wire.nesting t.toMessage.records ≤ max) :
    t.within (.both max) = true := by
  refine List.all_eq_true.mpr fun n hn => List.all_eq_true.mpr fun d hd => d.within_both 0 ?_
  have hns : Wire.nesting n.toMessage.records < Wire.nesting t.toMessage.records := by
    have hslot : Slot.many (t.namespaces.map .ns) ∈ (Node.root t).slots := by
      simp [Node.slots]
    exact Node.nesting_lt_of_mem_written (c := .ns n) hslot (List.mem_map_of_mem hn)
  have hdecl : Wire.nesting d.toMessage.records < Wire.nesting n.toMessage.records := by
    have hslot : Slot.many (n.declarations.map .decl) ∈ (Node.ns n).slots := by
      simp [Node.slots]
    exact Node.nesting_lt_of_mem_written (c := .decl d) hslot (List.mem_map_of_mem hd)
  omega

/-! ### Converted trees -/

/-- All that goes down a converted tree, or the message it is converted from, comes to an end
soon.  The message, with all that the limits drop from it, is nested no deeper than a decoder goes.
The nodes of the tree stand at most two levels deeper, and those that are deeper than messages can
be are placeholders and unnamed types; so every walk keeps to these levels.  The depths at which
statements and declarations are converted do not exceed the levels of a decoder. -/
theorem Root.depth_bounded (limits : Limits) (bytes : Wire.Bytes) (t : Root)
    (h : (Root.ofBytes limits bytes).result = .ok t) :
    (∃ rs, Wire.decodeRoot bytes = .ok rs ∧
        Wire.nesting (Message.Root.ofRecords rs).records ≤ Wire.maxLevel) ∧
      (∀ x m, (Node.root t).at? x = some m →
        x.length ≤ Wire.maxLevel + 2 ∧
          (Wire.maxLevel < x.length → m = .expr .placeholder ∨ m = .type {})) ∧
      (∀ (σ : Type) (v : Visitor Node σ) (s : σ), ∀ c ∈ (Node.root t).calls v s,
        c.position.length ≤ Wire.maxLevel + 2) ∧
      t.within (.both Wire.maxLevel) = true := by
  have hnesting : Wire.nesting (Node.root t).records ≤ Wire.maxLevel :=
    (Root.bounded_of_ofBytes h).nesting_le
  have hlevels : ∀ x m, (Node.root t).at? x = some m → x.length ≤ Wire.maxLevel + 2 ∧
      (Wire.maxLevel < x.length → m = .expr .placeholder ∨ m = .type {}) := by
    intro x m hm
    obtain ⟨hlength, hblank⟩ := Node.length_le_of_at? hm
    exact ⟨by omega, fun hdeep => hblank (by omega)⟩
  refine ⟨?_, hlevels, ?_, Root.within_both hnesting⟩
  · obtain ⟨rs, hrs, -, -⟩ := Root.ofBytes_eq_ok_iff.mp h
    have hdecoded := Wire.decode_bounded hrs (Nat.zero_le _)
    exact ⟨rs, hrs, (hdecoded.thinned (Message.Root.thinned_ofRecords rs)).nesting_le⟩
  · intro σ v s c hc
    exact (hlevels c.position c.node (Node.at?_of_mem_calls hc)).1

/-- A variable that is declared inside the initializer of another, and so on. -/
def Variable.tower : Nat → Variable
  | 0 => { initializer := .placeholder }
  | count + 1 => { initializer := { declared := [tower count] } }

/-- A tree that is as deep as a converted tree can be: the innermost of the variables has the last
message, and below it are a placeholder and its type. -/
def Root.deepest : Root where
  namespaces := [
    { declarations := [
        { methods := [{ arguments := [.tower 48] }] }] }]

/-- The deepest tree that can be decoded comes back and reaches the bound. -/
theorem Root.depth_bounded_deepest :
    (Root.ofBytes .unbounded deepest.toBytes).result = .ok deepest ∧
      (∃ x, (Node.root deepest).at? x = some (.type {}) ∧ x.length = Wire.maxLevel + 2) ∧
      (∀ x m, (Node.root deepest).at? x = some m → x.length ≤ Wire.maxLevel + 2) ∧
      deepest.within (.both Wire.maxLevel) = true := by
  have hdecode : Wire.decodeRoot deepest.toBytes = .ok deepest.toMessage.records :=
    Root.decodeRoot_toBytes (by decide +kernel) (by decide +kernel)
  have hconvert : (Root.ofBytes .unbounded deepest.toBytes).result = .ok deepest :=
    Root.ofBytes_toBytes_of_decodeRoot hdecode deepest.within_unbounded (by decide +kernel)
  obtain ⟨-, hlevels, -, hwithin⟩ := Root.depth_bounded .unbounded deepest.toBytes deepest hconvert
  refine ⟨hconvert, ⟨?_, ?_, ?_⟩, fun x m hm => (hlevels x m hm).1, hwithin⟩
  · exact [(0, 0), (1, 0), (3, 0), (1, 0)] ++
      (List.replicate 48 [(2, 0), (1, 0)]).flatten ++ [(2, 0), (3, 0)]
  · rfl
  · rfl

end Arbor
