import Arbor.Node.Equality
import Arbor.Proofs.Thinning
import Arbor.Proofs.Wire.Whole

/-!
# Data put together

Serialized source files can be put together by putting their bytes one behind the other: the
tree of the whole has the imports of the first part and then those of the second, and the
namespaces likewise (`Root.ofBytes_append`).  If one of the parts gives no tree, neither does the
whole, and conversely.

Both parts have to consist of whole records (`Wire.Whole`).  A part that ends inside a record
would take the beginning of the other part for its own.
-/

namespace Arbor

/-- A list of two parts is related to another list part by part. -/
lemma forall₂_append_left_iff {α β : Type} {R : α → β → Prop} {as₁ as₂ : List α} {bs : List β} :
    List.Forall₂ R (as₁ ++ as₂) bs ↔
      ∃ bs₁ bs₂, List.Forall₂ R as₁ bs₁ ∧ List.Forall₂ R as₂ bs₂ ∧ bs = bs₁ ++ bs₂ := by
  constructor
  · intro h
    have hfirst := List.forall₂_take as₁.length h
    have hsecond := List.forall₂_drop as₁.length h
    rw [List.take_left] at hfirst
    rw [List.drop_left] at hsecond
    exact ⟨_, _, hfirst, hsecond, (List.take_append_drop _ bs).symm⟩
  · rintro ⟨bs₁, bs₂, hfirst, hsecond, rfl⟩
    exact List.rel_append hfirst hsecond

/-- The records of two source files give a tree exactly if those of each of them do. -/
lemma Message.Root.convert_ofRecords_append_iff {limits : Limits} {rs₁ rs₂ : List Wire.Record}
    {tree : Arbor.Root} :
    ((Root.ofRecords (rs₁ ++ rs₂)).convert limits).result = .ok tree ↔
      ∃ first second, ((Root.ofRecords rs₁).convert limits).result = .ok first ∧
        ((Root.ofRecords rs₂).convert limits).result = .ok second ∧
        tree = { imports := first.imports ++ second.imports,
                 namespaces := first.namespaces ++ second.namespaces } := by
  simp only [Root.convert_eq_ok_iff, Root.misfit?_eq_none_iff, Root.ofRecords_eq,
    List.filterMap_append, List.map_append, List.forall_mem_append]
  constructor
  · rintro ⟨⟨⟨hstray₁, hstray₂⟩, hbelow₁, hbelow₂⟩, himports, hnamespaces⟩
    obtain ⟨ns₁, ns₂, hns₁, hns₂, hns⟩ := forall₂_append_left_iff.mp hnamespaces
    refine ⟨⟨_, ns₁⟩, ⟨_, ns₂⟩, ⟨⟨hstray₁, hbelow₁⟩, rfl, hns₁⟩,
      ⟨⟨hstray₂, hbelow₂⟩, rfl, hns₂⟩, ?_⟩
    obtain ⟨imports, namespaces⟩ := tree
    cases himports
    cases hns
    rfl
  · rintro ⟨first, second, ⟨⟨hstray₁, hbelow₁⟩, himports₁, hns₁⟩,
      ⟨⟨hstray₂, hbelow₂⟩, himports₂, hns₂⟩, rfl⟩
    refine ⟨⟨⟨hstray₁, hstray₂⟩, hbelow₁, hbelow₂⟩, ?_,
      forall₂_append_left_iff.mpr ⟨_, _, hns₁, hns₂, rfl⟩⟩
    rw [himports₁, himports₂]

/-- Two parts of whole records give a tree together exactly if each of them gives one, under the
same limits, and then it has the imports and namespaces of the first part and behind them those
of the second.  Positions in the data have to fit 64 bits, as a decoder counts them so. -/
theorem Root.ofBytes_append (limits : Limits) {a b : Wire.Bytes} (ha : Wire.Whole a)
    (hb : Wire.Whole b) (hlength : (a ++ b).length < 0x10000000000000000) (tree : Root) :
    (Root.ofBytes limits (a ++ b)).result = .ok tree ↔
      ∃ first second, (Root.ofBytes limits a).result = .ok first ∧
        (Root.ofBytes limits b).result = .ok second ∧
        tree = { imports := first.imports ++ second.imports,
                 namespaces := first.namespaces ++ second.namespaces } := by
  have hconvert : ∀ {bytes t}, (Root.ofBytes limits bytes).result = .ok t ↔
      ∃ rs, Wire.decodeRoot bytes = .ok rs ∧
        ((Message.Root.ofRecords rs).convert limits).result = .ok t := by
    intro bytes t
    simp only [Root.ofBytes_eq_ok_iff, Message.Root.convert_eq_ok_iff]
  simp only [hconvert, Wire.decodeRoot_append ha hb hlength]
  constructor
  · rintro ⟨rs, ⟨rs₁, rs₂, hrs₁, hrs₂, rfl⟩, htree⟩
    obtain ⟨first, second, hfirst, hsecond, rfl⟩ :=
      Message.Root.convert_ofRecords_append_iff.mp htree
    exact ⟨first, second, ⟨rs₁, hrs₁, hfirst⟩, ⟨rs₂, hrs₂, hsecond⟩, rfl⟩
  · rintro ⟨first, second, ⟨rs₁, hrs₁, hfirst⟩, ⟨rs₂, hrs₂, hsecond⟩, rfl⟩
    exact ⟨rs₁ ++ rs₂, ⟨rs₁, rs₂, hrs₁, hrs₂, rfl⟩,
      Message.Root.convert_ofRecords_append_iff.mpr ⟨first, second, hfirst, hsecond, rfl⟩⟩

/-- An import, and a number under a number of no field. -/
def Root.importAndStray : Wire.Bytes :=
  [0x0a, 0x01, 0x61, 0x78, 0x05]

/-- A namespace and an import. -/
def Root.namespaceAndImport : Wire.Bytes :=
  [0x12, 0x03, 0x0a, 0x01, 0x62, 0x0a, 0x01, 0x63]

/-- The imports of both parts come together, also if a namespace stands between them. -/
theorem Root.ofBytes_append_importAndStray :
    Wire.Whole importAndStray ∧ Wire.Whole namespaceAndImport ∧
      (Root.ofBytes {} (importAndStray ++ namespaceAndImport)).result =
        .ok { imports := ["a", "c"], namespaces := [{ name := "b" }] } := by
  have hdigit : ∀ b : UInt8, b.toNat < 128 → Wire.Numeral [b] b.toNat := fun _ => .last
  have hone : ∀ c : UInt8, Wire.Value .delimited ([0x01] ++ [c]) := fun _ =>
    .delimited (hdigit 1 (by decide))
  have hthree : Wire.Value .delimited ([0x03] ++ [0x0a, 0x01, 0x62]) :=
    .delimited (hdigit 3 (by decide))
  have hfive : Wire.Value .varint [0x05] := .varint (hdigit 5 (by decide))
  have hfirst : Wire.Whole importAndStray :=
    .cons (hdigit 0x0a (by decide)) rfl (hone 0x61) <|
      .cons (hdigit 0x78 (by decide)) rfl hfive .nil
  have hsecond : Wire.Whole namespaceAndImport :=
    .cons (hdigit 0x12 (by decide)) rfl hthree <|
      .cons (hdigit 0x0a (by decide)) rfl (hone 0x63) .nil
  refine ⟨hfirst, hsecond, ?_⟩
  refine (Root.ofBytes_append {} hfirst hsecond (by decide) _).mpr ?_
  exact ⟨{ imports := ["a"] }, { imports := ["c"], namespaces := [{ name := "b" }] },
    by decide +kernel, by decide +kernel, rfl⟩

end Arbor
