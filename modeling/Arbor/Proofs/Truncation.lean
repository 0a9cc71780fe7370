import Arbor.Node.Equality
import Arbor.Proofs.Failures
import Arbor.Proofs.Wire.Seam

/-!
# Data whose end is missing

Serialized data that gives a tree is cut somewhere, and what is left is converted.  Two things
happen.

* If the cut is between two records of the source file, then what is left gives a tree with the
  imports and namespaces of the records that are left, since a later record never changes what
  an earlier one has given (`Message.Root.convert_ofRecords_append`).
* What is left is malformed exactly if the cut is at no seam.  A cut between two records of a
  message inside the source file is a seam, so it goes unnoticed: a message may end before its
  length is used up, if the data ends there.

`Root.ofBytes_of_append` states both, and `Root.ofBytes_overlooks_cut` shows data with a cut that
goes unnoticed.
-/

namespace Arbor

/-- A source file that is made of the first of the records has the first of the imports and
namespaces. -/
lemma Message.Root.convert_ofRecords_append {limits : Limits} {rs₁ rs₂ : List Wire.Record}
    {tree : Arbor.Root}
    (h : ((Root.ofRecords (rs₁ ++ rs₂)).convert limits).result = .ok tree) :
    ((Root.ofRecords rs₁).convert limits).result =
      .ok { imports := tree.imports.take (rs₁.filterMap (Wire.Record.text? 1)).length,
            namespaces := tree.namespaces.take (rs₁.filterMap (Wire.Record.body? 2)).length } := by
  obtain ⟨hmisfit, hrebuilds⟩ := Root.convert_eq_ok_iff.mp h
  have himports := hrebuilds.imports
  have hnamespaces := hrebuilds.namespaces
  simp only [Root.misfit?_eq_none_iff, Root.ofRecords_eq, List.filterMap_append, List.map_append,
    List.forall_mem_append] at hmisfit himports hnamespaces
  rw [Root.convert_eq_ok_iff, Root.misfit?_eq_none_iff, Root.ofRecords_eq]
  refine ⟨⟨hmisfit.1.1, hmisfit.2.1⟩, ?_, ?_⟩
  · rw [himports, List.take_left]
  · have hfirst := List.forall₂_take (rs₁.filterMap (Wire.Record.body? 2)).length hnamespaces
    rwa [List.take_left' (List.length_map _)] at hfirst

/-- What cannot be decoded is malformed, and nothing else is. -/
lemma Root.ofBytes_eq_malformed_iff {limits : Limits} {bytes : Wire.Bytes} :
    (∃ fault, (Root.ofBytes limits bytes).result = .error (.malformed fault)) ↔
      ¬ ∃ rs, Wire.decodeRoot bytes = .ok rs := by
  unfold Root.ofBytes
  split
  · next fault hdecode =>
    refine ⟨fun _ => ?_, fun _ => ⟨fault, rfl⟩⟩
    rintro ⟨rs, hrs⟩
    cases hdecode.symm.trans hrs
  · next rs hdecode =>
    refine ⟨?_, fun h => absurd ⟨rs, hdecode⟩ h⟩
    rintro ⟨fault, hfault⟩
    exact absurd hfault Message.Root.convert_ne_malformed

/-- Data that gives a tree is cut into `p` and `q`.  If `p` ends with a record of the source
file, then it gives the tree with the imports and namespaces of its records, the first ones of
the whole.  It is malformed exactly if it ends at no seam: inside a record and not between two
records of a message in it. -/
theorem Root.ofBytes_of_append (limits : Limits) {p q : Wire.Bytes} {tree : Root}
    (h : (Root.ofBytes limits (p ++ q)).result = .ok tree) :
    (∀ pieces, Wire.Leading pieces p q →
      (Root.ofBytes limits p).result =
        .ok { imports := tree.imports.take (pieces.countP (Wire.Piece.fills 1)),
              namespaces := tree.namespaces.take (pieces.countP (Wire.Piece.fills 2)) }) ∧
      ((∃ fault, (Root.ofBytes limits p).result = .error (.malformed fault)) ↔
        ¬ Wire.Seam .root p q) := by
  have hdecode : ∃ rs, Wire.decodeRoot (p ++ q) = .ok rs ∧
      ((Message.Root.ofRecords rs).convert limits).result = .ok tree := by
    unfold Root.ofBytes at h
    split at h
    · cases h
    · next rs hrs => exact ⟨rs, hrs, h⟩
  obtain ⟨rs, hrs, hconvert⟩ := hdecode
  have hframe : Wire.decodeRoot p =
      Wire.decode .root ((Wire.Frame.outermost (p ++ q)).short q.length) p := by
    rw [Wire.Frame.outermost_append]
    rfl
  constructor
  · intro pieces hleading
    obtain ⟨rs₁, rs₂, rfl, hrs₁, htally⟩ := Wire.decode_of_leading hleading hrs
    rw [← hframe] at hrs₁
    rw [← htally.texts 1 "imports" rfl, ← htally.messages 2 "namespaces" .ns rfl,
      Root.ofBytes, hrs₁]
    exact Message.Root.convert_ofRecords_append hconvert
  · rw [Root.ofBytes_eq_malformed_iff, hframe, Wire.decode_short_iff_seam hrs]

/-- An import and a namespace. -/
def Root.importAndNamespace : Wire.Bytes :=
  [0x0a, 0x01, 0x61, 0x12, 0x03, 0x0a, 0x01, 0x62]

/-- The import is left if the data ends behind it; an end inside the name of the namespace is no
seam and is noticed. -/
theorem Root.ofBytes_of_append_importAndNamespace :
    (Root.ofBytes {} importAndNamespace).result =
        .ok { imports := ["a"], namespaces := [{ name := "b" }] } ∧
      (Root.ofBytes {} (importAndNamespace.take 3)).result = .ok { imports := ["a"] } ∧
      ¬ Wire.Seam .root (importAndNamespace.take 6) (importAndNamespace.drop 6) := by
  have htree : (Root.ofBytes {} importAndNamespace).result =
      .ok { imports := ["a"], namespaces := [{ name := "b" }] } := by
    decide +kernel
  have hleading : Wire.Leading [⟨1, .delimited, [0x61]⟩] (importAndNamespace.take 3)
      (importAndNamespace.drop 3) :=
    .cons (by rfl) .nil
  refine ⟨htree, ?_, ?_⟩
  · exact (Root.ofBytes_of_append {} (p := importAndNamespace.take 3) htree).1 _ hleading
  · refine (Root.ofBytes_of_append {} (p := importAndNamespace.take 6) htree).2.mp ?_
    exact ⟨.unexpectedEnd, by decide +kernel⟩

/-- A namespace. -/
def Root.oneNamespace : Wire.Bytes :=
  [0x12, 0x03, 0x0a, 0x01, 0x61]

/-- Data that is cut inside a record of the source file, in front of the name of a namespace, and
still gives a tree. -/
theorem Root.ofBytes_overlooks_cut :
    (Root.ofBytes {} oneNamespace).result = .ok { namespaces := [{ name := "a" }] } ∧
      (¬ ∃ pieces, Wire.Leading pieces (oneNamespace.take 2) (oneNamespace.drop 2)) ∧
      (Root.ofBytes {} (oneNamespace.take 2)).result = .ok { namespaces := [{}] } := by
  refine ⟨by decide +kernel, ?_, by decide +kernel⟩
  rintro ⟨pieces, hleading⟩
  cases hleading with
  | cons hcut hrest =>
    -- The piece takes all of the data, so nothing follows it.
    have hall : Wire.cutPiece oneNamespace = .ok (⟨2, .delimited, [0x0a, 0x01, 0x61]⟩, []) := rfl
    have hnil := congrArg Prod.snd (Except.ok.inj (hall.symm.trans hcut))
    have hdrop := (List.append_eq_nil_iff.mp hnil.symm).2
    exact absurd hdrop (by decide)

end Arbor
