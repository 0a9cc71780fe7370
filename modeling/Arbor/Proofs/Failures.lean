import Arbor.Proofs.Parts
import Arbor.Proofs.Tags

/-!
# How a conversion ends

Two searches decide how the conversion of a message ends.  The first goes through all parts of the
message in pre-order and stops at one that offends; the second goes through the tags of what the
limits keep, in the order of rebuilding, and stops at one that is not declared.  If neither stops,
there is a tree (`Root.convert_decided`).

In particular a conversion ends with a wrong wire type exactly if the message has a misfit
(`Root.convert_eq_wrongWireType_iff`), and it never calls a message malformed
(`Root.convert_ne_malformed`).
-/

namespace Arbor

/-- A conversion that is decided by tags fails at a tag only. -/
lemma Conversion.Reads.exists_eq_unknownKind {α : Type} {x : Conversion α}
    {tags : List Message.Tag} {e : ConvertError} (h : x.Reads tags) (he : x.result = .error e) :
    ∃ noun tag, e = .unknownKind noun tag := by
  unfold Reads at h
  split at h
  · rw [he] at h
    exact ⟨_, _, Except.error.inj h⟩
  · obtain ⟨a, ha⟩ := h
    rw [he] at ha
    cases ha

namespace Message

/-- A message without a misfit is rebuilt, any other is refused. -/
lemma Root.convert_cases (limits : Limits) (m : Root) :
    (∃ misfit, m.misfit? = some misfit ∧
      (m.convert limits).result = .error (.wrongWireType misfit)) ∨
    (m.misfit? = none ∧ m.convert limits = m.rebuild limits) := by
  unfold Root.convert
  cases m.misfit? with
  | some misfit => exact .inl ⟨misfit, rfl, rfl⟩
  | none => exact .inr ⟨rfl, rfl⟩

/-- A conversion ends with a wrong wire type exactly if the message has a misfit. -/
lemma Root.convert_eq_wrongWireType_iff {limits : Limits} {m : Root} :
    (∃ misfit, (m.convert limits).result = .error (.wrongWireType misfit)) ↔
      m.misfit? ≠ none := by
  rcases Root.convert_cases limits m with ⟨misfit, hmisfit, hresult⟩ | ⟨hnone, hconvert⟩
  · rw [hmisfit]
    exact ⟨fun _ => nofun, fun _ => ⟨misfit, hresult⟩⟩
  · refine ⟨?_, fun h => absurd hnone h⟩
    rintro ⟨misfit, h⟩
    rw [hconvert] at h
    obtain ⟨noun, tag, heq⟩ := (m.reads_rebuild limits).exists_eq_unknownKind h
    cases heq

/-- A message is not malformed. -/
lemma Root.convert_ne_malformed {limits : Limits} {m : Root} {fault : Wire.Fault} :
    (m.convert limits).result ≠ .error (.malformed fault) := by
  intro h
  rcases Root.convert_cases limits m with ⟨misfit, -, hresult⟩ | ⟨-, hconvert⟩
  · rw [hresult] at h
    cases h
  · rw [hconvert] at h
    obtain ⟨noun, tag, heq⟩ := (m.reads_rebuild limits).exists_eq_unknownKind h
    cases heq

/-- How the conversion of a message ends.  If a part of the message offends, whether or not the
limits keep it, then the conversion fails with a wrong wire type; it names the first such part in
pre-order and one of its fields.  Otherwise it fails at the first of the tags in what the limits
keep that is not declared, or there is a tree.  The declared tags are those that are translated,
each into the kind of its name. -/
theorem Root.convert_decided (limits : Limits) (m : Root) :
    (match m.parts.find? Part.offends with
      | some part =>
        ∃ field ∈ part.type.fields, field.number ∈ part.stray ∧
          (m.convert limits).result = .error (.wrongWireType ⟨part.type.name, field.name⟩)
      | none =>
        match (m.tags limits).find? (!·.declared) with
        | some tag => (m.convert limits).result = .error (.unknownKind tag.noun.text tag.value)
        | none => ∃ tree, (m.convert limits).result = .ok tree) ∧
      (∀ tag : Tag, tag.declared = tag.kindName?.isSome) ∧
      ∀ (tag : Tag) (name : String),
        tag.kindName? = some name ↔ (name, tag.value) ∈ tag.noun.members := by
  refine ⟨?_, Tag.declared_eq_isSome, fun tag name => Tag.kindName?_eq_some_iff⟩
  rcases Root.convert_cases limits m with ⟨misfit, hmisfit, hresult⟩ | ⟨hnone, hconvert⟩
  · rw [Root.misfit?_eq_bind_find?] at hmisfit
    obtain ⟨part, hpart, hmisfit⟩ := Option.bind_eq_some_iff.mp hmisfit
    obtain ⟨field, hfield, hstray, rfl⟩ := Part.misfit?_eq_some hmisfit
    rw [hpart]
    exact ⟨field, hfield, hstray, hresult⟩
  · have hparts : m.parts.find? Part.offends = none := by
      rw [Root.misfit?_eq_findSome?, List.findSome?_eq_none_iff] at hnone
      rw [List.find?_eq_none]
      intro part hpart
      rw [← part.isSome_misfit?, hnone part hpart]
      exact Bool.false_ne_true
    rw [hparts, hconvert]
    exact m.reads_rebuild limits

end Message

end Arbor
