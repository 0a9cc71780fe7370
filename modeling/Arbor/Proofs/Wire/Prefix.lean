import Arbor.Proofs.Wire.Layout

/-!
# Reading bytes whose end is missing

What does a decoder make of the first part `p` of a byte string `p ++ q` that it accepts as a
whole?  A reader that stops inside `p` gives the same value as before.  A reader that needs a
byte of `q` fails.  `Cut q x y` says this of a result `x` on all the bytes and a result `y` on
what is left of them, and the lemmas `cut_*` show it for every reader, up to the head of a
record.  The frame shrinks with the bytes (`Frame.short`): the end of a message stays where it
is and moves further beyond the bytes at hand.

A head that announces a message is complete as soon as its length is there, so it withstands a
cut inside the message (`readHead_short_of_submessage`).
-/

namespace Arbor.Wire

/-! ## Frames -/

/-- The frame that is left when the given number of bytes at its end are missing. -/
def Frame.short (f : Frame) (missing : Nat) : Frame where
  stop := f.stop - missing
  beyond := f.beyond.map (· + missing)
  level := f.level

@[simp] lemma Frame.level_short (f : Frame) (missing : Nat) : (f.short missing).level = f.level :=
  rfl

/-- If nothing is missing, the frame is as it was. -/
lemma Frame.short_zero (f : Frame) : f.short 0 = f := by
  obtain ⟨stop, beyond, level⟩ := f
  cases beyond <;> rfl

/-- Positions do not depend on what comes later. -/
lemma Frame.position_short (f : Frame) (p q : Bytes) :
    (f.short q.length).position p = f.position (p ++ q) := by
  simp only [position, short, List.length_append]
  omega

/-- The end of a message does not depend on how many of its bytes are there. -/
lemma Frame.exceeds_short (f : Frame) (p q : Bytes) (length : Nat) :
    (f.short q.length).exceeds p length = f.exceeds (p ++ q) length := by
  unfold exceeds short
  cases f.beyond with
  | none => rfl
  | some b =>
    simp only [Option.map_some, List.length_append, decide_eq_decide]
    omega

/-- A message that is all there is read inside the same frame as before. -/
lemma Frame.inner_short_of_le (f : Frame) {p : Bytes} (q : Bytes) {length : Nat}
    (h : length ≤ p.length) :
    (f.short q.length).inner p length = f.inner (p ++ q) length := by
  simp only [inner, short, List.length_append, Frame.mk.injEq, Option.some.injEq, and_true]
  omega

/-- A message that is cut is read inside the frame that is left of its own. -/
lemma Frame.inner_short_of_lt (f : Frame) {p : Bytes} (q : Bytes) {length : Nat}
    (h : p.length < length) :
    (f.short q.length).inner p length =
      (f.inner (p ++ q) length).short (q.take (length - p.length)).length := by
  simp only [inner, short, List.length_append, List.length_take, Option.map_some,
    Frame.mk.injEq, Option.some.injEq, and_true]
  omega

/-- The outermost frame of the first part is that of all bytes with the rest missing. -/
lemma Frame.outermost_append (p q : Bytes) :
    (outermost (p ++ q)).short q.length = outermost p := by
  simp [outermost, short]

/-! ## Readers -/

/-- A result of reading that says which bytes remain. -/
class Remainder (γ : Type) where
  /-- The bytes that remain. -/
  rest : γ → Bytes
  /-- The same result with more bytes behind. -/
  extend : γ → Bytes → γ

instance : Remainder Bytes where
  rest r := r
  extend r q := r ++ q

instance {α : Type} : Remainder (α × Bytes) where
  rest r := r.2
  extend r q := (r.1, r.2 ++ q)

instance : Remainder Head where
  rest := Head.rest
  extend
    | .record r rest, q => .record r (rest ++ q)
    | .submessage number type length rest, q => .submessage number type length (rest ++ q)

open Remainder (rest extend)

/-- What reading gives on all the bytes, `x`, and without the bytes `q` at their end, `y`: the
same if it stopped in front of `q`, and a fault otherwise. -/
def Cut {γ : Type} [Remainder γ] (q : Bytes) (x y : Except Fault γ) : Prop :=
  ∀ r, x = .ok r →
    (∃ r', r = extend r' q ∧ y = .ok r') ∨ ((rest r).length < q.length ∧ ∃ e, y = .error e)

section Cut

variable {γ δ : Type} [Remainder γ] [Remainder δ] {q : Bytes}

/-- A reader that fails on all the bytes may do anything on the first part. -/
lemma cut_error (e : Fault) (y : Except Fault γ) : Cut q (.error e) y :=
  fun _ h => nomatch h

/-- Giving the result another form makes no difference, as long as the same bytes remain. -/
lemma Cut.map {x y : Except Fault γ} {g : γ → δ} (h : Cut q x y)
    (hrest : ∀ r, rest (g r) = rest r) (hextend : ∀ r, g (extend r q) = extend (g r) q) :
    Cut q (x.map g) (y.map g) := by
  intro s hs
  obtain ⟨r, hr, rfl⟩ := exists_of_map_eq_ok hs
  rcases h r hr with ⟨r', rfl, hy⟩ | ⟨hlt, e, hy⟩
  · exact .inl ⟨g r', hextend r', by rw [hy]; rfl⟩
  · exact .inr ⟨by rw [hrest]; exact hlt, e, by rw [hy]; rfl⟩

/-- The two cases for a reader that gives a value. -/
lemma Cut.value {α : Type} {x y : Except Fault (α × Bytes)} {v : α} {remaining : Bytes}
    (h : Cut q x y) (hx : x = .ok (v, remaining)) :
    (∃ remaining', remaining = remaining' ++ q ∧ y = .ok (v, remaining')) ∨
      (remaining.length < q.length ∧ ∃ e, y = .error e) := by
  rcases h _ hx with ⟨⟨v', remaining'⟩, heq, hy⟩ | hfault
  · cases heq
    exact .inl ⟨remaining', rfl, hy⟩
  · exact .inr hfault

end Cut

/-- A number is cut off in the middle if not all of its bytes are there. -/
lemma cut_readVarint (top more : Nat) (p q : Bytes) :
    Cut q (readVarint top more (p ++ q)) (readVarint top more p) := by
  induction more generalizing p with
  | zero =>
    intro r hr
    cases p with
    | nil =>
      obtain ⟨n, remaining⟩ := r
      exact .inr ⟨length_lt_of_readVarint hr, .unexpectedEnd, rfl⟩
    | cons b p =>
      rw [List.cons_append, readVarint] at hr
      split at hr
      · next hb =>
        cases hr
        exact .inl ⟨(b.toNat, p), rfl, by rw [readVarint, if_pos hb]⟩
      · cases hr
  | succ more ih =>
    intro r hr
    cases p with
    | nil =>
      obtain ⟨n, remaining⟩ := r
      exact .inr ⟨length_lt_of_readVarint hr, .unexpectedEnd, rfl⟩
    | cons b p =>
      rw [List.cons_append, readVarint] at hr
      rw [readVarint]
      split at hr
      · next hb =>
        cases hr
        exact .inl ⟨(b.toNat, p), rfl, by rw [if_pos hb]⟩
      · next hb =>
        rw [if_neg hb]
        split at hr
        · cases hr
        · next n remaining htail =>
          cases hr
          rcases (ih p).value htail with ⟨remaining', rfl, hp⟩ | ⟨hlt, e, hp⟩
          · exact .inl ⟨(b.toNat - 128 + 128 * n, remaining'), rfl, by rw [hp]⟩
          · exact .inr ⟨hlt, e, by rw [hp]⟩

/-- Reading a short varint withstands a cut. -/
lemma cut_readVarint32 (p q : Bytes) : Cut q (readVarint32 (p ++ q)) (readVarint32 p) :=
  cut_readVarint 15 4 p q

/-- Reading a long varint withstands a cut. -/
lemma cut_readVarint64 (p q : Bytes) : Cut q (readVarint64 (p ++ q)) (readVarint64 p) :=
  cut_readVarint 1 9 p q

/-- Reading a tag withstands a cut. -/
lemma cut_readTag (p q : Bytes) : Cut q (readTag (p ++ q)) (readTag p) := by
  intro r hr
  unfold readTag at hr
  split at hr
  · cases hr
  · next tag remaining htag =>
    split at hr
    · next w hw =>
      split at hr
      · cases hr
      · next hzero =>
        cases hr
        rcases (cut_readVarint32 p q).value htag with ⟨remaining', rfl, hp⟩ | ⟨hlt, e, hp⟩
        · refine .inl ⟨((tag / 8, w), remaining'), rfl, ?_⟩
          rw [readTag, hp]
          simp only [hw, if_neg hzero]
        · exact .inr ⟨hlt, e, by rw [readTag, hp]⟩
    · cases hr

/-- A value with its length in front is cut off in the middle if its length reaches into the
missing bytes. -/
lemma cut_readDelimited (f : Frame) (p q : Bytes) :
    Cut q (readDelimited f (p ++ q)) (readDelimited (f.short q.length) p) := by
  intro r hr
  unfold readDelimited at hr
  split at hr
  · cases hr
  · next length remaining hlength =>
    split at hr
    · cases hr
    · next hexceeds =>
      split at hr
      · next hle =>
        cases hr
        rcases (cut_readVarint32 p q).value hlength with ⟨remaining', rfl, hp⟩ | ⟨hlt, e, hp⟩
        · have hexceeds' : (f.short q.length).exceeds remaining' length = false := by
            rw [f.exceeds_short]
            exact Bool.not_eq_true _ ▸ hexceeds
          by_cases hinside : length ≤ remaining'.length
          · refine .inl ⟨(remaining'.take length, remaining'.drop length), ?_, ?_⟩
            · rw [List.take_append_of_le_length hinside, List.drop_append_of_le_length hinside]
              rfl
            · rw [readDelimited, hp]
              simp only [hexceeds', if_pos hinside]
              rfl
          · refine .inr ⟨?_, ?_⟩
            · simp only [rest, List.length_drop, List.length_append]
              rw [List.length_append] at hle
              omega
            · rw [readDelimited, hp]
              simp only [hexceeds', if_neg hinside]
              by_cases hbulk : bulkLength ≤ length
              · exact ⟨.truncated, by simp [hbulk]⟩
              · exact ⟨.unexpectedEnd, by simp [hbulk]⟩
        · refine .inr ⟨?_, e, by rw [readDelimited, hp]⟩
          simp only [rest, List.length_drop] at hlt ⊢
          omega
      · split at hr <;> cases hr

/-- Reading a text withstands a cut. -/
lemma cut_readText (f : Frame) (p q : Bytes) :
    Cut q (readText f (p ++ q)) (readText (f.short q.length) p) := by
  intro r hr
  unfold readText at hr
  split at hr
  · cases hr
  · next content remaining hcontent =>
    split at hr
    · next s hs =>
      cases hr
      rcases (cut_readDelimited f p q).value hcontent with ⟨remaining', rfl, hp⟩ | ⟨hlt, e, hp⟩
      · refine .inl ⟨(s, remaining'), rfl, ?_⟩
        rw [readText, hp]
        simp only [hs]
      · exact .inr ⟨hlt, e, by rw [readText, hp]⟩
    · cases hr

/-- Reading a kind withstands a cut. -/
lemma cut_readKind (p q : Bytes) : Cut q (readKind (p ++ q)) (readKind p) := by
  intro r hr
  unfold readKind at hr
  split at hr
  · cases hr
  · next n remaining hn =>
    dsimp only at hr
    split at hr
    · next hrange =>
      cases hr
      rcases (cut_readVarint64 p q).value hn with ⟨remaining', rfl, hp⟩ | ⟨hlt, e, hp⟩
      · refine .inl ⟨(signed64 n, remaining'), rfl, ?_⟩
        rw [readKind, hp]
        simp only [if_pos hrange]
      · exact .inr ⟨hlt, e, by rw [readKind, hp]⟩
    · cases hr

/-- Reading a flag withstands a cut. -/
lemma cut_readFlag (p q : Bytes) : Cut q (readFlag (p ++ q)) (readFlag p) := by
  intro r hr
  unfold readFlag at hr
  split at hr
  · cases hr
  · next n remaining hn =>
    cases hr
    rcases (cut_readVarint64 p q).value hn with ⟨remaining', rfl, hp⟩ | ⟨hlt, e, hp⟩
    · exact .inl ⟨(n != 0, remaining'), rfl, by rw [readFlag, hp]⟩
    · exact .inr ⟨hlt, e, by rw [readFlag, hp]⟩

/-- Skipping bytes withstands a cut. -/
lemma cut_skipBytes (count : Nat) (p q : Bytes) :
    Cut q (skipBytes count (p ++ q)) (skipBytes count p) := by
  intro r hr
  unfold skipBytes at hr
  split at hr
  · next hle =>
    cases hr
    by_cases hinside : count ≤ p.length
    · refine .inl ⟨p.drop count, List.drop_append_of_le_length hinside, ?_⟩
      rw [skipBytes, if_pos hinside]
    · refine .inr ⟨?_, .unexpectedEnd, by rw [skipBytes, if_neg hinside]⟩
      rw [List.length_append] at hle
      simp only [rest, List.length_drop, List.length_append]
      omega
  · cases hr

/-- Skipping a value of any wire type withstands a cut. -/
lemma cut_skipValue (f : Frame) (w : WireType) (p q : Bytes) :
    Cut q (skipValue f w (p ++ q)) (skipValue (f.short q.length) w p) := by
  have hvarint : Cut q ((readVarint64 (p ++ q)).map (·.2)) ((readVarint64 p).map (·.2)) :=
    (cut_readVarint64 p q).map (fun _ => rfl) fun _ => rfl
  cases w with
  | fixed64 => exact cut_skipBytes 8 p q
  | fixed32 => exact cut_skipBytes 4 p q
  | varint => exact hvarint
  | groupStart => exact hvarint
  | groupEnd => exact hvarint
  | delimited =>
    intro r hr
    simp only [skipValue] at hr ⊢
    split at hr
    · cases hr
    · next length remaining hlength =>
      split at hr
      · cases hr
      · next hexceeds =>
        rcases (cut_readVarint32 p q).value hlength with ⟨remaining', rfl, hp⟩ | ⟨hlt, e, hp⟩
        · rw [hp]
          simp only [f.exceeds_short, if_neg hexceeds]
          exact cut_skipBytes length remaining' q r hr
        · have hle := length_le_of_skipBytes hr
          exact .inr ⟨Nat.lt_of_le_of_lt hle hlt, e, by rw [hp]⟩

/-- A group is cut off in the middle if its end tag is missing. -/
lemma cut_skipGroup (f : Frame) (depth : Nat) (p q : Bytes) :
    Cut q (skipGroup f depth (p ++ q)) (skipGroup (f.short q.length) depth p) := by
  intro r hr
  generalize hbytes : p ++ q = bytes at hr
  fun_induction skipGroup f depth bytes generalizing p with
  | case1 => cases hr
  | case2 bytes number remaining htag =>
    cases hr
    subst hbytes
    rw [skipGroup_eq]
    rcases (cut_readTag p q).value htag with ⟨remaining', rfl, hp⟩ | ⟨hlt, e, hp⟩
    · exact .inl ⟨remaining', rfl, by rw [hp]; rfl⟩
    · exact .inr ⟨hlt, e, by rw [hp]⟩
  | case3 depth bytes number remaining htag hdepth ih =>
    subst hbytes
    rw [skipGroup_eq]
    rcases (cut_readTag p q).value htag with ⟨remaining', rfl, hp⟩ | ⟨hlt, e, hp⟩
    · rw [hp]
      simp only [if_neg hdepth]
      exact ih remaining' rfl hr
    · have hle := length_lt_of_skipGroup hr
      exact .inr ⟨Nat.lt_trans hle hlt, e, by rw [hp]⟩
  | case4 => cases hr
  | case5 depth bytes number remaining htag hlevel ih =>
    subst hbytes
    rw [skipGroup_eq]
    rcases (cut_readTag p q).value htag with ⟨remaining', rfl, hp⟩ | ⟨hlt, e, hp⟩
    · have hlevel' : ¬ maxLevel ≤ (f.short q.length).level + depth := hlevel
      rw [hp]
      simp only [if_neg hlevel']
      exact ih remaining' rfl hr
    · have hle := length_lt_of_skipGroup hr
      exact .inr ⟨Nat.lt_trans hle hlt, e, by rw [hp]⟩
  | case6 => cases hr
  | case7 depth bytes number w remaining hend hstart htag behind hvalue ih =>
    subst hbytes
    rw [skipGroup_eq]
    have hshorter := length_lt_of_skipGroup hr
    rcases (cut_readTag p q).value htag with ⟨remaining', rfl, hp⟩ | ⟨hlt, e, hp⟩
    · rw [hp]
      rcases cut_skipValue f w remaining' q _ hvalue with ⟨behind', rfl, hv⟩ | ⟨hlt, e, hv⟩
      · cases w with
        | groupEnd => exact (hend rfl).elim
        | groupStart => exact (hstart rfl).elim
        | _ =>
          simp only [hv]
          exact ih behind' rfl hr
      · refine .inr ⟨Nat.lt_trans hshorter hlt, e, ?_⟩
        cases w with
        | groupEnd => exact (hend rfl).elim
        | groupStart => exact (hstart rfl).elim
        | _ => simp only [hv]
    · have hle := length_le_of_skipValue hvalue
      exact .inr ⟨Nat.lt_trans hshorter (Nat.lt_of_le_of_lt hle hlt), e, by rw [hp]⟩

/-! ## Heads -/

/-- Reading a stray withstands a cut. -/
lemma cut_readStray (f : Frame) (number : Nat) (w : WireType) (p q : Bytes) :
    Cut q (readStray f number w (p ++ q)) (readStray (f.short q.length) number w p) := by
  cases w with
  | groupStart => exact (cut_skipGroup f 0 p q).map (fun _ => rfl) fun _ => rfl
  | groupEnd => exact cut_error _ _
  | delimited => exact (cut_readDelimited f p q).map (fun _ => rfl) fun _ => rfl
  | varint => exact (cut_skipValue f .varint p q).map (fun _ => rfl) fun _ => rfl
  | fixed64 => exact (cut_skipValue f .fixed64 p q).map (fun _ => rfl) fun _ => rfl
  | fixed32 => exact (cut_skipValue f .fixed32 p q).map (fun _ => rfl) fun _ => rfl

/-- The value of a field is cut off in the middle if it is not all there; of a message only the
length has to be there. -/
lemma cut_readField (f : Frame) (field : Field) (p q : Bytes) :
    Cut q (readField f field (p ++ q)) (readField (f.short q.length) field p) := by
  unfold readField
  cases field.type with
  | text => exact (cut_readText f p q).map (fun _ => rfl) fun _ => rfl
  | kind => exact (cut_readKind p q).map (fun _ => rfl) fun _ => rfl
  | flag => exact (cut_readFlag p q).map (fun _ => rfl) fun _ => rfl
  | message type =>
    intro r hr
    dsimp only at hr ⊢
    rw [f.level_short]
    split at hr
    · cases hr
    · next hlevel =>
      rw [if_neg hlevel]
      split at hr
      · cases hr
      · next length remaining hlength =>
        split at hr
        · cases hr
        · next hposition =>
          split at hr
          · cases hr
          · next hexceeds =>
            cases hr
            rcases (cut_readVarint64 p q).value hlength with ⟨remaining', rfl, hp⟩ | ⟨hlt, e, hp⟩
            · refine .inl ⟨.submessage field.number type length remaining', rfl, ?_⟩
              rw [hp]
              simp only [f.position_short, f.exceeds_short, if_neg hposition, if_neg hexceeds]
            · exact .inr ⟨hlt, e, by rw [hp]⟩

/-- The head of a record is cut off in the middle if it is not all there. -/
lemma cut_readHead (t : MessageType) (f : Frame) (p q : Bytes) :
    Cut q (readHead t f (p ++ q)) (readHead t (f.short q.length) p) := by
  intro r hr
  unfold readHead at hr
  split at hr
  · cases hr
  · next number w remaining htag =>
    rw [readHead]
    rcases (cut_readTag p q).value htag with ⟨remaining', rfl, hp⟩ | ⟨hlt, e, hp⟩
    · rw [hp]
      dsimp only
      split at hr
      · next field hfield =>
        split at hr
        · next hwire =>
          rw [if_pos hwire]
          exact cut_readField f field remaining' q r hr
        · next hwire =>
          rw [if_neg hwire]
          exact cut_readStray f number w remaining' q r hr
      · exact cut_readStray f number w remaining' q r hr
    · refine .inr ⟨?_, e, by rw [hp]⟩
      -- The tag already ends inside the missing bytes, and the value ends behind it.
      split at hr
      · split at hr
        · exact Nat.lt_trans (length_lt_of_readField hr) hlt
        · exact Nat.lt_of_le_of_lt (length_le_of_readStray hr) hlt
      · exact Nat.lt_of_le_of_lt (length_le_of_readStray hr) hlt

/-- The two cases for a record that is complete. -/
lemma readHead_short_of_record {t : MessageType} {f : Frame} {p q remaining : Bytes}
    {r : Option Record} (h : readHead t f (p ++ q) = .ok (.record r remaining)) :
    (∃ remaining', remaining = remaining' ++ q ∧
        readHead t (f.short q.length) p = .ok (.record r remaining')) ∨
      (remaining.length < q.length ∧ ∃ e, readHead t (f.short q.length) p = .error e) := by
  rcases cut_readHead t f p q _ h with ⟨head, heq, hp⟩ | hfault
  · cases head with
    | record r' remaining' =>
      cases heq
      exact .inl ⟨remaining', rfl, hp⟩
    | submessage number type length remaining' => cases heq
  · exact .inr hfault

/-- The two cases for a message that is announced. -/
lemma readHead_short_of_submessage {t u : MessageType} {f : Frame} {p q remaining : Bytes}
    {number length : Nat}
    (h : readHead t f (p ++ q) = .ok (.submessage number u length remaining)) :
    (∃ remaining', remaining = remaining' ++ q ∧
        readHead t (f.short q.length) p = .ok (.submessage number u length remaining')) ∨
      (remaining.length < q.length ∧ ∃ e, readHead t (f.short q.length) p = .error e) := by
  rcases cut_readHead t f p q _ h with ⟨head, heq, hp⟩ | hfault
  · cases head with
    | record r' remaining' => cases heq
    | submessage number' type' length' remaining' =>
      cases heq
      exact .inl ⟨remaining', rfl, hp⟩
  · exact .inr hfault

end Arbor.Wire
