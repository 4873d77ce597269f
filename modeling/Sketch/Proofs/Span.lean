import Mathlib.Data.String.Basic
import Sketch.Span
import Sketch.Text.Lines

/-!
Spans and the texts that they are about. A span that covers a part of a text can be used to cut that
part out, and one that is about a fragment can be moved into the text that holds the fragment.
-/

namespace Sketch

theorem Text.size_eq_utf8Len (cs : List Char) : size cs = String.utf8Len cs := by
  induction cs with
  | nil => rfl
  | cons c cs ih =>
    rw [size_cons, ih, Nat.add_comm]
    rfl

namespace Span

variable {s t : Span}

/-- The part stands in the text where the span says. -/
def Covers (s : Span) (text part : List Char) : Prop :=
  ∃ before after, text = before ++ (part ++ after) ∧ s.start = Text.size before ∧
    s.stop = Text.size before + Text.size part

/-- Both ends of the span are in the text and between its characters, and cut out the part. -/
structure Cuts (s : Span) (text part : String) : Prop where
  isValid_start : (String.Pos.Raw.mk s.start).IsValid text
  isValid_stop : (String.Pos.Raw.mk s.stop).IsValid text
  extract_eq : String.Pos.Raw.extract text ⟨s.start⟩ ⟨s.stop⟩ = part

theorem ofBounds_add (start length : Nat) :
    (ofBounds start (start + length)).start = start ∧
      (ofBounds start (start + length)).stop = start + length :=
  ⟨rfl, Nat.max_eq_left (Nat.le_add_right ..)⟩

theorem shift_ofBounds_add (start length n : Nat) :
    (ofBounds start (start + length)).shift n = ofBounds (start + n) (start + n + length) := by
  obtain ⟨hstart, hstop⟩ := ofBounds_add start length
  rw [shift, hstart, hstop, Nat.add_right_comm]

theorem shift_start (s : Span) (n : Nat) : (s.shift n).start = n + s.start := Nat.add_comm ..

theorem shift_stop (s : Span) (n : Nat) : (s.shift n).stop = n + s.stop := by
  have := s.start_le_stop
  change max (s.stop + n) (s.start + n) = n + s.stop
  omega

namespace Covers

variable {text part run before after : List Char}

theorem ofBounds (h : text = before ++ (part ++ after)) :
    (Span.ofBounds (Text.size before) (Text.size before + Text.size part)).Covers text part :=
  ⟨before, after, h, (ofBounds_add _ _).1, (ofBounds_add _ _).2⟩

/-- A span about a part of the text is moved by where the part starts. -/
theorem shift (ht : t.Covers text part) (hs : s.Covers part run) :
    (s.shift t.start).Covers text run := by
  obtain ⟨before, after, rfl, hstart, -⟩ := ht
  obtain ⟨front, back, rfl, hs₁, hs₂⟩ := hs
  refine ⟨before ++ front, back ++ after, by simp, ?_, ?_⟩
  · rw [shift_start, hstart, hs₁, Text.size_append]
  · rw [shift_stop, hstart, hs₂, Text.size_append, Nat.add_assoc]

theorem start_le_shift (ht : t.Covers text part) (hs : s.Covers part run) :
    t.start ≤ (s.shift t.start).start ∧ (s.shift t.start).stop ≤ t.stop := by
  obtain ⟨before, after, -, hstart, hstop⟩ := ht
  obtain ⟨front, back, rfl, -, hs₂⟩ := hs
  rw [shift_start, shift_stop, hs₂, hstop, ← hstart, Text.size_append, Text.size_append]
  omega

theorem cuts {text : String} (h : s.Covers text.toList part) : s.Cuts text (String.ofList part) := by
  obtain ⟨before, after, htext, hstart, hstop⟩ := h
  have he : text = String.ofList before ++ (String.ofList part ++ String.ofList after) := by
    rw [← String.ofList_append, ← String.ofList_append, ← htext, String.ofList_toList]
  have hsize (cs : List Char) : Text.size cs = (String.ofList cs).utf8ByteSize := by
    rw [Text.size_eq_utf8Len, String.utf8ByteSize_ofList]
  refine ⟨?_, ?_, ?_⟩
  · refine String.Pos.Raw.isValid_iff_exists_append.2 ⟨_, _, he, ?_⟩
    rw [hstart, hsize]
    rfl
  · rw [← String.append_assoc] at he
    refine String.Pos.Raw.isValid_iff_exists_append.2 ⟨_, _, he, ?_⟩
    rw [hstop, hsize, hsize, ← String.utf8ByteSize_append]
    rfl
  · have hx := String.extract_of_valid before part after
    rwa [List.append_assoc, ← htext, String.ofList_toList, ← Text.size_eq_utf8Len,
      ← Text.size_eq_utf8Len, ← hstop, ← hstart] at hx

end Covers

/-! ### Spans that fit a text -/

/-- The span is in the text, and both its ends are between characters. -/
structure Fits (s : Span) (text : String) : Prop where
  start_le_stop : s.start ≤ s.stop
  stop_le : s.stop ≤ text.utf8ByteSize
  isValid_start : (String.Pos.Raw.mk s.start).IsValid text
  isValid_stop : (String.Pos.Raw.mk s.stop).IsValid text

variable {text : String}

theorem Fits.of_isValid (hstart : (String.Pos.Raw.mk s.start).IsValid text)
    (hstop : (String.Pos.Raw.mk s.stop).IsValid text) : s.Fits text where
  start_le_stop := s.start_le_stop
  stop_le := hstop.le_rawEndPos
  isValid_start := hstart
  isValid_stop := hstop

theorem Cuts.fits {part : String} (h : s.Cuts text part) : s.Fits text :=
  .of_isValid h.isValid_start h.isValid_stop

theorem Fits.union (hs : s.Fits text) (ht : t.Fits text) : (s.union t).Fits text := by
  have hstop : (s.union t).stop = max s.stop t.stop := by
    have := s.start_le_stop
    have := t.start_le_stop
    change max (max s.stop t.stop) (min s.start t.start) = max s.stop t.stop
    omega
  apply Fits.of_isValid
  · rcases Nat.le_total s.start t.start with h | h
    · rw [show (s.union t).start = s.start from Nat.min_eq_left h]
      exact hs.isValid_start
    · rw [show (s.union t).start = t.start from Nat.min_eq_right h]
      exact ht.isValid_start
  · rw [hstop]
    rcases Nat.le_total s.stop t.stop with h | h
    · rw [Nat.max_eq_right h]
      exact ht.isValid_stop
    · rw [Nat.max_eq_left h]
      exact hs.isValid_stop

theorem fits_ofBounds_zero (text : String) : (ofBounds 0 (Text.size text.toList)).Fits text := by
  have h : (ofBounds 0 (0 + Text.size text.toList)).Covers text.toList text.toList :=
    ⟨[], [], by simp, ofBounds_add _ _⟩
  rw [Nat.zero_add] at h
  exact h.cuts.fits

theorem fits_empty_size (text : String) : (empty (Text.size text.toList)).Fits text := by
  have h : (empty (Text.size text.toList)).Covers text.toList [] :=
    ⟨text.toList, [], by simp, ofBounds_add _ 0⟩
  exact h.cuts.fits

end Span

end Sketch
