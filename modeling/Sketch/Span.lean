/-!
Half-open ranges of byte offsets into a text.
-/

namespace Sketch

structure Span where
  start : Nat
  stop : Nat
  start_le_stop : start ≤ stop
  deriving DecidableEq, Repr

namespace Span

/-- A span whose bounds are the wrong way round is empty. -/
def ofBounds (start stop : Nat) : Span := ⟨start, max stop start, Nat.le_max_right ..⟩

def empty (offset : Nat) : Span := ofBounds offset offset

def length (s : Span) : Nat := s.stop - s.start

def isEmpty (s : Span) : Bool := s.start = s.stop

/-- The least span that holds both. -/
def union (s t : Span) : Span := ofBounds (min s.start t.start) (max s.stop t.stop)

/-- Moves a span from a fragment into the text that holds the fragment at `offset`. -/
def shift (s : Span) (offset : Nat) : Span := ofBounds (s.start + offset) (s.stop + offset)

@[simp] theorem length_shift (s : Span) (offset : Nat) : (s.shift offset).length = s.length := by
  have := s.start_le_stop
  simp [shift, ofBounds, length]
  omega

@[simp] theorem shift_shift (s : Span) (m n : Nat) : (s.shift m).shift n = s.shift (m + n) := by
  have := s.start_le_stop
  simp [shift, ofBounds]
  omega

def text (s : Span) : String := toString s.start ++ ".." ++ toString s.stop

end Span

end Sketch
