import Sketch.Proofs.Code.Recognized
import Sketch.Proofs.Code.Repair
import Sketch.Proofs.Text.Group

/-!
The grammar of commands. A sentence is a command with all that may be written in more than one way: its
spaces, its numbers, its brackets. The readers read just the texts of sentences.
-/

namespace Sketch

namespace Command

/-! ### Words of the grammar -/

/-- Spaces between two parts, or none. -/
structure Gap where
  text : List Char
  isSpacing : Text.IsSpacing text

/-- A finite number, as it is written. No number character follows one in a sentence. -/
structure Numeral where
  text : List Char
  value : Float
  isRun : IsRun text
  read_eq : Number.readFinite? text = some value

/-- Two numbers in parentheses. -/
structure Coordinates where
  beforeX : Gap
  x : Numeral
  afterX : Gap
  beforeY : Gap
  y : Numeral
  afterY : Gap

/-- The text up to the first unescaped `close` outside all braces. -/
structure Group (close : Char) where
  inner : List Char
  reaches : Braces.Reaches close 0 inner

/-- What stands between the name of a command and its first argument: an option list or nothing. -/
structure Front where
  lead : Gap
  group : Option (Group ']')
  trail : Gap

/-- The semicolon at the end. -/
structure Ending where
  before : Gap
  after : Gap

/-- What is drawn from a first point on. -/
inductive Drawing
  | circle (before : Gap) (radius : Numeral) (after : Gap) (unit : Bool) (last : Gap)
  /-- Two plus signs make the corner relative. -/
  | rectangle (plus : Option Gap) (corner : Coordinates)
  | line (stop : Coordinates)
  | grid (opposite : Coordinates)

inductive Sentence
  | draw (front : Front) (start : Coordinates) (before after : Gap) (drawing : Drawing)
    (ending : Ending)
  /-- The spaces before `at` are those at the end of the front. -/
  | node (front : Front) (after : Gap) (position : Coordinates) (gap : Gap) (content : Group '}')
    (ending : Ending)
  | addplot (plus : Bool) (front : Front) (expression : Group '}') (ending : Ending)

/-! ### Texts and meanings -/

namespace Coordinates

def text (k : Coordinates) : List Char :=
  '(' :: (k.beforeX.text ++ (k.x.text ++ (k.afterX.text ++ ',' ::
    (k.beforeY.text ++ (k.y.text ++ (k.afterY.text ++ [')']))))))

def point (k : Coordinates) : Point := ⟨k.x.value, k.y.value⟩

end Coordinates

namespace Front

def text (f : Front) : List Char :=
  f.lead.text ++ ((match f.group with
    | some g => '[' :: (g.inner ++ [']'])
    | none => []) ++ f.trail.text)

def options (f : Front) : Options :=
  match f.group with
  | some g => .ofText g.inner
  | none => {}

/-- Leaves more space at the end. -/
def extend (f : Front) (g : Gap) : Front :=
  let isSpacing := List.forall_mem_append.2 ⟨f.trail.isSpacing, g.isSpacing⟩
  { f with trail := ⟨f.trail.text ++ g.text, isSpacing⟩ }

theorem text_extend (f : Front) (g : Gap) : (f.extend g).text = f.text ++ g.text := by
  rw [text, text, List.append_assoc, List.append_assoc]
  rfl

end Front

def Ending.text (e : Ending) : List Char := e.before.text ++ ';' :: e.after.text

namespace Drawing

/-- The keyword, which also names the reader but for lines. -/
def word : Drawing → String
  | .circle .. => "circle"
  | .rectangle .. => "rectangle"
  | .line .. => "--"
  | .grid .. => "grid"

/-- The text behind the keyword and its spaces. -/
def text : Drawing → List Char
  | .circle before radius after unit last =>
    '(' :: (before.text ++ (radius.text ++ (after.text ++
      ((if unit then "cm".toList else []) ++ (last.text ++ [')'])))))
  | .rectangle (some gap) corner => "++".toList ++ (gap.text ++ corner.text)
  | .rectangle none corner => corner.text
  | .line stop => stop.text
  | .grid opposite => opposite.text

def shape (start : Point) : Drawing → Shape
  | .circle _ radius _ _ _ => .circle start radius.value
  | .rectangle (some _) corner => .rectangle start corner.point.x corner.point.y
  | .rectangle none corner =>
    .rectangle start (corner.point.x - start.x) (corner.point.y - start.y)
  | .line stop => .line start stop.point
  | .grid opposite => .grid start opposite.point

end Drawing

namespace Sentence

def name : Sentence → String
  | .draw _ _ _ _ (.circle ..) _ => "circle"
  | .draw _ _ _ _ (.rectangle ..) _ => "rectangle"
  | .draw _ _ _ _ (.line ..) _ => "line"
  | .draw _ _ _ _ (.grid ..) _ => "grid"
  | .node .. => "node"
  | .addplot .. => "addplot"

def text : Sentence → List Char
  | .draw front start before after drawing ending =>
    "\\draw".toList ++ (front.text ++ (start.text ++ (before.text ++ (drawing.word.toList ++
      (after.text ++ (drawing.text ++ ending.text))))))
  | .node front after position gap content ending =>
    "\\node".toList ++ (front.text ++ ("at".toList ++ (after.text ++ (position.text ++ (gap.text ++
      ('{' :: (content.inner ++ '}' :: ending.text)))))))
  | .addplot plus front expression ending =>
    "\\addplot".toList ++ ((if plus then "+".toList else []) ++ (front.text ++
      ('{' :: (expression.inner ++ '}' :: ending.text))))

/-- The element that the sentence describes if the axis is open. -/
def element (axis : Axis) : Sentence → Element
  | .draw _ start _ _ (.grid opposite) _ => ⟨.shape (.grid start.point opposite.point), {}⟩
  | .draw front start _ _ drawing _ =>
    ⟨.shape (drawing.shape start.point), front.options.styleFor .shape⟩
  | .node front _ position _ content _ =>
    ⟨.label ⟨position.point, .ofList content.inner⟩, front.options.styleFor .text⟩
  | .addplot _ front expression _ =>
    ⟨.plot ⟨.ofList (Text.trim expression.inner), front.options.sampling axis⟩,
      front.options.styleFor .plot⟩

end Sentence

/-! ### What the readers read -/

variable {c d c₁ c₂ c₃ : Cursor} {word : String} {close : Char}

theorem exists_of_spacing_eq (h : spacing c = .ok ((), d)) : ∃ g : Gap, c.rest = g.text ++ d.rest := by
  cases h
  refine ⟨⟨c.rest.takeWhile Text.isSpacing, fun b hb => ?_⟩, List.takeWhile_append_dropWhile.symm⟩
  exact List.mem_takeWhile_imp hb

theorem exists_of_keyword_eq (h : keyword word c = .ok ((), d)) :
    ∃ before after : Gap, c.rest = before.text ++ (word.toList ++ (after.text ++ d.rest)) := by
  obtain ⟨_, c₁, hbefore, h⟩ := exists_of_bind_eq h
  obtain ⟨_, c₂, hword, hafter⟩ := exists_of_bind_eq h
  obtain ⟨before, hb⟩ := exists_of_spacing_eq hbefore
  obtain ⟨after, ha⟩ := exists_of_spacing_eq hafter
  exact ⟨before, after, by rw [hb, append_of_literal_eq hword, ha]⟩

theorem exists_of_number_eq {x : Float} (h : number c = .ok (x, d)) :
    ∃ n : Numeral, n.value = x ∧ c.rest = n.text ++ d.rest := by
  rw [number_apply] at h
  dsimp only at h
  split at h
  · contradiction
  · next hne =>
    split at h
    · next hread =>
      cases h
      refine ⟨⟨c.rest.takeWhile isNumberChar, x, ⟨?_, fun b hb => ?_⟩, hread⟩, rfl,
        List.takeWhile_append_dropWhile.symm⟩
      · exact fun hnil => hne (List.isEmpty_iff.2 hnil)
      · exact List.mem_takeWhile_imp hb
    · contradiction

theorem exists_of_point_eq {p : Point} (h : point c = .ok (p, d)) :
    ∃ k : Coordinates, k.point = p ∧ c.rest = k.text ++ d.rest := by
  obtain ⟨_, c₁, hopen, h⟩ := exists_of_bind_eq h
  obtain ⟨_, c₂, hbefore, h⟩ := exists_of_bind_eq h
  obtain ⟨x, c₃, hx, h⟩ := exists_of_bind_eq h
  obtain ⟨_, c₄, hcomma, h⟩ := exists_of_bind_eq h
  obtain ⟨y, c₅, hy, h⟩ := exists_of_bind_eq h
  obtain ⟨_, c₆, hafter, h⟩ := exists_of_bind_eq h
  obtain ⟨_, c₇, hclose, h⟩ := exists_of_bind_eq h
  obtain ⟨rfl, rfl⟩ := eq_of_pure_eq h
  obtain ⟨beforeX, h₂⟩ := exists_of_spacing_eq hbefore
  obtain ⟨nx, rfl, h₃⟩ := exists_of_number_eq hx
  obtain ⟨afterX, beforeY, h₄⟩ := exists_of_keyword_eq hcomma
  obtain ⟨ny, rfl, h₅⟩ := exists_of_number_eq hy
  obtain ⟨afterY, h₆⟩ := exists_of_spacing_eq hafter
  refine ⟨⟨beforeX, nx, afterX, beforeY, ny, afterY⟩, rfl, ?_⟩
  rw [append_of_literal_eq hopen, h₂, h₃, h₄, h₅, h₆, append_of_literal_eq hclose, Coordinates.text]
  simp

theorem exists_of_splitBefore?_eq (hc : close ≠ '\\') {cs inner rest : List Char} {b : Char}
    (h : Braces.splitBefore? close 0 cs = some (inner, b :: rest)) :
    ∃ g : Group close, g.inner = inner ∧ cs = g.inner ++ close :: rest := by
  obtain ⟨-, after, ha⟩ := Braces.endsEscaped_of_splitBefore? h
  obtain ⟨rfl, rfl⟩ := List.cons.inj ha
  exact ⟨⟨inner, Braces.reaches_of_splitBefore? hc h⟩, rfl, (Braces.append_of_splitBefore? h).symm⟩

theorem exists_of_braces_eq {inner : List Char} (h : braced c = .ok (inner, d)) :
    ∃ g : Group '}', g.inner = inner ∧ c.rest = '{' :: (g.inner ++ '}' :: d.rest) := by
  unfold braced at h
  split at h
  · next cs hcs =>
    split at h
    · next hs =>
      cases h
      obtain ⟨g, hg, hr⟩ := exists_of_splitBefore?_eq (by decide) hs
      exact ⟨g, hg, by rw [hcs, hr]⟩
    · contradiction
  · contradiction

/-- The spaces around an option list are there without it, too. -/
theorem exists_front_of_eq {o : Options} (hlead : spacing c = .ok ((), c₁))
    (ho : options c₁ = .ok (o, c₂)) (htrail : spacing c₂ = .ok ((), d)) : ∃ f : Front, f.options = o ∧ c.rest = f.text ++ d.rest := by
  obtain ⟨lead, hl⟩ := exists_of_spacing_eq hlead
  obtain ⟨trail, ht⟩ := exists_of_spacing_eq htrail
  have hnone (hc : c₂ = c₁) : c.rest = (Front.mk lead none trail).text ++ d.rest := by
    rw [hl, ← hc, ht]
    simp [Front.text]
  unfold options at ho
  split at ho
  · next cs hcs =>
    split at ho
    · next hs =>
      cases ho
      obtain ⟨g, rfl, hr⟩ := exists_of_splitBefore?_eq (by decide) hs
      refine ⟨⟨lead, some g, trail⟩, rfl, ?_⟩
      dsimp only at ht
      rw [hl, hcs, hr, ht]
      simp [Front.text]
    · cases ho
      exact ⟨_, rfl, hnone rfl⟩
  · cases ho
    exact ⟨_, rfl, hnone rfl⟩

theorem exists_front_of_head_eq {name : String} {o : Options} (h : head name c = .ok (o, d)) :
    ∃ f : Front, f.options = o ∧ c.rest = name.toList ++ (f.text ++ d.rest) := by
  obtain ⟨_, c₁, hname, h⟩ := exists_of_bind_eq h
  obtain ⟨_, c₂, hlead, h⟩ := exists_of_bind_eq h
  obtain ⟨_, c₃, ho, h⟩ := exists_of_bind_eq h
  obtain ⟨_, c₄, htrail, h⟩ := exists_of_bind_eq h
  obtain ⟨rfl, rfl⟩ := eq_of_pure_eq h
  obtain ⟨f, rfl, hf⟩ := exists_front_of_eq hlead ho htrail
  exact ⟨f, rfl, by rw [append_of_literal_eq hname, hf]⟩

theorem exists_of_finish_eq (h : finish c = .ok ((), d)) : ∃ e : Ending, c.rest = e.text := by
  obtain ⟨_, c₁, hword, h⟩ := exists_of_bind_eq h
  obtain ⟨_, _, hget, h⟩ := exists_of_bind_eq h
  obtain ⟨before, after, hc⟩ := exists_of_keyword_eq hword
  cases hget
  refine ⟨⟨before, after⟩, ?_⟩
  cases hr : c₁.rest with
  | nil =>
    rw [hc, hr, Ending.text]
    simp
  | cons b rest =>
    rw [hr] at h
    contradiction

end Command

end Sketch
