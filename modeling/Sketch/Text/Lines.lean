/-!
Lines and sizes of texts. Sizes are in bytes of UTF-8, the unit in which spans are counted.
-/

namespace Sketch.Text

def size : List Char → Nat
  | [] => 0
  | c :: cs => c.utf8Size + size cs

@[simp] theorem size_nil : size [] = 0 := rfl

@[simp] theorem size_cons (c : Char) (cs : List Char) : size (c :: cs) = c.utf8Size + size cs := rfl

@[simp] theorem size_append (cs ds : List Char) : size (cs ++ ds) = size cs + size ds := by
  induction cs with
  | nil => simp
  | cons c cs ih => simp [ih, Nat.add_assoc]

/-- Puts a character before the lines that follow it; a line feed ends a line of its own. -/
def consLine (c : Char) (rest : List (List Char)) : List (List Char) :=
  if c = '\n' then [c] :: rest
  else match rest with
    | [] => [[c]]
    | l :: ls => (c :: l) :: ls

/-- The lines of a text, each with the line feed that ends it. -/
def lines (cs : List Char) : List (List Char) := cs.foldr consLine []

@[simp] theorem lines_nil : lines [] = [] := rfl

@[simp] theorem lines_cons (c : Char) (cs : List Char) :
    lines (c :: cs) = consLine c (lines cs) := rfl

@[simp] theorem flatten_consLine (c : Char) (ls : List (List Char)) :
    (consLine c ls).flatten = c :: ls.flatten := by
  unfold consLine
  split
  · rfl
  · cases ls <;> rfl

/-- Lines lose nothing of the text. -/
@[simp] theorem flatten_lines (cs : List Char) : (lines cs).flatten = cs := by
  induction cs with
  | nil => rfl
  | cons c cs ih => simp [ih]

/-- A line without its line feed and a carriage return before that. -/
def withoutBreak (line : List Char) : List Char :=
  match line.reverse with
  | '\n' :: '\r' :: cs => cs.reverse
  | '\n' :: cs => cs.reverse
  | _ => line

/-- The text before the last place where `word` stands, and the text from there on. -/
def splitLast? (word : List Char) : List Char → Option (List Char × List Char)
  | [] => if word.isEmpty then some ([], []) else none
  | c :: cs =>
    match splitLast? word cs with
    | some (before, found) => some (c :: before, found)
    | none => if word.isPrefixOf (c :: cs) then some ([], c :: cs) else none

theorem append_of_splitLast? {word cs before found : List Char}
    (h : splitLast? word cs = some (before, found)) : before ++ found = cs := by
  induction cs generalizing before found with
  | nil => simp [splitLast?] at h; simp [h]
  | cons c cs ih =>
    unfold splitLast? at h
    split at h
    · next b f hf => obtain ⟨rfl, rfl⟩ := (by simpa using h); simp [ih hf]
    · split at h
      · obtain ⟨rfl, rfl⟩ := (by simpa using h); rfl
      · contradiction

/-- The text after `word`, if it starts with it. -/
def after? : List Char → List Char → Option (List Char)
  | [], cs => some cs
  | w :: ws, c :: cs => if w = c then after? ws cs else none
  | _ :: _, [] => none

theorem after?_eq_some {word cs rest : List Char} :
    after? word cs = some rest ↔ cs = word ++ rest := by
  induction word generalizing cs with
  | nil => simp [after?]
  | cons w ws ih =>
    cases cs with
    | nil => simp [after?]
    | cons c cs =>
      by_cases h : w = c
      · simp [after?, h, ih]
      · simp [after?, h, Ne.symm h]

/-- The text before `word`, if it ends with it. -/
def before? (word cs : List Char) : Option (List Char) :=
  (after? word.reverse cs.reverse).map List.reverse

/-- The texts before and after the first `mark`. -/
def splitFirst? (mark : Char) : List Char → Option (List Char × List Char)
  | [] => none
  | c :: cs =>
    if c = mark then some ([], cs)
    else (splitFirst? mark cs).map fun (before, rest) => (c :: before, rest)

end Sketch.Text
