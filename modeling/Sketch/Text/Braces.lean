/-!
Braces in TeX text, where a backslash escapes the character after it. `escape` turns any text into
one that can stand between braces on one line, and `plain` reads the escapes of such a text away.
-/

namespace Sketch.Braces

/-- How many closing braces have no opening brace before them. -/
def surplus : List Char → Nat
  | [] => 0
  | '\\' :: _ :: cs => surplus cs
  | '{' :: cs => surplus cs - 1
  | '}' :: cs => surplus cs + 1
  | _ :: cs => surplus cs

/-- A line break is read as a space. -/
def unbreak (c : Char) : Char := if c = '\n' ∨ c = '\r' then ' ' else c

/-- Escapes a text that stands inside `depth` braces of its own: percent signs and braces without a
partner get a backslash, line breaks become spaces, and a last lone backslash is given a space to
escape. An opening brace has a partner when the text after it has a closing brace to spare. -/
def escapeWithin : (depth : Nat) → List Char → List Char
  | _, [] => []
  | _, ['\\'] => ['\\', ' ']
  | depth, '\\' :: c :: cs => '\\' :: unbreak c :: escapeWithin depth cs
  | depth, '%' :: cs => '\\' :: '%' :: escapeWithin depth cs
  | depth, '{' :: cs =>
    if 0 < surplus cs then '{' :: escapeWithin (depth + 1) cs else '\\' :: '{' :: escapeWithin depth cs
  | 0, '}' :: cs => '\\' :: '}' :: escapeWithin 0 cs
  | depth + 1, '}' :: cs => '}' :: escapeWithin depth cs
  | depth, c :: cs => unbreak c :: escapeWithin depth cs

/-- The form in which a text stands between braces; a text already in that form is kept. -/
def escape (cs : List Char) : List Char := escapeWithin 0 cs

/-- Drops the backslashes that escape a percent sign or a brace. -/
def plain : List Char → List Char
  | [] => []
  | '\\' :: c :: cs =>
    if c = '%' ∨ c = '{' ∨ c = '}' then c :: plain cs else '\\' :: c :: plain cs
  | c :: cs => c :: plain cs

/-- The depth after one unescaped character; a closing brace without a partner changes nothing. -/
def deepen (depth : Nat) : Char → Nat
  | '{' => depth + 1
  | '}' => depth - 1
  | _ => depth

/-- Splits before the first unescaped `close` outside all braces. -/
def splitBefore? (close : Char) : (depth : Nat) → List Char → Option (List Char × List Char)
  | _, [] => none
  | depth, '\\' :: cs =>
    match cs with
    | [] => none
    | c :: cs => (splitBefore? close depth cs).map fun (inner, rest) => ('\\' :: c :: inner, rest)
  | depth, c :: cs =>
    if c = close ∧ depth = 0 then some ([], c :: cs)
    else (splitBefore? close (deepen depth c) cs).map fun (inner, rest) => (c :: inner, rest)

theorem append_of_splitBefore? {close : Char} {depth : Nat} {cs inner rest : List Char}
    (h : splitBefore? close depth cs = some (inner, rest)) : inner ++ rest = cs := by
  fun_induction splitBefore? close depth cs generalizing inner with
  | case1 => simp at h
  | case2 => simp at h
  | case3 depth c cs ih =>
    obtain ⟨⟨i, r⟩, hi, he⟩ := Option.map_eq_some_iff.1 h
    obtain ⟨rfl, rfl⟩ := by simpa using he
    simp [ih hi]
  | case4 => obtain ⟨rfl, rfl⟩ := (by simpa using h); rfl
  | case5 depth c cs _ _ ih =>
    obtain ⟨⟨i, r⟩, hi, he⟩ := Option.map_eq_some_iff.1 h
    obtain ⟨rfl, rfl⟩ := by simpa using he
    simp [ih hi]

end Sketch.Braces
