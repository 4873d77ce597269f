import Mathlib.Data.List.Basic
import Sketch.Proofs.Text.Lines
import Sketch.Svg.Node

/-!
What stays of a tree when it is written. Angle brackets stand at the ends of tags and nowhere else,
so the tags can be told from the character data between them, whatever the texts of the tree are.
-/

namespace Sketch.Svg.Node

def name : Node → String
  | .element name _ _ => name
  | .text _ => ""

def attributes : Node → List (String × String)
  | .element _ attributes _ => attributes
  | .text _ => []

mutual

/-- The elements of a tree, each before those inside it. -/
def elements : Node → List Node
  | .text _ => []
  | .element name attributes children => .element name attributes children :: elementsAll children

def elementsAll : List Node → List Node
  | [] => []
  | child :: children => child.elements ++ elementsAll children

end

theorem mem_elementsAll {n : Node} {children : List Node} :
    n ∈ elementsAll children ↔ ∃ child ∈ children, n ∈ child.elements := by
  induction children with
  | nil => simp [elementsAll]
  | cons child children ih => simp [elementsAll, ih]

theorem mem_elements_element {n : Node} {name : String} {attributes : List (String × String)}
    {children : List Node} : n ∈ (element name attributes children).elements ↔
      n = .element name attributes children ∨ ∃ child ∈ children, n ∈ child.elements := by
  rw [elements, List.mem_cons, mem_elementsAll]

theorem forall_mem_elements_leaf {P : Node → Prop} {name : String}
    {attributes : List (String × String)} (h : P (element name attributes [])) :
    ∀ n ∈ (element name attributes []).elements, P n := by
  intro n hn
  rw [elements, elementsAll, List.mem_singleton] at hn
  rwa [hn]

mutual

/-- The tree without the texts that stand directly in a text element. -/
def muted (inText : Bool) : Node → Node
  | .text content => .text (if inText then "" else content)
  | .element name attributes children =>
    .element name attributes (mutedAll (name = "text") children)

def mutedAll (inText : Bool) : List Node → List Node
  | [] => []
  | child :: children => child.muted inText :: mutedAll inText children

end

theorem mutedAll_eq_map (inText : Bool) (children : List Node) :
    mutedAll inText children = children.map (muted inText) := by
  induction children with
  | nil => rfl
  | cons child children ih => rw [mutedAll, ih, List.map_cons]

/-! ### Tags and the data between them -/

/-- The characters of a document that belong to tags, or else those that do not. -/
def part (tags : Bool) : (inTag : Bool) → List Char → List Char
  | _, [] => []
  | inTag, c :: cs =>
    let here := inTag || c = '<'
    (if here = tags then [c] else []) ++ part tags (here && c ≠ '>') cs

/-- The tags of a document, one behind the other. -/
def markup (document : String) : List Char := part true false document.toList

/-- What stands outside the tags of a document. -/
def data (document : String) : List Char := part false false document.toList

section Part

variable {tags : Bool} {cs : List Char}

theorem part_data (h : '<' ∉ cs) (rest : List Char) :
    part tags false (cs ++ rest) = (if tags then [] else cs) ++ part tags false rest := by
  induction cs with
  | nil => simp
  | cons c cs ih =>
    obtain ⟨hc, hcs⟩ := not_or.1 (List.mem_cons.not.1 h)
    have hout : decide (c = '<') = false := decide_eq_false (Ne.symm hc)
    rw [List.cons_append, part, hout, Bool.or_false, Bool.false_and, ih hcs]
    cases tags with
    | true => simp
    | false => simp

theorem part_inTag (h : '>' ∉ cs) (rest : List Char) :
    part tags true (cs ++ '>' :: rest) =
      (if tags then cs ++ ['>'] else []) ++ part tags false rest := by
  induction cs with
  | nil => cases tags <;> rfl
  | cons c cs ih =>
    obtain ⟨hc, hcs⟩ := not_or.1 (List.mem_cons.not.1 h)
    have hin : decide (c ≠ '>') = true := decide_eq_true (Ne.symm hc)
    rw [List.cons_append, part, hin, Bool.true_or, Bool.and_true, ih hcs]
    cases tags with
    | true => simp
    | false => simp

theorem part_tag (h : '>' ∉ cs) (rest : List Char) :
    part tags false ('<' :: (cs ++ '>' :: rest)) =
      (if tags then '<' :: (cs ++ ['>']) else []) ++ part tags false rest := by
  have hopen : (false || decide ('<' = '<')) = true := rfl
  have hin : (true && decide ('<' ≠ '>')) = true := rfl
  rw [part, hopen, hin, part_inTag h]
  cases tags with
  | true => simp
  | false => simp

end Part

/-! ### Character data -/

/-- What stands behind the ampersand for a character with a meaning. -/
def references : List (List Char) := ["amp;".toList, "lt;".toList, "gt;".toList]

/-- Text without angle brackets, in which every ampersand begins a reference. -/
structure IsData (cs : List Char) : Prop where
  left_not_mem : '<' ∉ cs
  right_not_mem : '>' ∉ cs
  reference : ∀ before after, cs = before ++ '&' :: after → ∃ r ∈ references, r <+: after

namespace IsData

variable {cs ds : List Char}

theorem nil : IsData [] := ⟨by simp, by simp, by simp⟩

theorem append (hc : IsData cs) (hd : IsData ds) : IsData (cs ++ ds) where
  left_not_mem h := (List.mem_append.1 h).elim hc.left_not_mem hd.left_not_mem
  right_not_mem h := (List.mem_append.1 h).elim hc.right_not_mem hd.right_not_mem
  reference before after h := by
    rcases List.append_eq_append_iff.1 h with ⟨mid, rfl, hds⟩ | ⟨mid, hcs, hmid⟩
    · exact hd.reference mid after hds
    · cases mid with
      | nil => exact hd.reference [] after hmid.symm
      | cons c mid =>
        obtain ⟨rfl, rfl⟩ := List.cons.inj hmid
        obtain ⟨r, hr, hp⟩ := hc.reference before mid hcs
        exact ⟨r, hr, hp.trans (List.prefix_append mid ds)⟩

theorem of_forall (h : ∀ c ∈ cs, c ≠ '<' ∧ c ≠ '>' ∧ c ≠ '&') : IsData cs where
  left_not_mem hm := (h _ hm).1 rfl
  right_not_mem hm := (h _ hm).2.1 rfl
  reference before after hcs := absurd rfl (h '&' (by simp [hcs])).2.2

theorem of_isSpacing (h : Text.IsSpacing cs) : IsData cs :=
  .of_forall fun c hc => (by decide : ∀ c ∈ [' ', '\t', '\r', '\n'], c ≠ '<' ∧ c ≠ '>' ∧ c ≠ '&') c
    (Text.isSpacing_iff.1 (h c hc))

theorem of_reference {r : List Char} (h : r ∈ references) : IsData ('&' :: r) := by
  have hall : ∀ r ∈ references, '<' ∉ r ∧ '>' ∉ r ∧ '&' ∉ r := by decide
  obtain ⟨hl, hg, ha⟩ := hall r h
  refine ⟨by simp [hl], by simp [hg], fun before after hr => ?_⟩
  cases before with
  | nil =>
    obtain ⟨-, rfl⟩ := List.cons.inj hr
    exact ⟨r, h, List.prefix_rfl⟩
  | cons c before =>
    obtain ⟨-, rfl⟩ := List.cons.inj hr
    exact absurd (by simp) ha

theorem escapeChar (c : Char) : IsData (escapeChar c) := by
  unfold Node.escapeChar
  split
  · exact of_reference (r := "amp;".toList) (by simp [references])
  · exact of_reference (r := "lt;".toList) (by simp [references])
  · exact of_reference (r := "gt;".toList) (by simp [references])
  · next ha hl hg =>
    apply of_forall
    rw [List.forall_mem_singleton]
    exact ⟨hl, hg, ha⟩

theorem escape (s : String) : IsData (escape s).toList := by
  rw [Node.escape, String.toList_ofList]
  induction s.toList with
  | nil => exact nil
  | cons c cs ih => exact (escapeChar c).append ih

end IsData

/-! ### Writers -/

/-- A name and the attributes behind it, in the order of their names. -/
def sortedTag (assign : String × String → String) (name : String)
    (attributes : List (String × String)) : String :=
  name ++ String.join ((attributes.mergeSort fun a b => a.1 ≤ b.1).map assign)

/-- Texts one behind the other, with blanks around them. -/
inductive Lays : List String → List Char → Prop
  | nil {blanks : List Char} : Text.IsSpacing blanks → Lays [] blanks
  | cons {blanks rest : List Char} {text : String} {texts : List String} : Text.IsSpacing blanks →
    Lays texts rest → Lays (text :: texts) (blanks ++ (text.toList ++ rest))

/-- What is assumed of a writer of trees. It escapes texts and the values of attributes, puts the values
in quotes, and sorts attributes by their names. An element is a tag of its own or, if there is something
inside, stands between two tags. -/
structure Writer where
  write : Node → String
  escape : String → String
  assign : String × String → String
  isData_escape (content : String) : IsData (escape content).toList
  assign_eq (a : String × String) : '"' ∉ a.2.toList →
    assign a = " " ++ a.1 ++ "=\"" ++ escape a.2 ++ "\""
  write_text (content : String) : write (.text content) = escape content
  write_empty (name : String) (attributes : List (String × String)) :
    write (.element name attributes []) = "<" ++ sortedTag assign name attributes ++ "/>"
  write_element (name : String) (attributes : List (String × String)) (children : List Node) :
    children ≠ [] → ∃ inside, Lays (children.map write) inside ∧
      write (.element name attributes children) =
        "<" ++ sortedTag assign name attributes ++ ">" ++ .ofList inside ++ "</" ++ name ++ ">"

theorem isSpacing_break : Text.IsSpacing ['\n'] := List.forall_mem_singleton.2 rfl

theorem lays_writeAll (children : List Node) :
    Lays (children.map write) ((writeAll children).toList ++ ['\n']) := by
  induction children with
  | nil => exact .nil isSpacing_break
  | cons child children ih =>
    have hlays : Lays (child.write :: children.map write) _ := .cons isSpacing_break ih
    simpa [writeAll] using hlays

/-- The writer that puts each child of an element on a line of its own. -/
def Writer.lines : Writer where
  write := Node.write
  escape := Node.escape
  assign := writeAttribute
  isData_escape := .escape
  assign_eq _ _ := rfl
  write_text content := by rw [Node.write]
  write_empty name attributes := by
    rw [Node.write, sortedTag, writeAttributes, ← String.append_assoc]
  write_element name attributes children h := by
    refine ⟨_, lays_writeAll children, ?_⟩
    obtain ⟨child, children, rfl⟩ := List.exists_cons_of_ne_nil h
    apply String.toList_injective
    simp [Node.write, sortedTag, writeAttributes, writeAll]

/-! ### Written trees -/

/-- An attribute whose value stays between its quotes and whose name stays in its tag. -/
structure IsPlain (a : String × String) : Prop where
  name : '>' ∉ a.1.toList
  value : '"' ∉ a.2.toList

/-- An element whose tag ends where it should, with every value between its quotes. -/
structure HasPlainTag (n : Node) : Prop where
  name : '>' ∉ n.name.toList
  attributes : ∀ a ∈ n.attributes, IsPlain a

def HasPlainTags (n : Node) : Prop := ∀ m ∈ n.elements, m.HasPlainTag

theorem HasPlainTags.root {name : String} {attributes : List (String × String)} {children : List Node}
    (h : (element name attributes children).HasPlainTags) :
    (element name attributes children).HasPlainTag :=
  h _ (mem_elements_element.2 (.inl rfl))

theorem HasPlainTags.child {name : String} {attributes : List (String × String)} {n : Node}
    {children : List Node} (h : (element name attributes children).HasPlainTags)
    (hn : n ∈ children) : n.HasPlainTags :=
  fun m hm => h m (mem_elements_element.2 (.inr ⟨n, hn, hm⟩))

/-- The characters are these tags and, outside of them, data. -/
structure Splits (cs tags : List Char) : Prop where
  markup : ∀ rest, part true false (cs ++ rest) = tags ++ part true false rest
  data : ∃ ds, IsData ds ∧ ∀ rest, part false false (cs ++ rest) = ds ++ part false false rest

namespace Splits

variable {cs ds ts us : List Char}

theorem append (hc : Splits cs ts) (hd : Splits ds us) : Splits (cs ++ ds) (ts ++ us) := by
  obtain ⟨hcm, d, hdata, hcd⟩ := hc
  obtain ⟨hdm, e, hedata, hdd⟩ := hd
  refine ⟨fun rest => ?_, d ++ e, hdata.append hedata, fun rest => ?_⟩
  · rw [List.append_assoc, hcm, hdm, List.append_assoc]
  · rw [List.append_assoc, hcd, hdd, List.append_assoc]

theorem of_isData (h : IsData cs) : Splits cs [] :=
  ⟨fun rest => part_data h.left_not_mem rest, cs, h, fun rest => part_data h.left_not_mem rest⟩

theorem tag (h : '>' ∉ cs) : Splits ('<' :: (cs ++ ['>'])) ('<' :: (cs ++ ['>'])) := by
  have hcons (rest : List Char) : '<' :: (cs ++ ['>']) ++ rest = '<' :: (cs ++ '>' :: rest) := by simp
  refine ⟨fun rest => ?_, [], .nil, fun rest => ?_⟩
  · rw [hcons, part_tag h, ← hcons]
    simp
  · rw [hcons, part_tag h]
    rfl

end Splits

namespace Writer

mutual

/-- The tags of a tree as they are written. -/
def tags (w : Writer) : Node → List Char
  | .text _ => []
  | .element name attributes children =>
    if children.isEmpty then '<' :: ((sortedTag w.assign name attributes ++ "/").toList ++ ['>'])
    else '<' :: ((sortedTag w.assign name attributes).toList ++ ['>']) ++ w.tagsAll children ++
      '<' :: (("/" ++ name).toList ++ ['>'])

def tagsAll (w : Writer) : List Node → List Char
  | [] => []
  | child :: children => w.tags child ++ w.tagsAll children

end

variable (w : Writer)

theorem right_not_mem_sortedTag {name : String} {attributes : List (String × String)}
    {children : List Node} (h : (element name attributes children).HasPlainTag) :
    '>' ∉ (sortedTag w.assign name attributes).toList := by
  intro hm
  rw [sortedTag, String.toList_append, List.mem_append] at hm
  rcases hm with hm | hm
  · exact h.name hm
  · rw [String.toList_join, List.flatMap_map, List.mem_flatMap] at hm
    obtain ⟨a, ha, hc⟩ := hm
    obtain ⟨hname, hvalue⟩ := h.attributes a (List.mem_mergeSort.1 ha)
    have hescaped := (w.isData_escape a.2).right_not_mem
    rw [w.assign_eq a hvalue] at hc
    simp [hname, hescaped] at hc

mutual

/-- A written tree is its tags, and data between them. -/
theorem splits_write : ∀ n : Node, n.HasPlainTags → Splits (w.write n).toList (w.tags n)
  | .text content, _ => by
    rw [w.write_text, tags]
    exact .of_isData (w.isData_escape content)
  | .element name attributes [], h => by
    have htag : '>' ∉ (sortedTag w.assign name attributes ++ "/").toList := by
      simpa using w.right_not_mem_sortedTag h.root
    rw [w.write_empty, tags]
    simpa using Splits.tag htag
  | .element name attributes (child :: children), h => by
    have htag := w.right_not_mem_sortedTag h.root
    have hname : '>' ∉ name.toList := h.root.name
    have hend : '>' ∉ ("/" ++ name).toList := by simpa using hname
    obtain ⟨inside, hlays, hwrite⟩ :=
      w.write_element name attributes (child :: children) (List.cons_ne_nil _ _)
    have hinside := splits_inside (child :: children) (fun _ hn => h.child hn) inside hlays
    rw [hwrite, tags]
    simpa using ((Splits.tag htag).append hinside).append (Splits.tag hend)

theorem splits_inside : ∀ children : List Node, (∀ n ∈ children, n.HasPlainTags) →
    ∀ inside : List Char, Lays (children.map w.write) inside → Splits inside (w.tagsAll children)
  | [], _, inside, hlays => by
    cases hlays with
    | nil hb => exact .of_isData (.of_isSpacing hb)
  | child :: children, h, inside, hlays => by
    obtain ⟨hc, hcs⟩ := List.forall_mem_cons.1 h
    cases hlays with
    | @cons blanks rest _ _ hb hrest =>
      have hchild := splits_write child hc
      have hchildren := splits_inside children hcs rest hrest
      exact (Splits.of_isData (.of_isSpacing hb)).append (hchild.append hchildren)

end

variable {w} {n : Node}

theorem markup_write (h : n.HasPlainTags) : markup (w.write n) = w.tags n := by
  have hm := (w.splits_write n h).markup []
  rwa [List.append_nil, part, List.append_nil] at hm

theorem isData_write (h : n.HasPlainTags) : IsData (data (w.write n)) := by
  obtain ⟨ds, hdata, hd⟩ := (w.splits_write n h).data
  have hd := hd []
  rw [List.append_nil, part, List.append_nil] at hd
  rwa [data, hd]

mutual

/-- The texts of a tree do not show in its tags. -/
theorem tags_muted (w : Writer) : ∀ (n : Node) (inText : Bool), w.tags (n.muted inText) = w.tags n
  | .text _, _ => rfl
  | .element name attributes children, _ => by
    rw [muted, tags, tags, tagsAll_muted w children, mutedAll_eq_map, List.isEmpty_map]

theorem tagsAll_muted (w : Writer) : ∀ (children : List Node) (inText : Bool),
    w.tagsAll (mutedAll inText children) = w.tagsAll children
  | [], _ => rfl
  | child :: children, _ => by
    rw [mutedAll, tagsAll, tagsAll, tags_muted w child, tagsAll_muted w children]

end

end Writer

end Sketch.Svg.Node
