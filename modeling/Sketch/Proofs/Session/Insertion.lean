import Sketch.Proofs.Code.Locality
import Sketch.Proofs.Code.Scene
import Sketch.Proofs.Session.Deferral

/-!
Snippets in generated code. The code of a scene leaves no axis open before its last line, so whatever
is put there is read as it would be alone, and the lines around it are read as before.
-/

namespace Sketch

/-! ### The lines of a snippet -/

namespace Text

theorem isBlank_break : IsBlank ['\n'] := List.forall_mem_singleton.2 rfl

/-- All that is cut off a line is blank, and if nothing is, no line feed ends it. -/
theorem exists_withoutBreak_eq (line : List Char) : ∃ blanks, IsBlank blanks ∧
    line = withoutBreak line ++ blanks ∧ (blanks = [] → line.getLast? ≠ some '\n') := by
  rw [← List.head?_reverse]
  unfold withoutBreak
  split
  · next cs h =>
    refine ⟨['\r', '\n'], List.forall_mem_cons.2 ⟨rfl, isBlank_break⟩, ?_, fun hn => by contradiction⟩
    rw [← List.reverse_reverse line, h]
    simp
  · next cs _ h =>
    refine ⟨['\n'], isBlank_break, ?_, fun hn => by contradiction⟩
    rw [← List.reverse_reverse line, h]
    simp
  · next hn =>
    refine ⟨[], List.forall_mem_nil _, (List.append_nil line).symm, fun _ hb => ?_⟩
    obtain ⟨cs, hc⟩ := List.head?_eq_some_iff.1 hb
    exact hn cs hc

theorem break_not_mem_withoutBreak {cs line : List Char} (h : line ∈ lines cs) :
    '\n' ∉ withoutBreak line := by
  obtain ⟨blanks, -, hline, hlast⟩ := exists_withoutBreak_eq line
  cases blanks with
  | cons b bs => exact break_not_mem_of_mem_lines h hline
  | nil =>
    rw [List.append_nil] at hline
    rw [← hline]
    rcases line.eq_nil_or_concat with rfl | ⟨front, c, rfl⟩
    · exact List.not_mem_nil
    · rw [List.concat_eq_append] at h hlast ⊢
      have hc : '\n' ≠ c := by
        rintro rfl
        exact hlast rfl List.getLast?_concat
      rw [List.mem_append, List.mem_singleton, not_or]
      exact ⟨break_not_mem_of_mem_lines h rfl, hc⟩

end Text

namespace Snippet

/-- A line of a snippet as it stands in the code. -/
def indented (line : List Char) : List Char := "  ".toList ++ Text.withoutBreak line ++ ['\n']

theorem significant_indented (line : List Char) :
    Reading.significant (indented line) = Reading.significant line := by
  obtain ⟨blanks, hb, hline, -⟩ := Text.exists_withoutBreak_eq line
  rw [indented, Reading.significant_append_right _ Text.isBlank_break,
    Reading.significant_append_left Reading.isBlank_indent.1]
  conv_rhs => rw [hline, Reading.significant_append_right _ hb]

theorem endsLine_block (snippet : List Char) : Text.EndsLine (block snippet) :=
  .flatMap (fun _ => .concat _) _

theorem lines_indented {snippet line : List Char} (h : line ∈ Text.lines snippet) :
    Text.lines (indented line) = [indented line] := by
  apply Text.lines_single
  rw [List.mem_append, not_or]
  exact ⟨by decide, Text.break_not_mem_withoutBreak h⟩

theorem lines_block (snippet : List Char) :
    Text.lines (block snippet) = (Text.lines snippet).map indented := by
  rw [block, Text.EndsLine.lines_flatMap fun _ => .concat _, ← List.flatMap_pure_eq_map]
  exact List.flatMap_congr fun line h => lines_indented h

/-- In a code that ends with a picture, a snippet is put before that end. -/
theorem splice_append {head : List Char} (h : Text.EndsLine head) (snippet : List Char) :
    splice (head ++ Command.pictureEnd.toList) snippet =
      head ++ block snippet ++ Command.pictureEnd.toList := by
  unfold Text.EndsLine at h
  rw [splice, Text.splitLast?_append (by decide), Option.getD_some]
  dsimp only
  rw [if_pos h, List.append_nil]

end Snippet

/-! ### The code before the end of a picture -/

namespace Scene

variable {s : Scene}

/-- The lines of a scene's code before the last one. -/
def front (s : Scene) : List (List Char) := s.codeLines.flatMap fun l => Text.lines (l.toList ++ ['\n'])

theorem openAxis_front (s : Scene) : Reading.openAxis s.front = {} := by
  rw [front, codeLines_eq]
  cases s.axis? with
  | none =>
    -- No plots: only the start of the picture and the other elements, none of which bounds an axis.
    apply Reading.openAxis_eq_default
    intro l hl
    rw [Option.map_none, Option.getD_none, List.append_nil, List.flatMap_append, List.flatMap_singleton,
      List.flatMap_map] at hl
    rcases List.mem_append.1 hl with hl | hl
    · cases List.mem_singleton.1 hl
      decide +kernel
    · obtain ⟨e, he, hl⟩ := List.mem_flatMap.1 hl
      have hp : e.isPlot = false := by simpa [drawn] using (List.mem_filter.1 he).2
      rw [lines_code_element hp "  " (by decide), List.mem_singleton] at hl
      rw [hl]
      exact fun hb => Reading.not_isFrame_code hp Reading.isBlank_indent.1 hb.isFrame
  | some axis =>
    have hend : Text.lines (("  " ++ Command.axisEnd).toList ++ ['\n']) =
        [("  " ++ Command.axisEnd).toList ++ ['\n']] := rfl
    rw [Option.map_some, Option.getD_some, blockLines, ← List.append_assoc, List.flatMap_append,
      List.flatMap_singleton, hend, Reading.openAxis_concat]
    rfl

theorem elementsUnder_concat_pictureEnd (axis : Axis) (ls : List (List Char)) :
    Reading.elementsUnder axis (ls ++ [Command.pictureEnd.toList]) = Reading.elementsUnder axis ls := by
  rw [Reading.elementsUnder_append, Reading.elementsUnder_cons, Reading.ofLine_pictureEnd]
  exact List.append_nil _

end Scene

namespace Session

/-- What a code and the snippets after it have to offer, each read as it is alone. -/
def offered (code : String) (snippets : List String) : List Element :=
  (Document.ofText code).elements ++ snippets.flatMap fun c => (Document.ofText c).elements

variable {t : Session} {cs : List String}

section Eager

variable {head : List Char}

theorem code_eager_insert (h : Text.EndsLine head)
    (hc : t.code.toList = head ++ Command.pictureEnd.toList) (snippet : String) :
    (Eager.insert t snippet).code.toList =
      head ++ Snippet.block snippet.toList ++ Command.pictureEnd.toList := by
  rw [Eager.insert, takeText_eq, String.toList_ofList, hc, Snippet.splice_append h]

theorem scene_eager_insert (t : Session) (snippet : String) : (Eager.insert t snippet).scene =
    (Document.ofText (Eager.insert t snippet).code).applyTo t.scene := by
  rw [Eager.insert, takeText_eq]

/-- Snippets stand in the code in the order in which they were put there. -/
theorem code_foldl_eager_insert (h : Text.EndsLine head)
    (hc : t.code.toList = head ++ Command.pictureEnd.toList) (cs : List String) :
    (cs.foldl Eager.insert t).code.toList =
      head ++ cs.flatMap (fun c => Snippet.block c.toList) ++ Command.pictureEnd.toList := by
  induction cs generalizing t head with
  | nil => rw [List.foldl_nil, hc, List.flatMap_nil, List.append_nil]
  | cons c cs ih =>
    rw [List.foldl_cons, ih (h.append (Snippet.endsLine_block _)) (code_eager_insert h hc c),
      List.flatMap_cons, List.append_assoc head]

end Eager

theorem lines_foldl_eager_insert (ht : t.code = t.scene.code) (cs : List String) :
    Text.lines (cs.foldl Eager.insert t).code.toList = t.scene.front ++
      cs.flatMap (fun c => (Text.lines c.toList).map Snippet.indented) ++ [Command.pictureEnd.toList] := by
  have hhead : Text.EndsLine (t.scene.codeLines.flatMap fun l => l.toList ++ ['\n']) :=
    .flatMap (fun _ => .concat _) _
  have hblocks : Text.EndsLine (cs.flatMap fun c => Snippet.block c.toList) :=
    .flatMap (fun c : String => Snippet.endsLine_block c.toList) cs
  rw [code_foldl_eager_insert hhead (ht ▸ t.scene.toList_code), (hhead.append hblocks).lines_append,
    hhead.lines_append, Text.EndsLine.lines_flatMap fun _ => .concat _,
    Text.EndsLine.lines_flatMap fun c : String => Snippet.endsLine_block c.toList]
  simp only [Snippet.lines_block]
  rfl

/-- A code with snippets is read as what it was before, and each snippet as it is alone. -/
theorem elements_foldl_eager_insert (ht : t.code = t.scene.code)
    (hcs : ∀ c ∈ cs, Reading.openAxis (Text.lines c.toList) = {}) :
    (Document.ofText (cs.foldl Eager.insert t).code).elements = offered t.code cs := by
  have hcode : (Document.ofText t.code).elements = Reading.elementsUnder {} t.scene.front := by
    change Reading.elementsUnder {} (Text.lines t.code.toList) = _
    rw [ht, Scene.lines_code]
    exact Scene.elementsUnder_concat_pictureEnd {} t.scene.front
  have hblocks : ∀ c ∈ cs,
      Reading.openAxis ((Text.lines c.toList).map Snippet.indented) = {} := fun c hc => by
    rw [Reading.openAxis_map Snippet.significant_indented, hcs c hc]
  change Reading.elementsUnder {} (Text.lines (cs.foldl Eager.insert t).code.toList) = _
  rw [lines_foldl_eager_insert ht, Scene.elementsUnder_concat_pictureEnd, Reading.elementsUnder_append,
    Reading.foldl_axisThrough, Scene.openAxis_front, Reading.elementsUnder_flatMap hblocks, offered, hcode]
  simp only [Reading.elementsUnder_map Snippet.significant_indented]
  rfl

theorem scene_foldl_eager_insert (ht : t.code = t.scene.code)
    (hcs : ∀ c ∈ cs, Reading.openAxis (Text.lines c.toList) = {}) :
    (cs ≠ [] → offered t.code cs ≠ [] →
      (cs.foldl Eager.insert t).scene.elements = offered t.code cs) ∧
    (cs = [] ∨ offered t.code cs = [] → (cs.foldl Eager.insert t).scene = t.scene) := by
  induction cs using List.reverseRecOn with
  | nil => exact ⟨fun h => absurd rfl h, fun _ => rfl⟩
  | append_singleton cs c ih =>
    have hread := elements_foldl_eager_insert ht hcs
    have hscene : ((cs ++ [c]).foldl Eager.insert t).scene =
        (Document.ofText ((cs ++ [c]).foldl Eager.insert t).code).applyTo
          (cs.foldl Eager.insert t).scene := by
      rw [List.foldl_append, List.foldl_cons, List.foldl_nil, scene_eager_insert]
    rw [hscene]
    refine ⟨fun _ hne => ?_, fun hn => ?_⟩
    · have hd := Document.applyTo_eq_replaceAll fun h => hne (hread ▸ List.length_eq_zero_iff.1 h)
      rw [hd, Scene.elements_replaceAll, hread]
    · have he := hn.resolve_left (List.append_ne_nil_of_right_ne_nil _ (List.cons_ne_nil _ _))
      have hrest : offered t.code cs = [] := by
        rw [offered, List.flatMap_append, ← List.append_assoc, List.append_eq_nil_iff] at he
        exact he.1
      rw [Document.applyTo_eq_self (List.length_eq_zero_iff.2 (hread.trans he))]
      exact (ih fun d hd => hcs d (List.mem_append_left _ hd)).2 (.inr hrest)

/-- Snippets that are put into the code of a scene one after the other and then read add their
elements to those of the code, and nothing else. If nothing is put there, or nothing can be read, the
scene is left alone. -/
theorem insertions_add (ht : t.code = t.scene.code) (hp : t.pending = false)
    (hcs : ∀ c ∈ cs, Reading.openAxis (Text.lines c.toList) = {}) :
    let u := (cs.map Operation.insert ++ [Operation.tick]).foldl after t
    (cs ≠ [] → offered t.code cs ≠ [] → u.scene.elements = offered t.code cs) ∧
    (cs = [] ∨ offered t.code cs = [] → u.scene = t.scene) ∧
    ∃ front, Text.lines t.code.toList = front ++ [Command.pictureEnd.toList] ∧
      Text.lines u.code.toList = front ++
        cs.flatMap (fun c => (Text.lines c.toList).map Snippet.indented) ++
          [Command.pictureEnd.toList] := by
  have hu : (cs.map Operation.insert ++ [Operation.tick]).foldl after t = cs.foldl Eager.insert t := by
    rw [List.foldl_append, List.foldl_cons, List.foldl_nil, after_tick, flush_foldl_after,
      flush_of_not_pending hp, List.foldl_map]
    rfl
  rw [hu]
  obtain ⟨hadds, hkeeps⟩ := scene_foldl_eager_insert ht hcs
  exact ⟨hadds, hkeeps, t.scene.front, ht ▸ t.scene.lines_code, lines_foldl_eager_insert ht cs⟩

/-- A session with a label that reads like the end of a picture. -/
def misleading : Session := run [.add ⟨.label ⟨⟨0, 0⟩, "\\end\x7btikzpicture\x7d"⟩, {}⟩]

/-- A snippet that ends the picture once more before it draws. -/
def closing : String := "\\end\x7btikzpicture\x7d % early\r\n\\draw (0,0) circle (1cm);"

theorem insertions_add_closing : (offered misleading.code [closing]).length = 2 ∧
    (([closing].map Operation.insert ++ [Operation.tick]).foldl after misleading).scene.elements =
      offered misleading.code [closing] := by
  have ht : misleading.code = misleading.scene.code := by decide +kernel
  have hp : misleading.pending = false := by decide +kernel
  have hcs : ∀ c ∈ [closing], Reading.openAxis (Text.lines c.toList) = {} :=
    List.forall_mem_singleton.2 (Reading.openAxis_eq_default (by decide +kernel))
  have hl : (offered misleading.code [closing]).length = 2 := by decide +kernel
  refine ⟨hl, (insertions_add ht hp hcs).1 (List.cons_ne_nil _ _) fun hn => ?_⟩
  rw [hn] at hl
  contradiction

/-- A session with a red grid. -/
def ruled : Session := run [.add ⟨.shape (.grid ⟨0, 0⟩ ⟨2, 1⟩), { color := ⟨255, 0, 0⟩ }⟩]

/-- Without snippets the scene is left alone and need not be what its code offers: the code of a grid does
not tell its color. -/
theorem not_read_ruled :
    let u := (([] : List String).map Operation.insert ++ [Operation.tick]).foldl after ruled
    u.scene.elements.map (·.style.color) = [⟨255, 0, 0⟩] ∧
      (offered ruled.code []).map (·.style.color) = [.black] ∧
      u.scene.elements ≠ offered ruled.code [] := by
  have hp : ruled.pending = false := by decide +kernel
  have hred : ruled.scene.elements.map (·.style.color) = [⟨255, 0, 0⟩] := by decide +kernel
  have hblack : (offered ruled.code []).map (·.style.color) = [.black] := by decide +kernel
  rw [List.map_nil, List.nil_append, List.foldl_cons, List.foldl_nil, after_tick,
    flush_of_not_pending hp]
  refine ⟨hred, hblack, fun h => ?_⟩
  rw [h, hblack] at hred
  contradiction

end Session

end Sketch
