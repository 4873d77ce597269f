import Sketch.Code.Document
import Sketch.Proofs.Code.Command

/-!
Single lines. A line that frames the picture is told apart from the others whatever axis is open, and
every other line is an element or a warning. The line of an element is read as that element.
-/

namespace Sketch

/-! ### Comments -/

namespace Reading

variable {c : Char} {cs ds : List Char}

theorem stripComment_escape (c : Char) (cs : List Char) :
    stripComment false ('\\' :: c :: cs) = '\\' :: c :: stripComment false cs := by
  rw [stripComment, if_pos rfl, stripComment]
  by_cases hc : c = '\\'
  · rw [if_pos hc]
    rfl
  · rw [if_neg hc, if_neg (by simp)]

theorem stripComment_cons (hb : c ≠ '\\') (hp : c ≠ '%') (cs : List Char) :
    stripComment false (c :: cs) = c :: stripComment false cs := by
  rw [stripComment, if_neg hb, if_neg (by simp [hp])]

theorem stripComment_eq_self (h : '%' ∉ Braces.unescaped cs) : stripComment false cs = cs := by
  induction cs using Braces.escapeInduction with
  | nil => rfl
  | lone => rfl
  | escape c cs ih =>
    rw [Braces.unescaped_escape] at h
    rw [stripComment_escape, ih h]
  | cons c cs hb ih =>
    rw [Braces.unescaped_cons hb, List.mem_cons, not_or] at h
    rw [stripComment_cons hb (Ne.symm h.1), ih h.2]

theorem stripComment_append (h : '%' ∉ Braces.unescaped cs) (he : Braces.endsEscaped cs = false)
    (ds : List Char) : stripComment false (cs ++ ds) = cs ++ stripComment false ds := by
  induction cs using Braces.escapeInduction with
  | nil => rfl
  | lone => contradiction
  | escape c cs ih =>
    rw [Braces.unescaped_escape] at h
    rw [Braces.endsEscaped_escape] at he
    rw [List.cons_append, List.cons_append, stripComment_escape, ih h he]
    rfl
  | cons c cs hb ih =>
    rw [Braces.unescaped_cons hb, List.mem_cons, not_or] at h
    rw [Braces.endsEscaped_cons hb] at he
    rw [List.cons_append, stripComment_cons hb (Ne.symm h.1), ih h.2 he]
    rfl

theorem percent_not_mem_stripComment (cs : List Char) :
    '%' ∉ Braces.unescaped (stripComment false cs) := by
  induction cs using Braces.escapeInduction with
  | nil => exact List.not_mem_nil
  | lone => decide
  | escape c cs ih =>
    rw [stripComment_escape, Braces.unescaped_escape]
    exact ih
  | cons c cs hb ih =>
    by_cases hp : c = '%'
    · subst hp
      exact List.not_mem_nil
    · rw [stripComment_cons hb hp, Braces.unescaped_cons hb, List.mem_cons, not_or]
      exact ⟨Ne.symm hp, ih⟩

theorem stripComment_prefix (escaped : Bool) (cs : List Char) : stripComment escaped cs <+: cs := by
  induction cs generalizing escaped with
  | nil => exact List.prefix_refl _
  | cons c cs ih =>
    unfold stripComment
    split
    · exact List.cons_prefix_cons.2 ⟨rfl, ih _⟩
    · split
      · exact List.nil_prefix
      · exact List.cons_prefix_cons.2 ⟨rfl, ih _⟩

/-- Blanks at the end of a line are cut off with its comment, or left where there is none. -/
theorem exists_stripComment_append_eq (escaped : Bool) (cs : List Char) (h : Text.IsBlank ds) :
    ∃ rest, Text.IsBlank rest ∧ stripComment escaped (cs ++ ds) = stripComment escaped cs ++ rest := by
  induction cs generalizing escaped with
  | nil =>
    have hp := stripComment_prefix escaped ds
    exact ⟨_, fun c hc => h c (hp.subset hc), rfl⟩
  | cons c cs ih =>
    rw [List.cons_append, stripComment, stripComment]
    split
    · obtain ⟨rest, hr, hs⟩ := ih (!escaped)
      exact ⟨rest, hr, congrArg (c :: ·) hs⟩
    · split
      · exact ⟨[], List.forall_mem_nil _, rfl⟩
      · obtain ⟨rest, hr, hs⟩ := ih false
        exact ⟨rest, hr, congrArg (c :: ·) hs⟩

end Reading

/-- Texts that stand in the middle of a line without an effect on what follows them. -/
structure Text.IsInline (cs : List Char) : Prop where
  percent_not_mem : '%' ∉ Braces.unescaped cs
  endsEscaped_eq : Braces.endsEscaped cs = false
  break_not_mem : '\n' ∉ cs

namespace Text.IsInline

variable {cs ds : List Char}

theorem append (hc : IsInline cs) (hd : IsInline ds) : IsInline (cs ++ ds) where
  percent_not_mem := by
    rw [Braces.unescaped_append hc.endsEscaped_eq, List.mem_append, not_or]
    exact ⟨hc.percent_not_mem, hd.percent_not_mem⟩
  endsEscaped_eq := by
    rw [Braces.endsEscaped_append hc.endsEscaped_eq, hd.endsEscaped_eq]
  break_not_mem := by
    rw [List.mem_append, not_or]
    exact ⟨hc.break_not_mem, hd.break_not_mem⟩

theorem of_isPlain (h : ∀ c ∈ cs, isPlain c = true) : IsInline cs := by
  have hne := fun c hc => ne_of_isPlain (h c hc)
  clear h
  induction cs with
  | nil => exact ⟨List.not_mem_nil, rfl, List.not_mem_nil⟩
  | cons c cs ih =>
    obtain ⟨hb, -, -, hp, hn⟩ := hne c (List.mem_cons_self ..)
    have ih := ih fun d hd => hne d (List.mem_cons_of_mem _ hd)
    refine ⟨?_, ?_, ?_⟩
    · rw [Braces.unescaped_cons hb, List.mem_cons, not_or]
      exact ⟨Ne.symm hp, ih.percent_not_mem⟩
    · rw [Braces.endsEscaped_cons hb]
      exact ih.endsEscaped_eq
    · rw [List.mem_cons, not_or]
      exact ⟨Ne.symm hn, ih.break_not_mem⟩

theorem of_safe {depth : Nat} (h : Braces.Safe depth cs) : IsInline cs where
  percent_not_mem := h.percent_not_mem
  endsEscaped_eq := h.balanced.endsEscaped_eq
  break_not_mem hm := (h.ne_break hm).1 rfl

theorem code (x : Float) : IsInline (Number.code x).toList := of_isPlain (Number.isPlain_code x)

end Text.IsInline

/-! ### The code of elements -/

theorem Point.isInline_code (p : Point) : Text.IsInline p.code.toList := by
  unfold Point.code
  simp only [String.toList_append]
  have ho : Text.IsInline "(".toList := .of_isPlain (by decide)
  have hc : Text.IsInline ",".toList := .of_isPlain (by decide)
  have he : Text.IsInline ")".toList := .of_isPlain (by decide)
  exact (((ho.append (.code p.x)).append hc).append (.code p.y)).append he

theorem Style.isInline_code (s : Style) (kind : Kind) :
    Text.IsInline (s.code kind.colorKey).toList :=
  .of_isPlain (s.isPlain_code kind)

theorem Shape.isInline_code (t : Shape) (s : Style) : Text.IsInline (t.code s).toList := by
  have hd : Text.IsInline "\\draw".toList := ⟨by decide, by decide, by decide⟩
  have hp (cs : List Char) (h : ∀ c ∈ cs, Text.isPlain c = true) : Text.IsInline cs := .of_isPlain h
  have hstyle := s.isInline_code .shape
  cases t with
  | circle center radius =>
    unfold code
    simp only [String.toList_append]
    exact (((((hd.append hstyle).append (hp _ (by decide))).append center.isInline_code).append
      (hp _ (by decide))).append (.code radius)).append (hp _ (by decide))
  | rectangle origin width height =>
    unfold code
    simp only [String.toList_append]
    exact (((((hd.append hstyle).append (hp _ (by decide))).append origin.isInline_code).append
      (hp _ (by decide))).append (Point.isInline_code _)).append (hp _ (by decide))
  | line start stop =>
    unfold code
    simp only [String.toList_append]
    exact (((((hd.append hstyle).append (hp _ (by decide))).append start.isInline_code).append
      (hp _ (by decide))).append stop.isInline_code).append (hp _ (by decide))
  | grid corner opposite =>
    unfold code
    simp only [String.toList_append]
    exact (((((hd.append (hp _ (by decide))).append (hp _ (by decide))).append
      corner.isInline_code).append (hp _ (by decide))).append
        opposite.isInline_code).append (hp _ (by decide))

theorem Label.isInline_code (l : Label) (s : Style) :
    Text.IsInline (Element.code ⟨.label l, s⟩).toList := by
  have hn : Text.IsInline "\\node".toList := ⟨by decide, by decide, by decide⟩
  have ha : Text.IsInline " at ".toList := .of_isPlain (by decide)
  have ho : Text.IsInline " \x7b".toList := ⟨by decide, by decide, by decide⟩
  have he : Text.IsInline "\x7d;".toList := ⟨by decide, by decide, by decide⟩
  have hc : Text.IsInline l.content.toList := by
    rw [Label.content, String.toList_ofList]
    exact .of_safe (Braces.safe_escape _)
  unfold Element.code
  simp only [String.toList_append]
  exact (((((hn.append (s.isInline_code .text)).append ha).append l.position.isInline_code).append
    ho).append hc).append he

theorem Command.isInline_plotFront (s : Style) : Text.IsInline (plotFront s) := by
  have hn : Text.IsInline "\\addplot".toList := ⟨by decide, by decide, by decide⟩
  have ho : Text.IsInline " \x7b".toList := ⟨by decide, by decide, by decide⟩
  exact hn.append ((s.isInline_code .plot).append ho)

theorem Axis.isInline_code {a : Axis} (h : a.IsFinite) :
    Text.IsInline (Command.axisBegin ++ a.code).toList := by
  have hb : Text.IsInline Command.axisBegin.toList := ⟨by decide, by decide, by decide⟩
  have ho : Text.IsInline "[".toList := .of_isPlain (by decide)
  have hc : Text.IsInline "]".toList := .of_isPlain (by decide)
  have hos : Text.IsInline (", ".intercalate a.options).toList :=
    .of_isPlain ((a.writes_options h).forall_mem fun _ hp _ => hp)
  rw [a.code_eq, String.toList_append, String.toList_append, String.toList_append]
  exact hb.append ((ho.append hos).append hc)

theorem Element.getLast?_code (e : Element) : e.code.toList.getLast? = some ';' := by
  obtain ⟨figure, style⟩ := e
  cases figure with
  | shape t => cases t <;> simp [code, Shape.code, List.getLast?_cons]
  | label l => simp [code, List.getLast?_cons]
  | plot p => simp [code, List.getLast?_cons]

theorem Shape.exists_code_eq (t : Shape) (s : Style) :
    ∃ cs, (t.code s).toList = '\\' :: 'd' :: cs := by
  cases t with
  | circle center radius =>
    simp only [code, String.toList_append, List.append_assoc]
    exact ⟨_, rfl⟩
  | rectangle origin width height =>
    simp only [code, String.toList_append, List.append_assoc]
    exact ⟨_, rfl⟩
  | line start stop =>
    simp only [code, String.toList_append, List.append_assoc]
    exact ⟨_, rfl⟩
  | grid corner opposite =>
    simp only [code, String.toList_append, List.append_assoc]
    exact ⟨_, rfl⟩

theorem Label.exists_code_eq (l : Label) (s : Style) :
    ∃ cs, (Element.code ⟨.label l, s⟩).toList = '\\' :: 'n' :: cs := by
  simp only [Element.code, String.toList_append, List.append_assoc]
  exact ⟨_, rfl⟩

namespace Element

variable {e : Element}

theorem isInline_code (h : e.isPlot = false) : Text.IsInline e.code.toList := by
  obtain ⟨figure, style⟩ := e
  cases figure with
  | shape t => exact t.isInline_code style
  | label l => exact l.isInline_code style
  | plot p => contradiction

/-- The command of an element is none of those that frame a picture. -/
theorem exists_code_eq (h : e.isPlot = false) :
    ∃ c cs, e.code.toList = '\\' :: c :: cs ∧ c ≠ 'b' ∧ c ≠ 'e' := by
  obtain ⟨figure, style⟩ := e
  cases figure with
  | shape t =>
    obtain ⟨cs, hc⟩ := t.exists_code_eq style
    exact ⟨'d', cs, hc, by decide, by decide⟩
  | label l =>
    obtain ⟨cs, hc⟩ := l.exists_code_eq style
    exact ⟨'n', cs, hc, by decide, by decide⟩
  | plot p => contradiction

end Element

/-! ### Readings -/

namespace Reading

open Command (plotFront IsClosing)

/-- The lines that make no element: blank lines, and those that frame the picture or an axis block. -/
def IsFrame (line : List Char) : Prop :=
  let code := significant line
  code = [] ∨ Command.pictureBegin.toList <+: code ∨ code = Command.pictureEnd.toList ∨
    code = Command.axisEnd.toList ∨ Command.axisBegin.toList <+: code

variable {line front indent : List Char} {axis : Axis} {e : Element}

theorem ofLine_of_isFrame (h : IsFrame line) (axis : Axis) (offset : Nat) :
    ofLine axis offset line = .nothing ∨ ∃ opened, ofLine axis offset line = .axis opened := by
  unfold ofLine
  dsimp only
  split
  · exact .inl rfl
  · next hn =>
    rw [not_or, not_or, List.isEmpty_iff, List.isPrefixOf_iff_prefix] at hn
    have hb := ((h.resolve_left hn.1).resolve_left hn.2.1).resolve_left hn.2.2
    split
    · exact .inr ⟨_, rfl⟩
    · next he =>
      have hs := Command.isSome_axis? (significant line)
      rw [List.isPrefixOf_iff_prefix.2 (hb.resolve_left he)] at hs
      obtain ⟨opened, ho⟩ := Option.isSome_iff_exists.1 hs
      rw [ho]
      exact .inr ⟨opened, rfl⟩

theorem ofLine_of_not_isFrame (h : ¬IsFrame line) (axis : Axis) (offset : Nat) :
    ofLine axis offset line =
      match Command.ofLine axis (significant line) with
      | .ok e => .element e
      | .error m => .skipped (warning offset line m) := by
  simp only [IsFrame, not_or] at h
  obtain ⟨hn, hb, he, hae, hab⟩ := h
  have hax : Command.axis? (significant line) = none := Command.axis?_eq_none_iff.2 hab
  have hnot : ¬((significant line).isEmpty ∨
      Command.pictureBegin.toList.isPrefixOf (significant line) ∨
      significant line = Command.pictureEnd.toList) := by
    rw [not_or, not_or, List.isEmpty_iff, List.isPrefixOf_iff_prefix]
    exact ⟨hn, hb, he⟩
  unfold ofLine
  dsimp only
  rw [if_neg hnot, if_neg hae]
  split
  · next a ha =>
    rw [hax] at ha
    contradiction
  · rfl

theorem significant_append_left (h : Text.IsBlank indent) (line : List Char) :
    significant (indent ++ line) = significant line := by
  have hu : '%' ∉ Braces.unescaped indent := by
    rw [Braces.unescaped_of_isBlank h]
    intro hm
    have := h _ hm
    contradiction
  rw [significant, stripComment_append hu (Braces.endsEscaped_of_isBlank h), Text.trim_append_left h,
    significant]

theorem significant_append_right (line : List Char) {blanks : List Char} (h : Text.IsBlank blanks) :
    significant (line ++ blanks) = significant line := by
  obtain ⟨rest, hr, hs⟩ := exists_stripComment_append_eq false line h
  rw [significant, hs, Text.trim_append_right _ hr, significant]

/-- A line with a command on it frames nothing. -/
theorem not_isFrame_of_head {c : Char} {cs : List Char} (h : significant line = '\\' :: c :: cs)
    (hb : c ≠ 'b') (he : c ≠ 'e') : ¬IsFrame line := by
  unfold IsFrame
  rw [h]
  rintro (hn | hp | hp | hp | hp)
  · contradiction
  · obtain ⟨ds, hd⟩ := hp
    exact hb (List.cons.inj (List.cons.inj hd).2).1.symm
  · exact he (List.cons.inj (List.cons.inj hp).2).1
  · exact he (List.cons.inj (List.cons.inj hp).2).1
  · obtain ⟨ds, hd⟩ := hp
    exact hb (List.cons.inj (List.cons.inj hd).2).1.symm

/-- The part of a line that is read starts behind its indentation. -/
theorem significant_append {c d : Char} (hi : Text.IsBlank indent) (hf : Text.IsInline front)
    (hh : front.head? = some c) (hc : Text.isBlank c = false) (hl : front.getLast? = some d)
    (hd : Text.isBlank d = false) (cs : List Char) :
    significant (indent ++ (front ++ cs)) = front ++ Text.trimEnd (stripComment false cs) := by
  rw [significant_append_left hi, significant, stripComment_append hf.percent_not_mem hf.endsEscaped_eq]
  cases front with
  | nil => contradiction
  | cons b front =>
    cases hh
    rw [Text.trim, List.cons_append, Text.trimStart_cons hc, ← List.cons_append,
      Text.trimEnd_append_of_getLast? hl hd]

end Reading

end Sketch
