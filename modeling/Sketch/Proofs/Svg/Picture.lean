import Sketch.Proofs.Code.Options
import Sketch.Proofs.Svg.Node
import Sketch.Svg.Picture

/-!
The elements of the document of a preview, and their attributes: no value closes the quotes that it
stands in, and no name closes its tag.
-/

namespace Sketch

theorem Number.quote_not_mem_text (x : Float) : '"' ∉ (text x).toList := by
  rw [text, String.toList_ofList, write]
  split
  · intro h
    rcases isNotation_positional _ _ h with hd | hd | hd
    · contradiction
    · contradiction
    · contradiction
  · split
    · decide
    · split
      · decide
      · decide

theorem Color.quote_not_mem_css (c : Color) : '"' ∉ c.css.toList := by
  have h : ∀ d ∈ c.hexDigits, d ≠ '"' := forall_mem_hexDigits (by decide) c
  rw [css, String.toList_ofList, List.mem_cons]
  rintro (hc | hc)
  · contradiction
  · exact h _ hc rfl

theorem Color.quote_not_mem_hex (c : Color) : '"' ∉ c.hex.toList := by
  rw [hex, String.toList_ofList]
  exact fun hc => forall_mem_hexDigits (p := (· ≠ '"')) (by decide) c _ hc rfl

namespace Svg

open Node (elements IsPlain HasPlainTag)

variable {paint : Paint} {p : Preview}

/-! ### Attributes -/

instance : DecidablePred IsPlain := fun a =>
  decidable_of_iff ('>' ∉ a.1.toList ∧ '"' ∉ a.2.toList) ⟨fun h => ⟨h.1, h.2⟩, fun h => ⟨h.1, h.2⟩⟩

theorem isPlain_number {name : String} (h : '>' ∉ name.toList) (x : Float) :
    IsPlain (number name x) := ⟨h, Number.quote_not_mem_text x⟩

theorem isPlain_css {name : String} (h : '>' ∉ name.toList) (c : Color) : IsPlain (name, c.css) :=
  ⟨h, c.quote_not_mem_css⟩

theorem isPlain_ends (start stop : Point) : ∀ a ∈ ends start stop, IsPlain a := by
  simp only [ends, List.forall_mem_cons]
  exact ⟨isPlain_number (by decide) _, isPlain_number (by decide) _, isPlain_number (by decide) _,
    isPlain_number (by decide) _, by simp⟩

theorem isPlain_stroke (s : Style) : ∀ a ∈ stroke s, IsPlain a := by
  refine List.forall_mem_append.2 ⟨?_, fun a ha => ?_⟩
  · simp only [List.forall_mem_cons]
    exact ⟨isPlain_css (by decide) _, isPlain_number (by decide) _, isPlain_number (by decide) _,
      by simp⟩
  · cases hs : s.lineStyle with
    | solid => simp [hs, LineStyle.dashes?] at ha
    | dashed =>
      obtain rfl : a = ("stroke-dasharray", "5,5") := by simpa [hs, LineStyle.dashes?] using ha
      exact (by decide)
    | dotted =>
      obtain rfl : a = ("stroke-dasharray", "2,3") := by simpa [hs, LineStyle.dashes?] using ha
      exact ⟨by decide, by decide⟩

theorem isPlain_inside (s : Style) : ∀ a ∈ inside s, IsPlain a := by
  unfold inside
  split
  · simp only [List.forall_mem_cons]
    exact ⟨isPlain_css (by decide) _, isPlain_number (by decide) _, by simp⟩
  · simp only [List.forall_mem_cons]
    exact ⟨⟨by decide, by decide⟩, by simp⟩

theorem quote_not_mem_id (m : Marker) : '"' ∉ m.id.toList := by
  obtain ⟨e, c⟩ := m
  cases e with
  | start => simp [Marker.id, c.quote_not_mem_hex]
  | stop => simp [Marker.id, c.quote_not_mem_hex]

theorem isPlain_attribute (m : Marker) : IsPlain m.attribute := by
  have hm : '"' ∉ m.reference.toList := by simp [Marker.reference, quote_not_mem_id]
  obtain ⟨e, c⟩ := m
  cases e with
  | start => exact ⟨by change '>' ∉ "marker-start".toList; decide, hm⟩
  | stop => exact ⟨by change '>' ∉ "marker-end".toList; decide, hm⟩

theorem quote_not_mem_points (ps : List Point) : '"' ∉ (points ps).toList := by
  rw [points, String.toList_intercalate]
  induction ps with
  | nil => simp
  | cons q ps ih =>
    have hx := Number.quote_not_mem_text q.x
    have hy := Number.quote_not_mem_text q.y
    cases ps with
    | nil => simp [hx, hy]
    | cons r ps => simpa [List.intercalate_cons_cons, hx, hy] using ih

/-! ### Elements -/

theorem hasPlainTag_element {name : String} (hn : '>' ∉ name.toList)
    {attributes : List (String × String)} (h : ∀ a ∈ attributes, IsPlain a) (children : List Node) :
    HasPlainTag (.element name attributes children) := ⟨hn, h⟩

theorem hasPlainTag_ofPrimitive (primitive : Primitive) :
    ∀ n ∈ (ofPrimitive paint primitive).elements, HasPlainTag n := by
  cases primitive with
  | circle center radius style =>
    refine Node.forall_mem_elements_leaf (hasPlainTag_element (by decide) ?_ [])
    have hplace : ∀ a ∈ [number "cx" center.x, number "cy" center.y, number "r" radius],
        IsPlain a := by
      simp [isPlain_number]
    exact List.forall_mem_append.2 ⟨List.forall_mem_append.2 ⟨hplace, isPlain_stroke style⟩,
      isPlain_inside style⟩
  | rectangle origin size style =>
    refine Node.forall_mem_elements_leaf (hasPlainTag_element (by decide) ?_ [])
    have hplace : ∀ a ∈ [number "x" origin.x, number "y" origin.y, number "width" size.width,
        number "height" size.height], IsPlain a := by
      simp [isPlain_number]
    exact List.forall_mem_append.2 ⟨List.forall_mem_append.2 ⟨hplace, isPlain_stroke style⟩,
      isPlain_inside style⟩
  | line start stop style =>
    refine Node.forall_mem_elements_leaf (hasPlainTag_element (by decide) ?_ [])
    refine List.forall_mem_append.2 ⟨List.forall_mem_append.2
      ⟨isPlain_ends start stop, isPlain_stroke style⟩, ?_⟩
    rw [List.forall_mem_map]
    exact fun m _ => isPlain_attribute m
  | gridLine start stop =>
    refine Node.forall_mem_elements_leaf (hasPlainTag_element (by decide) ?_ [])
    exact List.forall_mem_append.2 ⟨isPlain_ends start stop, by decide⟩
  | label position content style =>
    intro n hn
    obtain rfl : n = ofPrimitive paint (.label position content style) := by
      simpa [ofPrimitive, elements, Node.elementsAll] using hn
    refine hasPlainTag_element (by decide) ?_ _
    have hconst : IsPlain ("text-anchor", "middle") ∧ IsPlain ("dominant-baseline", "central") := by
      decide
    simp [isPlain_number, isPlain_css, hconst]
  | curve pieces style =>
    intro n hn
    rw [ofPrimitive, Node.mem_elements_element] at hn
    rcases hn with rfl | ⟨child, hchild, hn⟩
    · exact hasPlainTag_element (by decide) (by simp) _
    · obtain ⟨piece, -, rfl⟩ := List.mem_map.1 hchild
      revert n
      refine Node.forall_mem_elements_leaf (hasPlainTag_element (by decide) ?_ [])
      have hpoints : IsPlain ("points", points piece) :=
        ⟨by change '>' ∉ "points".toList; decide, quote_not_mem_points piece⟩
      have hfill : IsPlain ("fill", "none") := by decide
      refine List.forall_mem_append.2 ⟨?_, isPlain_stroke style⟩
      simp [hpoints, hfill]
  | axis start stop =>
    refine Node.forall_mem_elements_leaf (hasPlainTag_element (by decide) ?_ [])
    exact List.forall_mem_append.2 ⟨isPlain_ends start stop, by decide⟩

theorem mem_definitions {ps : List Primitive} {d : Node} : d ∈ Marker.definitions ps ↔
    Marker.ofPrimitives ps ≠ [] ∧
      d = .element "defs" [] ((Marker.ofPrimitives ps).map Marker.node) := by
  unfold Marker.definitions
  split
  · next h => simp [h]
  · next h => simpa using fun _ => h

theorem mem_elements_ofPreview {n : Node} : n ∈ (ofPreview paint p).elements ↔
    n = ofPreview paint p ∨ n = background paint ∨
      (∃ d ∈ Marker.definitions p.primitives, n ∈ d.elements) ∨
      ∃ primitive ∈ p.primitives, n ∈ (ofPrimitive paint primitive).elements := by
  have hb : n ∈ (background paint).elements ↔ n = background paint := by
    simp [background, Node.mem_elements_element]
  rw [ofPreview, Node.mem_elements_element]
  simp [or_and_right, exists_or, hb]

/-- A marker is one element around its outline. -/
theorem exists_node_eq (m : Marker) : ∃ (others : List (String × String)) (outline : String),
    m.node = .element "marker" (("id", m.id) :: others)
      [.element "path" [("d", outline), ("fill", m.color.css)] []] ∧
    (∀ a ∈ others, IsPlain a ∧ a.1 ∉ ["id", "marker-start", "marker-end"]) ∧
      IsPlain ("d", outline) := by
  obtain ⟨e, c⟩ := m
  cases e with
  | start => exact ⟨_, _, rfl, by decide, by decide⟩
  | stop => exact ⟨_, _, rfl, by decide, by decide⟩

theorem hasPlainTag_node (m : Marker) : ∀ n ∈ m.node.elements, HasPlainTag n := by
  intro n hn
  obtain ⟨others, outline, hm, hothers, houtline⟩ := exists_node_eq m
  have hid : IsPlain ("id", m.id) := ⟨by change '>' ∉ "id".toList; decide, quote_not_mem_id m⟩
  have hfill : IsPlain ("fill", m.color.css) := isPlain_css (by decide) _
  rw [hm, Node.mem_elements_element] at hn
  rcases hn with rfl | ⟨child, hchild, hn⟩
  · exact hasPlainTag_element (by decide)
      (List.forall_mem_cons.2 ⟨hid, fun a ha => (hothers a ha).1⟩) _
  · obtain rfl := List.mem_singleton.1 hchild
    refine Node.forall_mem_elements_leaf (hasPlainTag_element (by decide) ?_ []) n hn
    exact List.forall_mem_cons.2 ⟨houtline, List.forall_mem_singleton.2 hfill⟩

theorem hasPlainTag_ofPreview (paint : Paint) (p : Preview) :
    ∀ n ∈ (ofPreview paint p).elements, HasPlainTag n := by
  intro n hn
  rcases mem_elements_ofPreview.1 hn with rfl | rfl | ⟨d, hd, hn⟩ | ⟨primitive, -, hn⟩
  · refine hasPlainTag_element (by decide) ?_ _
    have hnamespace : IsPlain ("xmlns", "http://www.w3.org/2000/svg") := by decide
    have hbox : IsPlain ("viewBox", "0 0 " ++ Number.text p.viewport.size.width ++ " " ++
        Number.text p.viewport.size.height) :=
      ⟨by change '>' ∉ "viewBox".toList; decide, by simp [Number.quote_not_mem_text]⟩
    simp [isPlain_number, hnamespace, hbox]
  · refine hasPlainTag_element (by decide) ?_ _
    have hsize : IsPlain ("width", "100%") ∧ IsPlain ("height", "100%") := by decide
    simp [isPlain_css, hsize]
  · obtain ⟨-, rfl⟩ := mem_definitions.1 hd
    rcases Node.mem_elements_element.1 hn with rfl | ⟨child, hchild, hn⟩
    · exact hasPlainTag_element (by decide) (by simp) _
    · obtain ⟨m, -, rfl⟩ := List.mem_map.1 hchild
      exact hasPlainTag_node m n hn
  · exact hasPlainTag_ofPrimitive primitive n hn

end Svg

end Sketch
