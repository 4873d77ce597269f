import Sketch.Proofs.Svg.Picture

/-!
The arrow heads of a document. The references of its lines and the definitions come from two walks
over the primitives, and they agree: what is referred to is defined, and once.
-/

namespace Sketch

theorem Color.hex_injective : Function.Injective Color.hex := by
  intro c d h
  have hd : c.hexDigits = d.hexDigits := String.ofList_injective h
  have hs : some c = some d := by rw [← readHex?_hexDigits c, ← readHex?_hexDigits d, hd]
  exact Option.some.inj hs

namespace Svg

open Node (elements)

variable {paint : Paint} {p : Preview}

/-! ### The markers in use -/

namespace Marker

variable {m : Marker} {ms acc : List Marker} {ps : List Primitive}

theorem mem_addNew {n : Marker} : n ∈ addNew acc m ↔ n ∈ acc ∨ n = m := by
  unfold addNew
  split
  · next h => exact ⟨.inl, fun hn => hn.elim (fun hn => hn) fun hm => hm ▸ h⟩
  · simp

theorem nodup_addNew (h : acc.Nodup) : (addNew acc m).Nodup := by
  unfold addNew
  split
  · exact h
  · next hm =>
    have hne : ∀ n ∈ acc, n ≠ m := fun n hn => ne_of_mem_of_not_mem hn hm
    exact List.nodup_append.2 ⟨h, List.nodup_singleton m, by simpa using hne⟩

theorem mem_foldl_addNew : m ∈ ms.foldl addNew acc ↔ m ∈ acc ∨ m ∈ ms := by
  induction ms generalizing acc with
  | nil => simp
  | cons n ms ih => rw [List.foldl_cons, ih, mem_addNew, List.mem_cons, or_assoc]

theorem nodup_foldl_addNew (h : acc.Nodup) : (ms.foldl addNew acc).Nodup := by
  induction ms generalizing acc with
  | nil => exact h
  | cons n ms ih => exact ih (nodup_addNew h)

theorem mem_ofPrimitives : m ∈ ofPrimitives ps ↔
    ∃ start stop style, .line start stop style ∈ ps ∧ m ∈ ofStyle style := by
  rw [ofPrimitives, mem_foldl_addNew, List.mem_flatMap]
  constructor
  · rintro (h | ⟨primitive, hp, hm⟩)
    · simp at h
    · cases primitive with
      | line start stop style => exact ⟨start, stop, style, hp, hm⟩
      | _ => simp at hm
  · rintro ⟨start, stop, style, hp, hm⟩
    exact .inr ⟨_, hp, hm⟩

theorem nodup_ofPrimitives (ps : List Primitive) : (ofPrimitives ps).Nodup :=
  nodup_foldl_addNew List.nodup_nil

theorem color_of_mem_ofStyle {style : Style} (h : m ∈ ofStyle style) : m.color = style.color := by
  unfold ofStyle at h
  rcases List.mem_append.1 h with h | h
  · split at h
    · rw [List.mem_singleton.1 h]
    · simp at h
  · split at h
    · rw [List.mem_singleton.1 h]
    · simp at h

theorem ofStyle_eq_nil_iff {style : Style} : ofStyle style = [] ↔ style.arrowHead = .none := by
  unfold ofStyle
  cases style.arrowHead with
  | none => simp [ArrowHead.hasStart, ArrowHead.hasEnd]
  | forward => simp [ArrowHead.hasStart, ArrowHead.hasEnd]
  | backward => simp [ArrowHead.hasStart, ArrowHead.hasEnd]
  | both => simp [ArrowHead.hasStart, ArrowHead.hasEnd]

theorem ofPrimitives_eq_nil_iff : ofPrimitives ps = [] ↔
    ∀ start stop style, .line start stop style ∈ ps → style.arrowHead = .none := by
  simp only [List.eq_nil_iff_forall_not_mem, mem_ofPrimitives, not_exists, not_and,
    ← ofStyle_eq_nil_iff]
  exact ⟨fun h start stop style hp m => h m start stop style hp,
    fun h m start stop style hp => h start stop style hp m⟩

theorem definitions_eq_nil_iff : definitions ps = [] ↔ ofPrimitives ps = [] := by
  unfold definitions
  split
  · next h => simp [h]
  · next h => simpa using h

/-- The ends are told apart by the letters in front, the colors by the digits behind them. -/
theorem id_injective : Function.Injective Marker.id := by
  rintro ⟨e, c⟩ ⟨f, d⟩ h
  have hl : (Marker.id ⟨e, c⟩).toList = (Marker.id ⟨f, d⟩).toList := congrArg String.toList h
  have hcolor (front : String) (hp : front ++ c.hex = front ++ d.hex) : c = d :=
    Color.hex_injective (by simpa using hp)
  cases e with
  | start =>
    cases f with
    | start => rw [hcolor _ h]
    | stop => simp [Marker.id] at hl
  | stop =>
    cases f with
    | start => simp [Marker.id] at hl
    | stop => rw [hcolor _ h]

theorem reference_eq_iff {i j : String} : "url(#" ++ i ++ ")" = "url(#" ++ j ++ ")" ↔ i = j := by
  simp [String.append_assoc]

end Marker

/-! ### Attributes of the nodes -/

/-- The attribute that refers to the marker of an end. -/
def LineEnd.key : LineEnd → String
  | .start => "marker-start"
  | .stop => "marker-end"

def Node.children : Node → List Node
  | .element _ _ children => children
  | .text _ => []

/-- The values of an attribute of a node. -/
def Node.values (key : String) (n : Node) : List String :=
  (n.attributes.filter (·.1 = key)).map (·.2)

theorem Node.mem_values {key value : String} {n : Node} :
    value ∈ n.values key ↔ (key, value) ∈ n.attributes := by
  simp [Node.values]

theorem Marker.attribute_eq (m : Marker) : m.attribute = (m.lineEnd.key, m.reference) := by
  obtain ⟨e, c⟩ := m
  cases e with
  | start => rfl
  | stop => rfl

/-- The outline of an arrow head that points to an end of lines, in a square of ten by ten. -/
def LineEnd.outline : LineEnd → String
  | .start => "M 10 0 L 0 5 L 10 10 z"
  | .stop => "M 0 0 L 10 5 L 0 10 z"

/-- Where the tip of the outline is from left to right, a bit inside of it. -/
def LineEnd.tip : LineEnd → String
  | .start => "1"
  | .stop => "9"

/-- The node draws an arrow head for an end of lines: a single outline filled with a color, which points
to this end, is put with its tip on the end, and turns with the line. -/
structure Node.IsArrowHead (e : LineEnd) (color : String) (n : Node) : Prop where
  name_eq : n.name = "marker"
  outline : ∃ path, n.children = [path] ∧ path.name = "path" ∧ path.children = [] ∧
    path.values "d" = [e.outline] ∧ path.values "fill" = [color]
  square : n.values "viewBox" = ["0 0 10 10"]
  tip : n.values "refX" = [e.tip] ∧ n.values "refY" = ["5"]
  size : n.values "markerWidth" = ["6"] ∧ n.values "markerHeight" = ["6"]
  turns : n.values "orient" = ["auto"]

theorem Marker.isArrowHead_node (m : Marker) : m.node.IsArrowHead m.lineEnd m.color.css := by
  obtain ⟨e, c⟩ := m
  cases e with
  | start => exact ⟨rfl, ⟨_, rfl, rfl, rfl, rfl, rfl⟩, rfl, ⟨rfl, rfl⟩, ⟨rfl, rfl⟩, rfl⟩
  | stop => exact ⟨rfl, ⟨_, rfl, rfl, rfl, rfl, rfl⟩, rfl, ⟨rfl, rfl⟩, ⟨rfl, rfl⟩, rfl⟩

theorem values_id_node (m : Marker) : m.node.values "id" = [m.id] := by
  obtain ⟨others, outline, hm, hothers, -⟩ := exists_node_eq m
  have hnone : others.filter (·.1 = "id") = [] := by
    rw [List.filter_eq_nil_iff]
    exact fun a ha h => (hothers a ha).2 (by simp [of_decide_eq_true h])
  rw [hm, Node.values, Node.attributes, List.filter_cons_of_pos (by simp), hnone]
  rfl

theorem LineEnd.key_ne_id (e : LineEnd) : "id" ≠ e.key := by
  cases e with
  | start => decide
  | stop => decide

theorem LineEnd.key_injective : Function.Injective LineEnd.key := by
  intro e f h
  cases e <;> cases f <;> first | rfl | exact absurd h (by decide)

/-- Nothing in a marker refers to a marker. -/
theorem key_ne_node {e : LineEnd} {m : Marker} {n : Node} (h : n ∈ m.node.elements) :
    ∀ a ∈ n.attributes, a.1 ≠ e.key := by
  obtain ⟨others, outline, hm, hothers, -⟩ := exists_node_eq m
  have hends : e.key ∈ ["id", "marker-start", "marker-end"] := by cases e <;> decide
  rw [hm, Node.mem_elements_element] at h
  rcases h with rfl | ⟨child, hchild, hn⟩
  · exact List.forall_mem_cons.2 ⟨e.key_ne_id, fun a ha h => (hothers a ha).2 (h ▸ hends)⟩
  · obtain rfl := List.mem_singleton.1 hchild
    obtain rfl : n = .element "path" [("d", outline), ("fill", m.color.css)] [] := by
      simpa [Node.mem_elements_element] using hn
    cases e with
    | start => simp [Node.attributes, LineEnd.key]
    | stop => simp [Node.attributes, LineEnd.key]

theorem key_ne_ends (e : LineEnd) (start stop : Point) : ∀ a ∈ ends start stop, a.1 ≠ e.key := by
  cases e with
  | start => simp [ends, number, LineEnd.key]
  | stop => simp [ends, number, LineEnd.key]

theorem key_ne_stroke (e : LineEnd) (style : Style) : ∀ a ∈ stroke style, a.1 ≠ e.key := by
  cases e with
  | start => simp [stroke, number, LineEnd.key, or_imp, forall_and]
  | stop => simp [stroke, number, LineEnd.key, or_imp, forall_and]

theorem key_ne_inside (e : LineEnd) (style : Style) : ∀ a ∈ inside style, a.1 ≠ e.key := by
  unfold inside
  cases e <;> split <;> simp [number, LineEnd.key]

/-- A line refers to the markers of its style. -/
theorem mem_values_line {start stop : Point} {style : Style} {e : LineEnd} {r : String} :
    r ∈ (ofPrimitive paint (.line start stop style)).values e.key ↔
      ∃ m ∈ Marker.ofStyle style, m.lineEnd = e ∧ m.reference = r := by
  have hends : (e.key, r) ∉ ends start stop := fun h => key_ne_ends e start stop _ h rfl
  have hstroke : (e.key, r) ∉ stroke style := fun h => key_ne_stroke e style _ h rfl
  simp [Node.mem_values, ofPrimitive, Node.attributes, hends, hstroke, Marker.attribute_eq,
    LineEnd.key_injective.eq_iff]

theorem values_stroke_line (start stop : Point) (style : Style) :
    (ofPrimitive paint (.line start stop style)).values "stroke" = [style.color.css] := by
  have hmarkers : ((Marker.ofStyle style).map Marker.attribute).filter (·.1 = "stroke") = [] := by
    rw [List.filter_eq_nil_iff, List.forall_mem_map]
    intro m _
    obtain ⟨e, c⟩ := m
    cases e with
    | start => simp [Marker.attribute]
    | stop => simp [Marker.attribute]
  have hdashes : ((style.lineStyle.dashes?.map fun d => ("stroke-dasharray", d)).toList).filter
      (·.1 = "stroke") = [] := by
    rw [List.filter_eq_nil_iff]
    simp
  simp [Node.values, ofPrimitive, Node.attributes, ends, stroke, number, hmarkers, hdashes]

/-- Only lines refer to markers. -/
theorem key_ne_ofPrimitive {primitive : Primitive} (e : LineEnd)
    (h : ∀ start stop style, primitive ≠ .line start stop style) :
    ∀ n ∈ (ofPrimitive paint primitive).elements, ∀ a ∈ n.attributes, a.1 ≠ e.key := by
  cases primitive with
  | line start stop style => exact absurd rfl (h start stop style)
  | circle center radius style =>
    refine Node.forall_mem_elements_leaf ?_
    refine List.forall_mem_append.2 ⟨List.forall_mem_append.2 ⟨?_, key_ne_stroke e style⟩,
      key_ne_inside e style⟩
    cases e <;> simp [number, LineEnd.key]
  | rectangle origin size style =>
    refine Node.forall_mem_elements_leaf ?_
    refine List.forall_mem_append.2 ⟨List.forall_mem_append.2 ⟨?_, key_ne_stroke e style⟩,
      key_ne_inside e style⟩
    cases e <;> simp [number, LineEnd.key]
  | gridLine start stop =>
    refine Node.forall_mem_elements_leaf ?_
    exact List.forall_mem_append.2 ⟨key_ne_ends e start stop, by cases e <;> decide⟩
  | label position content style =>
    intro n hn
    obtain rfl : n = ofPrimitive paint (.label position content style) := by
      simpa [ofPrimitive, elements, Node.elementsAll] using hn
    cases e <;> simp [ofPrimitive, Node.attributes, number, LineEnd.key]
  | curve pieces style =>
    intro n hn
    rw [ofPrimitive, Node.mem_elements_element] at hn
    rcases hn with rfl | ⟨child, hchild, hn⟩
    · simp [Node.attributes]
    · obtain ⟨piece, -, rfl⟩ := List.mem_map.1 hchild
      revert n
      refine Node.forall_mem_elements_leaf ?_
      refine List.forall_mem_append.2 ⟨?_, key_ne_stroke e style⟩
      cases e <;> simp [LineEnd.key]
  | axis start stop =>
    refine Node.forall_mem_elements_leaf ?_
    exact List.forall_mem_append.2 ⟨key_ne_ends e start stop, by cases e <;> decide⟩

theorem exists_line_of_mem_values {primitive : Primitive} {n : Node} {e : LineEnd} {r : String}
    (hn : n ∈ (ofPrimitive paint primitive).elements) (hr : r ∈ n.values e.key) :
    ∃ start stop style, primitive = .line start stop style ∧
      n = ofPrimitive paint (.line start stop style) := by
  by_cases h : ∃ start stop style, primitive = .line start stop style
  · obtain ⟨start, stop, style, rfl⟩ := h
    refine ⟨start, stop, style, rfl, ?_⟩
    simpa [ofPrimitive, Node.mem_elements_element] using hn
  · push Not at h
    exact absurd rfl (key_ne_ofPrimitive e h n hn _ (Node.mem_values.1 hr))

/-! ### The document -/

/-- The children of the definitions of a document. -/
def Node.defined (doc : Node) : List Node :=
  (doc.elements.filter (·.name = "defs")).flatMap Node.children

/-- The identifiers that the definitions give. -/
def Node.ids (doc : Node) : List String := doc.defined.flatMap (Node.values "id")

theorem name_ne_defs_ofPrimitive (primitive : Primitive) :
    ∀ n ∈ (ofPrimitive paint primitive).elements, n.name ≠ "defs" := by
  cases primitive with
  | curve pieces style =>
    intro n hn
    rw [ofPrimitive, Node.mem_elements_element] at hn
    rcases hn with rfl | ⟨child, hchild, hn⟩
    · simp [Node.name]
    · obtain ⟨piece, -, rfl⟩ := List.mem_map.1 hchild
      obtain rfl : n = polyline style piece := by
        simpa [polyline, Node.mem_elements_element] using hn
      simp [polyline, Node.name]
  | _ => simp [ofPrimitive, Node.elements, Node.elementsAll, Node.name]

theorem name_ne_defs_node (m : Marker) : ∀ n ∈ m.node.elements, n.name ≠ "defs" := by
  obtain ⟨others, outline, hm, -, -⟩ := exists_node_eq m
  simp [hm, Node.mem_elements_element, Node.name]

theorem Node.elementsAll_append (ms ns : List Node) :
    elementsAll (ms ++ ns) = elementsAll ms ++ elementsAll ns := by
  induction ms with
  | nil => rfl
  | cons m ms ih => rw [List.cons_append, elementsAll, elementsAll, ih, List.append_assoc]

theorem filter_defs_nodes (ms : List Marker) :
    (Node.elementsAll (ms.map Marker.node)).filter (·.name = "defs") = [] := by
  rw [List.filter_eq_nil_iff]
  intro n hn
  obtain ⟨child, hchild, hn⟩ := Node.mem_elementsAll.1 hn
  obtain ⟨m, -, rfl⟩ := List.mem_map.1 hchild
  simpa using name_ne_defs_node m n hn

theorem filter_defs_definitions (ps : List Primitive) :
    (Node.elementsAll (Marker.definitions ps)).filter (·.name = "defs") =
      Marker.definitions ps := by
  unfold Marker.definitions
  split
  · rfl
  · rw [Node.elementsAll, Node.elementsAll, Node.elements, List.append_nil,
      List.filter_cons_of_pos (by simp [Node.name]), filter_defs_nodes]

theorem filter_defs_ofPrimitive (ps : List Primitive) :
    (Node.elementsAll (ps.map (ofPrimitive paint))).filter (·.name = "defs") = [] := by
  rw [List.filter_eq_nil_iff]
  intro n hn
  obtain ⟨child, hchild, hn⟩ := Node.mem_elementsAll.1 hn
  obtain ⟨primitive, -, rfl⟩ := List.mem_map.1 hchild
  simpa using name_ne_defs_ofPrimitive primitive n hn

theorem filter_defs_ofPreview :
    (ofPreview paint p).elements.filter (·.name = "defs") = Marker.definitions p.primitives := by
  have hroot : ¬ (ofPreview paint p).name = "defs" := by simp [ofPreview, Node.name]
  have hbackground : (background paint).elements.filter (·.name = "defs") = [] := rfl
  rw [ofPreview, elements, ← ofPreview, List.filter_cons_of_neg (by simpa using hroot),
    List.cons_append, Node.elementsAll, Node.elementsAll_append, List.filter_append,
    List.filter_append, hbackground, filter_defs_definitions, filter_defs_ofPrimitive,
    List.nil_append, List.append_nil]

theorem defined_ofPreview :
    (ofPreview paint p).defined = (Marker.ofPrimitives p.primitives).map Marker.node := by
  rw [Node.defined, filter_defs_ofPreview, Marker.definitions]
  split
  · next h => simp [h]
  · simp [Node.children]

theorem ids_ofPreview :
    (ofPreview paint p).ids = (Marker.ofPrimitives p.primitives).map Marker.id := by
  rw [Node.ids, defined_ofPreview, List.flatMap_map, List.map_eq_flatMap]
  simp only [values_id_node]

/-- What refers to a marker is a line whose style has it. -/
theorem mem_values_ofPreview_iff {n : Node} {e : LineEnd} {r : String} :
    n ∈ (ofPreview paint p).elements ∧ r ∈ n.values e.key ↔
      ∃ start stop style, .line start stop style ∈ p.primitives ∧
        n = ofPrimitive paint (.line start stop style) ∧
        ∃ m ∈ Marker.ofStyle style, m.lineEnd = e ∧ m.reference = r := by
  constructor
  · rintro ⟨hn, hr⟩
    have hkey : (e.key, r) ∈ n.attributes := Node.mem_values.1 hr
    rcases mem_elements_ofPreview.1 hn with rfl | rfl | ⟨d, hd, hn⟩ | ⟨primitive, hp, hn⟩
    · cases e <;> simp [ofPreview, Node.attributes, number, LineEnd.key] at hkey
    · cases e <;> simp [background, Node.attributes, LineEnd.key] at hkey
    · obtain ⟨-, rfl⟩ := mem_definitions.1 hd
      rcases Node.mem_elements_element.1 hn with rfl | ⟨child, hchild, hn⟩
      · simp [Node.attributes] at hkey
      · obtain ⟨m, -, rfl⟩ := List.mem_map.1 hchild
        exact absurd rfl (key_ne_node hn _ hkey)
    · obtain ⟨start, stop, style, rfl, rfl⟩ := exists_line_of_mem_values hn hr
      exact ⟨start, stop, style, hp, rfl, mem_values_line.1 hr⟩
  · rintro ⟨start, stop, style, hp, rfl, hr⟩
    refine ⟨mem_elements_ofPreview.2 (.inr (.inr (.inr ⟨_, hp, ?_⟩))), mem_values_line.2 hr⟩
    exact Node.mem_elements_element.2 (.inl rfl)

theorem exists_reference_iff {r : String} :
    (∃ n ∈ (ofPreview paint p).elements, ∃ e : LineEnd, r ∈ n.values e.key) ↔
      ∃ i ∈ (ofPreview paint p).ids, r = "url(#" ++ i ++ ")" := by
  have hids : (ofPreview paint p).ids = (Marker.ofPrimitives p.primitives).map Marker.id :=
    ids_ofPreview
  constructor
  · rintro ⟨n, hn, e, hr⟩
    obtain ⟨start, stop, style, hp, -, m, hm, -, rfl⟩ := mem_values_ofPreview_iff.1 ⟨hn, hr⟩
    have hused : m ∈ Marker.ofPrimitives p.primitives :=
      Marker.mem_ofPrimitives.2 ⟨start, stop, style, hp, hm⟩
    exact ⟨m.id, hids ▸ List.mem_map_of_mem hused, rfl⟩
  · rintro ⟨i, hi, rfl⟩
    obtain ⟨m, hm, rfl⟩ := List.mem_map.1 (hids ▸ hi)
    obtain ⟨start, stop, style, hp, hm⟩ := Marker.mem_ofPrimitives.1 hm
    have hline : ofPrimitive paint (.line start stop style) ∈ (ofPreview paint p).elements ∧
        m.reference ∈ (ofPrimitive paint (.line start stop style)).values m.lineEnd.key :=
      mem_values_ofPreview_iff.2 ⟨start, stop, style, hp, rfl, m, hm, rfl, rfl⟩
    exact ⟨_, hline.1, m.lineEnd, hline.2⟩

theorem nodup_ids : (ofPreview paint p).ids.Nodup := by
  rw [ids_ofPreview]
  exact (Marker.nodup_ofPrimitives _).map Marker.id_injective

/-- The marker that a line refers to for one of its ends is made for that end, in the line's color. -/
theorem isArrowHead_of_reference {n d : Node} {e : LineEnd} {i : String}
    (hn : n ∈ (ofPreview paint p).elements) (hd : d ∈ (ofPreview paint p).defined)
    (hi : i ∈ d.values "id") (hr : "url(#" ++ i ++ ")" ∈ n.values e.key) :
    ∃ color, n.values "stroke" = [color] ∧ d.IsArrowHead e color := by
  obtain ⟨start, stop, style, -, rfl, m, hm, rfl, hi'⟩ := mem_values_ofPreview_iff.1 ⟨hn, hr⟩
  rw [defined_ofPreview] at hd
  obtain ⟨m', -, rfl⟩ := List.mem_map.1 hd
  rw [values_id_node, List.mem_singleton] at hi
  obtain rfl : m = m' := Marker.id_injective ((Marker.reference_eq_iff.1 hi').trans hi)
  refine ⟨style.color.css, values_stroke_line start stop style, ?_⟩
  rw [← Marker.color_of_mem_ofStyle hm]
  exact m.isArrowHead_node

theorem forall_name_ne_defs_iff : (∀ n ∈ (ofPreview paint p).elements, n.name ≠ "defs") ↔
    ∀ start stop style, .line start stop style ∈ p.primitives → style.arrowHead = .none := by
  have hnil : (∀ n ∈ (ofPreview paint p).elements, n.name ≠ "defs") ↔
      Marker.definitions p.primitives = [] := by
    have hdefs : (ofPreview paint p).elements.filter (·.name = "defs") =
        Marker.definitions p.primitives := filter_defs_ofPreview
    rw [← hdefs, List.filter_eq_nil_iff]
    simp
  rw [hnil, Marker.definitions_eq_nil_iff, Marker.ofPrimitives_eq_nil_iff]

/-- The lines of a document refer to the markers that it defines and to no others. No identifier is
defined twice. A definition draws an arrow head for the end that it is referred to for, in the color of
the line. There are definitions unless no line has an arrow. -/
theorem markers_defined (paint : Paint) (p : Preview) :
    let doc := ofPreview paint p
    (∀ r, (∃ n ∈ doc.elements, ∃ e : LineEnd, r ∈ n.values e.key) ↔
      ∃ i ∈ doc.ids, r = "url(#" ++ i ++ ")") ∧
    doc.ids.Nodup ∧
    (∀ n ∈ doc.elements, ∀ e : LineEnd, ∀ d ∈ doc.defined, ∀ i ∈ d.values "id",
      "url(#" ++ i ++ ")" ∈ n.values e.key →
        ∃ color, n.values "stroke" = [color] ∧ d.IsArrowHead e color) ∧
    ((∀ n ∈ doc.elements, n.name ≠ "defs") ↔
      ∀ start stop style, .line start stop style ∈ p.primitives → style.arrowHead = .none) :=
  ⟨fun _ => exists_reference_iff, nodup_ids, fun _ hn _ _ hd _ hi hr =>
    isArrowHead_of_reference hn hd hi hr, forall_name_ne_defs_iff⟩

/-- A red line and a blue one with arrows at both ends, and another red one with an arrow at one end. -/
def crossing : Preview where
  viewport := .standard
  primitives := [.line ⟨0, 0⟩ ⟨1, 1⟩ { color := ⟨255, 0, 0⟩, arrowHead := .both },
    .line ⟨0, 1⟩ ⟨1, 0⟩ { color := ⟨0, 0, 255⟩, arrowHead := .both },
    .line ⟨0, 0⟩ ⟨1, 0⟩ { color := ⟨255, 0, 0⟩, arrowHead := .forward }]
  failures := []

/-- Each color has its arrow head for each end, and the third line has one of the first. -/
theorem markers_defined_crossing :
    (ofPreview ⟨.white, 14⟩ crossing).ids =
      ["arrow-start-ff0000", "arrow-end-ff0000", "arrow-start-0000ff", "arrow-end-0000ff"] ∧
    List.Forall₂ (fun d head => d.IsArrowHead (Prod.fst head) (Prod.snd head))
      (ofPreview ⟨.white, 14⟩ crossing).defined
      [(.start, "#ff0000"), (.stop, "#ff0000"), (.start, "#0000ff"), (.stop, "#0000ff")] := by
  obtain ⟨-, -, hheads, -⟩ := markers_defined ⟨.white, 14⟩ crossing
  have head {start stop style} (hp : .line start stop style ∈ crossing.primitives) (m : Marker)
      (hm : m ∈ Marker.ofStyle style) : m.node.IsArrowHead m.lineEnd style.color.css := by
    obtain ⟨hline, hr⟩ := mem_values_ofPreview_iff.2 ⟨start, stop, style, hp, rfl, m, hm, rfl, rfl⟩
    have hd : m.node ∈ (ofPreview ⟨.white, 14⟩ crossing).defined := by
      rw [defined_ofPreview]
      exact List.mem_map_of_mem (Marker.mem_ofPrimitives.2 ⟨start, stop, style, hp, hm⟩)
    obtain ⟨color, hcolor, hhead⟩ := hheads _ hline _ m.node hd m.id (by simp [values_id_node]) hr
    rw [values_stroke_line, List.singleton_inj] at hcolor
    exact hcolor ▸ hhead
  have red := head (List.mem_cons_self ..)
  have blue := head (List.mem_cons_of_mem _ (List.mem_cons_self ..))
  have hused : Marker.ofPrimitives crossing.primitives =
      [⟨.start, ⟨255, 0, 0⟩⟩, ⟨.stop, ⟨255, 0, 0⟩⟩, ⟨.start, ⟨0, 0, 255⟩⟩, ⟨.stop, ⟨0, 0, 255⟩⟩] := by
    decide
  rw [ids_ofPreview, defined_ofPreview, hused]
  refine ⟨rfl, .cons ?_ (.cons ?_ (.cons ?_ (.cons ?_ .nil)))⟩
  · exact red ⟨.start, ⟨255, 0, 0⟩⟩ (by decide)
  · exact red ⟨.stop, ⟨255, 0, 0⟩⟩ (by decide)
  · exact blue ⟨.start, ⟨0, 0, 255⟩⟩ (by decide)
  · exact blue ⟨.stop, ⟨0, 0, 255⟩⟩ (by decide)

end Svg

end Sketch
