import Sketch.Proofs.Svg.Picture

/-!
What the contents of labels can do to a document. They change the texts of its text elements and
nothing else: not the tree, not an attribute, and no tag of the written document.
-/

namespace Sketch

/-- The primitive without the content of its label. -/
def Primitive.unlabelled : Primitive → Primitive
  | .label position _ style => .label position "" style
  | primitive => primitive

/-- The preview without the contents of its labels. -/
def Preview.unlabelled (p : Preview) : Preview :=
  { p with primitives := p.primitives.map Primitive.unlabelled }

namespace Svg

variable {paint : Paint}

theorem Marker.ofPrimitives_unlabelled (ps : List Primitive) :
    Marker.ofPrimitives (ps.map Primitive.unlabelled) = Marker.ofPrimitives ps := by
  simp only [Marker.ofPrimitives, List.flatMap_map]
  congr 2
  funext primitive
  cases primitive <;> rfl

theorem Marker.definitions_unlabelled (ps : List Primitive) :
    Marker.definitions (ps.map Primitive.unlabelled) = Marker.definitions ps := by
  rw [Marker.definitions, Marker.definitions, Marker.ofPrimitives_unlabelled]

/-- The content of a label stands in a text element. -/
theorem muted_ofPrimitive (primitive : Primitive) (inText : Bool) :
    (ofPrimitive paint primitive.unlabelled).muted inText =
      (ofPrimitive paint primitive).muted inText := by
  cases primitive <;> rfl

theorem muted_ofPreview (p : Preview) :
    (ofPreview paint p.unlabelled).muted false = (ofPreview paint p).muted false := by
  simp only [ofPreview, Preview.unlabelled, Marker.definitions_unlabelled, Node.muted,
    Node.mutedAll_eq_map, List.map_append, List.map_map, Function.comp_def, muted_ofPrimitive]

/-- Previews that differ only in the contents of their labels have documents that differ only in the
texts of text elements, and the same tags when they are written. Outside of tags there is nothing
that a reader could take for one, and no value of an attribute closes its quotes. -/
theorem labels_inert (w : Node.Writer) (paint : Paint) (p q : Preview)
    (h : p.unlabelled = q.unlabelled) :
    (ofPreview paint p).muted false = (ofPreview paint q).muted false ∧
      Node.markup (w.write (ofPreview paint p)) = Node.markup (w.write (ofPreview paint q)) ∧
      Node.IsData (Node.data (w.write (ofPreview paint p))) ∧
      ∀ n ∈ (ofPreview paint p).elements, ∀ a ∈ n.attributes, '"' ∉ a.2.toList := by
  have hmuted : (ofPreview paint p).muted false = (ofPreview paint q).muted false := by
    rw [← muted_ofPreview p, h, muted_ofPreview q]
  have hp := hasPlainTag_ofPreview paint p
  refine ⟨hmuted, ?_, Node.Writer.isData_write hp, fun n hn a ha => ((hp n hn).attributes a ha).value⟩
  rw [Node.Writer.markup_write hp, Node.Writer.markup_write (hasPlainTag_ofPreview paint q),
    ← w.tags_muted _ false, hmuted, w.tags_muted]

/-- A canvas with an arrow and a label on it. -/
def signpost (content : String) : Preview where
  viewport := .standard
  primitives := [.line ⟨0, 0⟩ ⟨1, 0⟩ { arrowHead := .both }, .label ⟨1, 1⟩ content {}]
  failures := []

theorem labels_inert_signpost :
    (signpost "</text><script>\"&").unlabelled = (signpost "north").unlabelled ∧
      let doc := ofPreview ⟨.white, 14⟩ (signpost "</text><script>\"&")
      let plain := ofPreview ⟨.white, 14⟩ (signpost "north")
      doc.muted false = plain.muted false ∧ Node.markup doc.write = Node.markup plain.write ∧
        Node.IsData (Node.data doc.write) ∧
        ∀ n ∈ doc.elements, ∀ a ∈ n.attributes, '"' ∉ a.2.toList :=
  ⟨rfl, labels_inert .lines ⟨.white, 14⟩ (signpost "</text><script>\"&") (signpost "north") rfl⟩

end Svg

end Sketch
