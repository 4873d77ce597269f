import Sketch.Problem
import Sketch.Svg.Picture

/-!
Scenes drawn by the settings.
-/

namespace Sketch

/-- How previews are painted. -/
def Config.paint [Readers] (c : Config) : Except Problem Svg.Paint := do
  let background ← c.preview.color.mapError (.picture ∘ .setting)
  return ⟨background, c.preview.fontSize⟩

/-- The document of a preview. -/
def Preview.document [Readers] (p : Preview) (c : Config) : Except Problem String := do
  return (Svg.ofPreview (← c.paint) p).write

/-- The preview of a scene, if it ends. Plots whose formula cannot be read are left out. -/
def Scene.preview (s : Scene) (c : Config) : Except Problem (Option Preview) := do
  let viewport ← c.viewport.toViewport.mapError (.config ∘ .setting)
  let limits ← c.limits.mapError (.config ∘ .setting)
  return Preview.ofScene? viewport limits s

/-- The document of a scene, if its preview ends. -/
def Scene.document [Readers] (s : Scene) (c : Config) : Except Problem (Option String) := do
  (← s.preview c).mapM (·.document c)

end Sketch
