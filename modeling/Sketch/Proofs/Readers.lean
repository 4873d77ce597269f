import Sketch.Config.File
import Sketch.Proofs.Code.Options

/-!
The readers at hand. They read only a part of their notations, but in that part they keep to what is
known of all readers.
-/

namespace Sketch

theorem Color.readCss?_css (c : Color) : readCss? c.css = some c := by
  have ht : Text.trim ('#' :: c.hexDigits) = '#' :: c.hexDigits :=
    Text.trim_of_forall (List.forall_mem_cons.2 ⟨by decide, forall_mem_hexDigits (by decide) c⟩)
  obtain ⟨ds, hds, hc⟩ := Option.bind_eq_some_iff.1 (readHex?_hexDigits c)
  have hfull : fullDigits? ds = some ds := by
    unfold ofDigits? at hc
    split at hc
    · rfl
    · contradiction
  rw [readCss?, css, String.toList_ofList, ht]
  change ((c.hexDigits.mapM digit?).bind fullDigits?).bind ofDigits? = some c
  rw [hds, Option.bind_some, hfull]
  exact hc

instance : Readers.Lawful where
  color?_css := Color.readCss?_css
  config?_empty := rfl

end Sketch
