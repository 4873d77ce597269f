import Sketch.Proofs.Code.Splitting

/-!
Entries that cannot be read. They leave no trace in the options but one: if the value of a color key is
no color, the color that was set for this key before is taken away.
-/

namespace Sketch

/-- The keys that take a color. -/
inductive ColorKey
  | draw
  | text
  | color
  | fill

def ColorKey.name : ColorKey → String
  | .draw => "draw"
  | .text => "text"
  | .color => "color"
  | .fill => "fill"

def ColorKey.setting (c : Option Color) : ColorKey → Setting
  | .draw => .draw c
  | .text => .text c
  | .color => .color c
  | .fill => .fill c

theorem ColorKey.name_injective : Function.Injective name := by
  intro k l h
  cases k <;> cases l <;> first | rfl | simp [name] at h

/-- The color that is set for a key. -/
def Options.colorAt (o : Options) : ColorKey → Option Color
  | .draw => o.draw
  | .text => o.text
  | .color => o.color
  | .fill => o.fill

namespace Setting

variable {entry value : List Char} {key : String} {k : ColorKey} {c : Option Color}

/-- The key is known and can take the value. -/
def accepts (key : String) (value : List Char) : Bool :=
  match key with
  | "draw" | "text" | "color" | "fill" => (hex? value).isSome
  | "line width" => (length? value).isSome
  | "opacity" => (percent? value).isSome
  | "arrows" => (ArrowHead.ofText (.ofList value)).toOption.isSome
  | "domain" => (domain? value).isSome
  | "samples" => (Number.readCount? value).isSome
  | "axis lines" => true
  | _ => false

/-- A trimmed entry with a known key and a value that it can take, or a known word. -/
def isUnderstood (entry : List Char) : Bool :=
  match Text.splitFirst? '=' entry with
  | some (key, value) => accepts (.ofList (Text.trim key)) (unbrace (Text.trim value))
  | none => (ofFlag? (.ofList entry)).isSome

/-- The key of a trimmed entry. -/
def key? (entry : List Char) : Option String :=
  (Text.splitFirst? '=' entry).map fun p => .ofList (Text.trim p.1)

theorem ofKey?_of_not_accepts (h : accepts key value = false) :
    ofKey? key value = none ∨ ∃ k : ColorKey, ofKey? key value = some (k.setting none) := by
  unfold accepts at h
  split at h
  · exact .inr ⟨.draw, by simpa [ofKey?, ColorKey.setting] using h⟩
  · exact .inr ⟨.text, by simpa [ofKey?, ColorKey.setting] using h⟩
  · exact .inr ⟨.color, by simpa [ofKey?, ColorKey.setting] using h⟩
  · exact .inr ⟨.fill, by simpa [ofKey?, ColorKey.setting] using h⟩
  · exact .inl (by simpa [ofKey?] using h)
  · exact .inl (by simpa [ofKey?] using h)
  · exact .inl (by simpa [ofKey?] using h)
  · exact .inl (by simpa [ofKey?] using h)
  · exact .inl (by simpa [ofKey?] using h)
  · contradiction
  · left
    unfold ofKey?
    split
    all_goals first | contradiction | rfl

/-- An entry that is not understood sets nothing, or takes a color away. -/
theorem ofEntry?_of_not_isUnderstood (h : isUnderstood entry = false) :
    ofEntry? entry = none ∨ ∃ k : ColorKey, ofEntry? entry = some (k.setting none) := by
  unfold isUnderstood at h
  unfold ofEntry?
  cases hs : Text.splitFirst? '=' entry with
  | some p =>
    rw [hs] at h
    exact ofKey?_of_not_accepts h
  | none =>
    rw [hs] at h
    exact .inl (by simpa using h)

theorem ofKey?_eq_setting (h : ofKey? key value = some (k.setting c)) : key = k.name := by
  unfold ofKey? at h
  split at h
  all_goals cases k <;> first | rfl | simp [ColorKey.setting] at h

theorem ofFlag?_ne_setting (flag : String) : ofFlag? flag ≠ some (k.setting c) := by
  unfold ofFlag?
  split
  all_goals cases k <;> simp [ColorKey.setting]

/-- The entries with a color key are those that set its color or take it away. -/
theorem exists_ofEntry?_eq_iff :
    (∃ c, ofEntry? entry = some (k.setting c)) ↔ key? entry = some k.name := by
  unfold ofEntry? key?
  cases Text.splitFirst? '=' entry with
  | none => simp [ofFlag?_ne_setting]
  | some p =>
    rw [Option.map_some, Option.some_inj]
    constructor
    · rintro ⟨c, h⟩
      exact ofKey?_eq_setting h
    · intro h
      refine ⟨hex? (unbrace (Text.trim p.2)), ?_⟩
      dsimp only
      rw [h]
      cases k <;> rfl

end Setting

namespace Options

variable {o : Options} {k : ColorKey} {c d : Option Color} {s : Setting} {xs : List Setting}
  {raw entry : List Char} {before after : List (List Char)}

/-! ### Settings of one key -/

theorem set_setting_set (o : Options) (k : ColorKey) (c d : Option Color) :
    (o.set (k.setting c)).set (k.setting d) = o.set (k.setting d) := by
  cases k <;> rfl

theorem set_setting_comm (h : ∀ d, s ≠ k.setting d) (o : Options) (c : Option Color) :
    (o.set (k.setting c)).set s = (o.set s).set (k.setting c) := by
  cases k <;> cases s <;> first | rfl | exact absurd rfl (h _)

theorem colorAt_set (h : ∀ d, s ≠ k.setting d) (o : Options) : (o.set s).colorAt k = o.colorAt k := by
  cases k <;> cases s <;> first | rfl | exact absurd rfl (h _)

theorem set_setting_eq_self_iff : o.set (k.setting c) = o ↔ o.colorAt k = c := by
  constructor
  · intro h
    rw [← h]
    cases k <;> rfl
  · rintro rfl
    cases k <;> rfl

/-- A later setting of the same key makes up for a color that was set or taken away. -/
theorem foldl_set_setting_of_mem (h : k.setting d ∈ xs) (o : Options) (c : Option Color) :
    xs.foldl set (o.set (k.setting c)) = xs.foldl set o := by
  induction xs generalizing o with
  | nil => contradiction
  | cons s xs ih =>
    rw [List.foldl_cons, List.foldl_cons]
    by_cases hs : ∃ d, s = k.setting d
    · obtain ⟨d, rfl⟩ := hs
      rw [set_setting_set]
    · rw [set_setting_comm (not_exists.1 hs)]
      exact ih ((List.mem_cons.1 h).resolve_left fun he => hs ⟨d, he.symm⟩) _

theorem foldl_set_setting (h : ∀ d, k.setting d ∉ xs) (o : Options) (c : Option Color) :
    xs.foldl set (o.set (k.setting c)) = (xs.foldl set o).set (k.setting c) ∧
      (xs.foldl set o).colorAt k = o.colorAt k := by
  induction xs generalizing o with
  | nil => exact ⟨rfl, rfl⟩
  | cons s xs ih =>
    have hs (d : Option Color) : s ≠ k.setting d := fun he => h d (he ▸ List.mem_cons_self ..)
    obtain ⟨hf, hc⟩ := ih (fun d hd => h d (List.mem_cons_of_mem _ hd)) (o.set s)
    rw [List.foldl_cons, List.foldl_cons, set_setting_comm hs, hf, hc, colorAt_set hs]
    exact ⟨rfl, rfl⟩

theorem foldl_set_setting_eq_iff :
    xs.foldl set (o.set (k.setting c)) = xs.foldl set o ↔
      (∃ d, k.setting d ∈ xs) ∨ o.colorAt k = c := by
  by_cases h : ∃ d, k.setting d ∈ xs
  · obtain ⟨d, hd⟩ := h
    exact iff_of_true (foldl_set_setting_of_mem hd o c) (.inl ⟨d, hd⟩)
  · obtain ⟨hf, hc⟩ := foldl_set_setting (not_exists.1 h) o c
    rw [hf, set_setting_eq_self_iff, hc, or_iff_right h]

/-! ### Entries -/

theorem ofEntries_append (es fs : List (List Char)) :
    ofEntries (es ++ fs) = (fs.filterMap Setting.ofEntry?).foldl set (ofEntries es) := by
  rw [ofEntries, List.filterMap_append, List.foldl_append]
  rfl

theorem exists_setting_mem_iff {es : List (List Char)} :
    (∃ d, k.setting d ∈ es.filterMap Setting.ofEntry?) ↔
      ∃ e ∈ es, Setting.key? e = some k.name := by
  simp only [List.mem_filterMap, ← Setting.exists_ofEntry?_eq_iff]
  constructor
  · rintro ⟨d, e, he, hd⟩
    exact ⟨e, he, d, hd⟩
  · rintro ⟨e, he, d, hd⟩
    exact ⟨d, e, he, hd⟩

/-- What a color key without a color takes away: the color that the entries before it have set for the
key, unless an entry after it has the same key. -/
def Erases (before : List (List Char)) (entry : List Char) (after : List (List Char)) : Prop :=
  ∃ k : ColorKey, Setting.key? entry = some k.name ∧ (ofEntries before).colorAt k ≠ none ∧
    ∀ e ∈ after, Setting.key? e ≠ some k.name

theorem ofEntries_remove_iff (h : Setting.isUnderstood entry = false) :
    ofEntries (before ++ entry :: after) = ofEntries (before ++ after) ↔ ¬Erases before entry after := by
  rw [ofEntries_append, ofEntries_append]
  rcases Setting.ofEntry?_of_not_isUnderstood h with hn | ⟨k, hk⟩
  · rw [List.filterMap_cons_none hn]
    refine iff_of_true rfl ?_
    rintro ⟨k, hk, -⟩
    obtain ⟨c, hc⟩ := Setting.exists_ofEntry?_eq_iff.2 hk
    rw [hn] at hc
    contradiction
  · -- The entry sets its key to no color, which only a color before it and no other after it shows.
    rw [List.filterMap_cons_some hk, List.foldl_cons, foldl_set_setting_eq_iff, exists_setting_mem_iff]
    have hkey := Setting.exists_ofEntry?_eq_iff.1 ⟨_, hk⟩
    constructor
    · rintro h ⟨k', hk', hc, ha⟩
      obtain rfl := ColorKey.name_injective (Option.some.inj (hk'.symm.trans hkey))
      rcases h with ⟨e, he, hek⟩ | hnone
      · exact ha e he hek
      · exact hc hnone
    · intro h
      by_contra! hno
      exact h ⟨k, hkey, hno.2, hno.1⟩

/-- An entry that is not understood can be left out of an option list, and the options stay the same,
exactly if it does not take a color away. -/
theorem ofText_remove_iff (hraw : splitEntries 0 raw = before ++ entry :: after)
    (h : Setting.isUnderstood (Text.trim entry) = false) :
    raw = [','].intercalate (before ++ entry :: after) ∧
      (ofText raw = ofText ([','].intercalate (before ++ after)) ↔
        ¬Erases (before.map Text.trim) (Text.trim entry) (after.map Text.trim)) := by
  have hs := hraw ▸ isSplit_splitEntries 0 raw
  refine ⟨by rw [← hraw, intercalate_splitEntries], ?_⟩
  rw [ofText_intercalate hs.remove, ofText_eq, entries, hraw, List.map_append, List.map_append,
    List.map_cons]
  exact ofEntries_remove_iff h

/-- A later color makes up for the one that was taken away. -/
theorem ofText_remove_recolored :
    ofText "draw=ff0000, draw=red, draw=00ff00".toList = ofText "draw=ff0000, draw=00ff00".toList := by
  have hraw : splitEntries 0 "draw=ff0000, draw=red, draw=00ff00".toList =
      ["draw=ff0000".toList] ++ " draw=red".toList :: [" draw=00ff00".toList] := by
    decide +kernel
  have hentry : Setting.isUnderstood (Text.trim " draw=red".toList) = false := by decide +kernel
  refine (ofText_remove_iff hraw hentry).2.2 ?_
  rintro ⟨k, hk, -, ha⟩
  have hkey : Setting.key? (Text.trim " draw=00ff00".toList) =
      Setting.key? (Text.trim " draw=red".toList) := by
    decide +kernel
  exact ha (Text.trim " draw=00ff00".toList) (by simp) (hkey.trans hk)

/-- The name of a color is no color value, and it takes away the color before it. -/
theorem not_ofText_remove_red :
    splitEntries 0 "draw=ff0000,draw=red".toList = ["draw=ff0000".toList, "draw=red".toList] ∧
      Setting.isUnderstood "draw=red".toList = false ∧
      (ofText "draw=ff0000,draw=red".toList).draw = none ∧
      (ofText "draw=ff0000".toList).draw = some ⟨255, 0, 0⟩ := by
  decide +kernel

end Options

end Sketch
