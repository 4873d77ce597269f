import Sketch.Proofs.Code.Drawing
import Sketch.Proofs.Code.Repair

/-!
Lines with numbers that cannot be read. Such a line is reported for its first bad number, before the
rest of it is looked at, so it may be like no command even when all its numbers are put right.
-/

namespace Sketch

namespace Command

/-! ### Patterns -/

namespace Pattern

variable {valid : List Char → Bool} {p : Pattern} {cs ds rest line fixed : List Char}

/-- The lines go through the same segments, and differ in the numbers of the fields only. -/
inductive Fills : Pattern → List Char → List Char → Prop
  | nil (cs : List Char) : Fills [] cs cs
  | segment {s : Segment} {p : Pattern} {taken cs ds : List Char}
    (hc : s.read isNumber (taken ++ cs) = .ok cs) (hd : s.read isNumber (taken ++ ds) = .ok ds)
    (h : Fills p cs ds) : Fills (s :: p) (taken ++ cs) (taken ++ ds)
  | field {opening : Char} {p : Pattern} {spaces run number cs ds : List Char}
    (ho : opensField opening = true) (hs : Text.IsSpacing spaces) (hr : IsRun run)
    (hm : ∀ c ∈ cs.head?, isNumberChar c = false) (hn : IsRun number) (hv : isNumber number = true)
    (h : Fills p cs ds) :
    Fills (.field opening :: p) (opening :: (spaces ++ (run ++ cs))) (opening :: (spaces ++ (number ++ ds)))

theorem Fills.repairs (h : Fills p line fixed) : Repairs isNumber line fixed := by
  induction h with
  | nil cs => exact .refl isNumber cs
  | segment _ _ _ ih => exact ih.append_left _
  | field ho hs hr hm hn hv _ ih => exact .field ho hs hr hm hn hv ih

theorem Fills.exists_read_eq (h : Fills p line fixed) : ∃ rest, p.read isNumber fixed = .ok rest := by
  induction h with
  | nil cs => exact ⟨cs, rfl⟩
  | segment _ hd _ ih =>
    obtain ⟨rest, hr⟩ := ih
    exact ⟨rest, read_cons_eq_ok.2 ⟨_, hd, hr⟩⟩
  | field ho hs hr hm hn hv h ih =>
    obtain ⟨rest, hrest⟩ := ih
    refine ⟨rest, read_cons_eq_ok.2 ⟨_, ?_, hrest⟩⟩
    rw [hn.read_field hs (h.repairs.head?_eq ▸ hm), if_pos hv]

theorem isRun_zero : IsRun ['0'] := ⟨List.cons_ne_nil _ _, by decide⟩

theorem isNumber_zero : isNumber ['0'] = true := by decide +kernel

theorem exists_fills (hp : ∀ s ∈ p, s.isPlain = true) (h : p.read anyRun line = .ok rest) :
    ∃ fixed, Fills p line fixed := by
  induction p generalizing line with
  | nil => exact ⟨line, .nil line⟩
  | cons s p ih =>
    obtain ⟨hs, hp⟩ := List.forall_mem_cons.1 hp
    obtain ⟨mid, hmid, hrest⟩ := read_cons_eq_ok.1 h
    obtain ⟨fixed, hfixed⟩ := ih hp hrest
    by_cases hf : ∃ opening, s = .field opening
    · -- Any number will do, also in place of a good one.
      obtain ⟨opening, rfl⟩ := hf
      obtain ⟨spaces, run, hsp, hr, hm, rfl⟩ := Segment.exists_field_of_read hmid
      exact ⟨_, .field hs hsp hr hm isRun_zero isNumber_zero hfixed⟩
    · obtain ⟨taken, rfl, ht⟩ := Segment.exists_append_of_read hs (not_exists.1 hf) hmid
      exact ⟨_, .segment (ht _ (.refl isNumber _)) (ht _ hfixed.repairs) hfixed⟩

theorem read_of_repairs (hp : ∀ s ∈ p, s.isPlain = true) (h : Repairs valid cs ds)
    (hc : p.read anyRun cs = .ok rest) :
    ∃ rest', p.read anyRun ds = .ok rest' ∧ Repairs valid rest rest' := by
  induction p generalizing cs ds with
  | nil =>
    cases hc
    exact ⟨ds, rfl, h⟩
  | cons s p ih =>
    obtain ⟨hs, hp⟩ := List.forall_mem_cons.1 hp
    obtain ⟨mid, hmid, hrest⟩ := read_cons_eq_ok.1 hc
    obtain ⟨mid', hmid', hm⟩ := Segment.read_of_repairs hs h hmid
    obtain ⟨rest', hrest', hr⟩ := ih hp hm hrest
    exact ⟨rest', read_cons_eq_ok.2 ⟨mid', hmid', hrest'⟩, hr⟩

/-- If all runs may be numbers, a line that is like the pattern is so as it is, or stumbles. -/
theorem read_isNumber (h : p.read anyRun cs = .ok rest) :
    p.read isNumber cs = .ok rest ∨ p.read isNumber cs = .error .number := by
  induction p generalizing cs with
  | nil => exact .inl h
  | cons s p ih =>
    obtain ⟨mid, hmid, hrest⟩ := read_cons_eq_ok.1 h
    rcases Segment.read_isNumber hmid with hs | hs
    · rw [read_cons, hs]
      exact ih hrest
    · rw [read_cons, hs]
      exact .inr rfl

theorem read_anyRun (h : p.read isNumber cs = .ok rest) : p.read anyRun cs = .ok rest := by
  induction p generalizing cs with
  | nil => exact h
  | cons s p ih =>
    obtain ⟨mid, hmid, hrest⟩ := read_cons_eq_ok.1 h
    exact read_cons_eq_ok.2 ⟨mid, Segment.read_anyRun hmid, ih hrest⟩

theorem isPlain_of_mem_all : ∀ p ∈ all, ∀ s ∈ p, s.isPlain = true := by decide

end Pattern

/-! ### Lines -/

theorem exists_ofLine_of_fits (axis : Axis) {p : Pattern} {line : List Char} (hp : p ∈ Pattern.all)
    (hf : p.fits anyRun line = true) :
    ∃ fixed, p.Fills line fixed ∧ ∃ e, ofLine axis fixed = .ok e := by
  obtain ⟨rest, hread⟩ := Pattern.fits_iff.1 hf
  obtain ⟨fixed, hfixed⟩ := Pattern.exists_fills (Pattern.isPlain_of_mem_all p hp) hread
  exact ⟨fixed, hfixed,
    (exists_ofLine_iff axis fixed).2 ⟨p, hp, Pattern.fits_iff.2 hfixed.exists_read_eq⟩⟩

/-- A line can be repaired exactly if it is like a pattern when all runs may be numbers. -/
theorem exists_repair_iff (axis : Axis) (line : List Char) :
    (∃ fixed, Repairs isNumber line fixed ∧ ∃ e, ofLine axis fixed = .ok e) ↔
      ∃ p ∈ Pattern.all, p.fits anyRun line = true := by
  constructor
  · rintro ⟨fixed, hr, he⟩
    obtain ⟨p, hp, hf⟩ := (exists_ofLine_iff axis fixed).1 he
    obtain ⟨rest, hread⟩ := Pattern.fits_iff.1 hf
    obtain ⟨rest', hline, -⟩ :=
      Pattern.read_of_repairs (Pattern.isPlain_of_mem_all p hp) hr.symm (Pattern.read_anyRun hread)
    exact ⟨p, hp, Pattern.fits_iff.2 ⟨rest', hline⟩⟩
  · rintro ⟨p, hp, hf⟩
    obtain ⟨fixed, hfixed, he⟩ := exists_ofLine_of_fits axis hp hf
    exact ⟨fixed, hfixed.repairs, he⟩

end Command

namespace Document

open Command (Pattern Repairs anyRun isNumber)

variable {text : String} {i : Nat} {l : List Char} {d : Diagnostic}

/-- A warning is about a line that no reader reads. -/
theorem exists_of_diagnosticsAt (hl : (Text.lines text.toList)[i]? = some l)
    (hd : (ofText text).diagnosticsAt i = [d]) :
    ∃ (a : Axis) (o : Nat) (m : Mismatch),
      Command.ofLine a (Reading.significant l) = .error m ∧ d = Reading.warning o l m := by
  obtain ⟨a, o, hr⟩ := exists_readings_getElem? hl
  rw [diagnosticsAt, hr] at hd
  by_cases hf : Reading.IsFrame l
  · have hnone := (Reading.unrecorded_of_isFrame hf a o).2
    rw [Option.bind_some, hnone] at hd
    contradiction
  · rw [Option.bind_some, Reading.ofLine_of_not_isFrame hf] at hd
    cases ho : Command.ofLine a (Reading.significant l) with
    | ok e =>
      rw [ho] at hd
      contradiction
    | error m =>
      rw [ho] at hd
      cases hd
      exact ⟨a, o, m, ho, rfl⟩

theorem code_warning (o : Nat) (l : List Char) (m : Mismatch) : (Reading.warning o l m).code =
    some (if m.obstacle = .number then .malformedLiteral else .unrecognized) := by
  cases m <;> rfl

/-- A line is said to have a malformed number exactly if it is like the pattern of a command up to a
number that cannot be read, and else it is said to be no command at all. A repair of its numbers makes
the line a command exactly if it is also like the pattern behind that number. -/
theorem malformed_iff_stumbles (hl : (Text.lines text.toList)[i]? = some l)
    (hd : (ofText text).diagnosticsAt i = [d]) (axis : Axis) :
    let line := Reading.significant l
    (d.code = some .malformedLiteral ↔ ∃ p ∈ Pattern.all, p.stumbles line = true) ∧
    (d.code = some .unrecognized ↔ ¬∃ p ∈ Pattern.all, p.stumbles line = true) ∧
    ((∃ fixed, Repairs isNumber line fixed ∧ ∃ e, Command.ofLine axis fixed = .ok e) ↔
      ∃ p ∈ Pattern.all, p.fits anyRun line = true) ∧
    ∀ p ∈ Pattern.all, p.fits anyRun line = true →
      p.stumbles line = true ∧ ∃ fixed, p.Fills line fixed ∧ ∃ e, Command.ofLine axis fixed = .ok e := by
  intro line
  obtain ⟨a, o, m, hm, rfl⟩ := exists_of_diagnosticsAt hl hd
  rw [code_warning, ← Command.obstacle_of_ofLine hm]
  refine ⟨?_, ?_, Command.exists_repair_iff axis line, fun p hp hf => ⟨?_, ?_⟩⟩
  · cases m <;> simp [Mismatch.obstacle]
  · cases m <;> simp [Mismatch.obstacle]
  · obtain ⟨rest, hread⟩ := Pattern.fits_iff.1 hf
    rcases Pattern.read_isNumber hread with hr | hr
    · obtain ⟨e, he⟩ := (Command.exists_ofLine_iff a line).2 ⟨p, hp, Pattern.fits_iff.2 ⟨rest, hr⟩⟩
      rw [hm] at he
      contradiction
    · rw [Pattern.stumbles, hr]
  · obtain ⟨fixed, hfixed, he⟩ := Command.exists_ofLine_of_fits axis hp hf
    exact ⟨fixed, hfixed, he⟩

/-- A circle with two numbers that cannot be read. -/
def blurred : String := "\\draw (1.2.3,0) circle (--5);"

theorem malformed_iff_stumbles_blurred :
    ((ofText blurred).diagnosticsAt 0).map (·.code) = [some .malformedLiteral] ∧
      ∃ fixed, Repairs isNumber (Reading.significant blurred.toList) fixed ∧
        ∃ e, Command.ofLine {} fixed = .ok e := by
  have hcode : ((ofText blurred).diagnosticsAt 0).map (·.code) = [some .malformedLiteral] := by
    decide +kernel
  obtain ⟨d, hd, -⟩ := List.map_eq_singleton_iff.1 hcode
  have hl : (Text.lines blurred.toList)[0]? = some blurred.toList := by decide +kernel
  refine ⟨hcode, (malformed_iff_stumbles hl hd {}).2.2.1.2 ⟨Pattern.circle, ?_, ?_⟩⟩
  · exact List.mem_cons_self ..
  · decide +kernel

/-- A line with a number that cannot be read, and no command behind it. -/
def garbled : String := "\\draw (1.2.3,0) foo;"

/-- The number is said to be malformed, but no repair makes the line a command. -/
theorem not_malformed_iff_garbled :
    ((ofText garbled).diagnosticsAt 0).map (·.code) = [some .malformedLiteral] ∧
      Reading.significant garbled.toList = garbled.toList ∧
      ∀ axis fixed, Repairs isNumber garbled.toList fixed → ∀ e, Command.ofLine axis fixed ≠ .ok e := by
  refine ⟨by decide +kernel, by decide +kernel, fun axis fixed hr e he => ?_⟩
  have hnone : ∀ p ∈ Pattern.all, p.fits anyRun garbled.toList = false := by decide +kernel
  obtain ⟨p, hp, hf⟩ := (Command.exists_repair_iff axis garbled.toList).1 ⟨fixed, hr, e, he⟩
  rw [hnone p hp] at hf
  contradiction

end Document

end Sketch
