import CedarSchema.Proofs.Command.Directory
import CedarSchema.Proofs.Document.Census
import CedarSchema.Proofs.RoundTrip

/-
  Formatting a file in place, over any number of runs. The modes of the command agree on one text:
  it is printed, compared with the file, and put in place of the file (`FormatsTo`). Whatever is
  run, a file goes on spelling the same schema but for its comments (`Spells.run`), so that no
  command that asks for the schema tells it from the file as it was before. Where the canonical
  text is read as the very schema that the file spelled, the file stays as it is from then on
  (`Formatted`). What one run keeps any number of runs keeps.
-/

namespace CedarSchema

/-- Two outcomes of runs with some options look the same from outside. A log makes error streams
differ, so they are compared only where the options ask for none. -/
structure Outcome.Like (o : Options) (r r' : Outcome) : Prop where
  code : r.code = r'.code
  out : r.out = r'.out
  written : r.written = r'.written
  err : o.verbose = false → r.err = r'.err

theorem Outcome.Like.of_eq {o : Options} {r r' : Outcome} (h : r = r') : r.Like o r' := by
  subst h
  exact ⟨rfl, rfl, rfl, fun _ => rfl⟩

namespace Directory

/-- The directory after some command lines, one after another. -/
def runAll (d : Directory) (lines : List (List String)) : Directory :=
  lines.foldl (fun d words => (d.run words).2) d

variable {d : Directory} {file : String} {s : Schema} {words : List String} {o : Options}

/-! ## The modes of formatting -/

theorem run_of_words {i : Invocation} (h : Invocation.ofWords words = .ok i) :
    d.run words =
      (i.execute (d.content i.file), d.write i.file (i.execute (d.content i.file)).written) := by
  unfold run
  rw [h]

theorem write_none (d : Directory) (file : String) : d.write file none = d := by
  unfold write
  split
  · rename_i h
    cases h
  · rfl

/-- What is done with a file that spells the schema `s`. -/
theorem runFormat_of_schema {c : Content} (hs : c.schema = .ok s) (o : Options)
    (mode : FormatMode) (file : String) :
    runFormat o mode file c =
      match mode with
      | .print => { out := s.format }
      | .check =>
        if c.isText s.format then o.confirmation (file ++ ": ok") "\x7b\"formatted\": true\x7d"
        else o.complaint (file ++ ": not in canonical format")
      | .write =>
        if c.isText s.format then
          o.confirmation (file ++ ": unchanged") "\x7b\"changed\": false\x7d"
        else
          { o.confirmation (file ++ ": formatted") "\x7b\"changed\": true\x7d" with
            written := some s.format } := by
  unfold runFormat
  rw [hs]
  rfl

theorem run_format {mode : FormatMode}
    (h : Invocation.ofWords words = .ok ⟨o, .format mode, file⟩) :
    d.run words = (runFormat o mode file (d.content file),
      d.write file (runFormat o mode file (d.content file)).written) :=
  run_of_words h

theorem run_write_of_canonical (h : Invocation.ofWords words = .ok ⟨o, .format .write, file⟩)
    (hs : (d.content file).schema = .ok s) (hcanonical : d.content file = .ok s.format.toUTF8) :
    (d.run words).1.Like o
      (o.confirmation (file ++ ": unchanged") "\x7b\"changed\": false\x7d") ∧
      (d.run words).2 = d := by
  rw [run_format h, runFormat_of_schema hs]
  dsimp only
  rw [if_pos (Content.isText_iff.2 hcanonical)]
  exact ⟨.of_eq rfl, d.write_none file⟩

/-- What is not canonical is replaced. -/
theorem run_write_of_not_canonical (h : Invocation.ofWords words = .ok ⟨o, .format .write, file⟩)
    (hs : (d.content file).schema = .ok s) (hcanonical : d.content file ≠ .ok s.format.toUTF8) :
    (d.run words).1.code = 0 ∧ (d.run words).2 = d.write file (some s.format) := by
  rw [run_format h, runFormat_of_schema hs]
  dsimp only
  rw [if_neg (mt Content.isText_iff.1 hcanonical)]
  exact ⟨rfl, rfl⟩

/-! ## What stays in a directory -/

/-- The file has the canonical text of the schema, which is read as that schema. -/
structure Canonical (d : Directory) (file : String) (s : Schema) : Prop where
  content : d.content file = .ok s.format.toUTF8
  parse : Schema.parse s.format = .ok s

theorem Canonical.schema (h : d.Canonical file s) : (d.content file).schema = .ok s :=
  Content.schema_eq_ok_iff.2 ⟨s.format, h.content, h.parse⟩

/-- Whatever is run, a canonical file stays as it is. -/
theorem Canonical.run (h : d.Canonical file s) (words : List String) :
    (d.run words).2.Canonical file s := by
  refine ⟨?_, h.parse⟩
  obtain hsame | ⟨s', hs', hne, -⟩ := d.content_run_cases file words
  · rw [hsame, h.content]
  · -- a file is not written that is canonical already
    rw [h.schema] at hs'
    cases hs'
    exact absurd h.content hne

theorem Canonical.runAll (h : d.Canonical file s) (lines : List (List String)) :
    (d.runAll lines).Canonical file s := by
  induction lines generalizing d with
  | nil => exact h
  | cons words lines ih => exact ih (h.run words)

theorem content_write {bytes : ByteArray} {text : String} (h : d.content file = .ok bytes) :
    (d.write file (some text)).content file = .ok text.toUTF8 ∧
      ∀ name, d.locate file ≠ .ok name → (d.write file (some text)).find? name = d.find? name := by
  obtain ⟨name, hname, hbytes⟩ := content_eq_ok_iff.1 h
  have hwrite : d.write file (some text) = d.insert name text.toUTF8 := by
    unfold write
    rw [hname]
  have hsame : d.SameNames (d.insert name text.toUTF8) :=
    sameNames_insert (isSome_find?_of_locate hname)
  rw [hwrite]
  constructor
  · refine content_eq_ok_iff.2 ⟨name, ?_, Dict.find?_insert_self d name _⟩
    rw [locate_of_sameNames hsame, hname]
  · intro name' hname'
    refine Dict.find?_insert_of_ne d ?_ _
    rintro rfl
    exact hname' hname

/-- The file spells the schema, comments aside. -/
def Spells (d : Directory) (file : String) (s : Schema) : Prop :=
  ∃ t, (d.content file).schema = .ok t ∧ t.bare = s.bare

/-- Whatever is run, a file spells what it spelled. -/
theorem Spells.run (h : d.Spells file s) (words : List String) :
    (d.run words).2.Spells file s := by
  obtain ⟨t, ht, hbare⟩ := h
  obtain hsame | ⟨t', ht', -, hwritten⟩ := d.content_run_cases file words
  · exact ⟨t, by rw [hsame, ht], hbare⟩
  · rw [ht] at ht'
    cases ht'
    obtain ⟨text, -, htext⟩ := Content.schema_eq_ok_iff.1 ht
    obtain ⟨u, hu, hubare⟩ := Schema.exists_parse_format htext
    exact ⟨u, Content.schema_eq_ok_iff.2 ⟨t.format, hwritten, hu⟩, hubare.trans hbare⟩

theorem Spells.runAll (h : d.Spells file s) (lines : List (List String)) :
    (d.runAll lines).Spells file s := by
  induction lines generalizing d with
  | nil => exact h
  | cons words lines ih => exact ih (h.run words)

/-- Writing gives a file its canonical text and changes no other. -/
theorem run_write (h : Invocation.ofWords words = .ok ⟨o, .format .write, file⟩)
    (hs : (d.content file).schema = .ok s) :
    (d.run words).1.code = 0 ∧ (d.run words).2.content file = .ok s.format.toUTF8 ∧
      ∀ name, d.locate file ≠ .ok name → (d.run words).2.find? name = d.find? name := by
  by_cases hcanonical : d.content file = .ok s.format.toUTF8
  · obtain ⟨hlike, hdir⟩ := run_write_of_canonical h hs hcanonical
    rw [hdir]
    exact ⟨hlike.code, hcanonical, fun _ _ => rfl⟩
  · obtain ⟨hcode, hdir⟩ := run_write_of_not_canonical h hs hcanonical
    obtain ⟨text, hcontent, -⟩ := Content.schema_eq_ok_iff.1 hs
    rw [hdir]
    exact ⟨hcode, content_write hcontent⟩

end Directory

end CedarSchema
