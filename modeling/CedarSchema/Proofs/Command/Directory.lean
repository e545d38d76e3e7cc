import Mathlib
import CedarSchema.Command.Directory
import CedarSchema.Proofs.Outcome
import CedarSchema.Proofs.Text.Utf8

/-
  What a run can do to a directory. All that a command line can change is one file that spells a
  schema and is not in canonical layout: it gets the canonical text (`run_cases`). So every run
  keeps the names of all files, and a path leads to the same file before and after.
-/

namespace CedarSchema

/-! ## Contents of files -/

namespace Content

variable {c : Content} {text : String} {s : Schema}

theorem text_eq_ok_iff : c.text = .ok text ↔ c = .ok text.toUTF8 := by
  constructor
  · intro h
    cases c with
    | error e => cases h
    | ok bytes =>
      have hdecode : Text.decodeUtf8 bytes = .ok text := by
        unfold Content.text at h
        dsimp only [ok_bind] at h
        split at h
        · rename_i hdecode
          cases h
          exact hdecode
        · cases h
      rw [Text.toUTF8_of_decodeUtf8 hdecode]
  · rintro rfl
    unfold Content.text
    rw [ok_bind, Text.decodeUtf8_toUTF8]
    rfl

theorem isText_iff : c.isText text = true ↔ c = .ok text.toUTF8 := by
  rw [← text_eq_ok_iff]
  unfold isText
  split
  · rename_i current h
    rw [h, decide_eq_true_iff, Except.ok.injEq]
  · rename_i e h
    rw [h]
    exact ⟨nofun, nofun⟩

theorem schema_ok (bytes : ByteArray) :
    Content.schema (.ok bytes) = (Schema.parseBytes bytes).mapError .parse := rfl

/-- A content spells a schema if it is a text that is read as that schema. -/
theorem schema_eq_ok_iff :
    c.schema = .ok s ↔ ∃ text : String, c = .ok text.toUTF8 ∧ Schema.parse text = .ok s := by
  constructor
  · intro h
    cases c with
    | error e => cases h
    | ok bytes =>
      rw [schema_ok] at h
      unfold Schema.parseBytes at h
      split at h
      · rename_i text htext
        refine ⟨text, ?_, mapError_eq_ok_iff.1 h⟩
        rw [Text.toUTF8_of_decodeUtf8 htext]
      · cases h
  · rintro ⟨text, rfl, h⟩
    rw [schema_ok, Schema.parseBytes, Text.decodeUtf8_toUTF8]
    exact mapError_eq_ok_iff.2 h

end Content

/-! ## One run -/

theorem Options.written_onFile {α : Type} {o : Options} {file text : String}
    {result : Except SchemaError α} {run : α → Outcome}
    (h : (o.onFile file result run).written = some text) :
    ∃ a, result = .ok a ∧ (run a).written = some text := by
  cases result with
  | ok a => exact ⟨a, rfl, h⟩
  | error e => cases h

/-- Validation ends in one of three ways; options have no part in which one it is. -/
theorem runValidate_ends (file : String) (c : Content) :
    (∃ message, ∀ o : Options, runValidate o file c = o.complaint message) ∨
      (∀ o : Options, runValidate o file c = o.confirmation "valid" "\x7b\"valid\": true\x7d") ∨
        ∀ o, runValidate o file c = invalidDocument o := by
  unfold runValidate
  split
  · exact .inl ⟨_, fun _ => rfl⟩
  · split
    · exact .inl ⟨_, fun _ => rfl⟩
    · split
      · exact .inr (.inl fun _ => rfl)
      · exact .inr (.inr fun _ => rfl)

theorem written_runValidate (o : Options) (file : String) (c : Content) :
    (runValidate o file c).written = none := by
  obtain ⟨_, h⟩ | h | h := runValidate_ends file c
  all_goals
    rw [h]
    rfl

/-- Only formatting in place writes. -/
theorem Invocation.command_of_written {i : Invocation} {c : Content} {text : String}
    (h : (i.execute c).written = some text) : i.command = .format .write := by
  obtain ⟨o, command, file⟩ := i
  cases command with
  | format mode =>
    cases mode with
    | write => rfl
    | print =>
      obtain ⟨s, -, h⟩ := Options.written_onFile h
      cases h
    | check =>
      obtain ⟨s, -, h⟩ := Options.written_onFile h
      dsimp only at h
      split at h <;> cases h
  | validate => cases (written_runValidate o file c).symm.trans h
  | _ =>
    obtain ⟨_, -, h⟩ := Options.written_onFile h
    cases h

/-- All that an invocation can write is the canonical text in place of another that spells the
schema. -/
theorem Invocation.written_execute {i : Invocation} {c : Content} {text : String}
    (h : (i.execute c).written = some text) :
    ∃ s, c.schema = .ok s ∧ text = s.format ∧ c ≠ .ok text.toUTF8 := by
  have hcommand := command_of_written h
  obtain ⟨o, command, file⟩ := i
  subst hcommand
  obtain ⟨s, hs, h⟩ := Options.written_onFile h
  dsimp only at h
  split at h
  · cases h
  · rename_i hcanonical
    cases h
    exact ⟨s, hs, rfl, mt Content.isText_iff.2 hcanonical⟩

namespace Directory

variable {d d' : Directory} {file name : String}

/-- The same names, whatever the files hold. -/
def SameNames (d d' : Directory) : Prop := ∀ name, (d'.find? name).isSome = (d.find? name).isSome

theorem locate_of_sameNames (h : d.SameNames d') (file : String) :
    d'.locate file = d.locate file := by
  have henter : d'.enter = d.enter := by
    funext place name
    unfold enter
    rw [h name]
  have hstep : d'.step = d.step := by
    funext place part
    unfold step
    rw [henter]
  unfold locate
  rw [hstep]

theorem isSome_find?_of_locate (h : d.locate file = .ok name) : (d.find? name).isSome := by
  let Q (place : Place) : Prop := ∀ name, place = .file name → (d.find? name).isSome
  have henter (place : Place) (name : String) : Ends (fun _ => True) (d.enter place name) Q := by
    unfold enter
    split
    · trivial
    · split
      · rename_i hname
        rintro _ ⟨⟩
        exact hname.2
      · trivial
  have hstep (place : Place) (part : List Char) : Ends (fun _ => True) (d.step place part) Q := by
    unfold step
    split
    · trivial
    · rename_i hfile
      exact fun name hname => absurd hname (hfile name)
    · rename_i hfile
      exact fun name hname => absurd hname (hfile name)
    · exact nofun
    · exact henter _ _
  have hpath : Ends (fun _ => True) (d.locate file) fun name => (d.find? name).isSome := by
    have hstart : Q (if file.toList.head? = some '/' then .above else .here) := by
      intro name
      split <;> exact nofun
    have hfold := Ends.foldlM hstart fun place _ part (_ : part ∈ pathSteps file.toList) =>
      hstep place part
    unfold locate
    by_cases hlong : 4096 ≤ file.utf8ByteSize
    · rw [if_pos hlong]
      trivial
    · rw [if_neg hlong]
      refine Ends.bind hfold fun place hplace => ?_
      split
      · exact hplace _ rfl
      · trivial
  exact hpath.of_ok h

/-! ### Reading and writing -/

theorem content_eq_ok_iff {bytes : ByteArray} :
    d.content file = .ok bytes ↔ ∃ name, d.locate file = .ok name ∧ d.find? name = some bytes := by
  unfold content
  constructor
  · intro h
    split at h
    · rename_i name hname
      split at h
      · rename_i bytes' hbytes
        cases h
        exact ⟨name, hname, hbytes⟩
      · cases h
    · cases h
  · rintro ⟨name, hname, hbytes⟩
    rw [hname]
    dsimp only
    rw [hbytes]

theorem sameNames_insert {bytes : ByteArray} (h : (d.find? name).isSome) :
    d.SameNames (d.insert name bytes) := by
  intro name'
  by_cases heq : name' = name
  · subst heq
    rw [Dict.find?_insert_self, h]
    rfl
  · rw [Dict.find?_insert_of_ne d heq]

/-- What a run does to a directory: nothing, or it puts the canonical text of a schema in place of
another text of that schema, in the file that the command line names. -/
theorem run_cases (d : Directory) (words : List String) : (d.run words).2 = d ∨
    ∃ i name s, Invocation.ofWords words = .ok i ∧ d.locate i.file = .ok name ∧
      (d.content i.file).schema = .ok s ∧ d.content i.file ≠ .ok s.format.toUTF8 ∧
      (d.run words).2 = d.insert name s.format.toUTF8 := by
  unfold run
  split
  · exact .inl rfl
  · rename_i i hi
    dsimp only
    unfold write
    split
    · rename_i name text hname htext
      obtain ⟨s, hs, rfl, hne⟩ := Invocation.written_execute htext
      exact .inr ⟨i, name, s, hi, hname, hs, hne, rfl⟩
    · exact .inl rfl

theorem sameNames_run (d : Directory) (words : List String) : d.SameNames (d.run words).2 := by
  obtain h | ⟨i, name, s, -, hname, -, -, h⟩ := d.run_cases words
  · rw [h]
    exact fun name => rfl
  · rw [h]
    exact sameNames_insert (isSome_find?_of_locate hname)

/-- What a run does to one file: nothing, or it turns another text of a schema into the canonical
one. -/
theorem content_run_cases (d : Directory) (file : String) (words : List String) :
    (d.run words).2.content file = d.content file ∨
      ∃ s, (d.content file).schema = .ok s ∧ d.content file ≠ .ok s.format.toUTF8 ∧
        (d.run words).2.content file = .ok s.format.toUTF8 := by
  have hlocate := locate_of_sameNames (d.sameNames_run words) file
  obtain hrun | ⟨i, name, s, -, hname, hs, hne, hrun⟩ := d.run_cases words
  · exact .inl (by rw [hrun])
  by_cases hfile : d.locate file = .ok name
  · have hcontent : d.content i.file = d.content file := by
      unfold Directory.content
      rw [hname, hfile]
    refine .inr ⟨s, hcontent ▸ hs, hcontent ▸ hne, content_eq_ok_iff.2 ⟨name, ?_, ?_⟩⟩
    · rw [hlocate, hfile]
    · rw [hrun, Dict.find?_insert_self]
  · left
    unfold Directory.content
    rw [hlocate, hrun]
    cases hother : d.locate file with
    | error e => rfl
    | ok name' =>
      have hne : name' ≠ name := fun h => hfile (h ▸ hother)
      dsimp only
      rw [Dict.find?_insert_of_ne d hne]

end Directory

end CedarSchema
