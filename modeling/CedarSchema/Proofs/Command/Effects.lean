import CedarSchema.Proofs.Command.Formatting

/-
  What a run leaves behind. A run that fails shows nothing on standard output and changes no file,
  only formatting in place changes a file, and only the file it is given; options decide what is
  shown and nothing else. Each way to end a command keeps to this, so each command does, whatever
  the content of its file is, or the reason why it has none.
-/

namespace CedarSchema

/-! ## Outcomes -/

namespace Outcome

/-- What a run leaves behind: its exit code, and what it writes to its file. -/
def effect (r : Outcome) : Nat × Option String := (r.code, r.written)

/-- A failure shows nothing on standard output and writes nothing. -/
def CleanFailure (r : Outcome) : Prop := r.code ≠ 0 → r.out = "" ∧ r.written = none

theorem cleanFailure_of_code {r : Outcome} (h : r.code = 0) : r.CleanFailure := fun hne =>
  (hne h).elim

end Outcome

open Outcome

section

variable {α : Type} {o o' : Options} {file : String}

/-! ### Ends of commands -/

theorem cleanFailure_confirmation (o : Options) (text json : String) :
    (o.confirmation text json).CleanFailure := cleanFailure_of_code rfl

/-- A command that fails with its file fails cleanly if it does so otherwise. -/
theorem cleanFailure_onFile {result : Except SchemaError α} {run : α → Outcome}
    (h : ∀ a, (run a).CleanFailure) : (o.onFile file result run).CleanFailure := by
  cases result with
  | ok a => exact h a
  | error e => exact fun _ => ⟨rfl, rfl⟩

/-- Options have no part in how a command fails with its file. -/
theorem effect_onFile {result : Except SchemaError α} {run run' : α → Outcome}
    (h : ∀ a, (run' a).effect = (run a).effect) :
    (o'.onFile file result run').effect = (o.onFile file result run).effect := by
  cases result with
  | ok a => exact h a
  | error e => rfl

end

/-! ### Formatting and validation -/

theorem cleanFailure_runFormat (o : Options) (mode : FormatMode) (file : String) (c : Content) :
    (runFormat o mode file c).CleanFailure := by
  refine cleanFailure_onFile fun s => ?_
  cases mode with
  | print => exact cleanFailure_of_code rfl
  | check =>
    dsimp only
    split
    · exact cleanFailure_confirmation _ _ _
    · exact fun _ => ⟨rfl, rfl⟩
  | write =>
    dsimp only
    split
    · exact cleanFailure_confirmation _ _ _
    · exact cleanFailure_of_code rfl

theorem effect_runFormat (o o' : Options) (mode : FormatMode) (file : String) (c : Content) :
    (runFormat o' mode file c).effect = (runFormat o mode file c).effect := by
  refine effect_onFile fun s => ?_
  cases mode with
  | print => rfl
  | check =>
    dsimp only
    split <;> rfl
  | write =>
    dsimp only
    split <;> rfl

theorem cleanFailure_runValidate (o : Options) (file : String) (c : Content) :
    (runValidate o file c).CleanFailure := by
  obtain ⟨_, h⟩ | h | h := runValidate_ends file c
  · rw [h]
    exact fun _ => ⟨rfl, rfl⟩
  · rw [h]
    exact cleanFailure_confirmation _ _ _
  · rw [h]
    exact fun _ => ⟨rfl, rfl⟩

theorem effect_runValidate (o o' : Options) (file : String) (c : Content) :
    (runValidate o' file c).effect = (runValidate o file c).effect := by
  obtain ⟨_, h⟩ | h | h := runValidate_ends file c
  all_goals
    rw [h, h]
    rfl

/-! ## Invocations -/

namespace Invocation

/-- Whatever is asked for, and whatever the file holds, a failure is clean. -/
theorem cleanFailure_execute (i : Invocation) (c : Content) : (i.execute c).CleanFailure := by
  obtain ⟨o, command, file⟩ := i
  cases command with
  | check => exact cleanFailure_onFile fun _ => cleanFailure_confirmation _ _ _
  | format mode => exact cleanFailure_runFormat o mode file c
  | resolve => exact cleanFailure_onFile fun _ => cleanFailure_of_code rfl
  | json => exact cleanFailure_onFile fun _ => cleanFailure_of_code rfl
  | fromJson => exact cleanFailure_onFile fun _ => cleanFailure_of_code rfl
  | validate => exact cleanFailure_runValidate o file c

/-- Options decide what is shown and nothing else. -/
theorem effect_execute (i : Invocation) (o : Options) (c : Content) :
    ({ i with options := o }.execute c).effect = (i.execute c).effect := by
  obtain ⟨o', command, file⟩ := i
  cases command with
  | check => exact effect_onFile fun _ => rfl
  | format mode => exact effect_runFormat o' o mode file c
  | resolve => exact effect_onFile fun _ => rfl
  | json => exact effect_onFile fun _ => rfl
  | fromJson => exact effect_onFile fun _ => rfl
  | validate => exact effect_runValidate o' o file c

end Invocation

namespace Directory

variable {d : Directory} {words : List String}

theorem cleanFailure_run (d : Directory) (words : List String)
    (h : (d.run words).1.code ≠ 0) : (d.run words).1.out = "" ∧ (d.run words).2 = d := by
  unfold run at h ⊢
  split
  · rename_i r hr
    rw [hr] at h
    refine ⟨?_, rfl⟩
    cases r with
    | usage => rfl
    | version => exact (h rfl).elim
    | help topic => exact (h rfl).elim
  · rename_i i hi
    rw [hi] at h
    obtain ⟨hout, hwritten⟩ := i.cleanFailure_execute (d.content i.file) h
    refine ⟨hout, ?_⟩
    dsimp only
    rw [hwritten]
    exact d.write_none i.file

/-- A file that is changed is the one that is formatted in place. -/
theorem locate_of_find?_run_ne {name : String}
    (h : (d.run words).2.find? name ≠ d.find? name) :
    ∃ o file, Invocation.ofWords words = .ok ⟨o, .format .write, file⟩ ∧
      d.locate file = .ok name := by
  cases hi : Invocation.ofWords words with
  | error r =>
    unfold run at h
    rw [hi] at h
    exact (h rfl).elim
  | ok i =>
    rw [run_of_words hi] at h
    dsimp only at h
    unfold write at h
    split at h
    · rename_i changed text hchanged hwritten
      have hname : name = changed := by
        by_contra hne
        exact h (Dict.find?_insert_of_ne d hne _)
      obtain ⟨o, command, file⟩ := i
      have hcommand : command = .format .write := Invocation.command_of_written hwritten
      subst hcommand hname
      exact ⟨o, file, rfl, hchanged⟩
    · exact (h rfl).elim

theorem run_with_options {i : Invocation} {o : Options} {words' : List String}
    (h : Invocation.ofWords words = .ok i)
    (h' : Invocation.ofWords words' = .ok { i with options := o }) :
    (d.run words').1.code = (d.run words).1.code ∧ (d.run words').2 = (d.run words).2 := by
  obtain ⟨hcode, hwritten⟩ := Prod.mk.inj (i.effect_execute o (d.content i.file))
  rw [run_of_words h, run_of_words h']
  refine ⟨hcode, ?_⟩
  show d.write i.file _ = d.write i.file _
  rw [hwritten]

/-- Runs that fail have no effect, and options do not change verdicts. The last part says the same
of a command on any content of its file, or on any reason why the file cannot be read. -/
theorem run_effects (d : Directory) (words : List String) :
    ((d.run words).1.code ≠ 0 → (d.run words).1.out = "" ∧ (d.run words).2 = d) ∧
      (∀ name, (d.run words).2.find? name ≠ d.find? name →
        ∃ o file, Invocation.ofWords words = .ok ⟨o, .format .write, file⟩ ∧
          d.locate file = .ok name) ∧
      (∀ i o words', Invocation.ofWords words = .ok i →
        Invocation.ofWords words' = .ok { i with options := o } →
          (d.run words').1.code = (d.run words).1.code ∧
            (d.run words').2 = (d.run words).2) ∧
      ∀ (i : Invocation) (c : Content),
        ((i.execute c).code ≠ 0 → (i.execute c).out = "" ∧ (i.execute c).written = none) ∧
          ((i.execute c).written ≠ none → i.command = .format .write) ∧
            ∀ o, ({ i with options := o }.execute c).code = (i.execute c).code ∧
              ({ i with options := o }.execute c).written = (i.execute c).written := by
  refine ⟨d.cleanFailure_run words, fun name => locate_of_find?_run_ne,
    fun i o words' => run_with_options, fun i c => ?_⟩
  refine ⟨i.cleanFailure_execute c, fun h => ?_, fun o => ?_⟩
  · obtain ⟨text, htext⟩ := Option.ne_none_iff_exists'.1 h
    exact Invocation.command_of_written htext
  · exact Prod.mk.inj (i.effect_execute o c)

/-- A file that is not canonical, and the same command line with other options. -/
theorem run_effects_two_lines :
    let text := "entity\nA;"
    let d : Directory := .ofList [("a", text.toUTF8)]
    let line := ["format", "--write", "a"]
    let line' := ["--output", "json", "format", "a", "--quiet", "--write"]
    (d.run ["check", "b"]).1.code ≠ 0 ∧ (d.run ["check", "b"]).1.out = "" ∧
      (d.run ["check", "b"]).2 = d ∧
      (d.run line).2.find? "a" ≠ d.find? "a" ∧
      Invocation.ofWords line = .ok ⟨{}, .format .write, "a"⟩ ∧
      Invocation.ofWords line' = .ok ⟨{ output := .json, quiet := true }, .format .write, "a"⟩ ∧
      (d.run line').1.code = (d.run line).1.code ∧ (d.run line').2 = (d.run line).2 := by
  intro text d line line'
  let s : Schema := ⟨[.decl (.entity { names := ["A"] })], []⟩
  have hmissing : (d.run ["check", "b"]).1.code ≠ 0 := by decide +kernel
  have hline : Invocation.ofWords line = .ok ⟨{}, .format .write, "a"⟩ := by decide +kernel
  have hline' : Invocation.ofWords line' =
      .ok ⟨{ output := .json, quiet := true }, .format .write, "a"⟩ := by decide +kernel
  have hfile : d.locate "a" = .ok "a" := by decide +kernel
  have hcontent : d.content "a" = .ok text.toUTF8 := by decide +kernel
  have hs : (d.content "a").schema = .ok s :=
    Content.schema_eq_ok_iff.2 ⟨text, hcontent, by cbv⟩
  have hchanged : (d.run line).2.find? "a" ≠ d.find? "a" := by
    obtain ⟨name, hname, hnew⟩ := content_eq_ok_iff.1 (run_write hline hs).2.1
    rw [locate_of_sameNames (d.sameNames_run line), hfile] at hname
    cases hname
    rw [hnew]
    decide +kernel
  obtain ⟨hout, hsame⟩ := (run_effects d ["check", "b"]).1 hmissing
  obtain ⟨hcode, hdirectory⟩ := (run_effects d line).2.2.1 _ _ _ hline hline'
  exact ⟨hmissing, hout, hsame, hchanged, hline, hline', hcode, hdirectory⟩

end Directory

end CedarSchema
