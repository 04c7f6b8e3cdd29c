import Mathlib
import BrainfuckDialect.Proofs.FileJob
import BrainfuckDialect.Proofs.FileWrite

/-!
# Translating the output again

A job writes the translation of its input with the strict table of its dialect, and that
translation is idempotent. So a second job that reads the first one's output, with the
same config, writes the same text, as long as the first write kept its file (the output
is in the workspace and is not a device) and did not touch the config: the config path
never stands at the output's place. `translateFile_second_pass` says this of the job run
on a session; the second job fails only when writing its own output fails.
-/

namespace BrainfuckDialect

open Workspace

/-- The dialect a job loads is the same on files that read as before along the config
path. -/
theorem Workspace.jobDialect_of_avoids {ws ws' : Workspace} {config fallback : Option String}
    {pl : Place} (hread : ∀ q, ws.Avoids q pl → ws'.read q = ws.read q)
    (hconfig : ∀ path ∈ config.or fallback, ws.Avoids path pl) :
    ws'.jobDialect config fallback = ws.jobDialect config fallback := by
  cases config with
  | some path => simp only [jobDialect, hread path (hconfig path rfl)]
  | none =>
      cases fallback with
      | none => rfl
      | some path => simp only [jobDialect, hread path (hconfig path rfl)]

/-- Once the dialect, its table and the input are at hand, a job is the write of the
translation. -/
theorem Workspace.translateJob_of_read {ws : Workspace} {input output : String}
    {config fallback : Option String} {d : Dialect} {t : SymbolTable} {text : String}
    (hd : ws.jobDialect config fallback = .ok d) (ht : d.strictTable = .ok t)
    (hr : ws.read input = .ok text) :
    ws.translateJob input output config fallback =
      (ws.write output ((Document.ofText text).translate t).toText).mapError (.write output) >>=
        fun ws' => pure ((Document.ofText text).translate t, ws') := by
  rw [← Dialect.fileTable_eq_strictTable] at ht
  simp only [translateJob, hd, bind, Except.bind, ht, hr, Except.mapError]

/-- A second job on the output of a first one that kept its file, with a config path that
avoids that file, translates to the text the first one wrote, and only its own write can
fail. -/
theorem Workspace.translateJob_second_pass {ws ws₁ : Workspace}
    {input output output₂ : String} {config fallback : Option String} {doc : Document}
    {p : List String} (hfirst : ws.translateJob input output config fallback = .ok (doc, ws₁))
    (hout : ws.locate output = .ok (.inside p)) (hkept : ws.find? p ≠ some .sink)
    (hconfig : ∀ path ∈ config.or fallback, ws.Avoids path (.inside p)) :
    ∃ doc₂, doc₂.toText = doc.toText ∧
      ws₁.translateJob output output₂ config fallback =
        (ws₁.write output₂ doc.toText).mapError (.write output₂) >>=
          fun ws₂ => pure (doc₂, ws₂) := by
  obtain ⟨d, t, text, hd, ht, hr, rfl, hw⟩ := translateJob_eq_ok_iff.1 hfirst
  obtain ⟨pl, hloc, hread, hcases⟩ := read_after_write hw
  rw [hout] at hloc
  cases hloc
  have hback : ws₁.read output = .ok ((Document.ofText text).translate t).toText := by
    rcases hcases with ⟨-, hsink | ⟨q, hq⟩⟩ | ⟨p', -, -, -, hback⟩
    · exact absurd hsink hkept
    · cases hq
    · exact hback
  have hd₁ : ws₁.jobDialect config fallback = .ok d := by
    rw [jobDialect_of_avoids hread hconfig, hd]
  have hm := mapChar_mapChar_of_buildStrict (Dialect.buildStrict_of_strictTable ht)
  refine ⟨(Document.ofText ((Document.ofText text).translate t).toText).translate t,
    translate_toText_retranslate hm text, ?_⟩
  rw [translateJob_of_read hd₁ ht hback, translate_toText_retranslate hm text]

/-- Translating a file a second time, from the output of the first run to another output
and with the same config, writes the text the first run wrote, provided the first run
kept its output file in the workspace and the config path avoids it. The second run adds
records, and ends as writing that text ends: with its document and the files after the
write, or with the write's error and the files as they were. -/
theorem translateFile_second_pass {s s₁ : Session} {input output output₂ : String}
    {config fallback : Option String} {doc : Document} {p : List String}
    (hfirst : (translateFile input output config fallback :
      ExceptT JobError (StateM Session) Document).run.run s = (.ok doc, s₁))
    (hout : s.files.locate output = .ok (.inside p)) (hkept : s.files.find? p ≠ some .sink)
    (hconfig : ∀ path ∈ config.or fallback, s.files.Avoids path (.inside p)) :
    ∃ doc₂, doc₂.toText = doc.toText ∧
      (∀ ws₂, s₁.files.write output₂ doc.toText = .ok ws₂ → ∃ rs,
        (translateFile output output₂ config fallback :
          ExceptT JobError (StateM Session) Document).run.run s₁ =
            (.ok doc₂, ⟨ws₂, s₁.records ++ rs⟩)) ∧
      (∀ e, s₁.files.write output₂ doc.toText = .error e → ∃ rs,
        (translateFile output output₂ config fallback :
          ExceptT JobError (StateM Session) Document).run.run s₁ =
            (.error (.write output₂ e), ⟨s₁.files, s₁.records ++ rs⟩)) := by
  obtain ⟨ws₁, hj, hfiles⟩ : ∃ ws₁,
      s.files.translateJob input output config fallback = .ok (doc, ws₁) ∧ s₁.files = ws₁ := by
    cases hj : s.files.translateJob input output config fallback with
    | error e =>
        obtain ⟨rs, hrun⟩ := run_translateFile_of_error hj
        rw [hfirst] at hrun
        cases (Prod.mk.inj hrun).1
    | ok r =>
        obtain ⟨doc', ws₁⟩ := r
        obtain ⟨rs, hrun⟩ := run_translateFile_of_ok hj
        rw [hfirst, Prod.mk.injEq, Except.ok.injEq] at hrun
        obtain ⟨rfl, rfl⟩ := hrun
        exact ⟨ws₁, rfl, rfl⟩
  subst hfiles
  obtain ⟨doc₂, htext, hj₂⟩ := translateJob_second_pass hj hout hkept hconfig
  refine ⟨doc₂, htext, fun ws₂ hw => ?_, fun e hw => ?_⟩
  · apply run_translateFile_of_ok
    rw [hj₂, hw]
    rfl
  · apply run_translateFile_of_error
    rw [hj₂, hw]
    rfl

end BrainfuckDialect
