import LambdaNotation.Proofs.Alphabet
import LambdaNotation.Proofs.Results
import LambdaNotation.Proofs.SourceLines
import LambdaNotation.Run

/-!
# What a run reports

A run goes through its jobs one after the other: it reads the expression, the lines of the source
file and the random texts, and a file that cannot be read stands in the place of its lines. Up to
the first job that fails each gives one line (`Settings.run_eq_outcomes`), and since a text that is
read holds signs only, the line of a text is one line.
-/

namespace LambdaNotation

open Text

/-! ## One line -/

/-- No character of the text breaks the line. -/
def Text.IsOneLine (s : Text) : Prop := ∀ c ∈ s, c ≠ '\n' ∧ c ≠ '\r'

/-- What holds of the characters of texts and of the separator holds of the texts put together. -/
theorem forall_mem_intercalate {p : Char → Prop} {sep : Text} {ts : List Text}
    (hsep : ∀ c ∈ sep, p c) (hts : ∀ t ∈ ts, ∀ c ∈ t, p c) :
    ∀ c ∈ List.intercalate sep ts, p c := by
  induction ts with
  | nil => exact fun _ h => nomatch h
  | cons t ts ih =>
    obtain ⟨ht, hts⟩ := List.forall_mem_cons.1 hts
    cases ts with
    | nil => rwa [List.intercalate_singleton]
    | cons u us =>
      rw [List.intercalate_cons_cons]
      intro c hc
      rcases List.mem_append.1 hc with hc | hc
      · exact (List.mem_append.1 hc).elim (ht c) (hsep c)
      · exact ih hts c hc

/-! ## Jobs -/

/-- A job of a run: a text to read, or a file that cannot be read. -/
inductive Job where
  | text (input : Text)
  | file (error : FileError)
  deriving DecidableEq, Repr

namespace Job

variable (m : Machine)

/-- The line that a job gives: that of its text, with the terms that the machine reads. -/
inductive Gives : Job → Text → Prop
  | text {input : Text} {terms : List Term} (h : (m.parse input).value = .ok terms) :
      Gives (text input) (entry input terms)

/-- How a job fails: as the machine does, whose error is reported with the text, or with the error
of the file. -/
inductive Fails : Job → Failure RunError → Prop
  | text {input : Text} {e : Failure ParseError} (h : (m.parse input).value = .error e) :
      Fails (text input) (e.map (.parse input))
  | file (e : FileError) : Fails (file e) (.reported (.file e))

/-- What becomes of a job. -/
def outcome : Job → Except (Failure RunError) Text
  | text input => (m.format input).value
  | file e => .error (.reported (.file e))

variable {m} {job : Job} {line : Text} {e : Failure RunError}

theorem outcome_text_of_ok {input : Text} {terms : List Term}
    (h : (m.parse input).value = .ok terms) :
    (text input).outcome m = .ok (entry input terms) := by
  simp only [outcome, Machine.format, h]

theorem outcome_text_of_error {input : Text} {e : Failure ParseError}
    (h : (m.parse input).value = .error e) :
    (text input).outcome m = .error (e.map (.parse input)) := by
  simp only [outcome, Machine.format, h]

theorem outcome_eq_ok_iff : job.outcome m = .ok line ↔ job.Gives m line := by
  constructor
  · intro h
    cases job with
    | text input =>
      rcases hp : (m.parse input).value with e | terms
      · cases (outcome_text_of_error hp).symm.trans h
      · cases (outcome_text_of_ok hp).symm.trans h
        exact .text hp
    | file e => cases h
  · rintro ⟨h⟩
    exact outcome_text_of_ok h

theorem outcome_eq_error_iff : job.outcome m = .error e ↔ job.Fails m e := by
  constructor
  · intro h
    cases job with
    | text input =>
      rcases hp : (m.parse input).value with e | terms
      · cases (outcome_text_of_error hp).symm.trans h
        exact .text hp
      · cases (outcome_text_of_ok hp).symm.trans h
    | file e =>
      cases h
      exact .file e
  · rintro (h | _)
    · exact outcome_text_of_error h
    · rfl

theorem outcomes_eq_ok_iff {jobs : List Job} {entries : List Text} :
    jobs.mapM (outcome m) = .ok entries ↔ List.Forall₂ (Gives m) jobs entries := by
  have h : (fun job line => outcome m job = .ok line) = Gives m :=
    funext₂ fun _ _ => propext outcome_eq_ok_iff
  rw [mapM_eq_ok_iff, h]

theorem outcomes_eq_error_iff {jobs : List Job} :
    jobs.mapM (outcome m) = .error e ↔ ∃ before job after, jobs = before ++ job :: after ∧
      (∀ j ∈ before, ∃ line, j.Gives m line) ∧ job.Fails m e := by
  simp only [mapM_eq_error_iff, outcome_eq_ok_iff, outcome_eq_error_iff]

/-- The line of a job is one line: a text that is read holds signs only, and so do its prints, but
for the letter of lambdas. -/
theorem Gives.isOneLine {limit : UInt64} (h : job.Gives (Machine.standard limit) line) :
    IsOneLine line := by
  have hsign : ∀ {c}, isSign c → c ≠ '\n' ∧ c ≠ '\r' := fun hc =>
    ⟨fun h => not_isSign_of_break (.inl h) hc, fun h => not_isSign_of_break (.inr h) hc⟩
  obtain @⟨input, terms, hparse⟩ := h
  have hinput : IsOneLine input := fun c hc => hsign (Machine.isSign_of_parse hparse c hc)
  have hprints : ∀ t ∈ terms.map Term.print, IsOneLine t := by
    refine List.forall_mem_map.2 fun t ht c hc => ?_
    rcases (Machine.built_of_parse hparse t ht).isSign_print c hc with hc | rfl
    · exact hsign hc
    · decide
  unfold entry IsOneLine
  simp only [List.forall_mem_append]
  exact ⟨⟨⟨hinput, by simp⟩, forall_mem_intercalate (by simp) hprints⟩, by simp⟩

end Job

namespace Settings

variable (s : Settings) (read : Text → Except FileError Text) {σ : Type} (supply : Supply σ)
  (fresh : UInt64)

/-- What the source file gives a run to do. -/
def fileJobs : List Job :=
  match s.sourcePath with
  | none => []
  | some path =>
    match read path with
    | .error e => [.file e]
    | .ok contents => contents.expressions.map .text

/-- The random texts, as many as are asked for. -/
def randomJobs : List Job :=
  (supply.texts s.randomCount.toNat (supply.ofSeed (s.seed.getD fresh))).map .text

/-- All that a run does, in order. -/
def jobs : List Job :=
  s.expression.toList.map .text ++ (s.fileJobs read ++ s.randomJobs supply fresh)

/-- The lines of the demonstration, if it is asked for. -/
def demoLines : List Text := if s.demo then Demonstration.lines else []

end Settings

/-! ## Reports -/

namespace Report

theorem value_andThen (first : Report) (rest : Unit → Report) :
    (first.andThen rest).value =
      first.value.bind fun ls => (rest ()).value.map (ls ++ ·) := by
  unfold andThen
  cases first.value <;> rfl

end Report

namespace Machine

variable (m : Machine)

theorem value_report (input : Text) :
    (m.report input).value = ((Job.text input).outcome m).map ([·]) := rfl

theorem value_reportAll (inputs : List Text) :
    (m.reportAll inputs).value = (inputs.map Job.text).mapM (Job.outcome m) := by
  induction inputs with
  | nil => rfl
  | cons input inputs ih =>
    rw [reportAll, Report.value_andThen, ih, value_report, List.map_cons]
    rcases h : (Job.text input).outcome m with e | line
    · rw [mapM_cons_of_error h]
      rfl
    · rw [mapM_cons_of_ok h]
      rfl

end Machine

namespace Settings

variable (s : Settings) (m : Machine) (read : Text → Except FileError Text) {σ : Type}
  (supply : Supply σ) (fresh : UInt64)

theorem value_reportFile :
    (s.reportFile m read).value = (s.fileJobs read).mapM (Job.outcome m) := by
  unfold reportFile fileJobs
  cases s.sourcePath with
  | none => rfl
  | some path =>
    cases hread : read path with
    | error e =>
      simp only [hread]
      rfl
    | ok contents =>
      simp only [hread]
      exact m.value_reportAll _

theorem value_reportRandom :
    (s.reportRandom m supply fresh).value =
      (s.randomJobs supply fresh).mapM (Job.outcome m) := by
  unfold reportRandom
  split_ifs with hzero
  · rw [randomJobs, hzero]
    rfl
  · exact (congrArg Logged.value (m.reportDrawn_eq ..)).trans (m.value_reportAll _)

theorem value_reportDemo : s.reportDemo.value = .ok s.demoLines := rfl

theorem value_reportExpression : (s.reportExpression m).value =
    (s.expression.toList.map Job.text).mapM (Job.outcome m) := m.value_reportAll _

/-- A run gives the lines of the demonstration and of its jobs, or the error of a job. -/
theorem run_eq_outcomes (h : s.asksForSomething) : (s.run read supply fresh).value =
    ((s.jobs read supply fresh).mapM (Job.outcome (Machine.standard s.limit))).map fun entries =>
      List.intercalate ['\n'] (s.demoLines ++ entries) := by
  unfold run jobs
  rw [if_pos h, mapM_append, mapM_append]
  simp only [Report.value_andThen, value_reportDemo, value_reportExpression, value_reportFile,
    value_reportRandom]
  generalize (s.expression.toList.map Job.text).mapM (Job.outcome _) = first
  generalize (s.fileJobs read).mapM (Job.outcome _) = second
  generalize (s.randomJobs supply fresh).mapM (Job.outcome _) = third
  cases first with
  | error e => rfl
  | ok ls =>
    cases second with
    | error e => rfl
    | ok ms => cases third <;> rfl

variable {s read supply fresh}

theorem run_eq_ok_iff (h : s.asksForSomething) {out : Text} :
    (s.run read supply fresh).value = .ok out ↔ ∃ entries,
      List.Forall₂ (Job.Gives (Machine.standard s.limit)) (s.jobs read supply fresh) entries ∧
        out = List.intercalate ['\n'] (s.demoLines ++ entries) := by
  simp only [run_eq_outcomes s read supply fresh h, ← Job.outcomes_eq_ok_iff]
  cases (s.jobs read supply fresh).mapM (Job.outcome (Machine.standard s.limit)) with
  | error e => exact ⟨fun h => (nomatch h), fun ⟨_, h, _⟩ => (nomatch h)⟩
  | ok entries =>
    constructor
    · intro h
      exact ⟨entries, rfl, (Except.ok.inj h).symm⟩
    · rintro ⟨_, h, rfl⟩
      cases h
      rfl

theorem run_eq_error_iff (h : s.asksForSomething) {e : Failure RunError} :
    (s.run read supply fresh).value = .error e ↔
      ∃ before job after, s.jobs read supply fresh = before ++ job :: after ∧
        (∀ j ∈ before, ∃ line, j.Gives (Machine.standard s.limit) line) ∧
        job.Fails (Machine.standard s.limit) e := by
  rw [run_eq_outcomes s read supply fresh h, ← Job.outcomes_eq_error_iff]
  cases (s.jobs read supply fresh).mapM (Job.outcome (Machine.standard s.limit)) with
  | error e' =>
    constructor <;>
      exact fun h => congrArg Except.error (Except.error.inj h)
  | ok entries => exact ⟨fun h => (nomatch h), fun h => (nomatch h)⟩

/-- **A run does its jobs in order and reports the first failure**, if it is asked for something.
It succeeds just if every job gives a line, that is if every text is read and the file can be; then
it gives the lines of the demonstration, if that is asked for, and the line of every job, one below
the other. It fails as the first job does that fails, once those before it went through.
The line of a text has no break in it. The texts in the source file are those of `IsExpressions`,
and the random ones are whatever the supply has. -/
theorem run_reports_jobs (h : s.asksForSomething) (read : Text → Except FileError Text)
    (supply : Supply σ) (fresh : UInt64) :
    ((∃ out, (s.run read supply fresh).value = .ok out) ↔
      ∀ job ∈ s.jobs read supply fresh, ∃ line, job.Gives (Machine.standard s.limit) line) ∧
    (∀ out, (s.run read supply fresh).value = .ok out ↔
      ∃ entries,
        List.Forall₂ (Job.Gives (Machine.standard s.limit)) (s.jobs read supply fresh) entries ∧
          out = List.intercalate ['\n'] (s.demoLines ++ entries)) ∧
    (∀ e, (s.run read supply fresh).value = .error e ↔
      ∃ before job after, s.jobs read supply fresh = before ++ job :: after ∧
        (∀ j ∈ before, ∃ line, j.Gives (Machine.standard s.limit) line) ∧
        job.Fails (Machine.standard s.limit) e) ∧
    (∀ (job : Job) line, job.Gives (Machine.standard s.limit) line → IsOneLine line) ∧
    ∀ contents es, expressions contents = es ↔ IsExpressions contents es := by
  refine ⟨?_, fun _ => run_eq_ok_iff h, fun _ => run_eq_error_iff h,
    fun _ _ hline => hline.isOneLine, fun _ _ => expressions_eq_iff⟩
  rw [← exists_forall₂_iff]
  constructor
  · rintro ⟨out, hout⟩
    obtain ⟨entries, hall, -⟩ := (run_eq_ok_iff h).1 hout
    exact ⟨entries, hall⟩
  · rintro ⟨entries, hall⟩
    exact ⟨_, (run_eq_ok_iff h).2 ⟨entries, hall, rfl⟩⟩

/-- The demonstration, an expression, a file with a comment, blanks, an empty line and both ends of
lines, and the two random texts of a seed. The run fails if a line of the file is not read, and if
the file cannot be: then no random text is asked for. -/
theorem run_reports_all_sources :
    let s : Settings :=
      { expression := some "a1".toList, sourcePath := some "f".toList, demo := true,
        randomCount := 2, seed := some 5504 }
    let supply : Supply (List Text) :=
      ⟨fun _ => ["(A2)".toList, "yu5".toList], fun ts => (ts.headD [], ts.tail)⟩
    s.asksForSomething ∧
      (s.run (fun _ => .ok "// c\n  (b1)\t\r\n\nlx1.(c2)".toList) supply 0).value =
        .ok (List.intercalate ['\n'] (List.map String.toList [
          "variable: X1",
          "abstraction: λY1.X1",
          "concatenation: (λY1.X1X1)",
          "wrapped 1 time(s): (λY1.X1X1) (stored as ((λY1.X1X1)))",
          "wrapped 2 time(s): (λY1.X1X1) (stored as ((λY1.X1X1)))",
          "wrapped 3 time(s): (λY1.X1X1) (stored as ((λY1.X1X1)))",
          "wrapped equals unwrapped: true",
          "(λX1.X1) applied to Z1: X1",
          "a1 => [A1]",
          "(b1) => [B1]",
          "lx1.(c2) => [λX1.C2]",
          "(A2) => [A2]",
          "yu5 => [YU5]"])) ∧
      (s.run (fun _ => .ok "// c\n(b1\n".toList) supply 0).value =
        .error (.reported (.parse "(b1".toList (.ofFault (.grammar (.unexpectedEnd .groupBody))))) ∧
      (s.run (fun _ => .error .notFound) supply 0).value =
        .error (.reported (.file .notFound)) := by
  have ha : ((Machine.standard 256).parse "a1".toList).value = .ok [.var "A1".toList] := by cbv
  have hb : ((Machine.standard 256).parse "(b1)".toList).value =
      .ok [.group [.var "B1".toList]] := by cbv
  have hopen : ((Machine.standard 256).parse "(b1".toList).value =
      .error (.ofFault (.grammar (.unexpectedEnd .groupBody))) := by cbv
  have hc : ((Machine.standard 256).parse "lx1.(c2)".toList).value =
      .ok [.lambda "X1".toList (.group [.var "C2".toList])] := by cbv
  have hd : ((Machine.standard 256).parse "(A2)".toList).value =
      .ok [.group [.var "A2".toList]] := by cbv
  have hu : ((Machine.standard 256).parse "yu5".toList).value = .ok [.var "YU5".toList] := by cbv
  have hlines : expressions "// c\n  (b1)\t\r\n\nlx1.(c2)".toList =
      ["(b1)".toList, "lx1.(c2)".toList] := by cbv
  have hline : expressions "// c\n(b1\n".toList = ["(b1".toList] := by cbv
  intro s supply
  have h : s.asksForSomething := by decide
  refine ⟨h, ?_, ?_, ?_⟩
  · have hjobs : s.jobs (fun _ => .ok "// c\n  (b1)\t\r\n\nlx1.(c2)".toList) supply 0 =
        [.text "a1".toList, .text "(b1)".toList, .text "lx1.(c2)".toList, .text "(A2)".toList,
          .text "yu5".toList] := by
      unfold jobs fileJobs
      simp only [s]
      rw [hlines]
      rfl
    have hall : List.Forall₂ (Job.Gives (Machine.standard 256))
        [.text "a1".toList, .text "(b1)".toList, .text "lx1.(c2)".toList, .text "(A2)".toList,
          .text "yu5".toList]
        ["a1 => [A1]".toList, "(b1) => [B1]".toList, "lx1.(c2) => [λX1.C2]".toList,
          "(A2) => [A2]".toList, "yu5 => [YU5]".toList] :=
      .cons (.text ha) (.cons (.text hb) (.cons (.text hc) (.cons (.text hd)
        (.cons (.text hu) .nil))))
    refine ((run_reports_jobs h _ supply 0).2.1 _).2 ⟨_, hjobs ▸ hall, ?_⟩
    rw [demoLines, if_pos rfl]
    decide +kernel
  · have hjobs : s.jobs (fun _ => .ok "// c\n(b1\n".toList) supply 0 =
        [.text "a1".toList] ++ .text "(b1".toList ::
          [.text "(A2)".toList, .text "yu5".toList] := by
      unfold jobs fileJobs
      simp only [s]
      rw [hline]
      rfl
    have hfails := Job.Fails.text hopen
    exact ((run_reports_jobs h _ supply 0).2.2.1 _).2
      ⟨_, _, _, hjobs, List.forall_mem_singleton.2 ⟨_, .text ha⟩, hfails⟩
  · exact ((run_reports_jobs h _ supply 0).2.2.1 _).2
      ⟨[.text "a1".toList], .file .notFound, _, rfl, List.forall_mem_singleton.2 ⟨_, .text ha⟩,
        .file .notFound⟩

end Settings

end LambdaNotation
