import BlockScope.CommandLine.Standard
import BlockScope.Proofs.Declarations.Log
import BlockScope.Proofs.Declarations.Reference
import BlockScope.Proofs.Predeclared.Signature

namespace BlockScope

private theorem newline_not_mem_toDigits (n : Nat) : '\n' ∉ Nat.toDigits 10 n := by
  have hrepr := newline_not_mem_repr n
  change '\n' ∉ n.repr.toList at hrepr
  rwa [Nat.toList_repr] at hrepr

private theorem newline_not_mem_releaseText (objects scopes typeNodes constants : Nat) :
    '\n' ∉ (Event.releaseText objects scopes typeNodes constants).toList := by
  simp [Event.releaseText, newline_not_mem_toDigits]

namespace Event

variable {e : Event}

private theorem newline_not_mem_target (e : Event) : '\n' ∉ e.target.toList := by
  cases e <;> simp [target]

private theorem newline_not_mem_message (h : ∀ name ∈ e.names, '\n' ∉ name.toList) :
    '\n' ∉ e.message.toList := by
  have hword (kind : Kind) : '\n' ∉ kind.word.toList := by cases kind <;> decide
  unfold message
  cases e with
  | opened builtins => simp [newline_not_mem_toDigits]
  | limited maxIdentLength => simp [newline_not_mem_toDigits]
  | entered owner scope =>
    have howner := h owner List.mem_cons_self
    simp [howner, newline_not_mem_toDigits]
  | exited owner scope =>
    have howner := h owner List.mem_cons_self
    simp [howner, newline_not_mem_toDigits]
  | strayParameter name host =>
    have hname := h name List.mem_cons_self
    simp [hname, hword]
  | declared kind name host =>
    have hname := h name List.mem_cons_self
    have hhost := h host (List.mem_cons_of_mem _ List.mem_cons_self)
    simp [hname, hhost, hword]
  | orphaned objects => simp [newline_not_mem_toDigits]
  | released objects scopes typeNodes constants =>
    simp [newline_not_mem_releaseText]

end Event

namespace CommandLine

open Table

/-- What is documented of the tools, as far as a run relies on it. A reason stands below what was
attempted, and a record is a line that begins with a heading in brackets. -/
structure Tools.Documented (tools : Tools) : Prop where
  failureReport : ∀ {attempt reason : String}, '\n' ∉ attempt.toList → '\n' ∉ reason.toList →
    tools.failureReport attempt reason =
      "Error: " ++ attempt ++ "\n\nCaused by:\n    " ++ reason ++ "\n"
  record : ∀ (level : Level) {target message : String}, '\n' ∉ target.toList →
    '\n' ∉ message.toList → ∃ heading, '\n' ∉ heading.toList ∧
      tools.record level target message = "[" ++ heading ++ "] " ++ message ++ "\n"

private theorem Tools.standard_documented : Tools.standard.Documented where
  failureReport _ _ := rfl
  record level target message htarget _ := by
    have hlevel : '\n' ∉ level.word.toList := by cases level <;> decide
    refine ⟨level.word ++ String.ofList (List.replicate (5 - level.word.length) ' ') ++ " " ++
      target, by simp [hlevel, htarget], ?_⟩
    simp [standard, String.append_assoc]

/-- The log of events is made of lines that begin with a bracket, if no name that the events mention
breaks a line. -/
private theorem Tools.Documented.exists_lines_log {tools : Tools} (htools : tools.Documented)
    (filter : String) {events : List Event}
    (h : ∀ e ∈ events, ∀ name ∈ e.names, '\n' ∉ name.toList) :
    ∃ shown : List String, tools.log filter events = String.join (shown.map (· ++ "\n")) ∧
      ∀ line ∈ shown, '\n' ∉ line.toList ∧ line.toList.head? = some '[' := by
  induction events with
  | nil => exact ⟨[], rfl, nofun⟩
  | cons e events ih =>
    obtain ⟨hfirst, hlater⟩ := List.forall_mem_cons.mp h
    obtain ⟨shown, hlog, hshown⟩ := ih hlater
    by_cases hkept : tools.keeps filter e.level e.target
    · have hmessage := Event.newline_not_mem_message hfirst
      obtain ⟨heading, hheading, hrecord⟩ :=
        htools.record e.level e.newline_not_mem_target hmessage
      refine ⟨("[" ++ heading ++ "] " ++ e.message) :: shown, ?_, ?_⟩
      · unfold log at hlog ⊢
        rw [List.filter_cons, if_pos hkept, List.map_cons, List.map_cons, String.join_cons, hlog,
          String.join_cons, hrecord]
      · refine List.forall_mem_cons.mpr ⟨⟨?_, ?_⟩, hshown⟩
        · simp [hheading, hmessage]
        · simp
    · refine ⟨shown, ?_, hshown⟩
      unfold log at hlog ⊢
      rw [List.filter_cons, if_neg hkept, hlog]

namespace Options

/-- The text that a run dumps. -/
def outline (o : Options) : String :=
  if o.builtins then
    "Function READC : Char\nFunction READI : Int\nProcedure WRITEI\n    Param i : Int\n" ++
      "Procedure WRITEC\n    Param ch : Char\nProcedure WRITELN\n"
  else referenceOutline

variable {o : Options}

private theorem load_of_builtins (h : o.builtins = true) : o.load =
    .accepted () (initial o.limit) ((initial o.limit).openingLog ++ [.limited o.limit]) :=
  if_pos h

private theorem load_of_not_builtins (h : o.builtins = false) : o.load =
    (Outcome.accepted () (initial o.limit)
      ((initial o.limit).openingLog ++ [.limited o.limit])).andThen fun _ t =>
        (Program.reference.load t).map fun _ => () := by
  unfold load
  rw [h]
  rfl

/-- A run works on a table that a session could have left. -/
private theorem reachable_load (o : Options) : o.load.table.Reachable := by
  have hinitial : (initial o.limit).Reachable := .initial o.limit
  cases hbuiltins : o.builtins with
  | true =>
    rw [load_of_builtins hbuiltins]
    exact hinitial
  | false =>
    rw [load_of_not_builtins hbuiltins]
    exact hinitial.step (.command .loadReference) trivial

/-- Only a limit that is too small for the name of the reference program can end a run early. -/
private theorem result_load (o : Options) : o.load.result =
    if o.builtins ∨ 3 ≤ o.limit then .ok () else .error (.identTooLong "PRG" o.limit) := by
  cases hbuiltins : o.builtins with
  | true =>
    rw [load_of_builtins hbuiltins]
    rfl
  | false =>
    rw [load_of_not_builtins hbuiltins]
    change (Program.reference.load (initial o.limit)).result.map (fun _ => ()) = _
    by_cases hlimit : 3 ≤ o.limit
    · obtain ⟨p, hp⟩ : ∃ p, (Program.reference.load (initial o.limit)).result = .ok p :=
        (Program.load_accepted_iff (initial_inBounds o.limit) (by decide)).mpr ⟨hlimit, rfl, rfl⟩
      rw [hp, if_pos (.inr hlimit)]
      rfl
    · have hshort : (initial o.limit).maxIdentLength < 3 := Nat.lt_of_not_le hlimit
      rw [load_reference_of_lt hshort, if_neg (by simpa using hlimit)]
      rfl

private theorem dump_load (h : o.load.result = .ok ()) : o.dump o.load.table = o.outline := by
  unfold dump outline
  cases hbuiltins : o.builtins with
  | true =>
    have hdump := (sealed_initial o.limit).dumpGlobals?_eq (.initial o.limit)
    rw [load_of_builtins hbuiltins]
    change (initial o.limit).dumpGlobals?.getD "" = _
    rw [hdump, Option.getD_some, if_pos rfl]
    decide +kernel
  | false =>
    rw [load_of_not_builtins hbuiltins] at h ⊢
    change (Program.reference.load (initial o.limit)).result.map (fun _ => ()) = _ at h
    change (Program.reference.load (initial o.limit)).table.dumpProgram?.getD "" = _
    cases hload : (Program.reference.load (initial o.limit)).result with
    | error e =>
      rw [hload] at h
      cases h
    | ok p =>
      rw [((Reachable.initial o.limit).withReference hload).dump, Option.getD_some,
        if_neg Bool.false_ne_true]

/-- What a run logs mentions no names but those of the predeclared routines and of the reference
program, and none of these breaks a line. -/
private theorem newline_not_mem_names (o : Options) : ∀ e ∈ o.load.log ++ o.load.table.releaseLog,
    ∀ name ∈ e.names, '\n' ∉ name.toList := by
  have hinitial : (initial o.limit).Named ('\n' ∉ ·.toList) := fun p =>
    forall_object (P := fun found => '\n' ∉ found.name.toList) (by decide)
      (by simp [objects_initial]) p
  have hload : o.load.Mentions ('\n' ∉ ·.toList) := by
    cases hbuiltins : o.builtins with
    | true =>
      rw [load_of_builtins hbuiltins]
      exact .accepted () hinitial (by simp [openingLog, Event.names])
    | false =>
      rw [load_of_not_builtins hbuiltins]
      refine (Outcome.Mentions.accepted () hinitial (by simp [openingLog, Event.names])).andThen
        fun _ _ h => (Program.reference.load_mentions ?_ h).map _
      decide +kernel
  refine List.forall_mem_append.mpr ⟨hload.log, fun e he => ?_⟩
  rw [names_of_mem_releaseLog he]
  exact List.forall_mem_nil _

/-- The release of the table that a run works on never fails. -/
private theorem release_load (o : Options) : ∃ r, o.load.table.release = .ok r :=
  o.reachable_load.isForest.release o.reachable_load.inBounds

private theorem run_of_refused {e : SemanticError} (h : o.load.result = .error e) (tools : Tools)
    (setting : Option String) : o.run tools setting =
      ⟨1, "", tools.log (o.filter setting) o.load.log ++
        tools.failureReport "failed to declare the reference program" e.message⟩ := by
  unfold run
  simp only [h, Stage.attempt]

private theorem run_of_accepted {r : Report} (h : o.load.result = .ok ())
    (hrelease : o.load.table.release = .ok r) (tools : Tools) (setting : Option String) :
    let log := tools.log (o.filter setting) (o.load.log ++ o.load.table.releaseLog)
    o.run tools setting = ⟨0, o.outline, if o.verbose then log ++ releaseLine r else log⟩ := by
  unfold run
  simp only [h, hrelease, dump_load h]

end Options

/-- The text is a log, and below it the counts of the report on a line of their own, the only line
that tells of a release in these words. -/
structure EndsWithReport (stderr : String) (r : Report) : Prop where
  exists_log : ∃ log, stderr = log ++ "Released " ++ toString r.objects ++ " objects, " ++
    toString r.scopes ++ " scopes, " ++ toString r.typeNodes ++ " type nodes, " ++
    toString r.constants ++ " constants\n"
  exists_lines : ∃ shown last, lines stderr = shown ++ [last] ∧ "Released ".toList <+: last.toList ∧
    ∀ line ∈ shown, ¬ "Released ".toList <+: line.toList

private theorem releaseLine_eq (r : Report) : releaseLine r = "Released " ++ toString r.objects ++
    " objects, " ++ toString r.scopes ++ " scopes, " ++ toString r.typeNodes ++ " type nodes, " ++
    toString r.constants ++ " constants\n" := by
  simp [releaseLine, Event.releaseText, String.append_assoc]

private theorem endsWithReport {tools : Tools} (htools : tools.Documented) (filter : String)
    {events : List Event} (r : Report) (h : ∀ e ∈ events, ∀ name ∈ e.names, '\n' ∉ name.toList) :
    EndsWithReport (tools.log filter events ++ releaseLine r) r := by
  obtain ⟨shown, hlog, hshown⟩ := htools.exists_lines_log filter h
  let last := "Released " ++ Event.releaseText r.objects r.scopes r.typeNodes r.constants
  have hlast : '\n' ∉ last.toList := by
    simp [last, newline_not_mem_releaseText]
  have hlines : lines (tools.log filter events ++ releaseLine r) = shown ++ [last] := by
    have htext : tools.log filter events ++ releaseLine r =
        String.join ((shown ++ [last]).map (· ++ "\n")) := by
      rw [hlog, List.map_append, String.join_append]
      simp [releaseLine, last]
    rw [htext]
    refine lines_join fun line hline => ?_
    obtain hmem | hmem := List.mem_append.mp hline
    · exact (hshown line hmem).1
    · rwa [List.mem_singleton.mp hmem]
  refine ⟨⟨tools.log filter events, ?_⟩, shown, last, hlines, ?_, fun line hline hbegins => ?_⟩
  · rw [releaseLine_eq]
    simp only [String.append_assoc]
  · simp [last]
  · obtain ⟨rest, hrest⟩ := hbegins
    have hhead := (hshown line hline).2
    rw [← hrest] at hhead
    cases hhead

/-- What a run with the options shows. Names may have 15 letters where no limit is asked for. -/
structure Options.Inspected (o : Options) (display : Display) : Prop where
  exitCode : display.exitCode = if o.builtins ∨ 3 ≤ o.maxIdentLength.getD 15 then 0 else 1
  dumped : display.exitCode = 0 → display.stdout = o.outline
  failed : display.exitCode = 1 → display.stdout = "" ∧ ∃ log, display.stderr = log ++
    "Error: failed to declare the reference program\n\nCaused by:\n    identifier 'PRG' exceeds " ++
    toString (o.maxIdentLength.getD 15) ++ " characters\n"
  released : ∃ r, o.load.table.release = .ok r ∧
    (display.exitCode = 0 → o.verbose → EndsWithReport display.stderr r)

/-- **What a run shows.** For every command line from which options are read, and whatever filter of
the log is set from outside: the run succeeds exactly if only the predeclared routines are asked for
or names may have three letters, and what it dumps then depends on nothing but which of the two
outlines was asked for. A run that fails dumps nothing and ends with the reason. The release never
fails, and a successful verbose run ends with its counts. -/
theorem run_inspect {tools : Tools} (htools : tools.Documented) {arguments : List String}
    {o : Options} (h : tools.parse arguments = .ok o) (setting : Option String) :
    o.Inspected (tools.run arguments setting) := by
  have hrun : tools.run arguments setting = o.run tools setting := by
    unfold Tools.run
    rw [h]
  obtain ⟨r, hr⟩ := o.release_load
  rw [hrun]
  by_cases hlong : o.builtins ∨ 3 ≤ o.limit
  · have hloaded : o.load.result = .ok () := o.result_load.trans (if_pos hlong)
    rw [Options.run_of_accepted hloaded hr]
    refine ⟨(if_pos hlong).symm, fun _ => rfl, nofun, r, hr, fun _ hverbose => ?_⟩
    simp only [hverbose, if_true]
    exact endsWithReport htools _ r o.newline_not_mem_names
  · have hrefused : o.load.result = .error (.identTooLong "PRG" o.limit) :=
      o.result_load.trans (if_neg hlong)
    have hreason : '\n' ∉ (SemanticError.identTooLong "PRG" o.limit).message.toList := by
      unfold SemanticError.message
      simp [newline_not_mem_toDigits]
    rw [Options.run_of_refused hrefused, htools.failureReport (by decide) hreason]
    refine ⟨(if_neg hlong).symm, nofun, fun _ => ⟨rfl, tools.log (o.filter setting) o.load.log, ?_⟩,
      r, hr, nofun⟩
    unfold SemanticError.message
    apply String.toList_injective
    simp [Options.limit, defaultMaxIdentLength]

/-- Three letters are just enough for the reference program, and two are not. The predeclared
routines need none. -/
theorem run_inspect_shortest :
    let enough := Tools.standard.run ["-v", "--max-ident-len", "3"] (some "ERROR")
    let short := Tools.standard.run ["--max-ident-len=2"] none
    let routines := Tools.standard.run ["--max-ident-len", "0", "--builtins"] none
    enough.exitCode = 0 ∧ enough.stdout = referenceOutline ∧
      (∃ log, enough.stderr =
        log ++ "Released 24 objects, 8 scopes, 22 type nodes, 4 constants\n") ∧
      short.exitCode = 1 ∧ short.stdout = "" ∧
      (∃ log, short.stderr = log ++ "Error: failed to declare the reference program\n\n" ++
        "Caused by:\n    identifier 'PRG' exceeds 2 characters\n") ∧
      routines.exitCode = 0 ∧ routines.stdout =
        "Function READC : Char\nFunction READI : Int\nProcedure WRITEI\n    Param i : Int\n" ++
          "Procedure WRITEC\n    Param ch : Char\nProcedure WRITELN\n" := by
  intro enough short routines
  have hthree : Tools.standard.parse ["-v", "--max-ident-len", "3"] =
      .ok ⟨false, true, some 3⟩ := by
    decide +kernel
  have htwo : Tools.standard.parse ["--max-ident-len=2"] = .ok ⟨false, false, some 2⟩ := by
    decide +kernel
  have hzero : Tools.standard.parse ["--max-ident-len", "0", "--builtins"] =
      .ok ⟨true, false, some 0⟩ := by
    decide +kernel
  have henough : Options.Inspected ⟨false, true, some 3⟩ enough :=
    run_inspect Tools.standard_documented hthree (some "ERROR")
  have hshort : Options.Inspected ⟨false, false, some 2⟩ short :=
    run_inspect Tools.standard_documented htwo none
  have hroutines : Options.Inspected ⟨true, false, some 0⟩ routines :=
    run_inspect Tools.standard_documented hzero none
  have hsucceeds : enough.exitCode = 0 := henough.exitCode
  have hfails : short.exitCode = 1 := hshort.exitCode
  obtain ⟨hempty, reason, hreason⟩ := hshort.failed hfails
  obtain ⟨r, hr, hreport⟩ := henough.released
  have hcounts : (Options.load ⟨false, true, some 3⟩).table.release =
      .ok ⟨24, 8, 22, 4, 0, 0⟩ := by
    decide +kernel
  obtain rfl := Except.ok.inj (hcounts.symm.trans hr)
  obtain ⟨log, hlog⟩ := (hreport hsucceeds rfl).exists_log
  refine ⟨hsucceeds, henough.dumped hsucceeds, ⟨log, ?_⟩, hfails, hempty, ⟨reason, ?_⟩,
    hroutines.exitCode, hroutines.dumped hroutines.exitCode⟩
  · rw [hlog]
    simp only [String.append_assoc]
    rfl
  · rw [hreason]
    simp only [String.append_assoc]
    rfl

end CommandLine

end BlockScope
