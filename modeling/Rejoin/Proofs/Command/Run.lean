import Rejoin.Command.Directory
import Rejoin.Proofs.Definition.Text
import Rejoin.Proofs.Plan.KeyPaths

/-!
# Running a command in a directory

The result text of a command depends on the view's file and not on where the
text goes.  It reports what the planner answers for the loaded view, and it is
printed or put into one file; without a result nothing happens.  The reports of
all sources are the reports of their key paths.
-/

namespace Rejoin.Command

/-! ## Files -/

namespace Directory

/-- The bytes of a text are read as the text. -/
theorem fromUTF8?_toUTF8 (text : String) : String.fromUTF8? text.toUTF8 = some text :=
  dif_pos text.isValidUTF8

theorem lookup_cons_eq_ite {β : Type} (file : String × β) (files : List (String × β))
    (name : String) :
    (file :: files).lookup name = if name = file.1 then some file.2 else files.lookup name := by
  obtain ⟨held, content⟩ := file
  by_cases same : name = held
  · simp [same]
  · simp [List.lookup_cons, same, beq_false_of_ne same]

theorem lookup_replace {β : Type} (files : List (String × β)) (name other : String)
    (content : β) :
    (files.map fun file => if file.1 = name then (name, content) else file).lookup other =
      if other = name then (files.lookup other).map (fun _ => content) else files.lookup other := by
  induction files with
  | nil => simp
  | cons file rest ih =>
      rw [List.map_cons, lookup_cons_eq_ite, lookup_cons_eq_ite, ih]
      by_cases asked : other = name <;> by_cases here : file.1 = name <;>
        by_cases first : other = file.1 <;> simp_all

/-- A file that is put has its bytes, and no other file is touched. -/
theorem lookup_put (directory : Directory) (name other : String) (bytes : ByteArray) :
    (directory.put name bytes).files.lookup other =
      if other = name then some bytes else directory.files.lookup other := by
  simp only [put, beq_iff_eq]
  by_cases present : ∃ file ∈ directory.files, file.1 = name
  · obtain ⟨file, among, named⟩ := present
    have found : (directory.files.lookup name).isSome :=
      List.lookup_isSome_iff.2 ⟨file, among, beq_iff_eq.2 named.symm⟩
    obtain ⟨content, found⟩ := Option.isSome_iff_exists.1 found
    rw [if_pos (by simpa using ⟨file.2, named ▸ among⟩), lookup_replace]
    by_cases asked : other = name
    · rw [if_pos asked, if_pos asked, asked, found, Option.map_some]
    · rw [if_neg asked, if_neg asked]
  · have missing : directory.files.lookup name = none :=
      List.lookup_eq_none_iff.2 fun file among =>
        bne_iff_ne.2 fun named => present ⟨file, among, named.symm⟩
    rw [if_neg (by simpa using present), List.lookup_append, lookup_cons_eq_ite]
    by_cases asked : other = name
    · rw [if_pos asked, if_pos asked, asked, missing, Option.none_or]
    · rw [if_neg asked, if_neg asked, List.lookup_nil, Option.or_none]

/-- A text that is put is read back, if its file may be read. -/
theorem read?_put (directory : Directory) {access : Access} {path name : String}
    (leads : nameOf? path = some name) (readable : access.reads name = true) (text : String) :
    (directory.put name text.toUTF8).read? access path = some text := by
  rw [read?, leads, Option.filter_some_pos readable, Option.bind_some, lookup_put, if_pos rfl,
    Option.bind_some, fromUTF8?_toUTF8]

theorem target?_eq_some {access : Access} {path name : String} (leads : nameOf? path = some name)
    (writable : access.writes name = true) : target? access path = some name := by
  rw [target?, leads, Option.filter_some_pos writable]

/-! ## One run -/

/-- The outcome of an invocation in the directory, and the directory after it. -/
def perform (directory : Directory) (access : Access) (invocation : Invocation) :
    Outcome × Directory :=
  Id.run (StateT.run (invocation.run (store access)) directory)

/-- Arguments that are understood as an invocation perform it. -/
theorem run_eq_perform (directory : Directory) (access : Access) {arguments : List String}
    {invocation : Invocation} (parsed : Intent.ofArguments? arguments = some (.plan invocation)) :
    directory.run arguments access = directory.perform access invocation := by
  rw [run, Command.run, parsed]
  rfl

/-- The result text of an invocation, or why it has none. -/
def rendered (directory : Directory) (access : Access) (invocation : Invocation) :
    Except Failure String :=
  match directory.read? access invocation.view with
  | none => .error .file
  | some text => invocation.render text

/-- Prints a result, or puts it into a file that may be written. -/
def deliver (directory : Directory) (access : Access) (result : String) :
    Option String → Outcome × Directory
  | none => (.success (result ++ "\n"), directory)
  | some path =>
      match target? access path with
      | none => (.failed .file, directory)
      | some name => (.success "", directory.put name result.toUTF8)

/-- Only the output file can be refused. -/
theorem failure_deliver_ne_plan (directory : Directory) (access : Access) (result : String)
    (output : Option String) (error : PlanError) :
    (directory.deliver access result output).1.failure ≠ some (.plan error) := by
  cases output with
  | none => simp [deliver, Outcome.success]
  | some path =>
      rw [deliver]
      cases target? access path <;> simp [Outcome.success, Outcome.failed]

/-- A run reads the view's file, and delivers the result if there is one. -/
theorem perform_eq (directory : Directory) (access : Access) (invocation : Invocation) :
    directory.perform access invocation =
      match directory.rendered access invocation with
      | .error failure => (.failed failure, directory)
      | .ok result => directory.deliver access result invocation.output := by
  rw [rendered]
  cases read : directory.read? access invocation.view with
  | none => simp [perform, Invocation.run, store, read]
  | some text =>
      cases made : invocation.render text with
      | error failure => simp [perform, Invocation.run, store, read, made]
      | ok result =>
          cases out : invocation.output with
          | none => simp [perform, Invocation.run, store, read, made, out, deliver]
          | some path =>
              cases leads : target? access path <;>
                simp [perform, Invocation.run, store, read, made, out, deliver, leads]

end Directory

/-! ## Results -/

/--
How the planner's answer for an anchor is reported.  Without a slice there is no
fingerprint; with one, it is the MD5 of the slice's own text.
-/
inductive Reports (anchor : String) :
    Except PlanError (Option View) → Except PlanError Json → Prop where
  | failed (error : PlanError) : Reports anchor (.error error) (.error error)
  | missing :
      Reports anchor (.ok none)
        (.ok (.record [("anchor", .text anchor), ("fingerprint", .null), ("slice", .null)]))
  | found (slice : View) :
      Reports anchor (.ok (some slice))
        (.ok (.record [("anchor", .text anchor),
          ("fingerprint",
            .text (Hexadecimal.ofBytes (Md5.digest slice.toJson.compact.toUTF8.toList))),
          ("slice", slice.toJson)]))

/--
What a task results in for a view: the report of its own plan, or the list of the
reports of all key paths in the order of the sources.
-/
inductive Task.Answers (options : Options) (view : View) : Task → Except PlanError Json → Prop where
  | keyPath {anchor : String} {answer : Except PlanError Json}
      (reports : Reports anchor (view.keyPath options anchor) answer) :
      Answers options view (.keyPath anchor) answer
  | fields {anchor : String} {names : List String} {answer : Except PlanError Json}
      (reports : Reports anchor (view.fields options anchor names) answer) :
      Answers options view (.fields anchor none names) answer
  | fieldsFrom {anchor target : String} {names : List String} {answer : Except PlanError Json}
      (reports : Reports anchor (view.fieldsFrom options anchor target names) answer) :
      Answers options view (.fields anchor (some target) names) answer
  | computedKey {anchor : String} {answer : Except PlanError Json}
      (reports : Reports anchor (view.computedKey options anchor) answer) :
      Answers options view (.computedKey anchor) answer
  | planAll {items : List Json}
      (each : List.Forall₂ (fun source item =>
        Reports source.name (view.keyPath options source.name) (.ok item)) view.sources items) :
      Answers options view .planAll (.ok (.array items))

theorem reports_map (anchor : String) (planned : Except PlanError (Option View)) :
    Reports anchor planned (planned.map (fun slice => Report.toJson ⟨anchor, slice⟩)) := by
  obtain error | _ | slice := planned
  · exact .failed error
  · exact .missing
  · exact .found slice

theorem Reports.eq_map {anchor : String} {planned : Except PlanError (Option View)}
    {answer : Except PlanError Json} (reports : Reports anchor planned answer) :
    planned.map (fun slice => Report.toJson ⟨anchor, slice⟩) = answer := by
  cases reports <;> rfl

theorem Reports.spellable {anchor : String} {planned : Except PlanError (Option View)}
    {value : Json} (reports : Reports anchor planned (.ok value)) : value.Spellable := by
  cases reports with
  | missing => exact Json.spellable_record (by simp [Json.spellable_text, Json.spellable_null])
  | found slice =>
      exact Json.spellable_record (by simp [Json.spellable_text, View.spellable_toJson])

theorem result_planAll {view : View} (wellFormed : view.WellFormed) (options : Options) :
    ∃ items, Task.planAll.result options view = .ok (.array items) ∧
      List.Forall₂ (fun source item =>
        Reports source.name (view.keyPath options source.name) (.ok item)) view.sources items := by
  obtain ⟨plans, planned, alone⟩ := View.keyPaths_plannedAlone wellFormed options
  refine ⟨_, map_eq_ok_iff.2 ⟨plans, planned, rfl⟩,
    List.forall₂_map_right_iff.2 (alone.imp fun source plan each => ?_)⟩
  rw [each.slice, each.anchor]
  exact reports_map source.name (.ok plan.slice)

theorem Task.answers_result {view : View} (wellFormed : view.WellFormed) (options : Options)
    (task : Task) : task.Answers options view (task.result options view) := by
  cases task with
  | keyPath anchor => exact .keyPath (reports_map anchor _)
  | fields anchor target names =>
      cases target with
      | none => exact .fields (reports_map anchor _)
      | some target => exact .fieldsFrom (reports_map anchor _)
  | computedKey anchor => exact .computedKey (reports_map anchor _)
  | planAll =>
      obtain ⟨items, answered, each⟩ := result_planAll wellFormed options
      rw [answered]
      exact .planAll each

theorem wellFormed_of_load {text : String} {view : View} (loads : View.load text = .ok view) :
    view.WellFormed := by
  rw [View.load] at loads
  cases parsed : Definition.parse? text with
  | none =>
      rw [parsed] at loads
      cases loads
  | some definition =>
      rw [parsed, View.ofDefinition?, mapError_eq_ok_iff] at loads
      exact (Definition.wellFormed_of_resolve loads).1

/-- Once the view is loaded, only the task's result on it matters. -/
theorem Invocation.render_of_load {text : String} {view : View}
    (loads : View.load text = .ok view) (invocation : Invocation) :
    invocation.render text =
      ((invocation.task.result ⟨invocation.shortcuts⟩ view).mapError .plan).map Json.pretty := by
  rw [Invocation.render, loads]
  change ((invocation.task.result _ view).mapError Failure.plan >>=
    fun value => .ok value.pretty) = _
  cases invocation.task.result ⟨invocation.shortcuts⟩ view <;> rfl

namespace Directory

variable {directory : Directory} {access : Access} {file : String} {view : View}

/-- The view that a file of the directory defines. -/
inductive Loads (directory : Directory) (access : Access) (file : String) (view : View) : Prop where
  | intro {text : String} (read : directory.read? access file = some text)
      (loads : View.load text = .ok view)

theorem Loads.wellFormed (loaded : directory.Loads access file view) : view.WellFormed := by
  obtain ⟨-, loads⟩ := loaded
  exact wellFormed_of_load loads

theorem Loads.rendered_eq (loaded : directory.Loads access file view) (task : Task)
    (output : Option String) (shortcuts : Bool) :
    directory.rendered access ⟨task, file, output, shortcuts⟩ =
      ((task.result ⟨shortcuts⟩ view).mapError .plan).map Json.pretty := by
  obtain ⟨read, loads⟩ := loaded
  rw [rendered, read]
  exact Invocation.render_of_load loads ⟨task, file, output, shortcuts⟩

/-- How a run may end, and what it may do to the directory. -/
inductive Ends (directory : Directory) (access : Access) (invocation : Invocation) :
    Outcome × Directory → Prop where
  | unread (missing : directory.read? access invocation.view = none) :
      Ends directory access invocation (.failed .file, directory)
  | unloaded {text : String} {error : LoadError}
      (read : directory.read? access invocation.view = some text)
      (defective : View.load text = .error error) :
      Ends directory access invocation (.failed (.load error), directory)
  | unplanned {view : View} {error : PlanError}
      (loaded : directory.Loads access invocation.view view)
      (answers : invocation.task.Answers ⟨invocation.shortcuts⟩ view (.error error)) :
      Ends directory access invocation (.failed (.plan error), directory)
  | unwritten {view : View} {value : Json} {path : String}
      (loaded : directory.Loads access invocation.view view)
      (answers : invocation.task.Answers ⟨invocation.shortcuts⟩ view (.ok value))
      (toWrite : invocation.output = some path) (refused : target? access path = none) :
      Ends directory access invocation (.failed .file, directory)
  | printed {view : View} {value : Json}
      (loaded : directory.Loads access invocation.view view)
      (answers : invocation.task.Answers ⟨invocation.shortcuts⟩ view (.ok value))
      (toPrint : invocation.output = none) :
      Ends directory access invocation (.success (value.pretty ++ "\n"), directory)
  | written {view : View} {value : Json} {path name : String}
      (loaded : directory.Loads access invocation.view view)
      (answers : invocation.task.Answers ⟨invocation.shortcuts⟩ view (.ok value))
      (toWrite : invocation.output = some path) (leads : target? access path = some name) :
      Ends directory access invocation (.success "", directory.put name value.pretty.toUTF8)

theorem ends_perform (directory : Directory) (access : Access) (invocation : Invocation) :
    directory.Ends access invocation (directory.perform access invocation) := by
  obtain ⟨task, file, output, shortcuts⟩ := invocation
  rw [perform_eq]
  cases read : directory.read? access file with
  | none =>
      rw [rendered, read]
      exact .unread read
  | some text =>
      cases loads : View.load text with
      | error error =>
          simp only [rendered, read, Invocation.render, loads]
          exact .unloaded read loads
      | ok view =>
          have loaded : directory.Loads access file view := ⟨read, loads⟩
          have answers := Task.answers_result loaded.wellFormed ⟨shortcuts⟩ task
          rw [loaded.rendered_eq]
          cases answered : task.result ⟨shortcuts⟩ view with
          | error error => exact .unplanned loaded (answered ▸ answers)
          | ok value =>
              rw [answered] at answers
              cases output with
              | none => exact .printed loaded answers rfl
              | some path =>
                  change Ends _ _ _ (directory.deliver access value.pretty (some path))
                  rw [deliver]
                  cases leads : target? access path with
                  | none => exact .unwritten loaded answers rfl leads
                  | some name => exact .written loaded answers rfl leads

/-- The text that is printed without an output file is the one that goes into it. -/
theorem perform_of_printed {invocation : Invocation} {result : String}
    (printed : directory.perform access { invocation with output := none } =
      (.success (result ++ "\n"), directory)) (output : Option String) :
    directory.perform access { invocation with output := output } =
      directory.deliver access result output := by
  -- The result is rendered before anything looks at the output option.
  have same : directory.rendered access { invocation with output := output } =
      directory.rendered access { invocation with output := none } := rfl
  rw [perform_eq] at printed ⊢
  rw [same]
  cases made : directory.rendered access { invocation with output := none } with
  | error failure =>
      rw [made] at printed
      cases printed
  | ok text =>
      rw [made] at printed
      simp only [deliver, Prod.mk.injEq, Outcome.success, Outcome.mk.injEq, true_and, and_true,
        String.append_left_inj] at printed
      rw [printed]

/-- A loaded view has a report for every source, which is the report of its key path. -/
theorem Loads.exists_reports (loaded : directory.Loads access file view) (shortcuts : Bool) :
    ∃ reports : List Json,
      (∀ output, directory.rendered access ⟨.planAll, file, output, shortcuts⟩ =
        .ok (Json.array reports).pretty) ∧
      List.Forall₂ (fun source report => report.Spellable ∧
        directory.rendered access ⟨.keyPath source.name, file, none, shortcuts⟩ =
          .ok report.pretty) view.sources reports := by
  obtain ⟨items, all, each⟩ := result_planAll loaded.wellFormed ⟨shortcuts⟩
  refine ⟨items, fun output => ?_, each.imp fun source item reports => ⟨reports.spellable, ?_⟩⟩
  · rw [loaded.rendered_eq, all]
    rfl
  · have one : (Task.keyPath source.name).result ⟨shortcuts⟩ view = .ok item := reports.eq_map
    rw [loaded.rendered_eq, one]
    rfl

/--
A command is atomic and consistent with itself.  Failing, it prints nothing and
leaves the directory as it is.  Succeeding, it prints its result, or puts the
same text into the output file and touches no other file; the result reports
what the planner answers for the loaded view.  Once the view loads, planning all
sources never fails, and the report of each source is the one that its key path
prints.
-/
theorem perform_consistent (directory : Directory) (access : Access) (invocation : Invocation) :
    (∀ arguments, Intent.ofArguments? arguments = some (.plan invocation) →
      directory.run arguments access = directory.perform access invocation) ∧
    directory.Ends access invocation (directory.perform access invocation) ∧
    (∀ result, directory.perform access { invocation with output := none } =
        (.success (result ++ "\n"), directory) →
      ∀ path name, nameOf? path = some name → access.writes name = true → ∃ after,
        directory.perform access { invocation with output := some path } = (.success "", after) ∧
        after.files.lookup name = some result.toUTF8 ∧
        (access.reads name = true → after.read? access path = some result) ∧
        ∀ other, other ≠ name → after.files.lookup other = directory.files.lookup other) ∧
    ∀ view, directory.Loads access invocation.view view →
      (∀ output error, (directory.perform access
        ⟨.planAll, invocation.view, output, invocation.shortcuts⟩).1.failure ≠
          some (.plan error)) ∧
      ∃ reports : List Json,
        directory.perform access ⟨.planAll, invocation.view, none, invocation.shortcuts⟩ =
          (.success ((Json.array reports).pretty ++ "\n"), directory) ∧
        List.Forall₂ (fun source report => Json.parse? report.pretty = some report ∧
          directory.perform access
            ⟨.keyPath source.name, invocation.view, none, invocation.shortcuts⟩ =
              (.success (report.pretty ++ "\n"), directory)) view.sources reports := by
  refine ⟨fun arguments => directory.run_eq_perform access,
    directory.ends_perform access invocation,
    fun result printed path name leads writable => ?_, fun view loaded => ?_⟩
  · refine ⟨directory.put name result.toUTF8, ?_, ?_, fun readable => ?_, fun other apart => ?_⟩
    · rw [perform_of_printed printed, deliver, target?_eq_some leads writable]
    · rw [lookup_put, if_pos rfl]
    · exact directory.read?_put leads readable result
    · rw [lookup_put, if_neg apart]
  · obtain ⟨reports, all, each⟩ := loaded.exists_reports invocation.shortcuts
    refine ⟨fun output error => ?_, reports, by rw [perform_eq, all]; rfl,
      each.imp fun source report single => ?_⟩
    · rw [perform_eq, all]
      exact directory.failure_deliver_ne_plan access _ output error
    · obtain ⟨spellable, one⟩ := single
      exact ⟨Json.parse?_pretty spellable, by rw [perform_eq, one]; rfl⟩

/-- The definition of the parcels in a file. -/
def parcelsDirectory : Directory :=
  ⟨[("view.json", View.parcels.unresolve.toJson.compact.toUTF8)]⟩

theorem parcelsDirectory_loads : parcelsDirectory.Loads {} "view.json" View.parcels := by
  have named : nameOf? "view.json" = some "view.json" := by decide
  have written := Definition.written_toJson View.parcels.unresolve
  have parsed := Definition.parse?_of_writes written (Json.writes_compact written.spellable)
  have read : parcelsDirectory.read? {} "view.json" =
      some View.parcels.unresolve.toJson.compact := by
    rw [read?, named, Option.filter_some_pos rfl, Option.bind_some, parcelsDirectory,
      List.lookup_cons_self, Option.bind_some, fromUTF8?_toUTF8]
  refine ⟨read, ?_⟩
  rw [View.load, parsed, View.ofDefinition?, View.parcels_resolved]
  rfl

/-- The plans of all parcels are printed, or put beside their definition. -/
theorem perform_consistent_parcels : ∃ reports : List Json, reports.length = 3 ∧
    parcelsDirectory.run ["plan-all", "--view", "view.json"] =
      (.success ((Json.array reports).pretty ++ "\n"), parcelsDirectory) ∧
    ∃ after, parcelsDirectory.perform {} ⟨.planAll, "view.json", some "./plans.json", true⟩ =
        (.success "", after) ∧
      after.read? {} "./plans.json" = some (Json.array reports).pretty := by
  obtain ⟨runs, -, writes, loaded⟩ :=
    perform_consistent parcelsDirectory {} ⟨.planAll, "view.json", none, true⟩
  obtain ⟨-, reports, printed, each⟩ := loaded _ parcelsDirectory_loads
  obtain ⟨after, wrote, -, holds, -⟩ :=
    writes _ printed "./plans.json" "plans.json" (by decide) rfl
  have ran := runs ["plan-all", "--view", "view.json"] (by decide +kernel)
  exact ⟨reports, each.length_eq.symm, ran.trans printed, after, wrote, holds rfl⟩

end Directory

end Rejoin.Command
