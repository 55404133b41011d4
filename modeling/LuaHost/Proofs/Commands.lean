import Mathlib
import LuaHost.Proofs.ScriptArguments
import LuaHost.Proofs.ScriptRuns
import LuaHost.Proofs.Tidings
/-!
Commands from their arguments to their end. Whatever becomes of the script, the command ends in one of two ways:
with the script's values, or with a single complaint. What has been printed before stays, and the session is
closed.
-/

namespace LuaHost

/-- What an outcome throws at whoever cannot go on without success. -/
def Outcome.thrown? : Outcome → Option Thrown
  | .ok .. => none
  | .err f => some f.thrown
  | .threw t => some t

theorem Outcome.thrown?_isSome {o : Outcome} (failed : ¬ o.IsOk) : ∃ t, o.thrown? = some t := by
  cases o with
  | ok => exact absurd trivial failed
  | err f => exact ⟨_, rfl⟩
  | threw t => exact ⟨_, rfl⟩

namespace Config
variable {σ : Type} {c : Config σ}

/-! ### The end of a run -/

theorem step_of_halted (halted : c.isHalted = true) : c.step = c := by
  obtain ⟨w, control, T⟩ := c
  cases control with
  | finished r => rfl
  | lacking path next =>
      simp only [isHalted, result?, lacking?, Option.isSome_none, Bool.false_or] at halted
      split at halted
      · next unknown =>
          rw [Option.isNone_iff_eq_none] at unknown
          simp only [Config.step, unknown]
      · cases halted
  | client | perform | outcome | guest => cases halted

theorem run_eq_iterate (n : Nat) (c : Config σ) : c.run n = step^[n] c := by
  induction n generalizing c with
  | zero => rfl
  | succ n ih =>
      rw [run, Function.iterate_succ_apply]
      split
      · next halted => rw [step_of_halted halted, Function.iterate_fixed (step_of_halted halted)]
      · exact ih c.step

/-- A run that has come to its end stays there. -/
theorem finished_stays {n : Nat} {r : Except Thrown (State × List Item)}
    (finished : (step^[n] c).control = .finished r) {m : Nat} (le : n ≤ m) : step^[m] c = step^[n] c := by
  obtain ⟨k, rfl⟩ := Nat.exists_eq_add_of_le' le
  have stays : (step^[n] c).step = step^[n] c := by
    simp only [Config.step, finished]
  rw [Function.iterate_add_apply, Function.iterate_fixed stays]

/-- There is no more than one end. -/
theorem finished_unique {n m : Nat} {r r' : Except Thrown (State × List Item)}
    (finished : (step^[n] c).control = .finished r) (finished' : (step^[m] c).control = .finished r') :
    step^[n] c = step^[m] c := by
  rcases Nat.le_total n m with le | le
  · exact (finished_stays finished le).symm
  · exact finished_stays finished' le

/-! ### What is printed -/

/-- The lines that guests have printed after so many steps. -/
def printed (c : Config σ) (n : Nat) : List String :=
  ((List.range n).flatMap fun i => (step^[i] c).tidings).flatMap fun
    | .logged line => [line]
    | _ => []

theorem Respects.journal {ε : Type} {j : Journal σ ε} (respects : c.Respects j) (reachable : Reachable c)
    (n : Nat) : j.read (Config.step^[n] c).world.memory =
      j.read c.world.memory ++ ((List.range n).flatMap fun i => (Config.step^[i] c).tidings).flatMap j.notes := by
  induction n with
  | zero => exact (List.append_nil _).symm
  | succ n ih =>
      have told := (respects.steps reachable n).step (reachable.run (run_steps c n))
      rw [Function.iterate_succ_apply', told.journal, ih, List.range_succ, List.flatMap_append,
        List.flatMap_append, List.append_assoc, List.flatMap_singleton]

end Config

namespace CommandLine

/-- The printed lines, the first one first. -/
def outputJournal : Journal Console String where
  read console := console.output.reverse
  notes
    | .logged line => [line]
    | _ => []

/-- Complaints, of which there are none before the end. -/
def errorJournal : Journal Console String where
  read console := console.errors
  notes _ := []

theorem callbacks_keep_output (configuration : Configuration) :
    (options configuration).callbacks.Keep outputJournal where
  logs := fun _ _ => ⟨List.reverse_cons, fun threw => absurd rfl threw⟩
  calls := fun _ _ => ⟨(List.append_nil _).symm, fun threw => absurd rfl threw⟩
  returns := fun _ _ => ⟨(List.append_nil _).symm, fun threw => absurd rfl threw⟩
  failures := fun _ _ => ⟨(List.append_nil _).symm, fun threw => absurd rfl threw⟩

theorem callbacks_keep_errors (configuration : Configuration) :
    (options configuration).callbacks.Keep errorJournal where
  logs := fun _ _ => ⟨(List.append_nil _).symm, fun threw => absurd rfl threw⟩
  calls := fun _ _ => ⟨(List.append_nil _).symm, fun threw => absurd rfl threw⟩
  returns := fun _ _ => ⟨(List.append_nil _).symm, fun threw => absurd rfl threw⟩
  failures := fun _ _ => ⟨(List.append_nil _).symm, fun threw => absurd rfl threw⟩

section Respects
variable {j : Journal Console String}

theorem continuing_respects {state : State} {k : State → Result → Client Console}
    (respects : ∀ state result, (k state result).Respects j) (o : Outcome) :
    (continuing state k o).Respects j := by
  cases o with
  | ok next result => cases next <;> exact respects _ _
  | err | threw => exact ⟨trivial, fun _ => trivial⟩

theorem encode_respects (x : Primitive) (state : State) : (Client.encode (σ := Console) x state).Respects j := by
  refine ⟨trivial, fun o => ?_⟩
  cases o with
  | ok state r => cases state <;> cases r <;> trivial
  | err | threw => trivial

theorem primitives_respect (rows : List (Primitive × Primitive)) :
    (Encoders.ofList (Config.primitives (σ := Console) rows)).Respects j := by
  induction rows with
  | nil => trivial
  | cons r rows ih => exact ⟨encode_respects r.1, encode_respects r.2, ih⟩

theorem start_respects {configuration : Configuration} (keep : (options configuration).callbacks.Keep j)
    (script : Script) (arguments : List String) (directory : Directory) :
    (start configuration script arguments directory).Respects j where
  world := fun p none => by simp [start, Config.start, World.code] at none
  stack := fun p none => by cases none
  control := by
    have concludes (state : State) (o : Outcome) : (concluding state o).Respects j := by
      refine continuing_respects (fun next result => ?_) o
      exact ⟨trivial, fun _ => by cases result <;> trivial⟩
    have runs (state : State) (o : Outcome) : (running script state o).Respects j := by
      refine continuing_respects (fun next result => ?_) o
      exact ⟨by cases script <;> trivial, concludes next⟩
    have assigns (state : State) (o : Outcome) : (assigning script state o).Respects j := by
      refine continuing_respects (fun next result => ?_) o
      cases result with
      | item item => exact ⟨trivial, runs next⟩
      | nothing | values | reference | chunk | decoded => trivial
    have entries : (argumentEntries (script.name :: arguments)).Respects j := by
      rw [argumentEntries_eq]
      exact primitives_respect _
    exact ⟨keep, continuing_respects fun next _ => ⟨entries, assigns next⟩⟩

end Respects

theorem start_reachable (configuration : Configuration) (script : Script) (arguments : List String)
    (directory : Directory) : (start configuration script arguments directory).Reachable :=
  ⟨_, directory, {}, .refl⟩

/-- The console holds the lines that have been printed, and no complaints. -/
theorem console_eq (configuration : Configuration) (script : Script) (arguments : List String)
    (directory : Directory) (n : Nat) :
    (Config.step^[n] (start configuration script arguments directory)).world.memory =
      ⟨((start configuration script arguments directory).printed n).reverse, []⟩ := by
  have reachable := start_reachable configuration script arguments directory
  have output := (start_respects (callbacks_keep_output configuration) script arguments directory).journal
    reachable n
  have errors := (start_respects (callbacks_keep_errors configuration) script arguments directory).journal
    reachable n
  generalize (Config.step^[n] (start configuration script arguments directory)).world.memory = console at *
  obtain ⟨lines, complaints⟩ := console
  have lines_eq : lines.reverse = (start configuration script arguments directory).printed n := output
  have none : complaints = [] := errors.trans (List.flatMap_eq_nil_iff.mpr fun _ _ => rfl)
  rw [← lines_eq, List.reverse_reverse, none]

/-! ### The end of a command -/

/-- The line that a script's values are shown by. -/
def closingLine? (values : List Datum) : Option String :=
  match exitMessage values with
  | some message => some message
  | none => if values.isEmpty then none else some (valuesLine values)

/-- How a command ends by the outcome of its script, after the lines that the script has printed. -/
inductive Concludes (lines : List String) : Outcome → Ending → Prop
  | returned {s : State} {values : List Datum} :
      Concludes lines (.ok (some s) (.values values))
        ⟨⟨(closingLine? values).toList ++ lines.reverse, []⟩, exitCode values⟩
  | failed {o : Outcome} {t : Thrown} (thrown : o.thrown? = some t) :
      Concludes lines o ⟨⟨lines.reverse, [report t]⟩, 1⟩

theorem exitCode_le (values : List Datum) : exitCode values ≤ 255 := by
  fun_cases exitCode values
  all_goals omega

theorem Concludes.code_le {lines : List String} {o : Outcome} {e : Ending} (concludes : Concludes lines o e) :
    e.code ≤ 255 := by
  cases concludes with
  | returned => exact exitCode_le _
  | failed => exact Nat.le_of_ble_eq_true rfl

theorem ofResult_returned (lines : List String) (s : State) (values : List Datum) :
    Ending.ofResult ⟨lines, []⟩ (.ok (s, values.map .value)) =
      ⟨⟨(closingLine? values).toList ++ lines, []⟩, exitCode values⟩ := by
  have read : (values.map Item.value).map Item.datum = values := by
    rw [List.map_map]
    exact List.map_id _
  simp only [Ending.ofResult, read, Exit.ofValues, closingLine?]
  cases exitMessage values with
  | some message => rfl
  | none => cases values <;> rfl

/-- A command comes to its end after so many steps by the outcome of its script. -/
structure EndsBy (c : Config Console) (fuel : Nat) (o : Outcome) (e : Ending) : Prop where
  concludes : Concludes (c.printed fuel) o e
  code : e.code ≤ 255
  closed : ((Config.step^[fuel] c).world.ledger 0).closed = true

theorem closed_close (w : World Console) (session : Nat) :
    ((w.close session).ledger session).closed = true := by
  rw [World.close, World.ledger_modifyLedger]
  split
  · rfl
  · next outside =>
      have beyond : ¬ session < w.ledgers.size := fun inside => outside ⟨rfl, inside⟩
      rw [World.ledger, Array.getD, dif_neg beyond]

/-- What fails is thrown once the session is closed. -/
theorem continuing_fails {o : Outcome} {t : Thrown} (thrown : o.thrown? = some t) (w : World Console)
    (state : State) (k : State → Result → Client Console) :
    Config.step^[5] ⟨w, .outcome o, [.perform (continuing state k)]⟩ =
      ⟨w.close state.session, .finished (.error t), []⟩ := by
  cases o with
  | ok => cases thrown
  | err f => cases thrown; rfl
  | threw t' => cases thrown; rfl

/-- Values are returned once the session is closed. -/
theorem concluding_returns (w : World Console) (state s : State) (values : List Datum) :
    Config.step^[5] ⟨w, .outcome (.ok (some s) (.values values)), [.perform (concluding state)]⟩ =
      ⟨w.close s.session, .finished (.ok (s, values.map .value)), []⟩ := rfl

/-- What becomes of a command that runs a script. With positions for all arguments the script is asked for with
its arguments in place; if it has an outcome, the command comes to its end, and it ends by that outcome. Without
them the command fails. -/
inductive Course (c : Config Console) (script : Script) (arguments : List String) (ending? : Nat → Option Ending) :
    Prop
  | runs {n : Nat} {w : World Console} {s : State} (few : arguments.length < 2 ^ 31)
      (asks : Config.step^[n] c = ⟨w, .perform (script.operation s), [.perform (concluding s)]⟩)
      (given : HasArguments (w.machine s.session).store (script.name :: arguments))
      (total : ∀ m o, Config.Performed (Config.step^[n] c) m o → ∃ fuel e, ending? fuel = some e)
      (ends : ∀ fuel e, ending? fuel = some e →
        ∃ m o, Config.Performed (Config.step^[n] c) m o ∧ EndsBy c fuel o e)
  | refused {t : Thrown} (many : 2 ^ 31 ≤ arguments.length) (total : ∃ fuel e, ending? fuel = some e)
      (ends : ∀ fuel e, ending? fuel = some e → EndsBy c fuel (.threw t) e)

section Course
variable {configuration : Configuration} {script : Script} {arguments : List String} {files : Directory}
  {input : String}

/-- A command has ended when the run of its script is finished. -/
theorem finished_of_ending {fuel : Nat} {e : Ending}
    (ended : Command.ending? files input fuel (.executing (start configuration script arguments)) = some e) :
    ∃ r, (Config.step^[fuel] (start configuration script arguments files)).control = .finished r ∧
      e = Ending.ofResult (Config.step^[fuel] (start configuration script arguments files)).world.memory r := by
  simp only [Command.ending?, Config.run_eq_iterate] at ended
  obtain ⟨r, result, rfl⟩ := Option.map_eq_some_iff.mp ended
  simp only [Config.result?] at result
  split at result
  · next control => exact ⟨_, control, congrArg _ (Option.some.inj result).symm⟩
  · cases result

/-- The end of a run is the end of the command. -/
theorem endsBy_of_finished {n : Nat} {o : Outcome} {r : Except Thrown (State × List Item)}
    (finished : (Config.step^[n] (start configuration script arguments files)).control = .finished r)
    (closed : ((Config.step^[n] (start configuration script arguments files)).world.ledger 0).closed = true)
    (concludes : ∀ lines, Concludes lines o (Ending.ofResult ⟨lines.reverse, []⟩ r)) {fuel : Nat} {e : Ending}
    (ended : Command.ending? files input fuel (.executing (start configuration script arguments)) = some e) :
    EndsBy (start configuration script arguments files) fuel o e := by
  obtain ⟨r', finished', rfl⟩ := finished_of_ending ended
  have same := Config.finished_unique finished finished'
  rw [same] at finished closed
  obtain rfl : r = r' := Control.finished.inj (finished.symm.trans finished')
  have concludes := concludes ((start configuration script arguments files).printed fuel)
  rw [← console_eq] at concludes
  exact ⟨concludes, concludes.code_le, closed⟩

/-- The end of a run is an end of the command. -/
theorem ending_of_finished {n : Nat} {r : Except Thrown (State × List Item)}
    (finished : (Config.step^[n] (start configuration script arguments files)).control = .finished r) :
    ∃ fuel e, Command.ending? files input fuel (.executing (start configuration script arguments)) = some e := by
  refine ⟨n, Ending.ofResult (Config.step^[n] (start configuration script arguments files)).world.memory r, ?_⟩
  simp only [Command.ending?, Config.run_eq_iterate, Config.result?, finished, Option.map_some]

/-- A failure before its last steps ends the command. -/
theorem endsBy_of_failure {n : Nat} {w : World Console} {o : Outcome} {t : Thrown} (thrown : o.thrown? = some t)
    {state : State} {k : State → Result → Client Console} (first : state.session = 0)
    (fails : Config.step^[n] (start configuration script arguments files) =
      ⟨w, .outcome o, [.perform (continuing state k)]⟩) :
    (∃ fuel e, Command.ending? files input fuel (.executing (start configuration script arguments)) = some e) ∧
      ∀ fuel e, Command.ending? files input fuel (.executing (start configuration script arguments)) = some e →
        EndsBy (start configuration script arguments files) fuel o e := by
  have last : Config.step^[5 + n] (start configuration script arguments files) =
      ⟨w.close state.session, .finished (.error t), []⟩ := by
    rw [Function.iterate_add_apply, fails, continuing_fails thrown]
  have finished := congrArg Config.control last
  refine ⟨ending_of_finished finished, fun fuel e ended => ?_⟩
  refine endsBy_of_finished finished ?_ (fun lines => .failed thrown) ended
  rw [last, first]
  exact closed_close w 0

/-- Values of the script end the command. -/
theorem endsBy_of_values {n : Nat} {w : World Console} {state s : State} {values : List Datum}
    (first : s.session = 0)
    (returns : Config.step^[n] (start configuration script arguments files) =
      ⟨w, .outcome (.ok (some s) (.values values)), [.perform (concluding state)]⟩) :
    (∃ fuel e, Command.ending? files input fuel (.executing (start configuration script arguments)) = some e) ∧
      ∀ fuel e, Command.ending? files input fuel (.executing (start configuration script arguments)) = some e →
        EndsBy (start configuration script arguments files) fuel (.ok (some s) (.values values)) e := by
  have last : Config.step^[5 + n] (start configuration script arguments files) =
      ⟨w.close s.session, .finished (.ok (s, values.map .value)), []⟩ := by
    rw [Function.iterate_add_apply, returns, concluding_returns]
  have finished := congrArg Config.control last
  refine ⟨ending_of_finished finished, fun fuel e ended => ?_⟩
  refine endsBy_of_finished finished ?_ (fun lines => ?_) ended
  · rw [last, first]
    exact closed_close w 0
  · rw [ofResult_returned]
    exact .returned

/-- However the script has ended, the command ends by its outcome. -/
theorem endsBy_of_outcome {n : Nat} {w : World Console} {state : State} {o : Outcome} (first : state.session = 0)
    (ends : o.EndsRun 0) (comes : Config.step^[n] (start configuration script arguments files) =
      ⟨w, .outcome o, [.perform (concluding state)]⟩) :
    (∃ fuel e, Command.ending? files input fuel (.executing (start configuration script arguments)) = some e) ∧
      ∀ fuel e, Command.ending? files input fuel (.executing (start configuration script arguments)) = some e →
        EndsBy (start configuration script arguments files) fuel o e := by
  rcases ends with failed | ⟨s, values, rfl, here⟩
  · obtain ⟨t, thrown⟩ := Outcome.thrown?_isSome failed
    exact endsBy_of_failure thrown first comes
  · exact endsBy_of_values here comes

theorem course (configuration : Configuration) (script : Script) (arguments : List String) (files : Directory)
    (input : String) : Course (start configuration script arguments files) script arguments
      (fun fuel => Command.ending? files input fuel (.executing (start configuration script arguments))) := by
  rcases Nat.lt_or_ge arguments.length (2 ^ 31) with few | many
  · obtain ⟨w, s, ⟨n, asks⟩, first, -, given⟩ := script_starts configuration script arguments files few
    have reachable : (Config.step^[n] (start configuration script arguments files)).Reachable :=
      (start_reachable configuration script arguments files).run (Config.run_steps _ n)
    have stack := congrArg Config.stack asks
    have underway : Underway 0 (Config.step^[n] (start configuration script arguments files)).stack
        (Config.step^[n] (start configuration script arguments files)).control
        (Config.step^[n] (start configuration script arguments files)).stack := by
      rw [asks]
      cases script with
      | file path => exact .asked (.runFile s path) first
      | input source => exact .asked (.run s source _) first
    have comes {m : Nat} {o : Outcome}
        (performed : Config.Performed (Config.step^[n] (start configuration script arguments files)) m o) :
        ∃ w, Config.step^[m + n] (start configuration script arguments files) =
          ⟨w, .outcome o, [.perform (concluding s)]⟩ := by
      have control := performed.control
      have waits := performed.stack.trans stack
      rw [← Function.iterate_add_apply] at control waits
      generalize Config.step^[m + n] (start configuration script arguments files) = d at control waits
      obtain ⟨w, _, _⟩ := d
      subst control waits
      exact ⟨w, rfl⟩
    refine .runs few asks (first ▸ given) ?_ ?_
    · intro m o performed
      obtain ⟨w, comes⟩ := comes performed
      exact (endsBy_of_outcome first (performed.endsRun reachable underway stack) comes).1
    · intro fuel e ended
      obtain ⟨r, finished, -⟩ := finished_of_ending ended
      have stays := Config.finished_stays finished (Nat.le_add_right fuel n)
      rw [Function.iterate_add_apply] at stays
      obtain ⟨m, -, o, performed, -⟩ := Config.performed_of_finished reachable underway
        (stack ▸ List.cons_ne_nil _ _) ((congrArg Config.control stays).trans finished)
      obtain ⟨w, comes⟩ := comes performed
      have ends := performed.endsRun reachable underway stack
      exact ⟨m, o, performed, (endsBy_of_outcome first ends comes).2 fuel e ended⟩
  · obtain ⟨w, t, n, refused⟩ := script_refused configuration script arguments files many
    have failed : (Outcome.threw t).thrown? = some t := rfl
    obtain ⟨total, ends⟩ := endsBy_of_failure failed rfl refused
    exact .refused many total ends

end Course

/-! ### Arguments that name a script -/

/-- The arguments that count at any position. -/
def flags : List String := ["--help", "-h", "--version", "-v"]

/-- The script that is named on the command line. -/
def Script.ofName (name input : String) : Script :=
  if name = standardInput then .input input else .file name

theorem Script.ofName_name (name input : String) : (Script.ofName name input).name = name := by
  rw [Script.ofName]
  split
  · next standard => exact standard.symm
  · rfl

theorem request_of_script {name : String} {arguments : List String}
    (unflagged : ∀ flag ∈ flags, flag ∉ name :: arguments)
    (named : name = standardInput ∨ name ≠ "" ∧ name.startsWith "-" = false) :
    Request.ofArguments (name :: arguments) = .ok (.execute name arguments) := by
  have absent (flag : String) (mem : flag ∈ flags) : (name :: arguments).contains flag = false :=
    Bool.eq_false_iff.mpr fun found => unflagged flag mem (List.contains_iff_mem.mp found)
  have some : name.isEmpty = false := by
    rcases named with rfl | ⟨nonempty, -⟩
    · rfl
    · simpa [String.isEmpty_iff] using nonempty
  have option : (name.startsWith "-" && name != standardInput) = false := by
    rcases named with rfl | ⟨-, plain⟩
    · simp
    · rw [plain, Bool.false_and]
  have help := absent "--help" (by decide)
  have h := absent "-h" (by decide)
  have version := absent "--version" (by decide)
  have v := absent "-v" (by decide)
  simp only [Request.ofArguments, help, h, version, v, some, option, Bool.or_false, Bool.false_eq_true, if_false]

theorem ending_execute {name : String} {arguments : List String} {files : Directory} {input : String}
    {configuration : Configuration} (fuel : Nat) :
    (Command.executingWith name arguments configuration).ending? files input fuel =
      Command.ending? files input fuel (.executing
        (start configuration (Script.ofName name input) arguments)) := by
  rw [Command.executingWith, Script.ofName]
  by_cases standard : name = standardInput
  · simp only [standard, if_true, beq_self_eq_true, Command.ending?]
  · simp only [standard, if_false, beq_iff_eq, Command.ending?]

/-- A command whose arguments name a script reads its configuration, and then it runs the script, or else it ends
with a complaint about the configuration. -/
theorem command_contract {name : String} {arguments : List String} {files : Directory} {input : String}
    {outcome : ReadOutcome} (unflagged : ∀ flag ∈ flags, flag ∉ name :: arguments)
    (named : name = standardInput ∨ name ≠ "" ∧ name.startsWith "-" = false)
    (read : files.read? (Configuration.pathIn ".") = some outcome) :
    match Configuration.ofOutcome (Configuration.pathIn ".") outcome with
    | .error e => ∀ fuel, (Command.ofArguments (name :: arguments)).ending? files input fuel =
        some ⟨⟨[], [report e.thrown]⟩, 1⟩
    | .ok configuration =>
        Course (start (configuration.getD {}) (Script.ofName name input) arguments files)
          (Script.ofName name input) arguments
          (fun fuel => (Command.ofArguments (name :: arguments)).ending? files input fuel) := by
  have executes : Command.ofArguments (name :: arguments) = .execute name arguments := by
    rw [Command.ofArguments, request_of_script unflagged named]
  cases found : Configuration.ofOutcome (Configuration.pathIn ".") outcome with
  | error e =>
      intro fuel
      simp only [executes, Command.execute, Command.ending?, read, Option.bind_some, found]
      exact rfl
  | ok configuration =>
      simp only [executes, Command.execute, Command.ending?, read, Option.bind_some, found, ending_execute]
      exact course _ _ _ _ input

/-- A folder in the place of the configuration is complained about; without a configuration the script is asked
for. -/
theorem command_contract_folder :
    (∀ fuel, (Command.ofArguments ["-", "a"]).ending? ⟨fun _ => some (.error .isDirectory)⟩ "" fuel =
      some ⟨⟨[], ["Invalid configuration: failed to read file (EISDIR: illegal operation on a directory, read)"]⟩,
        1⟩) ∧
    ∃ n w s, Config.step^[n] (start {} (.file "x.lua") ["a"] default) =
        ⟨w, .perform (.runFile s "x.lua"), [.perform (concluding s)]⟩ ∧
      HasArguments (w.machine s.session).store ["x.lua", "a"] := by
  constructor
  · exact @command_contract "-" ["a"] ⟨fun _ => some (.error .isDirectory)⟩ "" _ (by decide) (.inl rfl) rfl
  · have course := @command_contract "x.lua" ["a"] default "" _ (by decide) (.inr ⟨by decide, by cbv⟩) rfl
    cases course with
    | runs few asks given => exact ⟨_, _, _, asks, given⟩
    | refused many => exact absurd many (by decide)

end CommandLine

end LuaHost
