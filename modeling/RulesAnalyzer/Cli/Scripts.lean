import RulesAnalyzer.Cli.Commands

/-!
# Scripts and typed lines

A script is read without its comments and carriage returns, and knows no `quit`, `?` or `cls`.  Of
its other lines it makes the same commands as if they were typed, but what one of them raises ends
the script, where the user could go on.

## Main definitions

* `executed` — the texts of a script that are executed.
* `Plain` — a line that means the same in a script as when it is typed.
* `Quiet` — lines that are typed one after another, none of which raises.

## Main results

* `forM_scriptLine` — a script executes its texts one after another.
* `script_exact` — **a script does what typing its texts does, up to the first one that raises.**
-/

namespace RulesAnalyzer.Cli

open Effect

/-- A line without the carriage return at its end. -/
def withoutReturn (line : List Char) : List Char :=
  if line.getLast? = some '\r' then line.dropLast else line

/-- The texts of a script that are executed. -/
def executed (lines : List (List Char)) : List (List Char) :=
  (lines.filter fun line => line.head? ≠ some '#').map withoutReturn

/-- Executes a text. -/
def interpret (execute : CliArgs → Program Shell CliError PUnit) (line : List Char) :
    Program Shell CliError PUnit := do
  match ← MonadExcept.ofExcept (lineArgs line) with
  | some args => execute args
  | none => pure ⟨⟩

/-- **A script executes its texts**, one after another. -/
theorem forM_scriptLine (execute : CliArgs → Program Shell CliError PUnit)
    (lines : List (List Char)) (s : Shell) :
    exec (lines.forM (scriptLine execute)) s =
      exec ((executed lines).forM (interpret execute)) s := by
  induction lines generalizing s with
  | nil => rfl
  | cons line lines ih =>
    rw [List.forM]
    by_cases hcomment : line.head? = some '#'
    · have hskip : executed (line :: lines) = executed lines := by
        rw [executed, List.filter_cons_of_neg (by simpa using hcomment), executed]
      have hpure : exec (scriptLine execute line) s = (.ok ⟨⟩, s) := by
        rw [scriptLine, if_pos hcomment, exec_pure]
      rw [hskip, exec_bind_ok hpure, ih]
    · have hkeep : executed (line :: lines) = withoutReturn line :: executed lines := by
        rw [executed, List.filter_cons_of_pos (by simpa using hcomment), List.map_cons, executed]
      have hline : scriptLine execute line = interpret execute (withoutReturn line) := by
        rw [scriptLine, if_neg hcomment]
        rfl
      rw [hkeep, hline, List.forM, exec_bind, exec_bind]
      rcases exec (interpret execute (withoutReturn line)) s with ⟨e | result, s'⟩
      · rfl
      · exact ih s'

/-- The command of the line is none of those that only typed lines know. -/
def Plain (line : List Char) : Prop :=
  ∀ args, lineArgs line = .ok (some args) →
    iequal (args.args.headD "") "quit" = false ∧ args.args.headD "" ≠ "?" ∧
      args.args.headD "" ≠ "cls"

section Scripts

variable (config : CliConfig) (outside : Outside) (depth : ℕ)

/-- A plain line that is typed. -/
theorem exec_typed {line : List Char} (h : Plain line) (s : Shell) :
    exec (typed config outside depth line) s =
      ((exec (interpret (execute config outside depth) line) s).1.map fun _ => true,
        (exec (interpret (execute config outside depth) line) s).2) := by
  rw [typed, interpret, exec_bind, exec_bind, exec_ofExcept]
  rcases hargs : lineArgs line with e | args
  · rfl
  rcases args with _ | args
  · rfl
  obtain ⟨hquit, hhelp, hcls⟩ := h args hargs
  simp only [hquit, hhelp, hcls, or_self, if_false, Bool.false_eq_true]
  rw [exec_bind]
  rcases exec (execute config outside depth args) s with ⟨e | result, s'⟩
  · rfl
  · rfl

/-- The lines are typed one after another: none of them raises, and none ends the session. -/
def Quiet (s : Shell) : List (List Char) → Prop
  | [] => True
  | line :: lines =>
    ∃ s', exec (typed config outside depth line) s = (.ok true, s') ∧ Quiet s' lines

/-- **A script does what typing its texts does**, up to the first one that raises.  When the script
returns, no typed text raises; otherwise it ends at the first text that raises when it is typed, in
the state in which the typed text raises the same. -/
theorem script_exact (lines : List (List Char)) (hplain : ∀ line ∈ executed lines, Plain line)
    (s : Shell) :
    (∀ s', exec (lines.forM (scriptLine (execute config outside depth))) s = (.ok ⟨⟩, s') →
      Quiet config outside depth s (executed lines) ∧
        s' = run config outside depth s (executed lines)) ∧
    ∀ e s', exec (lines.forM (scriptLine (execute config outside depth))) s = (.error e, s') →
      ∃ before line after, executed lines = before ++ line :: after ∧
        Quiet config outside depth s before ∧
        exec (typed config outside depth line) (run config outside depth s before) =
          (.error e, s') := by
  simp only [forM_scriptLine]
  generalize executed lines = texts at hplain
  induction texts generalizing s with
  | nil =>
    refine ⟨fun s' hrun => ?_, fun e s' hrun => ?_⟩
    · exact ⟨trivial, (congrArg Prod.snd hrun).symm⟩
    · cases hrun
  | cons line texts ih =>
    rw [List.forall_mem_cons] at hplain
    have htyped := exec_typed config outside depth hplain.1 s
    rw [List.forM, exec_bind]
    rcases hfirst : exec (interpret (execute config outside depth) line) s with ⟨e₁ | result, s₁⟩
    -- the first text raises: nothing is typed before it
    · rw [hfirst] at htyped
      refine ⟨fun s' hrun => ?_, fun e s' hrun => ?_⟩
      · cases hrun
      · cases hrun
        exact ⟨[], line, texts, rfl, trivial, htyped⟩
    -- the first text returns: the others are typed in the state that it leaves
    · rw [hfirst] at htyped
      have hnext (texts : List (List Char)) : run config outside depth s (line :: texts) =
          run config outside depth s₁ texts := by
        rw [run, htyped]
        rfl
      obtain ⟨hok, herror⟩ := ih s₁ hplain.2
      refine ⟨fun s' hrun => ?_, fun e s' hrun => ?_⟩
      · rw [hnext]
        obtain ⟨hquiet, hstate⟩ := hok s' hrun
        exact ⟨⟨s₁, htyped, hquiet⟩, hstate⟩
      · obtain ⟨before, line', after, htexts, hquiet, hraise⟩ := herror e s' hrun
        refine ⟨line :: before, line', after, by rw [htexts]; rfl, ⟨s₁, htyped, hquiet⟩, ?_⟩
        rw [hnext]
        exact hraise

end Scripts

/-- Nothing is outside of the program. -/
def nothingOutside : Outside := fun _ _ =>
  ⟨fun _ => .missing, fun _ => none, fun _ => none, fun _ _ => ([], none), fun _ => false,
    fun _ _ _ => .ok ⟨⟩⟩

/-- A script that creates a firewall twice: the line after the second one is not executed. -/
def createTwice : List (List Char) :=
  ["# a firewall".toList, "fw create edge\r".toList, "fw create edge".toList,
    "fw create later".toList]

theorem script_exact_create : let config : CliConfig := ⟨.dotted, ⟨',', false⟩⟩
    let s := Shell.initial config ""
    ∃ e s', exec (createTwice.forM (scriptLine (execute config nothingOutside 1))) s =
        (.error e, s') ∧
      ∃ before line after, executed createTwice = before ++ line :: after ∧
        Quiet config nothingOutside 1 s before ∧
        exec (typed config nothingOutside 1 line) (run config nothingOutside 1 s before) =
          (.error e, s') := by
  intro config s
  have htexts : executed createTwice =
      ["fw create edge".toList, "fw create edge".toList, "fw create later".toList] := by decide
  have hedge : Plain "fw create edge".toList := by
    intro args hargs
    have htokens : lineArgs "fw create edge".toList =
        .ok (some { args := ["fw", "create", "edge"] }) := rfl
    rw [htokens] at hargs
    cases hargs
    decide
  have hlater : Plain "fw create later".toList := by
    intro args hargs
    have htokens : lineArgs "fw create later".toList =
        .ok (some { args := ["fw", "create", "later"] }) := rfl
    rw [htokens] at hargs
    cases hargs
    decide
  have hplain : ∀ line ∈ executed createTwice, Plain line := by
    rw [htexts]
    simp only [List.forall_mem_cons]
    exact ⟨hedge, hedge, hlater, fun _ h => absurd h List.not_mem_nil⟩
  have hraises : ∃ e s', exec (createTwice.forM (scriptLine (execute config nothingOutside 1))) s =
      (.error e, s') := ⟨_, _, rfl⟩
  obtain ⟨e, s', hraises⟩ := hraises
  exact ⟨e, s', hraises, (script_exact config nothingOutside 1 createTwice hplain s).2 e s' hraises⟩

end RulesAnalyzer.Cli
