import CellScript.Proofs.Fuel
import CellScript.Proofs.Grammar

namespace CellScript

/-!
# Severity

Fatal faults come from the reader alone.  It refuses a text before anything of it
is evaluated, so a fatal fault leaves the machine as it was; what evaluation itself
can raise is recoverable.
-/

/-! ## Faults of the text and faults of the run -/

namespace Source

open Nesting

/--
Source text has an even number of quotation marks, and its brackets outside them
are balanced.  A closing bracket may be of another kind than the opening one.
-/
structure WellFormed (source : String) : Prop where
  quoted : source.toList.count '"' % 2 = 0
  level : Level Placed.weight (brackets source)
  balanced : depth Placed.weight (brackets source) = 0

end Source

namespace Fault

/-- Faults that a run raises are recoverable. -/
theorem severity_of_isOfRun
    {fault : Fault}
    (ofRun : fault.isOfRun = true) :
    fault.severity = .recoverable := by
  cases fault with
  | undefinedVariable | invalidAssignmentTarget | invalidParameter
  | unrecognizedExpression | tooManyIterations | outputFailed => rfl
  | malformedSource | structuralMismatch | invalidConfig | hostTaskFailed => cases ofRun

end Fault

/-! ## The reader -/

namespace Node

variable {source : String}

/-- A well-formed source has a tree. -/
theorem ofSource_of_wellFormed
    (wellFormed : Source.WellFormed source) :
    ∃ members, ofSource source = .ok members :=
  ofSource_of_balanced wellFormed.quoted wellFormed.level wellFormed.balanced

/-- What the reader has to say against a text is fatal. -/
theorem ofSource_of_not_wellFormed
    (malformed : ¬ Source.WellFormed source) :
    ∃ fault, ofSource source = .error fault ∧ fault.severity = .fatal := by
  rcases Nat.mod_two_eq_zero_or_one (source.toList.count '"') with even | odd
  · by_cases level : Nesting.Level Placed.weight (Source.brackets source)
    · have unclosed : 0 < Nesting.depth Placed.weight (Source.brackets source) := by
        have nonneg := level.depth_nonneg
        have unbalanced : Nesting.depth Placed.weight (Source.brackets source) ≠ 0 :=
          fun balanced => malformed ⟨even, level, balanced⟩
        omega
      obtain ⟨_, _, _, _, _, refused⟩ := ofSource_of_unclosed even level unclosed
      exact ⟨_, refused, rfl⟩
    · obtain ⟨_, _, _, _, _, _, refused⟩ := ofSource_of_stray even level
      exact ⟨_, refused, rfl⟩
  · obtain ⟨_, _, refused⟩ := ofSource_of_odd odd
    exact ⟨_, refused, rfl⟩

end Node

/-! ## Evaluation -/

/-- If a computation fails, then with a fault of the run. -/
def faultsOfRun : Contract where
  invariant _ := True
  relates _ exit _ := ∀ fault, exit = some (.failing fault) → fault.isOfRun = true

/-- All nodes may be evaluated: no step raises a fault of the text. -/
theorem faultsOfRun.lawful : faultsOfRun.Lawful fun _ => True where
  stays _ := nofun
  joins _ later := later
  fails := by
    rintro _ fault ofRun _ _ ⟨⟩
    exact ofRun
  returns _ _ := nofun
  takes _ := nofun
  allocates _ _ := ⟨trivial, nofun⟩
  allocatesFunction _ _ := ⟨trivial, nofun⟩
  assigns _ _ := ⟨trivial, nofun⟩
  splices _ _ := ⟨trivial, nofun⟩
  declares _ := ⟨trivial, nofun⟩
  prints _ _ := by
    refine Action.printLine_meetsAt ⟨trivial, nofun⟩ ⟨trivial, ?_⟩
    rintro _ ⟨⟩
    rfl
  pushes _ := trivial
  pops _ accepted := ⟨trivial, accepted.relates⟩
  goodMembers _ _ _ _ := trivial
  goodOperands _ _ _ _ := trivial
  goodBody _ _ := trivial

namespace Program

variable {limits : Limits} {fuel : Nat} {source : String} {machine after : Machine}

/-- A text that the reader refuses leaves the machine as it is, whatever the fuel. -/
theorem run_of_error
    {fault : Fault}
    (refused : Node.ofSource source = .error fault) :
    run limits fuel source machine = .left (.failing fault) machine := by
  rw [run, refused]
  rfl

/-- A text that the reader takes fails, if it does, with a fault of the run. -/
theorem isOfRun_of_run
    {exit : Exit}
    (wellFormed : Source.WellFormed source)
    (leaves : run limits fuel source machine = .left exit after) :
    ∃ fault, exit = .failing fault ∧ fault.isOfRun = true := by
  obtain ⟨members, read⟩ := Node.ofSource_of_wellFormed wellFormed
  have leaves : execute limits fuel members machine = .left exit after := by
    rw [← leaves, run, read]
  have kept : (execute limits fuel members machine).Meets faultsOfRun machine :=
    faultsOfRun.lawful.execute limits fuel (fun _ _ => trivial) machine trivial
  obtain ⟨fault, rfl⟩ := fault_of_execute leaves
  rw [leaves] at kept
  exact ⟨fault, rfl, kept.relates fault rfl⟩

/--
A run ends in a fatal fault exactly if the text is not well-formed, and then it has
changed neither cells nor frames and printed nothing, and needs no fuel for it.  A
run of a well-formed text is left early only by a fault of evaluation, which is
recoverable.
-/
theorem fatal_iff_malformed
    (limits : Limits)
    (source : String)
    (machine : Machine) :
    (∀ fuel,
      (∃ fault after,
        run limits fuel source machine = .left (.failing fault) after ∧
          fault.severity = .fatal) ↔
      ¬ Source.WellFormed source) ∧
    (¬ Source.WellFormed source →
      ∃ fault,
        fault.severity = .fatal ∧
          ∀ fuel, run limits fuel source machine = .left (.failing fault) machine) ∧
    (Source.WellFormed source →
      ∀ fuel exit after,
        run limits fuel source machine = .left exit after →
        ∃ fault,
          exit = .failing fault ∧ fault.isOfRun = true ∧ fault.severity = .recoverable) := by
  refine ⟨fun fuel => ⟨?_, ?_⟩, ?_, ?_⟩
  · rintro ⟨fault, after, leaves, fatal⟩ wellFormed
    obtain ⟨_, ⟨⟩, ofRun⟩ := isOfRun_of_run wellFormed leaves
    rw [Fault.severity_of_isOfRun ofRun] at fatal
    cases fatal
  · intro malformed
    obtain ⟨fault, refused, fatal⟩ := Node.ofSource_of_not_wellFormed malformed
    exact ⟨fault, machine, run_of_error refused, fatal⟩
  · intro malformed
    obtain ⟨fault, refused, fatal⟩ := Node.ofSource_of_not_wellFormed malformed
    exact ⟨fault, fatal, fun _ => run_of_error refused⟩
  · intro wellFormed fuel exit after leaves
    obtain ⟨fault, rfl, ofRun⟩ := isOfRun_of_run wellFormed leaves
    exact ⟨fault, rfl, ofRun, Fault.severity_of_isOfRun ofRun⟩

end Program

end CellScript
