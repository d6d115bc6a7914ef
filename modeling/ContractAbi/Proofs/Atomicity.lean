import ContractAbi.CommandLine.Run
import ContractAbi.Proofs.Agreement

/-!
# Runs that fail

Routines are injected when nothing but a file can still go wrong. A run that stops at a missing
declaration or at an unknown type therefore leaves the code and the last output as they were, and a
command that reports a fault neither writes nor prints.
-/

namespace ContractAbi

namespace Transformer

variable {t : Transformer} {code : Codebase} {program : Option Program}

/-- Only a name that is no text stops a run after its routines have been injected. -/
theorem run_keeps_of_error {fault : Fault} (failed : (t.run code program).2.2 = .error fault)
    (early : fault ≠ .notText) :
    (t.run code program).2.1.sources = code.sources ∧ (t.run code program).1.last = t.last := by
  have sources := code.survey_sources program
  cases surveyed : (code.survey program).2 with
  | error e =>
    rw [run_eq_of_survey_error surveyed]
    exact ⟨sources, rfl⟩
  | ok c =>
    cases built : c.build with
    | error e =>
      rw [run_eq_of_build_error surveyed built]
      exact ⟨sources, rfl⟩
    | ok result =>
      obtain ⟨c', unit, classes⟩ := result
      obtain ⟨s, output, stages, rfl, rfl, rfl⟩ := stages_of_build_ok (t := t) surveyed built
      rw [stages.ran, ← failure?_eq_some, failure?_map, failure?_eq_some] at failed
      exact absurd (t.settings.notText_of_files _ _ failed) early

end Transformer

namespace CommandLine

/-! ### Commands -/

theorem process_keeps_of_fault {o : Options} {sources : List Dump.Source} {d : Directory}
    (failed : (process o sources d).1.exit = .ok 1) :
    (process o sources d).2 = d ∧ (process o sources d).1.stdout = "" := by
  unfold process at failed ⊢
  rcases ran : ({ settings := o.settings } : Transformer).run (.ofDump sources) none with
    ⟨t, code, outcome⟩
  rw [ran] at failed
  cases outcome with
  | error fault =>
    refine ⟨rfl, ?_⟩
    cases fault <;> rfl
  | ok result =>
    obtain ⟨output, files⟩ := result
    dsimp only at failed
    split at failed
    · cases failed
    · split at failed <;> cases failed

theorem dumpFailure_stdout (path : Text) (fault : DumpFault) :
    (dumpFailure path fault).stdout = "" := by
  unfold dumpFailure
  split <;> rfl

/-- A command that exits with 1 has changed no file and printed nothing. -/
theorem run_keeps_of_fault {words : List Text} {d : Directory}
    (failed : (run words d).1.exit = .ok 1) : (run words d).2 = d ∧ (run words d).1.stdout = "" := by
  unfold run at failed ⊢
  cases parsed : parse words with
  | error fault => exact ⟨rfl, rfl⟩
  | ok o =>
    rw [parsed] at failed
    dsimp only at failed ⊢
    by_cases help : o.wantsHelp = true
    · rw [if_pos help] at failed
      cases failed
    rw [if_neg help] at failed ⊢
    by_cases undirected : (!o.hasDirectory) = true
    · rw [if_pos undirected] at failed
      cases failed
    rw [if_neg undirected] at failed ⊢
    cases loaded : loadFile d (o.input.getD "") with
    | error fault => exact ⟨rfl, dumpFailure_stdout _ fault⟩
    | ok sources =>
      rw [loaded] at failed
      exact process_keeps_of_fault failed

end CommandLine

namespace Transformer

/-- A run that stops at a missing declaration or at an unknown type leaves every class and the last
output as they were, whatever the transformer has done before. A command that exits with 1 leaves
every file as it was, and its standard output empty. -/
theorem failed_run_leaves_no_trace :
    (∀ (t : Transformer) (code : Codebase) (program : Option Program) (fault : Fault),
      (t.run code program).2.2 = .error fault → fault ≠ .notText →
        (t.run code program).2.1.sources = code.sources ∧
          (t.run code program).1.last = t.last) ∧
    ∀ (words : List Text) (d : CommandLine.Directory),
      (CommandLine.run words d).1.exit = .ok 1 →
        (CommandLine.run words d).2 = d ∧ (CommandLine.run words d).1.stdout = "" :=
  ⟨fun _ _ _ _ => run_keeps_of_error, fun _ _ => CommandLine.run_keeps_of_fault⟩

/-- A folder with a dump in which a return value has no known type. -/
def shopFolder : CommandLine.Directory where
  files := .ofPairs [(["shop.json"],
    "\x7b\"sources\":[\x7b\"path\":\"shop.ts\",\"classes\":[\x7b\"name\":\"Shop\",\"members\":[" ++
    "\x7b\"kind\":\"method\",\"name\":\"sell\",\"decorators\":[" ++
    "\x7b\"name\":\"returns\",\"args\":[\"coins\"]\x7d]\x7d]\x7d]\x7d]\x7d")]

/-- The output of a good run outlasts a bad one. -/
theorem failed_run_of_misspelled : ∃ output,
    (({} : Transformer).run token none).1.last = some output ∧
    ((({} : Transformer).run token none).1.run misspelled none).2.2 =
      .error (.unresolvedType .method "Vault" "payOut" "money") ∧
    ((({} : Transformer).run token none).1.run misspelled none).2.1.sources = misspelled.sources ∧
    ((({} : Transformer).run token none).1.run misspelled none).1.last = some output ∧
    (CommandLine.run ["shop.json"] shopFolder).1.exit = .ok 1 ∧
    (CommandLine.run ["shop.json"] shopFolder).2 = shopFolder ∧
    (CommandLine.run ["shop.json"] shopFolder).1.stdout = "" := by
  obtain ⟨output, files, ran, -⟩ := run_token
  obtain ⟨c, s, stages⟩ := run_stages ran
  have kept : (({} : Transformer).run token none).1.last = some output := by rw [stages.ran]
  have unresolved : misspelled.catalog.fault? =
      some (.unresolvedType .method "Vault" "payOut" "money") := by decide +kernel
  have failed := failure?_eq_some.mp
    ((failure?_run_none (({} : Transformer).run token none).1 (by decide)).trans unresolved)
  have exit : (CommandLine.run ["shop.json"] shopFolder).1.exit = .ok 1 := by decide +kernel
  obtain ⟨runs, commands⟩ := failed_run_leaves_no_trace
  obtain ⟨sources, last⟩ := runs _ misspelled none _ failed nofun
  exact ⟨output, kept, failed, sources, last.trans kept, exit, commands _ _ exit⟩

end Transformer

end ContractAbi
