import Runbook.Document.Source
import Runbook.Tags.Interpret
import Runbook.Task.Grammar

set_option autoImplicit false

/-! # Workflow files

A workflow is a document in a file. Loading one reads the document, interprets its tags, and then
finds the jobs in it. Nothing of it runs before all questions are answered. -/

namespace Runbook

namespace Path

/-- A path with the home directory in place of a tilde in front, or of a tilde and the name of a
    user. -/
def expandHome (p : Path) : Action Path := do
  match p.root, p.parts with
  | .working, first :: rest =>
    match first.toList with
    | '~' :: user =>
      if !noNull (String.ofList user) then Effect.failWith .nullInPath
      match (← Effect.setting).home (String.ofList user) with
      | some home =>
        let h := ofText home
        return { h with parts := h.parts ++ rest }
      | none =>
        Effect.failWith (.reported .runtime (some "Could not determine home directory."))
    | _ => return p
  | _, _ => return p

end Path

namespace Workflow

/-- The endings of the names of workflow files. -/
def suffixes : List String := [".yml", ".yaml"]

/-- The jobs of the workflow in a file. -/
def load (path : Path) : Action (List Job) := do
  let path ← path.expandHome
  let document ← path.document
  let resolved ← document.resolveAlone.because Failure.isWorkflow (.resolveFile path.toText)
  let defaults := (← Effect.setting).taskDefaults
  (Effect.ofExcept (resolved.jobs defaults)).because Failure.isWorkflow (.parseFile path.toText)

end Workflow
end Runbook
