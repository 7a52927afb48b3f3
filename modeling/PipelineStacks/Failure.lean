/-!
# Failures

An operation of the outside world fails with a chain of causes: what was being done, then why it
could not be done, down to the root.  The chain is shown in one line, outermost cause first.
-/

namespace PipelineStacks

/-- Why an operation failed: the outermost context first, the root cause last. -/
structure Failure where
  outermost : String
  causes : List String
deriving DecidableEq, Repr, Inhabited

namespace Failure

/-- A failure with a single cause. -/
def root (cause : String) : Failure :=
  ⟨cause, []⟩

/-- The failure seen from what was being done. -/
def inContext (f : Failure) (context : String) : Failure :=
  ⟨context, f.outermost :: f.causes⟩

/-- The whole chain, from the outermost context to the root cause. -/
def chain (f : Failure) : List String :=
  f.outermost :: f.causes

/-- The whole chain in one line. -/
def message (f : Failure) : String :=
  String.intercalate ": " f.chain

end Failure

end PipelineStacks
