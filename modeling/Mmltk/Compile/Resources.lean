namespace Mmltk.Compile

/-! The classes of compile work and the windows of its workspaces. -/

inductive CompileWorkClass where
  | acquisition
  | extraction
  | annotations
  | pixels
  | gather
  | output
  | count
  deriving DecidableEq, Repr

inductive CompileWorkspaceWindow where
  | task
  | sharedSource
  | compaction
  deriving DecidableEq, Repr

end Mmltk.Compile
