import LabelPress.Files.Basic

/-!
# Traces

Files that keep a list of what is done with them. They do what the files behind them do, and
answer as those answer.
-/

namespace LabelPress

/-- One operation on a file. -/
inductive Access where
  | read (path : String)
  | write (path : String) (picture : Picture)

/-- Files that note every operation, in order, before it is done. -/
def Files.traced {m : Type → Type} [Monad m] (files : Files m) :
    Files (StateT (List Access) m) where
  read path := do
    modify (· ++ [.read path])
    files.read path
  write path picture := do
    modify (· ++ [.write path picture])
    files.write path picture

end LabelPress
