/-
  `MarkDifferences`: a comparison on the two panes, as what would travel to the other side.

  With it, what `CompareFolders` says of two listings as a whole (`ComparesSides`): each name once,
  the same with the sides exchanged, and times that differ by more than the tolerance.
-/
import WinCommander.Compare.FolderSyncPlan

namespace WinCommander.Compare

open Library List FolderCompareEntry

/-! ## Marking -/

end WinCommander.Compare
