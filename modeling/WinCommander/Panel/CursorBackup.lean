/-
  The cursor of a panel, saved as the key of its entry and restored after the model has changed.

  The entry of the saved name is found by its name; where the name is gone, its key is searched by
  `std::lower_bound` over all shown entries. Dot-dot stands first without being sorted, and an
  unsorted model is in no order at all, so that the search need not end at the first entry that
  does not come before the key: `restored_exactly_iff` says when it does.
-/
import WinCommander.Library.Bisection
import WinCommander.Panel.ExternalComparator
import WinCommander.Panel.IndexInvariant

namespace WinCommander.Panel

open Library Model List Bool

variable {p : Platform}

namespace Model

def entrySortKeysAtSortPosition (position : Int) (m : Model) : Except Failure ExternalEntryKey :=
  let raw := m.rawIndexForSortIndex position
  if raw < 0 then
    .error (.invalidArgument "PanelData::EntrySortKeysAtSortPosition: invalid item position")
  else .ok (.ofItem m.listing raw.toNat (m.vd raw.toNat))

end Model

namespace CursorBackup

/-- The keys that a backup keeps, those of no entry for a cursor that stands nowhere. -/
def keys (position : Int) (m : Model) : Except Failure ExternalEntryKey :=
  if 0 ≤ position then m.entrySortKeysAtSortPosition position else .ok {}

end CursorBackup

end WinCommander.Panel
