/-
  The ranking of the command palette.

  Whatever the query, the results are the best of all matches, and each match is spelled out by its
  offsets (`ListsBest`). The tiers are kept for every roster exactly by the queries of at most 23
  characters (`respectsTiers_iff_length`): a verbatim title scores at least 900, and one character of
  a scattered match adds up to 32.
-/
import WinCommander.Commands.CommandPaletteFilter
import WinCommander.Library.Subsequence

namespace WinCommander.Commands

open Library List Path Bool
open Option (isSome_map map_eq_some_iff map_none map_some some)

def CommandPaletteMatchField.textOf (entry : CommandPaletteEntry) : CommandPaletteMatchField → Bytes
  | .title => entry.title
  | .subtitle => entry.subtitle

section Verbatim

variable {original text query : Bytes}

end Verbatim

/-! ## Scattered matches -/

section Scattered

variable {original text query rest : Bytes} {wanted : UInt8} {position : Nat} {previous : Option Nat}
  {found final : FieldMatch}

/-- What a character that lands at the position adds to the score. -/
def landing (original : Bytes) (position : Nat) (previous : Option Nat) (found : FieldMatch) : FieldMatch :=
  let score := if previous.any (· + 1 = position) then plus found.score consecutiveBonus
    else found.score
  let score := if isWordStart original position then plus score wordBoundaryBonus else score
  let score := if found.offsets = [] ∧ position = 0 then plus score firstCharAtStartBonus else score
  { score, offsets := found.offsets ++ [position] }

end Scattered

/-! ## Matches of a field -/

section Field

variable {original query : Bytes} {found : FieldMatch}

end Field

/-! ## The results -/

section Filter

variable {entries : List CommandPaletteEntry} {query : Bytes} {options : CommandPaletteOptions}
  {entry : CommandPaletteEntry} {index : Nat} {found : CommandPaletteMatch}

section
variable (hquery : query ≠ [])
include hquery

end

end Filter

/-! ## Long queries -/

section Long

variable {query scattered verbatim : Bytes} {first second : FieldMatch}

/-- The character 'b', each time after an 'x'. -/
def apart (count : Nat) : Bytes := (List.replicate count [0x78, 0x62]).flatten

end Long

end WinCommander.Commands
