/-
  `FilterCommandPalette`: the rows of the command palette that match a query, the best first.

  A score is an `int`. It grows with every character that lands well, so the tiers of the ranking
  only keep apart for queries that are short enough (`CommandPaletteTiers`).
-/
import WinCommander.Library.Path

namespace WinCommander.Commands

open Library

structure CommandPaletteEntry where
  title : Bytes := []
  subtitle : Bytes := []
  enabled : Bool := true
deriving DecidableEq

inductive CommandPaletteMatchField where
  | title | subtitle
deriving DecidableEq

def consecutiveBonus : Int := 12
def wordBoundaryBonus : Int := 20
def firstCharAtStartBonus : Int := 60
def folded (text : Bytes) : Bytes := Path.fold text

/-- One of " \t.-_/:()". -/
def isSeparator (character : UInt8) : Bool :=
  [0x20, 0x09, 0x2E, 0x2D, 0x5F, 0x2F, 0x3A, 0x28, 0x29].contains character

/-- The start, what follows a separator, and the hump of a camelCase word. -/
def isWordStart (original : Bytes) (position : Nat) : Bool :=
  if position = 0 then true
  else if position > original.length then false
  else
    let previous := original.getD (position - 1) 0
    if isSeparator previous then true
    else
      let current := original.getD position 0
      0x41 ≤ current && current ≤ 0x5A && 0x61 ≤ previous && previous ≤ 0x7A

structure FieldMatch where
  score : Int := 0
  offsets : List Nat := []
deriving DecidableEq

/-- An `int` that is added to. -/
def plus (score bonus : Int) : Int := (score + bonus).bmod (2 ^ 32)

/-- The positions that `find` goes through. -/
def occurrences (text query : Bytes) : List Nat :=
  (List.range (text.length + 1)).filter fun position => query.isPrefixOf (text.drop position)

end WinCommander.Commands
