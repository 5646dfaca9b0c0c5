/-
  What a panel keeps for an entry beside its listing: the calculated size, the highlight of a
  matched filename, a custom icon and three flags.
-/
import WinCommander.Panel.Listing

namespace WinCommander.Panel

/-! ## Highlights -/

structure Range where
  offset : Nat
  length : Nat
deriving DecidableEq, Inhabited

/-- Up to eight segments, four bits for the distance from the last position and four bits for
    the length of each. -/
structure QuickSearchHighlight where
  d : BitVec 64 := 0
deriving DecidableEq, Inhabited

/-- The word so far, the end of what it encodes and how many of its eight bytes are free. -/
structure Packing where
  d : BitVec 64 := 0
  position : Nat := 0
  room : Nat := 8

namespace Packing

def put (p : Packing) (t : BitVec 64) (position room : Nat) : Packing :=
  ⟨p.d ||| t <<< ((8 - p.room) * 8), position, room⟩

/-- One range, each round of the loop taking one byte of the word. -/
def place : (room : Nat) → Packing → (offset length : Nat) → Packing
  | 0, p, _, _ => p
  | room + 1, p, offset, length =>
    if length = 0 then p
    else
      let gap := (offset + 2 ^ 64 - p.position) % 2 ^ 64
      if gap < 16 then
        if length < 16 then
          p.put (BitVec.ofNat 64 gap ||| BitVec.ofNat 64 length <<< 4) (offset + length) room
        else
          place room (p.put (BitVec.ofNat 64 gap ||| 15 <<< 4) (offset + 15) room)
            (offset + 15) (length - 15)
      else place room (p.put 15 (p.position + 15) room) offset length

end Packing

def QuickSearchHighlight.ofRanges (ranges : List Range) : QuickSearchHighlight :=
  ⟨(ranges.foldl (fun p r => Packing.place p.room p r.offset r.length) {}).d⟩

/-! ## The data of an entry -/

/-- `invalid_size`, the size of a directory that was not calculated. -/
def invalidSize : BitVec 64 := BitVec.allOnes 64

structure ItemVolatileData where
  size : BitVec 64 := invalidSize
  highlight : QuickSearchHighlight := {}
  icon : BitVec 16 := 0
  isSelected : Bool := false
  isShown : Bool := false
  isHighlighted : Bool := false
deriving DecidableEq, Inhabited

namespace ItemVolatileData

def isSizeCalculated (vd : ItemVolatileData) : Bool := vd.size ≠ invalidSize

def toggleSelected (vd : ItemVolatileData) (v : Bool) : ItemVolatileData := { vd with isSelected := v }

def toggleShown (vd : ItemVolatileData) (v : Bool) : ItemVolatileData := { vd with isShown := v }

def toggleHighlight (vd : ItemVolatileData) (v : Bool) : ItemVolatileData :=
  { vd with isHighlighted := v }

/-- The bytes that a selected entry adds to the statistics. -/
def selectedBytes (vd : ItemVolatileData) : BitVec 64 := if vd.isSizeCalculated then vd.size else 0

end ItemVolatileData

end WinCommander.Panel
