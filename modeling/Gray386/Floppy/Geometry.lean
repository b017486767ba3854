import Gray386.Machine.CInt
import Gray386.Machine.Word

/-!
# The geometry of a disk

`struct floppy_struct` says how the sectors of a disk are arranged. The driver has a table
of 32 such arrangements, and users may set one of their own. What `set_geometry` accepts is
all that the rest of the driver may rely on.
-/

namespace Gray386.Floppy

open Gray386.Machine

/-- `struct floppy_struct`. -/
structure FloppyStruct where
  size : Word
  sect : Word
  head : Word
  track : Word
  stretch : Word
  gap : Byte
  rate : Byte
  spec1 : Byte
  fmtGap : Byte
  name : Option String
  deriving DecidableEq, Repr

def fdStretch : Word := 1
def fdSwapsides : Word := 2
def fdSectbasemask : Word := 0x3fc
def fd2m : Byte := 4
def fdSizecodemask : Byte := 0x38

namespace FloppyStruct

variable (floppy : FloppyStruct)

/-- `STRETCH`, by how many places a track is shifted to the left. -/
def stretchShift : Nat := (floppy.stretch &&& fdStretch).toNat

/-- `FD_SECTBASE`, the number of the first sector. -/
def sectbase : Word := ((floppy.stretch &&& fdSectbasemask) >>> 2) ^^^ 1

/-- `FD_SIZECODE`, the sectors have 128 bytes shifted by that many places. -/
def sizecode : Nat := (((floppy.rate &&& fdSizecodemask) >>> 3).toNat + 2) % 8

/-- The rate is that of a 2M disk. -/
def is2m : Bool := floppy.rate &&& fd2m ≠ 0

/-- `PH_HEAD`, the bit that selects the side. -/
def phHead (head : Word) : Word :=
  (((floppy.stretch &&& fdSwapsides) >>> 1) ^^^ head) <<< 2

/-- The checks at the beginning of `set_geometry`, for a drive with so many tracks. -/
def sane (tracks : Byte) : Bool :=
  floppy.sect ≠ 0 && floppy.head ≠ 0 && floppy.track ≠ 0 &&
    floppy.track.toNat ≤ tracks.toNat >>> floppy.stretchShift &&
    floppy.stretch &&& ~~~(fdStretch ||| fdSwapsides ||| fdSectbasemask) = 0

end FloppyStruct

section Table

variable (size sect head track stretch : Word) (gap rate spec1 fmtGap : Byte) (name : String)

/-- An entry of the table. -/
def entry : FloppyStruct :=
  ⟨size, sect, head, track, stretch, gap, rate, spec1, fmtGap, some name⟩

end Table

/-- `floppy_type`. -/
def floppyTypes : Vector FloppyStruct 32 := #v[
  ⟨0, 0, 0, 0, 0, 0x00, 0x00, 0x00, 0x00, none⟩,
  entry 720 9 2 40 0 0x2a 0x02 0xdf 0x50 "d360",
  entry 2400 15 2 80 0 0x1b 0x00 0xdf 0x54 "h1200",
  entry 720 9 1 80 0 0x2a 0x02 0xdf 0x50 "D360",
  entry 1440 9 2 80 0 0x2a 0x02 0xdf 0x50 "D720",
  entry 720 9 2 40 1 0x23 0x01 0xdf 0x50 "h360",
  entry 1440 9 2 80 0 0x23 0x01 0xdf 0x50 "h720",
  entry 2880 18 2 80 0 0x1b 0x00 0xcf 0x6c "H1440",
  entry 5760 36 2 80 0 0x1b 0x43 0xaf 0x54 "E2880",
  entry 6240 39 2 80 0 0x1b 0x43 0xaf 0x28 "E3120",
  entry 2880 18 2 80 0 0x25 0x00 0xdf 0x02 "h1440",
  entry 3360 21 2 80 0 0x1c 0x00 0xcf 0x0c "H1680",
  entry 820 10 2 41 1 0x25 0x01 0xdf 0x2e "h410",
  entry 1640 10 2 82 0 0x25 0x02 0xdf 0x2e "H820",
  entry 2952 18 2 82 0 0x25 0x00 0xdf 0x02 "h1476",
  entry 3444 21 2 82 0 0x25 0x00 0xdf 0x0c "H1722",
  entry 840 10 2 42 1 0x25 0x01 0xdf 0x2e "h420",
  entry 1660 10 2 83 0 0x25 0x02 0xdf 0x2e "H830",
  entry 2988 18 2 83 0 0x25 0x00 0xdf 0x02 "h1494",
  entry 3486 21 2 83 0 0x25 0x00 0xdf 0x0c "H1743",
  entry 1760 11 2 80 0 0x1c 0x09 0xcf 0x00 "h880",
  entry 2080 13 2 80 0 0x1c 0x01 0xcf 0x00 "D1040",
  entry 2240 14 2 80 0 0x1c 0x19 0xcf 0x00 "D1120",
  entry 3200 20 2 80 0 0x1c 0x20 0xcf 0x2c "h1600",
  entry 3520 22 2 80 0 0x1c 0x08 0xcf 0x2e "H1760",
  entry 3840 24 2 80 0 0x1c 0x20 0xcf 0x00 "H1920",
  entry 6400 40 2 80 0 0x25 0x5b 0xcf 0x00 "E3200",
  entry 7040 44 2 80 0 0x25 0x5b 0xcf 0x00 "E3520",
  entry 7680 48 2 80 0 0x25 0x63 0xcf 0x00 "E3840",
  entry 3680 23 2 80 0 0x1c 0x10 0xcf 0x00 "H1840",
  entry 1600 10 2 80 0 0x25 0x02 0xdf 0x2e "D800",
  entry 3200 20 2 80 0 0x1c 0x00 0xcf 0x2c "H1600"]

end Gray386.Floppy
