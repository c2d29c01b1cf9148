import TaggedRiscv.Pcr.Control

/-!
# The tag check unit

`TagCheckUnit` sits in the execute stage. It checks the tag of an indirect jump's register against
the rules its copy of the tag control register enables, and raises a debug trap when an operand
carries a user tag while the debug check is on.
-/

namespace TaggedRiscv

/-- A tag of four bits. -/
abbrev Tag := BitVec 4

/-- The invalid tag. -/
def invTag : Tag := 1

/-- The tag of a return address. -/
def retTag : Tag := 2

/-! The bits of the tag control register. -/

/-- Switches rule 1 on. -/
def retTagCheck : BitVec 64 := 1

/-- Switches rule 2 on. -/
def invTagCheck : BitVec 64 := 2

/-- Switches the invalid tag on results on. -/
def invTagGeneration : BitVec 64 := 4

/-- Switches the debug trap on. -/
def debugTagCheck : BitVec 64 := 8

/-- The word is tagged as a return address. -/
def hasRetTag (tag : Tag) : Bool := tag &&& retTag == retTag

/-- The word is tagged as invalid. -/
def hasInvTag (tag : Tag) : Bool := tag &&& invTag == invTag

/-- `x1`, the return address. -/
def registerIsRA (address : BitVec 5) : Bool := address == 1

/-- Rule 1 is on. -/
def rule1CheckActivated (tagCtrl : BitVec 64) : Bool := tagCtrl &&& retTagCheck == retTagCheck

/-- Rule 2 is on. -/
def rule2CheckActivated (tagCtrl : BitVec 64) : Bool := tagCtrl &&& invTagCheck == invTagCheck

/-- The debug trap is on. -/
def debugCheckActivated (tagCtrl : BitVec 64) : Bool :=
  tagCtrl &&& debugTagCheck == debugTagCheck

/-- The copy of the tag control register kept by the unit. -/
structure TagCheckUnit where
  regTagCtrl : BitVec 64
  deriving DecidableEq, Repr

/-- The inputs of the unit in one cycle, apart from the broadcast. -/
structure TagCheckIn where
  tagIn : Tag
  jalr : Bool
  jumpRegister : BitVec 5
  debugTagIn1 : Tag
  debugTagIn2 : Tag

/-- A broadcast of a new tag control value. -/
def tagCtrlUpdate (update : Option PCRUpdate) : Option (BitVec 64) :=
  updateAt update PCRs.ptagctrl

namespace TagCheckUnit

variable (u : TagCheckUnit) (i : TagCheckIn)

/-- Rule 1: the return address register must carry the return tag. -/
def rule1Invalid : Bool :=
  !hasRetTag i.tagIn && registerIsRA i.jumpRegister && rule1CheckActivated u.regTagCtrl

/-- Rule 2: any other jump register must not carry the invalid tag. -/
def rule2Invalid : Bool :=
  hasInvTag i.tagIn && !registerIsRA i.jumpRegister && rule2CheckActivated u.regTagCtrl

/-- A jump through a register breaks a rule. -/
def invalidJump : Bool := if i.jalr then u.rule1Invalid i || u.rule2Invalid i else false

/-- `trigger_debug_trap`. -/
def debugTrap : Bool :=
  debugCheckActivated u.regTagCtrl &&
    (i.debugTagIn1.getLsbD 3 || i.debugTagIn1.getLsbD 2 ||
      i.debugTagIn2.getLsbD 3 || i.debugTagIn2.getLsbD 2)

/-- The register after the clock edge; of the three assignments the last one that
applies wins. -/
def next (initTagCtrl : BitVec 64) (reset : Bool) (update : Option PCRUpdate) :
    TagCheckUnit where
  regTagCtrl :=
    if u.debugTrap i then 0
    else match tagCtrlUpdate update with
      | some d => d
      | none => if reset then initTagCtrl else u.regTagCtrl

end TagCheckUnit

end TaggedRiscv
