import Mainboard.Interrupt.Command

/-!
# One interrupt controller chip

A chip latches requests, edge or level triggered line by line, and offers the one with the
highest rotated priority if it is not masked and comes before everything in service.
-/
namespace Mainboard

/-- The place of a chip in the pair. -/
inductive Role
  | master
  | slave
  deriving DecidableEq, Repr

/-- The master's line that carries the slave's output. -/
def cascadeLine : Line := 2

/-- The line reported when nothing is pending. -/
def spuriousLine : Line := 7

/-- The lines whose trigger mode can be chosen. -/
def Role.triggerMask : Role → LineSet
  | .master => 0xF8#8
  | .slave => 0xDE#8

/-- The word that a chip expects next on its data port. -/
inductive InitState
  | ready
  | vectorBase
  | cascade
  | mode
  deriving DecidableEq, Repr

namespace InitState

def toByte : InitState → UInt8
  | .ready => 0
  | .vectorBase => 1
  | .cascade => 2
  | .mode => 3

/-- The state with a number; numbers past the last one count as the last. -/
def ofByte (value : UInt8) : InitState :=
  match value.toNat with
  | 0 => .ready
  | 1 => .vectorBase
  | 2 => .cascade
  | _ => .mode

end InitState

structure Chip where
  role : Role
  /-- Levels driven last, for the detection of edges. -/
  levels : LineSet
  requests : LineSet
  mask : LineSet
  inService : LineSet
  /-- The line with the highest priority. -/
  rotation : Line
  vectorBase : UInt8
  /-- Reads of the command port show what is in service. -/
  showInService : Bool
  /-- The next read is a poll. -/
  poll : Bool
  specialMask : Bool
  initState : InitState
  autoEnd : Bool
  rotateOnAutoEnd : Bool
  specialFullyNested : Bool
  fourWords : Bool
  /-- Lines that are level triggered. -/
  levelTriggered : LineSet
  deriving DecidableEq, Repr

namespace Chip

/-- A chip after power on. -/
def new (role : Role) : Chip where
  role := role
  levels := .empty
  requests := .empty
  mask := .empty
  inService := .empty
  rotation := 0
  vectorBase := 0
  showInService := false
  poll := false
  specialMask := false
  initState := .ready
  autoEnd := false
  rotateOnAutoEnd := false
  specialFullyNested := false
  fourWords := false
  levelTriggered := .empty

/-- Drive a line. An edge-triggered request is latched by a rise of the line. -/
def setLine (c : Chip) (l : Line) (level : Bool) : Chip :=
  if c.levelTriggered.contains l then
    if level then { c with requests := c.requests.insert l, levels := c.levels.insert l }
    else { c with requests := c.requests.erase l, levels := c.levels.erase l }
  else if level then
    { c with
      requests := if c.levels.contains l then c.requests else c.requests.insert l
      levels := c.levels.insert l }
  else { c with levels := c.levels.erase l }

/-- The levels are those driven last. -/
theorem contains_levels_setLine (c : Chip) (l k : Line) (level : Bool) :
    (c.setLine l level).levels.contains k = if k = l then level else c.levels.contains k := by
  unfold setLine
  split <;> cases level <;> by_cases h : k = l <;> simp [h]

theorem contains_requests_setLine_of_ne (c : Chip) {l k : Line} (level : Bool) (h : k ≠ l) :
    (c.setLine l level).requests.contains k = c.requests.contains k := by
  unfold setLine
  split <;> cases level <;> simp [h]
  split <;> simp [h]

/-- Lines in service that hold back requests of lower priority. -/
def blocking (c : Chip) : LineSet :=
  let served := if c.specialMask then c.inService.without c.mask else c.inService
  if c.specialFullyNested ∧ c.role = .master then served.erase cascadeLine else served

/-- The line that would be acknowledged next. -/
def pending? (c : Chip) : Option Line :=
  match (c.requests.without c.mask).distance? c.rotation with
  | none => none
  | some d =>
    match c.blocking.distance? c.rotation with
    | none => some (d + c.rotation)
    | some served => if d < served then some (d + c.rotation) else none

/-- Take a line into service. Its request stays if it is level triggered. -/
def acknowledge (c : Chip) (l : Line) : Chip :=
  let c :=
    if c.autoEnd then (if c.rotateOnAutoEnd then { c with rotation := l + 1 } else c)
    else { c with inService := c.inService.insert l }
  if c.levelTriggered.contains l then c else { c with requests := c.requests.erase l }

/-- End the interrupt of a line. -/
def endLine (c : Chip) (l : Line) (rotate : Bool) : Chip :=
  let c := { c with inService := c.inService.erase l }
  if rotate then { c with rotation := l + 1 } else c

/-- The line in service with the highest priority. -/
def served? (c : Chip) : Option Line :=
  (c.inService.distance? c.rotation).map (· + c.rotation)

/-- Forget the request of a polled line and end it. -/
def drop (c : Chip) (l : Line) : Chip :=
  { c with requests := c.requests.erase l, inService := c.inService.erase l }

def vector (c : Chip) (l : Line) : UInt8 := c.vectorBase + UInt8.ofNat l.val

/-- Start the initialisation. -/
def initialise (c : Chip) (fourWords : Bool) : Chip :=
  { Chip.new c.role with initState := .vectorBase, fourWords := fourWords }

def configure (c : Chip) (poll : Bool) (showInService specialMask : Option Bool) : Chip :=
  { c with
    poll := poll || c.poll
    showInService := showInService.getD c.showInService
    specialMask := specialMask.getD c.specialMask }

/-- A word of the initialisation. A chip that is ready takes none. -/
def initWord (c : Chip) (value : UInt8) : Chip :=
  match c.initState with
  | .ready => c
  | .vectorBase => { c with vectorBase := value &&& 0xF8, initState := .cascade }
  | .cascade => { c with initState := if c.fourWords then .mode else .ready }
  | .mode =>
    { c with
      specialFullyNested := Command.bit value 4
      autoEnd := Command.bit value 1
      initState := .ready }

def setTrigger (c : Chip) (value : UInt8) : Chip :=
  { c with levelTriggered := value.toBitVec &&& c.role.triggerMask }

/-- The register that the command port shows. -/
def status (c : Chip) : UInt8 := .ofBitVec (if c.showInService then c.inService else c.requests)

end Chip
end Mainboard
