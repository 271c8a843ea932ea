import Narrowing.Code

/-!
# Program points and control flow

Every code of a block tree has an address: the offsets of the loops around it, from the outside in, and its offset in
the innermost block.  `Flow` lists the points of a block in address order, each loop right before its body, and says
where control goes from each.  Addresses at which no code stands can be asked about too.
-/

namespace Narrowing

/-- A place in a block tree. -/
structure Address where
  /-- The offsets of the enclosing loops, outermost first. -/
  loops : List Nat
  /-- The offset in the innermost block. -/
  offset : Int
  deriving DecidableEq, Repr, Inhabited

namespace Address

/-- The following place in the same block. -/
def step (a : Address) : Address := ⟨a.loops, a.offset + 1⟩

/-- The loop whose body the place is in. -/
def owner? (a : Address) : Option Address :=
  a.loops.getLast?.map fun offset => ⟨a.loops.dropLast, (offset : Nat)⟩

/-- The offsets from the outside in, with points between them. -/
def path (a : Address) : String :=
  ".".intercalate (a.loops.map toString ++ [toString a.offset])

end Address

/-- A code and where it stands. -/
structure Point where
  address : Address
  code : Code
  deriving Repr, Inhabited

mutual

/-- The points of the body of a code. -/
def Code.innerPoints (path : List Nat) : Code → List Point
  | .loop body => blockPoints path 0 body
  | _ => []

/-- The points of a sequence of codes that stands within the given loops, from the given offset on. -/
def blockPoints (loops : List Nat) (offset : Nat) : List Code → List Point
  | [] => []
  | code :: rest =>
    ⟨⟨loops, offset⟩, code⟩ :: (code.innerPoints (loops ++ [offset]) ++ blockPoints loops (offset + 1) rest)

end

/-- The control flow of a block. -/
structure Flow where
  /-- Every program point, in address order. -/
  points : List Point
  deriving Repr, Inhabited

namespace Flow

/-- The control flow of a block, or of none. -/
def ofBlock (b : Option Block) : Flow := ⟨blockPoints [] 0 (b.getD [])⟩

/-! ### Points -/

/-- The code at an address. -/
def codeAt? (g : Flow) (a : Address) : Option Code :=
  (g.points.find? (·.address == a)).map Point.code

/-- A code stands at the address. -/
def isValid (g : Flow) (a : Address) : Bool := (g.codeAt? a).isSome

/-- The code at an address where one stands. -/
def codeAt (g : Flow) (a : Address) : Except Fault Code :=
  match g.codeAt? a with
  | some code => .ok code
  | none => .error (.address a.offset)

/-- The position of an address in address order. -/
def order? (g : Flow) (a : Address) : Option Nat := g.points.findIdx? (·.address == a)

/-- The first point. -/
def entry? (g : Flow) : Option Address := g.points.head?.map Point.address

/-! ### Where control goes -/

/-- The place control falls through to.  Behind the last code of a body it is the loop again; behind the last code of
all there is none. -/
def next? (g : Flow) (a : Address) : Option Address :=
  if g.isValid a.step then some a.step else a.owner?

/-- The first point of the body of the loop at an address. -/
def enter? (g : Flow) (a : Address) : Except Fault (Option Address) := do
  match ← g.codeAt a with
  | .loop body => return if body.isEmpty then none else some ⟨a.loops ++ [a.offset.toNat], 0⟩
  | .bareLoop => return none
  | code => throw (.notLoop code.kindName)

/-- The first point that carries a label. -/
def label? (g : Flow) (name : String) : Option Address :=
  (g.points.find? (·.code.labelName? == some name)).map Point.address

/-- The labels of a block with their addresses, each once. -/
def labels (g : Flow) : List (String × Address) :=
  ((g.points.filterMap (·.code.labelName?)).eraseDups).filterMap fun name =>
    (g.label? name).map fun a => (name, a)

/-- The successors of the point at an address, in the order its code names them. -/
def successors (g : Flow) (a : Address) : Except Fault (List Address) := do
  match ← g.codeAt a with
  | .goto l => return (g.label? l).toList
  | .branch _ _ _ l => return (g.label? l).toList ++ (g.next? a).toList
  | .switch _ arms d => return (arms.map Arm.target ++ [d]).filterMap g.label?
  | .loop _ | .bareLoop => return (← g.enter? a).toList
  | .ret _ | .fail => return []
  | _ => return (g.next? a).toList

end Flow

end Narrowing
