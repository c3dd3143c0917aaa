import Aprof.Runtime

/-! The memory events of a basic block. `instrument` scans the statements of a
block and queues its accesses; the queue is flushed, that is turned into helper
calls of the output block, when it is full, before every exit and at the end. The
call of `BB_start` in front of a block and the store of `last_exit` behind it
are no memory events. -/
namespace Aprof

/-- An address operand: a temporary, which is assigned once in its block, or a
constant with its type. -/
inductive IRAtom where
  | rdTmp (tmp : Nat)
  | const (type value : Nat)
  deriving DecidableEq, Repr

def eqIRAtom : IRAtom → IRAtom → Bool
  | .rdTmp tmp1, .rdTmp tmp2 => tmp1 == tmp2
  | .const type1 value1, .const type2 value2 => type1 == type2 && value1 == value2
  | _, _ => false

inductive IREffect where
  | none
  | read
  | write
  | modify
  deriving DecidableEq, Repr

/-- Statements with what the scan reads of them; `other` is copied and looked at no further. -/
inductive IRStmt where
  | noOp
  | other
  | iMark (addr : IRAtom) (len : Nat)
  | wrTmp (load : Option (IRAtom × Nat))
  | store (addr : IRAtom) (size : Nat)
  | dirty (mFx : IREffect) (mAddr : IRAtom) (mSize : Nat)
  | cas (addr : IRAtom) (dataSize : Nat) (double : Bool)
  | llsc (storing : Bool) (addr : IRAtom) (size : Nat)
  | exit
  deriving DecidableEq, Repr

def IRStmt.isIMark : IRStmt → Bool
  | .iMark _ _ => true
  | _ => false

/-- A statement of the output block: a helper call with its arguments, or a copy. -/
inductive OutStmt where
  | helper (type : AccessType) (addr : IRAtom) (size : Nat)
  | stmt (st : IRStmt)
  deriving DecidableEq, Repr

inductive EventKind where
  | eventIr
  | eventDr
  | eventDw
  | eventDm
  deriving DecidableEq, Repr

structure MemEvent where
  ekind : EventKind
  addr : IRAtom
  size : Nat
  deriving DecidableEq, Repr

def nEvents : Nat := 4

/-- The `switch` of the flush functions. -/
def flushEvent (ev : MemEvent) : Option OutStmt :=
  match ev.ekind with
  | .eventIr => none
  | .eventDr => some (.helper .load ev.addr ev.size)
  | .eventDw => some (.helper .store ev.addr ev.size)
  | .eventDm => some (.helper .modify ev.addr ev.size)

/-- Both flush functions; the helper is the handler of the input metric. -/
def flushEvents (events : List MemEvent) : List OutStmt := events.filterMap flushEvent

/-- The statements that are added to the output block, and the queue. -/
abbrev Emitted := List OutStmt × List MemEvent

def addEvent (events : List MemEvent) (evt : MemEvent) : Emitted :=
  if events.length = nEvents then (flushEvents events,[evt]) else ([],events ++ [evt])

def addEventIr (events : List MemEvent) (iaddr : IRAtom) (isize : Nat) : Emitted := addEvent events ⟨.eventIr,iaddr,isize⟩

def addEventDr (events : List MemEvent) (daddr : IRAtom) (dsize : Nat) : Emitted := addEvent events ⟨.eventDr,daddr,dsize⟩

def addEventDw (events : List MemEvent) (daddr : IRAtom) (dsize : Nat) : Emitted :=
  match events.getLast? with
  | none => addEvent events ⟨.eventDw,daddr,dsize⟩
  | some lastEvt =>
    if lastEvt.ekind = .eventDr ∧ lastEvt.size = dsize ∧ eqIRAtom lastEvt.addr daddr then
      ([],events.dropLast ++ [{lastEvt with ekind := .eventDm}])
    else addEvent events ⟨.eventDw,daddr,dsize⟩

def addEventDrDw (events : List MemEvent) (daddr : IRAtom) (dsize : Nat) : Emitted :=
  let (out,events) := addEventDr events daddr dsize
  let (out',events) := addEventDw events daddr dsize
  (out ++ out',events)

def addEventDirty (events : List MemEvent) (mFx : IREffect) (mAddr : IRAtom) (mSize : Nat) : Emitted :=
  match mFx with
  | .none => ([],events)
  | .read => addEventDr events mAddr mSize
  | .write => addEventDw events mAddr mSize
  | .modify => addEventDrDw events mAddr mSize

/-- The events of a statement; an exit flushes the queue. -/
def stmtEvents (events : List MemEvent) : IRStmt → Emitted
  | .noOp | .other | .wrTmp none => ([],events)
  | .iMark addr len => addEventIr events addr len
  | .wrTmp (some (addr,size)) => addEventDr events addr size
  | .store addr size => addEventDw events addr size
  | .dirty mFx mAddr mSize => addEventDirty events mFx mAddr mSize
  | .cas addr dataSize double => addEventDrDw events addr (if double then dataSize * 2 else dataSize)
  | .llsc storing addr size => if storing then addEventDw events addr size else addEventDr events addr size
  | .exit => (flushEvents events,[])

/-- Every statement but a `NoOp` is copied behind its events. -/
def copied : IRStmt → List OutStmt
  | .noOp => []
  | st => [.stmt st]

/-- The loop over the statements with the final flush. -/
def instrumentLoop (events : List MemEvent) : List IRStmt → List OutStmt
  | [] => flushEvents events
  | st :: rest =>
    let (out,events) := stmtEvents events st
    out ++ copied st ++ instrumentLoop events rest

/-- The preamble before the first `IMark` is copied verbatim. -/
def instrument : List IRStmt → List OutStmt
  | [] => []
  | st :: rest => if st.isIMark then instrumentLoop [] (st :: rest) else .stmt st :: instrument rest

def IRAtom.value (tmps : Nat → Nat) : IRAtom → Nat
  | .rdTmp tmp => tmps tmp
  | .const _ value => value

def OutStmt.isExit (st : OutStmt) : Bool := st == .stmt .exit

/-- The part of a block that is executed when its exit number `n` is taken, or all of it when it has
no such exit. -/
def uptoExit {α : Type} (isExit : α → Bool) : Nat → List α → List α
  | _, [] => []
  | n, st :: rest =>
    if isExit st then
      match n with
      | 0 => []
      | n + 1 => st :: uptoExit isExit n rest
    else st :: uptoExit isExit n rest

/-- A call of the handler: kind, address and size. -/
abbrev HandlerCall := AccessType × IRAtom × Nat

def OutStmt.calls : OutStmt → List HandlerCall
  | .helper type addr size => [(type,addr,size)]
  | .stmt _ => []

def callHandler {c : Counter} (cfg : Config) (tmps : Nat → Nat) (rt : Runtime c) (call : HandlerCall) : Result (Runtime c) :=
  traceAccess cfg rt call.1 (call.2.1.value tmps) call.2.2 false

def callHandlers {c : Counter} (cfg : Config) (tmps : Nat → Nat) (calls : List HandlerCall) (rt : Runtime c) : Result (Runtime c) :=
  calls.foldlM (callHandler cfg tmps) rt

/-- A LOAD for each read and a STORE for each write of a statement, in their order. -/
def IRStmt.accesses : IRStmt → List HandlerCall
  | .noOp | .other | .iMark _ _ | .wrTmp none | .exit => []
  | .wrTmp (some (addr,size)) => [(.load,addr,size)]
  | .store addr size => [(.store,addr,size)]
  | .dirty .none _ _ => []
  | .dirty .read mAddr mSize => [(.load,mAddr,mSize)]
  | .dirty .write mAddr mSize => [(.store,mAddr,mSize)]
  | .dirty .modify mAddr mSize => [(.load,mAddr,mSize),(.store,mAddr,mSize)]
  | .cas addr dataSize double =>
    let size := if double then dataSize * 2 else dataSize
    [(.load,addr,size),(.store,addr,size)]
  | .llsc storing addr size => [(if storing then .store else .load,addr,size)]

/-- The statements from the first `IMark` on; what is before is not guest code. -/
def guestCode : List IRStmt → List IRStmt
  | [] => []
  | st :: rest => if st.isIMark then st :: rest else guestCode rest

end Aprof
