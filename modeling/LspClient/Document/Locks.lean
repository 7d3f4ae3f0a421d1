import LspClient.Table

/-!
# Open documents and their locks

The documents a server has open, each with the version that was last sent and its language.
Versions begin with 1 and stop at the largest 32-bit integer.

Operations on one document take turns. Each URI that somebody works on has a lock, to which the
table of locks leads, and everybody who holds a lock or waits for it has a handle on it. Handles
are kept in the order in which they came; the first one on a lock may acquire it. The entry of a
URI goes with the last handle on its lock.
-/

namespace LspClient

/-! ### Open documents -/

structure OpenDocument where
  version : Int
  languageId : String
  deriving DecidableEq, Repr, Inhabited

abbrev Documents := Table String OpenDocument

namespace Documents

def firstVersion : Int := 1

def maxVersion : Int := 2147483647

def nextVersion (version : Int) : Int := min (version + 1) maxVersion

def version? (d : Documents) (uri : String) : Option Int := (d.get? uri).map (·.version)

end Documents

/-! ### Locks -/

structure LockHandle where
  ticket : Nat
  uri : String
  lock : Nat
  held : Bool
  deriving DecidableEq, Repr, Inhabited

structure Locks where
  /-- The lock of each URI. -/
  table : Table String Nat
  handles : List LockHandle
  nextLock : Nat
  nextTicket : Nat
  deriving Inhabited

namespace Locks

def empty : Locks := ⟨[], [], 0, 0⟩

/-- The lock of a URI, made if there is none. -/
def lockOf (l : Locks) (uri : String) : Nat × Locks :=
  match l.table.get? uri with
  | some lock => (lock, l)
  | none => (l.nextLock, { l with table := l.table.put uri l.nextLock, nextLock := l.nextLock + 1 })

/-- Ask for the lock of a URI. -/
def join (l : Locks) (uri : String) : Nat × Locks :=
  let (lock, l) := l.lockOf uri
  (l.nextTicket, { l with
    handles := l.handles ++ [⟨l.nextTicket, uri, lock, false⟩]
    nextTicket := l.nextTicket + 1 })

def handle? (l : Locks) (ticket : Nat) : Option LockHandle :=
  l.handles.find? fun h => h.ticket == ticket

/-- Whether nobody came before on the same lock. -/
def isFirst (l : Locks) (h : LockHandle) : Bool :=
  (l.handles.find? fun other => other.lock == h.lock).any fun first => first.ticket == h.ticket

/-- Take the lock, once it is free. -/
def acquire (l : Locks) (ticket : Nat) : Option Locks :=
  match l.handle? ticket with
  | some h =>
    if l.isFirst h then
      some { l with handles := l.handles.map fun other =>
        if other.ticket = ticket then { other with held := true } else other }
    else none
  | none => none

/-- How often a lock is referred to: once by an entry of the table, and twice by a handle, by itself
and by the turn that it waits for or has taken. -/
def references (l : Locks) (lock : Nat) : Nat :=
  l.table.countP (fun e => e.2 == lock) + 2 * l.handles.countP fun h => h.lock == lock

/-- Drop a handle, and the entry of its URI if only the two of them refer to the lock. The turn goes
first. -/
def release (l : Locks) (ticket : Nat) : Locks :=
  match l.handle? ticket with
  | none => l
  | some h =>
    let idle := l.table.get? h.uri == some h.lock && l.references h.lock - 1 == 2
    { l with
      handles := l.handles.filter fun other => other.ticket ≠ ticket
      table := if idle then l.table.erase h.uri else l.table }

end Locks

end LspClient
