import BistHft.Basic
import Mathlib.Logic.Function.Basic

-- The descriptors of the process, and what its sockets do to them from their construction to their destruction.

-- What a descriptor has been opened for: one of the sockets, or other code of the process.
inductive Holder
  | socket (id : ℕ)
  | other
  deriving DecidableEq

structure Process where
  table   : ℕ → Option Holder := fun _ => none
  -- `m_socketFd` of the sockets that there are, where it is not negative
  sockets : ℕ → Option (Option ℕ) := fun _ => none
  -- the reads, writes and closes of the sockets, each with what its descriptor is open for at the time
  calls   : List (ℕ × Option Holder) := []

inductive SocketClass
  | tcpSocket
  | udpMulticastSocket
  | tcpServerSocket
  | tcpClientConnection
  deriving DecidableEq

-- How far a constructor gets. Behind `::socket` there is an address that may be invalid, and calls that may fail.
-- For a connection of the server these are `::accept` and the calls that make it non-blocking.
inductive Construction
  | noSocket
  | fails (fd : ℕ)
  | succeeds (fd : ℕ)
  deriving DecidableEq

namespace SocketClass

-- Whether the descriptor is closed if the constructor fails behind `::socket`.
def closes : SocketClass → Bool
  | tcpSocket | tcpServerSocket | tcpClientConnection => true
  | udpMulticastSocket                                => false

-- Whether there is an object if the constructor fails. Otherwise it throws, so that no destructor will run,
-- or it is not called at all.
def returns : SocketClass → Bool
  | tcpSocket                                                    => true
  | udpMulticastSocket | tcpServerSocket | tcpClientConnection => false

end SocketClass

namespace Construction

def fd? : Construction → Option ℕ
  | noSocket                => none
  | fails fd | succeeds fd => some fd

-- `m_socketFd` of the object. It keeps its value where the descriptor has been closed.
def object? (c : SocketClass) : Construction → Option (Option ℕ)
  | succeeds fd => some (some fd)
  | fails fd    => if c.returns then some (some fd) else none
  | noSocket    => if c.returns then some none else none

-- What the constructor leaves open.
def opened? (c : SocketClass) : Construction → Option ℕ
  | succeeds fd => some fd
  | fails fd    => if c.closes then none else some fd
  | noSocket    => none

end Construction

namespace Process

def opens (p : Process) (fd : ℕ) (holder : Holder) : Process :=
  { p with table := Function.update p.table fd (some holder) }

-- A call that leaves the descriptor open, such as `::read` and `::write`
def call (p : Process) (id fd : ℕ) : Process :=
  { p with calls := p.calls ++ [(id, p.table fd)] }

def close (p : Process) (id fd : ℕ) : Process :=
  { p.call id fd with table := Function.update p.table fd none }

def keep (p : Process) (id : ℕ) (object : Option (Option ℕ)) : Process :=
  { p with sockets := Function.update p.sockets id object }

def construct (p : Process) (c : SocketClass) (id : ℕ) (k : Construction) : Process :=
  match k with
  | .noSocket    => p.keep id (k.object? c)
  | .succeeds fd => (p.opens fd (.socket id)).keep id (k.object? c)
  | .fails fd    =>
    if c.closes then
      ((p.opens fd (.socket id)).close id fd).keep id (k.object? c)
    else
      (p.opens fd (.socket id)).keep id (k.object? c)

-- A call on the descriptor -1 fails without an effect.
def use (p : Process) (id : ℕ) : Process :=
  match p.sockets id with
  | some (some fd)     => p.call id fd
  | some none | none => p

-- `if (m_socketFd >= 0) ::close(m_socketFd);`
def destruct (p : Process) (id : ℕ) : Process :=
  match p.sockets id with
  | some (some fd)     => (p.close id fd).keep id none
  | some none | none => p.keep id none

inductive Move
  | construct (c : SocketClass) (id : ℕ) (k : Construction)
  | use (id : ℕ)
  | destruct (id : ℕ)
  | otherOpens (fd : ℕ)
  | otherCloses (fd : ℕ)
  deriving DecidableEq

def step (p : Process) : Move → Except Fault Process
  | .construct c id k => .ok <| p.construct c id k
  | .use id           => .ok <| p.use id
  | .destruct id      => .ok <| p.destruct id
  | .otherOpens fd    => .ok <| p.opens fd .other
  | .otherCloses fd   => .ok { p with table := Function.update p.table fd none }

def Move.constructed? : Move → Option ℕ
  | .construct _ id _                                          => some id
  | .use _ | .destruct _ | .otherOpens _ | .otherCloses _ => none

-- The kernel gives out numbers that are not in use, every socket is an object of its own that is used while it is
-- there, and the other code closes what it has opened.
def Enabled (pre : List Move) (p : Process) : Move → Prop
  | .construct _ id k        => id ∉ pre.filterMap Move.constructed? ∧ ∀ fd ∈ k.fd?, p.table fd = none
  | .use id | .destruct id => (p.sockets id).isSome
  | .otherOpens fd           => p.table fd = none
  | .otherCloses fd          => p.table fd = some .other

instance {pre : List Move} {p : Process} : (move : Move) → Decidable (p.Enabled pre move)
  | .construct _ _ _ => inferInstanceAs (Decidable (_ ∧ _))
  | .use id          => inferInstanceAs (Decidable ((p.sockets id).isSome = true))
  | .destruct id     => inferInstanceAs (Decidable ((p.sockets id).isSome = true))
  | .otherOpens _    => inferInstanceAs (Decidable (_ = _))
  | .otherCloses _   => inferInstanceAs (Decidable (_ = _))

end Process
