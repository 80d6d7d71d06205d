import Longda.Net.SockMap

/-!
# The connections of a `Net`

`Registry` is the connection manager with the life of its connections: the socket each has, the
descriptors that are open, the two epoll sets and the references that are out. `getConn`,
`addConn`, `delConn` and the turns of the epoll threads each hold `mapMutex` from end to end, and
`release` the mutex of its connection, so each is one step.

What a system call answers is a parameter. A descriptor that `socket` or `accept` gives out is one
that was not open (`Fresh`).
-/

namespace Longda

open Lib

/-- `Sock::DISCONNECTED`. -/
def DISCONNECTED : Int32 := -1

/-- `Conn::status_t`, as far as a connection has it for its state. -/
inductive ConnState where
  | SUCCESS
  | CONN_READY
  | CONN_CONNECTING
  | CONN_ERR_CREATE
  | CONN_ERR_CONNECT
  deriving DecidableEq

/-- `Net::status_t`, as far as a `Net` returns or throws it here. -/
inductive NetStatus where
  | SUCCESS
  | NET_ERR_CONNECT
  | NET_ERR_EPOLL
  | NET_ERR_CONN_EXISTS
  | NET_ERR_CONN_NOTFOUND
  deriving DecidableEq

/-- `NetEx`: its code, and its message with the end point the message goes on with. -/
structure NetEx where
  code : NetStatus
  message : String
  hostPort : Path := []
  deriving DecidableEq

/-- What `Sock::connectTo` comes to; everything but the first two is an error. -/
inductive ConnectTo where
  | SUCCESS
  | SOCK_CONNECTING
  | error
  deriving DecidableEq

/-- What the system calls of one new connection answer. -/
structure Connecting where
  /-- What `socket` returns. -/
  sock : Int32
  connectTo : ConnectTo
  sendOk : Bool
  recvOk : Bool

/-- What `accept` and the system calls behind it answer. -/
inductive Accepted where
  | again
  /-- `EMFILE` or `ENFILE`. -/
  | noFd
  | otherError
  | sock (sock : Int32) (ep : EndPoint) (recvOk sendOk : Bool)

structure Registry extends SockMaps where
  nextConn : ConnId := 0
  mSock : ConnId → Int32 := fun _ => DISCONNECTED
  mConnState : ConnId → ConnState := fun _ => .SUCCESS
  mPeerEp : ConnId → Option EndPoint := fun _ => none
  deleted : ConnId → Bool := fun _ => false
  globalActSn : UInt64 := 0
  /-- The descriptors that are open, of those that connections had. -/
  isOpen : Int32 → Bool := fun _ => false
  recvEpfd : Int32 → Bool := fun _ => false
  sendEpfd : Int32 → Bool := fun _ => false
  /-- The references that are out, each as often as it was acquired. -/
  refs : List ConnId := []

namespace Registry

/-! ## One connection -/

/-- The connection is allocated and not yet deleted. -/
def Live (s : Registry) (c : ConnId) : Prop := c < s.nextConn ∧ s.deleted c = false

instance (s : Registry) (c : ConnId) : Decidable (s.Live c) :=
  inferInstanceAs (Decidable (_ ∧ _))

/-- `updateActSn`. -/
def updateActSn (s : Registry) (c : ConnId) : Registry :=
  { s with
    globalActSn := s.globalActSn + 1
    mActSn := Function.update s.mActSn c (s.globalActSn + 1) }

/-- `new Conn()`, the new connection being `nextConn`. -/
def newConn (s : Registry) : Registry :=
  { s with
    nextConn := s.nextConn + 1
    conns := Function.update s.conns s.nextConn {}
    mSock := Function.update s.mSock s.nextConn DISCONNECTED
    mConnState := Function.update s.mConnState s.nextConn .SUCCESS
    mPeerEp := Function.update s.mPeerEp s.nextConn none
    deleted := Function.update s.deleted s.nextConn false }.updateActSn s.nextConn

/-- `Conn::setup` of a descriptor just given out. -/
def setup (s : Registry) (c : ConnId) (sock : Int32) : Registry :=
  { s with
    mSock := Function.update s.mSock c sock
    isOpen := Function.update s.isOpen sock true }

/-- `Conn::connect`. -/
def connect (s : Registry) (c : ConnId) (o : Connecting) : ConnState × Registry :=
  if o.sock < 0 then (.CONN_ERR_CREATE, s)
  else
    let s := s.setup c o.sock
    match o.connectTo with
    | .SOCK_CONNECTING => (.CONN_CONNECTING, s)
    | .SUCCESS => (.SUCCESS, s)
    | .error => (.CONN_ERR_CONNECT, s)

/-- What `cleanup` does where nobody else uses the connection: `clearSelector` in
`connCallback(ON_DISCONNECT)`, `close` and `delete this`. -/
def teardown (s : Registry) (c : ConnId) : Registry :=
  { s with
    recvEpfd := Function.update s.recvEpfd (s.mSock c) false
    sendEpfd := Function.update s.sendEpfd (s.mSock c) false
    isOpen := Function.update s.isOpen (s.mSock c) false
    mSock := Function.update s.mSock c DISCONNECTED
    deleted := Function.update s.deleted c true }

/-- The members that the mutex of the connection guards, set anew. -/
def setRefs (s : Registry) (c : ConnId) (r : ConnRefs) : Registry :=
  { s with conns := Function.update s.conns c r }

/-- `Conn::cleanup`. -/
def cleanup (s : Registry) (c : ConnId) (how : CleanupT) : Registry :=
  let (unused, r) := (s.conns c).cleanup how
  if unused then (s.setRefs c r).teardown c else s.setRefs c r

/-- `Conn::acquire`. -/
def acquire (s : Registry) (c : ConnId) : Registry :=
  { s.setRefs c (s.conns c).acquire with refs := c :: s.refs }

/-- `Conn::release`. -/
def release (s : Registry) (c : ConnId) : Registry :=
  let (callCleanup, r) := (s.conns c).release
  let s := { s.setRefs c r with refs := s.refs.erase c }
  if callCleanup then s.cleanup c r.mCleanType else s

/-! ## The maps -/

def find (s : Registry) (sock : Int32) : Option ConnId × Registry :=
  match s.sockConnMap.lookup sock with
  | none => (none, s)
  | some c => (some c, s.acquire c)

/-- `find` by end point; there is no result where the first element of an empty set is taken. -/
def findEp (s : Registry) (ep : EndPoint) : Option (Option ConnId × Registry) :=
  match s.epSockMap.lookup ep.toHostPortStr with
  | none => some (none, s)
  | some set => set.head?.map s.find

/-- `connMgr.insert`, whose result no caller looks at. -/
def insert (s : Registry) (ep : EndPoint) (sock : Int32) (c : ConnId) : Registry :=
  { s with toSockMaps := (s.toSockMaps.insert ep sock c).2 }

/-- `removeConn`. -/
def removeConn (s : Registry) (sock : Int32) : NetStatus × Registry :=
  let t := { s with toSockMaps := (s.toSockMaps.remove sock).2 }
  match s.sockConnMap.lookup sock with
  | none => (.NET_ERR_CONN_NOTFOUND, t)
  | some c => (.SUCCESS, if ((s.conns c).cleanup .ON_ERROR).1 then t.teardown c else t)

/-- One turn of the second loop of `removeInactive`, by the count so far. -/
def evictTurn (r : ℕ × Registry) (e : UInt64 × Int32) : ℕ × Registry :=
  (if (r.2.removeConn e.2).1 = .SUCCESS then r.1 + 1 else r.1, (r.2.removeConn e.2).2)

/-- `removeInactive`. -/
def removeInactive (s : Registry) : ℕ × Registry :=
  (s.sortedConns.foldl s.collect []).foldl evictTurn (0, s)

/-- What `ConnMgr::list` does with one socket it prints. -/
def listSock (s : Registry) (sock : Int32) : Registry :=
  match s.find sock with
  | (none, s) => s
  | (some c, s) => s.release c

def list (s : Registry) : Registry :=
  s.epSockMap.entries.foldl (fun s e => e.2.foldl listSock s) s

/-! ## The selectors -/

/-- `epoll_ctl` with `EPOLL_CTL_ADD`, which fails for a descriptor that is not open or is there
already, and where the kernel has no room. -/
def addToRecvSelector (s : Registry) (sock : Int32) (ok : Bool) : NetStatus × Registry :=
  if ok && s.isOpen sock && !s.recvEpfd sock then
    (.SUCCESS, { s with recvEpfd := Function.update s.recvEpfd sock true })
  else (.NET_ERR_EPOLL, s)

def addToSendSelector (s : Registry) (sock : Int32) (ok : Bool) : NetStatus × Registry :=
  if ok && s.isOpen sock && !s.sendEpfd sock then
    (.SUCCESS, { s with sendEpfd := Function.update s.sendEpfd sock true })
  else (.NET_ERR_EPOLL, s)

def delRecvSelector (s : Registry) (sock : Int32) : Registry :=
  { s with recvEpfd := Function.update s.recvEpfd sock false }

def delSendSelector (s : Registry) (sock : Int32) : Registry :=
  { s with sendEpfd := Function.update s.sendEpfd sock false }

/-! ## `Net` -/

def setState (s : Registry) (c : ConnId) (state : ConnState) : Registry :=
  { s with mConnState := Function.update s.mConnState c state }

def setPeerEp (s : Registry) (c : ConnId) (ep : EndPoint) : Registry :=
  { s with mPeerEp := Function.update s.mPeerEp c (some ep) }

/-- `getConn` where there is no connection yet and it may make one. `connCallback(ON_CONNECT)`
posts the first vector and returns `SUCCESS`: what it allocates is there or `operator new`
throws. -/
def openConn (s : Registry) (ep : EndPoint) (o : Connecting) : Except NetEx ConnId × Registry :=
  let c := s.nextConn
  let (crc, s) := s.newConn.connect c o
  if crc = .CONN_ERR_CONNECT then
    (.error ⟨.NET_ERR_CONNECT, "can't connect to server: ", ep.toHostPortStr⟩,
      s.cleanup c .ON_ERROR)
  else
    let s := ((s.setState c crc).insert ep o.sock c).setPeerEp c ep
    match s.addToSendSelector o.sock o.sendOk with
    | (.SUCCESS, s) =>
      match s.addToRecvSelector o.sock o.recvOk with
      | (.SUCCESS, s) => (.ok c, s.acquire c)
      | (_, s) =>
        (.error ⟨.NET_ERR_EPOLL, "cannot add socket to recv selector", []⟩,
          (s.removeConn o.sock).2)
    | (_, s) =>
      (.error ⟨.NET_ERR_EPOLL, "cannot add socket to send selector", []⟩, (s.removeConn o.sock).2)

/-- `Net::getConn`. -/
def getConn (s : Registry) (ep : EndPoint) (serverSide : Bool) (sock : Int32) (o : Connecting) :
    Option (Except NetEx ConnId × Registry) := do
  let (conn, s) ← if sock ≠ -1 then some (s.find sock) else s.findEp ep
  match conn with
  | some c => return (.ok c, s)
  | none =>
    if serverSide then
      return (.error ⟨.NET_ERR_CONN_NOTFOUND, "conn already removed", []⟩, s.list)
    else return s.openConn ep o

/-- `Net::addConn`. -/
def addConn (s : Registry) (c : ConnId) (ep : EndPoint) (sock : Int32) (recvOk sendOk : Bool) :
    Except NetEx Unit × Registry :=
  match s.find sock with
  | (some tconn, s) =>
    (.error ⟨.NET_ERR_CONN_EXISTS, "Connection exists", []⟩,
      (s.release tconn).cleanup c .ON_ERROR)
  | (none, s) =>
    let s := (((s.setup c sock).setState c .CONN_READY).setPeerEp c ep).insert ep sock c
    match s.addToRecvSelector sock recvOk with
    | (.SUCCESS, s) =>
      match s.addToSendSelector sock sendOk with
      | (.SUCCESS, s) => (.ok (), s)
      | (_, s) =>
        (.error ⟨.NET_ERR_EPOLL, "Cannot add socket to send selector", []⟩, (s.removeConn sock).2)
    | (_, s) =>
      (.error ⟨.NET_ERR_EPOLL, "Cannot add socket to receive selector", []⟩, (s.removeConn sock).2)

/-- `Net::delConn`. -/
def delConn (s : Registry) (ep : EndPoint) : Option (NetStatus × Registry) := do
  match ← s.findEp ep with
  | (none, s) => return (.NET_ERR_CONN_NOTFOUND, s)
  | (some c, s) =>
    let s := s.release c
    return (.SUCCESS, (s.removeConn (s.mSock c)).2)

/-- One turn of the loop of `acceptConns`, and whether there is another. -/
def acceptTurn (s : Registry) : Accepted → Bool × Registry
  | .again => (false, s)
  | .noFd =>
    let (removed, s) := s.removeInactive
    (removed > 0, s)
  | .otherError => (true, s)
  | .sock sock ep recvOk sendOk => (true, (s.newConn.addConn s.nextConn ep sock recvOk sendOk).2)

/-- `NetServer::acceptConns`, by what each `accept` answers. -/
def acceptConns (s : Registry) : List Accepted → Registry
  | [] => s
  | a :: as =>
    let (again, s) := s.acceptTurn a
    if again then s.acceptConns as else s

/-- What `RecvEPollThread` does for a socket with `EPOLLHUP` or `EPOLLERR`. -/
def recvHangUp (s : Registry) (fd : Int32) : Registry :=
  match s.find fd with
  | (some c, s) => ((s.release c).removeConn fd).2
  | (none, s) => s.delRecvSelector fd

/-- What `SendEPollThread` does for a socket. -/
def sendEvent (s : Registry) (fd : Int32) (hangUp soError : Bool) : Registry :=
  match s.find fd with
  | (none, s) => s.delSendSelector fd
  | (some c, s) =>
    if hangUp then ((s.release c).removeConn fd).2
    else if s.mConnState c = .CONN_CONNECTING then
      if soError then ((s.release c).removeConn fd).2
      else (s.setState c .CONN_READY).release c
    else s.release c

end Registry

/-- What is called, and by what answers of the system. -/
inductive NetCall where
  | getConn (ep : EndPoint) (serverSide : Bool) (sock : Int32) (o : Connecting)
  | acceptTurn (a : Accepted)
  | delConn (ep : EndPoint)
  | find (sock : Int32)
  | release (c : ConnId)
  | removeConn (sock : Int32)
  | removeInactive
  | recvHangUp (fd : Int32)
  | sendEvent (fd : Int32) (hangUp soError : Bool)
  | addToRecvSelector (sock : Int32) (ok : Bool)
  | updateActSn (c : ConnId)

namespace Registry

/-- A descriptor the system may give out. -/
def Fresh (s : Registry) (sock : Int32) : Prop := 0 ≤ sock ∧ s.isOpen sock = false

instance (s : Registry) (sock : Int32) : Decidable (s.Fresh sock) :=
  inferInstanceAs (Decidable (_ ∧ _))

/-- The system answers as it may, and only what was acquired is released. -/
def Enabled (s : Registry) : NetCall → Prop
  | .getConn _ _ _ o => o.sock = -1 ∨ s.Fresh o.sock
  | .acceptTurn (.sock sock _ _ _) => s.Fresh sock
  | .release c => c ∈ s.refs
  | _ => True

instance (s : Registry) : ∀ call, Decidable (s.Enabled call)
  | .getConn .. => inferInstanceAs (Decidable (_ ∨ _))
  | .acceptTurn (.sock ..) => inferInstanceAs (Decidable (s.Fresh _))
  | .acceptTurn .again | .acceptTurn .noFd | .acceptTurn .otherError => isTrue trivial
  | .release _ => inferInstanceAs (Decidable (_ ∈ _))
  | .delConn .. | .find .. | .removeConn .. | .removeInactive | .recvHangUp .. | .sendEvent ..
  | .addToRecvSelector .. | .updateActSn .. => isTrue trivial

/-- The state a call leaves, unless it does what is undefined. -/
def call (s : Registry) : NetCall → Option Registry
  | .getConn ep serverSide sock o => (s.getConn ep serverSide sock o).map Prod.snd
  | .acceptTurn a => some (s.acceptTurn a).2
  | .delConn ep => (s.delConn ep).map Prod.snd
  | .find sock => some (s.find sock).2
  | .release c => some (s.release c)
  | .removeConn sock => some (s.removeConn sock).2
  | .removeInactive => some s.removeInactive.2
  | .recvHangUp fd => some (s.recvHangUp fd)
  | .sendEvent fd hangUp soError => some (s.sendEvent fd hangUp soError)
  | .addToRecvSelector sock ok => some (s.addToRecvSelector sock ok).2
  | .updateActSn c => some (s.updateActSn c)

end Registry

/-- The threads at the connections of one `Net`, a call at a time. -/
def registry : Machine Registry NetCall where
  step s l := if s.Enabled l then s.call l else none

end Longda
