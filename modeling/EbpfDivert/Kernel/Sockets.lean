import EbpfDivert.Kernel.Events

open Shared

-- The programs that run when a socket is bound or connected.
namespace Kernel

-- The last known endpoints of a socket.
structure SkInfo where
  pid        : BitVec 32
  localPort  : BitVec 16
  remotePort : BitVec 16
  family     : BitVec 8
  localAddr  : Bytes
  remoteAddr : Bytes

def SkInfo.zero : SkInfo where
  pid        := 0
  localPort  := 0
  remotePort := 0
  family     := 0
  localAddr  := .replicate 16 0
  remoteAddr := .replicate 16 0

-- The storage of a socket. A program need not be given the socket.
inductive Storage
  | noSock
  | sock (info : Option SkInfo)

-- What the helper functions of the kernel return during one run.
structure SockEnv where
  now       : BitVec 64
  stamp     : BitVec 64
  cookie    : BitVec 64
  pid       : BitVec 32
  reserveOk : Bool
  storageOk : Bool

-- None after a shutdown and if the owner has stopped refreshing its heartbeat.
def liveConfig (cfg : EventConfig) (now : BitVec 64) : Option EventConfig :=
  if Flags.has cfg.flags evcfgShutdown then none
  else if cfg.heartbeatTimeoutNs ≠ 0 ∧ now - cfg.heartbeatNs > cfg.heartbeatTimeoutNs then none
  else some cfg

-- The bytes of an address in network order.
def v4Mapped (addr : Bytes) : Bytes :=
  .replicate 10 0 ++ [0xFF, 0xFF] ++ addr

def eventSocketBind    : BitVec 8 := 3
def eventSocketConnect : BitVec 8 := 4

abbrev evfBlocked := Flags.bit 8 0

def submit (env : SockEnv) (e : DivertEvent) : Option DivertEvent :=
  if env.reserveOk then some e else none

-- Record an event's endpoints on the socket.
def remember (env : SockEnv) (storage : Storage) (e : DivertEvent) : Storage :=
  match storage with
  | .noSock    => .noSock
  | .sock info =>
    if info.isNone ∧ !env.storageOk then .sock none
    else
      let info := info.getD .zero
      .sock <| some
        { info with
          family     := e.family
          localPort  := if e.localPort ≠ 0 then e.localPort else info.localPort
          remotePort := if e.remotePort ≠ 0 then e.remotePort else info.remotePort
          remoteAddr := if e.remotePort ≠ 0 then e.remoteAddr else info.remoteAddr
          localAddr  := e.localAddr }

-- Whether the operation is allowed, the event that was submitted and the storage afterwards.
structure SockOutcome where
  allow   : Bool
  event   : Option DivertEvent
  storage : Storage

def SockOutcome.ignore (storage : Storage) : SockOutcome :=
  ⟨true, none, storage⟩

-- How both programs end.
def judgeEvent (env : SockEnv) (cfg : EventConfig) (table : List EventRule) (storage : Storage)
    (e : DivertEvent) : SockOutcome :=
  if shouldBlock cfg table e then ⟨false, submit env { e with flags := e.flags ||| evfBlocked }, storage⟩
  else ⟨true, submit env e, remember env storage e⟩

-- The addresses are the words of the context as they are in memory.
structure BpfSock where
  protocol : BitVec 32
  srcPort  : BitVec 32
  srcIp4   : Bytes
  srcIp6   : Bytes

def onBind (env : SockEnv) (cfg : EventConfig) (table : List EventRule) (sk : BpfSock) (v6 : Bool)
    (info : Option SkInfo) : SockOutcome :=
  match liveConfig cfg env.now with
  | none     => .ignore (.sock info)
  | some cfg =>
    if !Flags.has cfg.flags evcfgSocket then .ignore (.sock info)
    else judgeEvent env cfg table (.sock info)
      { timestamp        := env.stamp
        endpointId       := env.cookie
        parentEndpointId := 0
        pid              := env.pid
        event            := eventSocketBind
        protocol         := sk.protocol.setWidth 8
        family           := if v6 then 6 else 4
        flags            := 0
        localPort        := sk.srcPort.setWidth 16
        remotePort       := 0
        localAddr        := if v6 then sk.srcIp6 else v4Mapped sk.srcIp4
        remoteAddr       := .replicate 16 0 }

-- The port is in network order.
structure BpfSockAddr where
  protocol : BitVec 32
  userPort : Bytes
  userIp4  : Bytes
  userIp6  : Bytes

-- The local endpoint is only known if the socket was bound.
def boundTo (storage : Storage) (family : BitVec 8) : BitVec 16 × Bytes :=
  match storage with
  | .sock (some info) =>
    if info.family = family then (info.localPort, info.localAddr) else (0, .replicate 16 0)
  | _ => (0, .replicate 16 0)

def onConnect (env : SockEnv) (cfg : EventConfig) (table : List EventRule) (ctx : BpfSockAddr)
    (v6 : Bool) (storage : Storage) : SockOutcome :=
  match liveConfig cfg env.now with
  | none     => .ignore storage
  | some cfg =>
    if !Flags.has cfg.flags evcfgSocket then .ignore storage
    else
      let family := if v6 then 6 else 4
      let (localPort, localAddr) := boundTo storage family
      judgeEvent env cfg table storage
        { timestamp        := env.stamp
          endpointId       := env.cookie
          parentEndpointId := 0
          pid              := env.pid
          event            := eventSocketConnect
          protocol         := ctx.protocol.setWidth 8
          family           := family
          flags            := 0
          localPort        := localPort
          remotePort       := ctx.userPort.be16 0
          localAddr        := if !v6 ∧ localAddr.byte 10 = 0 then v4Mapped (.replicate 4 0) else localAddr
          remoteAddr       := if v6 then ctx.userIp6 else v4Mapped ctx.userIp4 }

-- After a shutdown nothing is refused and nothing is reported.
theorem liveConfig_shutdown {cfg : EventConfig} {now : BitVec 64}
    (h : Flags.has cfg.flags evcfgShutdown) : liveConfig cfg now = none := by
  simp [liveConfig, h]

theorem onBind_shutdown {env : SockEnv} {cfg : EventConfig} {table : List EventRule} {sk : BpfSock}
    {v6 : Bool} {info : Option SkInfo} (h : Flags.has cfg.flags evcfgShutdown) :
    onBind env cfg table sk v6 info = .ignore (.sock info) := by
  rw [onBind, liveConfig_shutdown h]

theorem onConnect_shutdown {env : SockEnv} {cfg : EventConfig} {table : List EventRule}
    {ctx : BpfSockAddr} {v6 : Bool} {storage : Storage} (h : Flags.has cfg.flags evcfgShutdown) :
    onConnect env cfg table ctx v6 storage = .ignore storage := by
  rw [onConnect, liveConfig_shutdown h]

end Kernel
