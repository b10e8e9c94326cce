import EbpfDivert.Handle.Receive
import EbpfDivert.Handle.Theorems.Inject
import EbpfDivert.Handle.Theorems.Rules
import EbpfDivert.Kernel.Theorems.Process

open Shared Prefilter Kernel

-- What becomes of a packet between the rules in the kernel and the filter in user space.
namespace Handle

inductive Mode
  | divert
  | sniff
  | drop

def mode (h : Handle) : Mode :=
  if Flags.has h.flags flagSniff then .sniff
  else if Flags.has h.flags flagDrop then .drop
  else .divert

-- The IP packets that are queued for the application and that are injected again, and whether the
-- kernel passes the one it has looked at.
structure Fate where
  queued   : List Bytes
  passed   : Bool
  injected : List Bytes

def Received.queues : Received → List Bytes
  | .queued e => [e.data]
  | _         => []

def Received.injects : Received → List Bytes
  | .injected (.ok sent) => [sent.pkt]
  | _                    => []

-- The fate of a packet for which the program has returned `out`, once its record has been consumed.
def fate (env : Env) (h : Handle) (out : Outcome) : Fate :=
  let received := out.record.map fun r => (ringCallback env h r).1
  { queued   := received.elim [] Received.queues
    passed   := out.act = .unspec
    injected := received.elim [] Received.injects }

-- What the mode of a handle means for an IP packet that its filter accepts or not. The packet is
-- injected with its checksums as in `summed`.
def Mode.Allows (ip summed : Bytes) : Mode → Bool → Fate → Prop
  | .divert, true,  fate => fate = ⟨[ip], false, []⟩
  | .sniff,  true,  fate => fate = ⟨[ip], true, []⟩
  | .drop,   true,  fate => fate = ⟨[], false, []⟩
  | _,       false, fate => fate = ⟨[], true, []⟩ ∨ fate = ⟨[], false, [summed]⟩

-- Whether the filter accepts a captured packet.
def accepts (env : Env) (h : Handle) (hdr : PktHeader) (frame : Bytes) : Bool :=
  Wd.filterEval h.filter env.hash (frame.drop hdr.l2Len) (recordAddress env h hdr frame).toAddress =
    some true

-- A captured packet with the checksums calculated that were not right.
def summed (env : Env) (h : Handle) (hdr : PktHeader) (frame : Bytes) : Bytes :=
  env.calcChecksums (frame.drop hdr.l2Len) (keepChecksums (recordAddress env h hdr frame))

-- The relation between the lowered rules and the verdict of the filter on one packet.
structure Lowers (res : PfResult) (pkt : ParsedPacket) (direction : Dir) (accepted : Bool) :
    Prop where
  sound    : pkt.fragment = false → accepted → (scan (tables res 0) pkt direction).isSome
  exact    : pkt.fragment = false → res.exact → (scan (tables res 0) pkt direction).isSome → accepted
  fragment : pkt.fragment → accepted → Flags.has (firstMask (tables res 0) pkt.ver) matchEnabled

variable {res : PfResult} {pkt : ParsedPacket} {direction : Dir} {b : Bool} {env : Env}
variable {h h' : Handle} {t : Tables} {kenv : Kernel.Env} {c : ConfigEnv} {skb : Skb}
variable {flags mm : BitVec 16} {cfg : DivertConfig} {hdr : PktHeader} {frame : Bytes} {r : PacketBuffer}

theorem scan_isSome (hb : res.Bare) :
    (scan (tables res 0) pkt direction).isSome = (hit res pkt direction).isSome := by
  rw [scan_tables hb (by simp [IsAction]), Option.isSome_map]

theorem Lowers.decider_isSome (hl : Lowers res pkt direction b) (hb : res.Bare) (ha : b) :
    (decider res pkt direction).isSome := by
  rw [decider]
  cases hf : pkt.fragment
  case false => exact scan_isSome hb ▸ hl.sound hf ha
  case true =>
    have := hl.fragment hf ha
    rw [firstMask_tables] at this
    cases hr : (rulesOf res pkt.ver).head?
    case none   => simp [hr] at this
    case some _ => rfl

theorem Lowers.accepted (hl : Lowers res pkt direction b) (hb : res.Bare)
    (hf : pkt.fragment = false) (hx : res.exact) (hd : (decider res pkt direction).isSome) : b := by
  refine hl.exact hf hx ?_
  rw [scan_isSome hb]
  simpa [decider, hf] using hd

-- A record whose packet is all there.
structure Whole (r : PacketBuffer) : Prop where
  room : r.header.capLen ≤ r.room
  l2   : r.header.l2Len ≤ r.header.capLen
  data : r.data.length = r.header.capLen

-- The kernel has the last word on packets that are no fragments if the rules are exact.
def judged (h : Handle) (hdr : PktHeader) : Bool :=
  h.exact && !Flags.has hdr.flags pktFragment

-- A record is only looked at if there is memory for it.
theorem allocOk_of_taken (hi : (ringCallback env h r).1 ≠ .ignored) : env.allocOk := by
  by_contra ha
  rw [ringCallback, if_pos (.inr <| .inr <| by simp [ha])] at hi
  exact hi rfl

theorem ringCallback_eq (hw : Whole r) (ha : env.allocOk) :
    let e : QEntry := ⟨recordAddress env h r.header r.data, r.data.drop r.header.l2Len⟩
    (ringCallback env h r).1 =
      if h.judged r.header then .queued e
      else if h.accepts env r.header r.data then
        if Flags.has h.flags flagDrop then .discarded else .queued e
      else if Flags.has r.header.flags pktSniffed then .discarded
      else .injected (inject env h e.data e.addr true).1 := by
  have hg : ¬(r.room < r.header.capLen ∨ r.header.capLen < r.header.l2Len ∨ !env.allocOk) := by
    have := hw.room
    have := hw.l2
    simp [ha]
    omega
  rw [ringCallback, judged]
  dsimp only
  rw [if_neg hg, List.take_of_length_le hw.data.le]
  cases hx : h.exact <;> cases hf : Flags.has r.header.flags pktFragment
  case true.false => rfl
  all_goals
    simp only [Bool.not_true, Bool.not_false, Bool.or_true, Bool.true_or, Bool.and_true,
      Bool.and_false, Bool.false_eq_true, ↓reduceIte]
    by_cases hv : h.accepts env r.header r.data
    case pos =>
      rw [if_pos hv]
      simp only [of_decide_eq_true hv]
      split_ifs <;> rfl
    case neg =>
      rw [if_neg hv]
      split
      case h_1 he => exact absurd (decide_eq_true he) hv
      case h_2    => split_ifs <;> rfl

-- The record of a packet that fits.
theorem recordOf_eq (hl : skb.len ≤ snapLen cfg) :
    recordOf kenv cfg skb pkt direction flags =
      ⟨pktHeader kenv skb pkt direction flags skb.len, skb.bytes, roomFor skb.len⟩ := by
  simp only [recordOf, Nat.min_eq_left hl]
  congr
  exact List.take_length

-- The filter does not see whether a packet is sniffed.
theorem accepts_sniffed {n : Nat} :
    h.accepts env (pktHeader kenv skb pkt direction (flags ||| pktSniffed) n) frame =
      h.accepts env (pktHeader kenv skb pkt direction flags n) frame := by
  have ha : recordAddress env h (pktHeader kenv skb pkt direction (flags ||| pktSniffed) n) frame =
      { recordAddress env h (pktHeader kenv skb pkt direction flags n) frame with
        sniffed := true } := by
    simp only [recordAddress, pktHeader, Flags.has_or, Flags.has_bit (show 1 < 16 by decide),
      Flags.has_bit (show 2 < 16 by decide), Flags.has_bit (show 0 < 16 by decide)]
    simp
    rfl
  rw [accepts, ha]
  rfl

theorem Mode.allows_false {m : Mode} {f : Fate} {ip sums : Bytes} :
    m.Allows ip sums false f ↔ f = ⟨[], true, []⟩ ∨ f = ⟨[], false, [sums]⟩ := by
  cases m <;> rfl

-- The record that a packet leaves if it passes the checks and fits.
theorem whole_record (hg : gate kenv cfg skb direction = some (flags, pkt))
    (hlen : skb.len ≤ divertMaxPacket) :
    Whole ⟨pktHeader kenv skb pkt direction mm skb.len, skb.bytes, roomFor skb.len⟩ := by
  have ⟨_, hl, _⟩ := gate_packet hg
  constructor
  case room => exact le_roomFor hlen
  case l2   => simp only [pktHeader]; omega
  case data => rfl

theorem injectable (hg : gate kenv cfg skb direction = some (flags, pkt)) :
    Injectable (skb.bytes.drop pkt.l2Len) := by
  have ⟨_, hl, hv⟩ := gate_packet hg
  have hb : Bytes.byte (skb.bytes.drop pkt.l2Len) 0 = skb.bytes.byte pkt.l2Len := by
    simp [Bytes.byte, List.getD_eq_getElem?_getD]
  constructor
  case left =>
    rw [List.length_drop]
    exact Nat.le_sub_of_add_le' hl
  case right =>
    rw [hb, hv]
    cases pkt.ver <;> simp [IpVer.code]

-- Every record of the packet programs holds an IP packet behind a short link layer header.
structure Captured (h : Handle) (skb : Skb) (direction : Dir) (r : PacketBuffer) : Prop where
  whole      : Whole r
  injectable : Injectable (r.data.drop r.header.l2Len)
  l2         : r.header.l2Len ≤ l2StashMax
  length     : r.data.length ≤ divertMaxPacket
  ifindex    : r.header.ifindex = skb.ifindex
  direction  : r.header.direction = direction
  loopback   : Flags.has r.header.flags pktLoopback ↔ skb.ifindex = h.loIfindex

theorem record_captured (hr : (processPacket kenv (h.config c) t skb direction).record = some r) :
    Captured h skb direction r := by
  obtain ⟨flags, pkt, sniff, hg, rfl⟩ := record_eq_some hr
  have ⟨h₂₂, hl, _⟩ := gate_packet hg
  obtain ⟨hlp, hv⟩ := injectable hg
  have hlo : Flags.has flags pktLoopback = isLo (h.config c) skb := by
    obtain ⟨mark, place, _, hm, hp, _, _, rfl⟩ := gate_eq_some hg
    rw [(checkMark_eq_some hm).flags_eq, (checkPlace_eq_some hp).flags_eq]
    simp
  obtain ⟨n, hn⟩ : ∃ n, n = min skb.len divertMaxPacket := ⟨_, rfl⟩
  have he (flags : BitVec 16) : recordOf kenv (h.config c) skb pkt direction flags =
    ⟨pktHeader kenv skb pkt direction flags n, skb.bytes.take n, roomFor n⟩ := hn ▸ rfl
  have hlen : skb.bytes.length = skb.len := rfl
  simp only [divertMaxPacket] at hn
  rw [he]
  constructor
  case whole =>
    constructor
    case room => exact le_roomFor (show n ≤ 65536 by omega)
    case l2   => simp only [pktHeader]; omega
    case data => simp only [pktHeader, List.length_take]; omega
  case injectable =>
    constructor
    case left =>
      simp only [pktHeader, List.length_drop, List.length_take]
      omega
    case right =>
      have hb : Bytes.byte ((skb.bytes.take n).drop pkt.l2Len) 0 =
          Bytes.byte (skb.bytes.drop pkt.l2Len) 0 := by
        rw [Bytes.byte_drop, Bytes.byte_drop, Bytes.byte_take (by omega)]
      simpa only [pktHeader, hb] using hv
  case l2        => exact h₂₂
  case length    => simp only [List.length_take, divertMaxPacket]; omega
  case ifindex   => rfl
  case direction => rfl
  case loopback  =>
    have hf : Flags.has (flags ||| Flags.flagIf sniff pktSniffed) pktLoopback =
        Flags.has flags pktLoopback := by
      simp
    rw [pktHeader, hf, hlo]
    exact decide_eq_true_iff

-- What user space makes of a record: it is queued if the filter accepts it, except that a handle
-- that drops discards what the kernel could not drop, and it is injected if the filter rejects it.
theorem fate_record {act : TcAct} {stat : Option Stat} (hw : Whole r) (ha : env.allocOk)
    (hs : env.sockOk) (hse : env.sendOk) (hi : Injectable (r.data.drop r.header.l2Len))
    (hj : h.judged r.header → h.accepts env r.header r.data) :
    fate env h ⟨act, some r, stat⟩ =
      ⟨if h.accepts env r.header r.data && !(Flags.has h.flags flagDrop && !h.judged r.header) then
          [r.data.drop r.header.l2Len] else [],
        act = .unspec,
        if !h.accepts env r.header r.data && !Flags.has r.header.flags pktSniffed then
          [h.summed env r.header r.data] else []⟩ := by
  obtain ⟨sent, hok⟩ : ∃ sent, (inject env h (r.data.drop r.header.l2Len)
      (recordAddress env h r.header r.data) true).1 = .ok sent := inject_ok hi ha hs hse
  have hsum : sent.pkt = h.summed env r.header r.data := by
    rw [inject_eq hi ha] at hok
    exact route_pkt hok
  simp only [fate, Option.map_some, Option.elim_some, ringCallback_eq hw ha, hok]
  cases hk : h.judged r.header
  case true => simp [hj hk, Received.queues, Received.injects]
  case false =>
    cases h.accepts env r.header r.data
    case false =>
      cases Flags.has r.header.flags pktSniffed <;> simp [Received.queues, Received.injects, hsum]
    case true  => cases Flags.has h.flags flagDrop <;> rfl

-- A run of `process_packet` on a packet that has come past the checks, with the rules of a handle.
inductive Loaded (h : Handle) (res : PfResult) (kenv : Kernel.Env) (cfg : DivertConfig) (skb : Skb)
    (pkt : ParsedPacket) (direction : Dir) (flags : BitVec 16) : Outcome → Prop
  | none (hd : decider res pkt direction = none) :
    Loaded h res kenv cfg skb pkt direction flags (.pass none)
  | some {mm : BitVec 16} {out : Outcome} (hd : (decider res pkt direction).isSome)
    (hms : Flags.has mm matchSniff = Flags.has h.flags flagSniff)
    (hmd : Flags.has mm matchDrop = (Flags.has h.flags flagDrop && res.exact && !pkt.fragment))
    (ha : Acted kenv cfg skb pkt direction flags mm out) :
    Loaded h res kenv cfg skb pkt direction flags out

theorem processPacket_loaded (hload : h.loadRules = some (t, h'))
    (hres : pfLower h.filter = some res) (hg : gate kenv cfg skb direction = some (flags, pkt)) :
    Loaded h res kenv cfg skb pkt direction flags (processPacket kenv cfg t skb direction) := by
  obtain ⟨_, hres', rfl, rfl⟩ := loadRules_eq_some hload
  obtain rfl := Option.some.inj (hres.symm.trans hres')
  have hb := pfLower_bare hres
  rw [processPacket_of_gate hg, judge]
  cases hsel : select (tables res (action h.flags res.exact)) pkt direction
  case none =>
    rw [select_tables hb action_isAction, Option.map_eq_none_iff] at hsel
    exact .none hsel
  case some mm =>
    obtain ⟨hms, hmd⟩ := has_select hb action_isAction hsel
    rw [select_tables hb action_isAction] at hsel
    have hp : 0 < skb.len := by
      have := gate_packet hg
      omega
    refine .some ?_ (hms.trans has_action_sniff) (h.has_action_drop ▸ hmd) (act_acted hp)
    simpa using congrArg Option.isSome hsel

section Acted

variable (hx : h.exact = res.exact) (hb : res.Bare)
variable (hg : gate kenv (h.config c) skb direction = some (flags, pkt))
variable (hlen : skb.len ≤ divertMaxPacket) (ha : env.allocOk) (hs : env.sockOk) (hse : env.sendOk)
variable (hl : Lowers res pkt direction
  (h.accepts env (pktHeader kenv skb pkt direction flags skb.len) skb.bytes))
include hx hb hg hlen ha hs hse hl

-- The fate of a recorded packet, sniffed or not.
theorem fate_recordOf {flags' : BitVec 16} {act : TcAct} {stat : Option Stat}
    (hd : (decider res pkt direction).isSome) (hf : Flags.has flags' pktFragment = pkt.fragment)
    (hacc : h.accepts env (pktHeader kenv skb pkt direction flags' skb.len) skb.bytes =
      h.accepts env (pktHeader kenv skb pkt direction flags skb.len) skb.bytes) :
    let b := h.accepts env (pktHeader kenv skb pkt direction flags skb.len) skb.bytes
    fate env h ⟨act, some (recordOf kenv (h.config c) skb pkt direction flags'), stat⟩ =
      ⟨if b && !(Flags.has h.flags flagDrop && !(res.exact && !pkt.fragment)) then
          [skb.bytes.drop pkt.l2Len] else [],
        act = .unspec,
        if !b && !Flags.has flags' pktSniffed then
          [h.summed env (pktHeader kenv skb pkt direction flags' skb.len) skb.bytes] else []⟩ := by
  have hj : h.judged (pktHeader kenv skb pkt direction flags' skb.len) =
      (res.exact && !pkt.fragment) := by
    rw [judged, pktHeader, hx, hf]
  have hjb (hj' : h.judged (pktHeader kenv skb pkt direction flags' skb.len)) :
      h.accepts env (pktHeader kenv skb pkt direction flags' skb.len) skb.bytes := by
    simp only [hj, Bool.and_eq_true, Bool.not_eq_true'] at hj'
    exact hacc ▸ hl.accepted hb hj'.2 hj'.1 hd
  rw [recordOf_eq hlen, fate_record (whole_record hg hlen) ha hs hse (injectable hg) hjb, hacc, hj]
  rfl

-- A matching rule, whose action is that of the handle, gives the packet the fate it should have.
theorem fate_acted {out : Outcome} (hr : kenv.reserveOk) (hd : (decider res pkt direction).isSome)
    (hms : Flags.has mm matchSniff = Flags.has h.flags flagSniff)
    (hmd : Flags.has mm matchDrop = (Flags.has h.flags flagDrop && res.exact && !pkt.fragment))
    (hacted : Acted kenv (h.config c) skb pkt direction flags mm out) :
    h.mode.Allows (skb.bytes.drop pkt.l2Len)
      (h.summed env (pktHeader kenv skb pkt direction flags skb.len) skb.bytes)
      (h.accepts env (pktHeader kenv skb pkt direction flags skb.len) skb.bytes) (fate env h out) := by
  have ⟨hf, hns⟩ := gate_flags hg
  cases hacted
  case pass hfail =>
    rcases hfail with ⟨hfail, _⟩ | hfail
    case inl => exact absurd hlen (Nat.not_le.mpr hfail)
    case inr => simp [hr] at hfail
  case drop hdrop =>
    simp only [hmd, Bool.and_eq_true, Bool.not_eq_true'] at hdrop
    obtain ⟨⟨hdr, hx⟩, hnf⟩ := hdrop
    rw [hl.accepted hb hnf hx hd, mode, if_neg (by simp [h.drop_sniff hdr]), if_pos hdr]
    rfl
  case sniff _ hsn _ =>
    rw [hms] at hsn
    rw [fate_recordOf hx hb hg hlen ha hs hse hl hd (by simp [hf]) accepts_sniffed, mode,
      if_pos hsn, h.sniff_drop hsn]
    cases h.accepts env (pktHeader kenv skb pkt direction flags skb.len) skb.bytes <;>
      simp [Mode.Allows]
  case divert hdrop hsn _ _ =>
    rw [hms] at hsn
    rw [fate_recordOf hx hb hg hlen ha hs hse hl hd hf rfl, mode, if_neg (by simp [hsn]), hns]
    simp only [hmd, Bool.and_assoc] at hdrop
    cases hdr : Flags.has h.flags flagDrop <;>
      cases h.accepts env (pktHeader kenv skb pkt direction flags skb.len) skb.bytes <;>
      simp_all [Mode.Allows]

end Acted

-- The composition of `load_rules`, `process_packet` and `ring_callback` does with every packet what
-- the mode of the handle asks for.
theorem fate_allowed (hload : h.loadRules = some (t, h')) (hres : pfLower h.filter = some res)
    (hg : gate kenv (h.config c) skb direction = some (flags, pkt))
    (hlen : skb.len ≤ divertMaxPacket) (hr : kenv.reserveOk) (ha : env.allocOk) (hs : env.sockOk)
    (hse : env.sendOk) (hl : Lowers res pkt direction
      (h.accepts env (pktHeader kenv skb pkt direction flags skb.len) skb.bytes)) :
    h.mode.Allows (skb.bytes.drop pkt.l2Len)
      (h.summed env (pktHeader kenv skb pkt direction flags skb.len) skb.bytes)
      (h.accepts env (pktHeader kenv skb pkt direction flags skb.len) skb.bytes)
      (fate env h' (processPacket kenv (h.config c) t skb direction)) := by
  have hb := pfLower_bare hres
  have hrun : Loaded h res kenv _ skb pkt direction flags _ := processPacket_loaded hload hres hg
  obtain ⟨_, hres', -, rfl⟩ := loadRules_eq_some hload
  obtain rfl := Option.some.inj (hres.symm.trans hres')
  generalize processPacket kenv (h.config c) t skb direction = out at hrun
  cases hrun
  case none hd =>
    have hn : h.accepts env (pktHeader kenv skb pkt direction flags skb.len) skb.bytes = false := by
      by_contra hn
      simpa [hd] using hl.decider_isSome hb (by simpa using hn)
    rw [hn, Mode.allows_false]
    exact .inl rfl
  case some hd hms hmd hacted =>
    exact fate_acted (h := { h with exact := res.exact }) rfl hb hg hlen ha hs hse hl hr hd hms hmd
      hacted

theorem noFlags_valid : validFlags .network 0 := by decide

def networkHandle (flags : BitVec 64) (hv : validFlags .network flags) (object : List Wd.Insn) :
    Handle where
  layer        := .network
  flags        := flags
  flags_valid  := hv
  tcPrio       := 30001
  prio_le      := by decide
  filter       := ⟨.network, object⟩
  filter_layer := rfl
  exact        := false
  loIfindex    := 1
  socks        := []

def calmEnv : Env where
  allocOk         := true
  sockOk          := true
  sendOk          := true
  hwaddr          := fun _ => none
  hash            := 0
  verifyChecksums := fun _ => ⟨true, true, true⟩
  calcChecksums   := fun pkt _ => pkt

def calmConfig : ConfigEnv where
  forwarding  := false
  filterFlags := filterInbound ||| filterOutbound
  loSelected  := true
  shutRecv    := false
  now         := 0

-- `tcp.Syn`
def synObject : List Wd.Insn :=
  [⟨.tcpSyn, .neq, Wd.resultAccept, Wd.resultReject, false, .zero⟩]

-- A connection request from 10.0.0.1 to 192.0.2.1, port 443.
def synFrame : Bytes :=
  .replicate 12 2 ++ [0x08, 0x00] ++ [0x45, 0, 0, 40, 0, 0, 0x40, 0, 64, 6, 0, 0] ++
    [10, 0, 0, 1, 192, 0, 2, 1] ++ [0xC0, 0, 1, 0xBB] ++ .replicate 8 0 ++
    [0x50, 0x02, 0xFF, 0xFF, 0, 0, 0, 0]

def synSkb : Skb :=
  { sentSkb synFrame with ifindex := 2 }

def synHandle : Handle :=
  networkHandle 0 noFlags_valid synObject

theorem fate_allowed_syn : ∃ t h', synHandle.loadRules = some (t, h') ∧
    fate calmEnv h' (processPacket okEnv (synHandle.config calmConfig) t synSkb .outbound) =
      ⟨[synFrame.drop 14], false, []⟩ := by
  have hg : gate okEnv (synHandle.config calmConfig) synSkb .outbound = some _ := rfl
  exact ⟨_, _, rfl, fate_allowed (h := synHandle) rfl rfl hg (by decide) rfl rfl rfl rfl
    ⟨fun _ _ => by decide, fun _ _ _ => by decide, nofun⟩⟩

end Handle
