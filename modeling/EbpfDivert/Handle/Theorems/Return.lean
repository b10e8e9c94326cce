import EbpfDivert.Handle.Theorems.Batch
import EbpfDivert.Handle.Theorems.Gso
import EbpfDivert.Handle.Theorems.Layout
import EbpfDivert.Wd.Theorems.Agree

open Shared Kernel

-- Captured packets that are sent again.
namespace Handle

section Return

variable {kenv : Kernel.Env} {c : ConfigEnv} {t : Tables} {skb : Skb} {r : PacketBuffer}
variable {env : Env} {h h' : Handle} {e : Entry} {se : SendEnv} {pkt : Bytes} {addr : Address}
variable {fdOk : Bool} {flags : BitVec 64} {waits : List Round} {q q' q'' : Queue} {buf : Buffer}
variable {len : Nat} {bytes frame : Bytes}

theorem prevent_eq : h.prevent = loopPreventionMark ||| h.tcPrio := by
  rw [prevent, and_of_le h.prio_le]

-- What is queued for a record.
theorem queued_eq {x : QEntry} (hw : Whole r) (hq : (ringCallback env h r).1 = .queued x) :
    x = ⟨recordAddress env h r.header r.data, r.data.drop r.header.l2Len⟩ := by
  have ha : env.allocOk := allocOk_of_taken (h := h) (r := r) (by simp [hq])
  rw [ringCallback_eq hw ha] at hq
  split_ifs at hq
  all_goals exact (Received.queued.inj hq).symm

-- The caller gets the packet and the address as they were queued.
theorem recv_entry (hn : nextEntry fdOk waits q = some (.ok e, q'))
    (hr : recv fdOk flags (some buf) waits q = some (⟨none, some len, some addr, some bytes⟩, q'')) :
    bytes.take len = e.data ∧ addr = e.addr := by
  rw [recv] at hr
  dsimp only at hr
  split at hr
  case isTrue => cases hr
  case isFalse =>
    simp only [hn, Option.bind_eq_bind, Option.bind_some] at hr
    split at hr
    case isTrue => cases hr
    case isFalse =>
      cases hr
      exact ⟨List.take_left' rfl, rfl⟩

-- What lets a handle send.
structure Ready (se : SendEnv) (h : Handle) : Prop where
  alloc  : se.env.allocOk
  sock   : se.env.sockOk
  send   : se.env.sendOk
  shut   : se.shutSend = false
  layer  : h.layer = .network ∨ h.layer = .networkForward
  flags  : Flags.has h.flags flagRecvOnly = false

theorem send_eq (hr : Ready se h) (hp : Injectable pkt) (hm : pkt.length ≤ mtuMax) :
    send se h pkt addr =
      ((route se.env h (se.env.calcChecksums pkt (keepChecksums addr)) addr).1.mapError .errno,
        (route se.env h (se.env.calcChecksums pkt (keepChecksums addr)) addr).2) := by
  have hl : ¬(h.layer ≠ .network ∧ h.layer ≠ .networkForward) := by
    obtain hl | hl := hr.layer
    all_goals simp [hl]
  rw [send, if_neg (by simp [hr.flags]), if_neg hl, if_neg (by simp [hr.shut]),
    if_neg (Nat.not_lt.mpr hm), inject_eq hp hr.alloc]
  rfl

-- An outbound packet with a link layer header goes out through its interface.
theorem send_out {stash : L2Stash} (hr : Ready se h) (hp : Injectable pkt) (hm : pkt.length ≤ mtuMax)
    (hl : ¬addr.Local h) (ho : addr.outbound) (hs : addr.stash = some stash)
    (hi : 0 < addr.network.ifIdx.toInt) :
    ∃ priority h', send se h pkt addr = (.ok (.frame ⟨addr.network.ifIdx, h.prevent, priority,
      stash.data, se.env.calcChecksums pkt (keepChecksums addr), stash.gsoSize⟩), h') := by
  have he {pkt : Bytes} : route se.env h pkt addr =
      sendAfPacket se.env h addr.network.ifIdx h.prevent false stash.data pkt stash.gsoSize := by
    rw [route, if_neg hl, if_pos (.inl ho), hs]
    exact if_pos hi
  obtain ⟨pkt', hpkt⟩ : ∃ pkt', pkt' = se.env.calcChecksums pkt (keepChecksums addr) := ⟨_, rfl⟩
  obtain ⟨sent, hok⟩ : ∃ sent, (sendAfPacket se.env h addr.network.ifIdx h.prevent false stash.data
    pkt' stash.gsoSize).1 = .ok sent := sendAfPacket_ok hr.alloc hr.sock hr.send
  obtain ⟨priority, rfl⟩ := sendAfPacket_frame hok
  rw [send_eq hr hp hm, ← hpkt, he, hok]
  exact ⟨priority, _, rfl⟩

-- A frame that differs from a captured one at most in the checksums of its packet.
structure Unchanged (frame : Bytes) (l2Len : Nat) (wire : Bytes) : Prop where
  length : wire.length = frame.length
  byte   : ∀ i, ¬(l2Len ≤ i ∧ Wd.ChecksumAt (frame.drop l2Len) (i - l2Len)) →
    wire.byte i = frame.byte i

theorem unchanged_of_agree {l2Len : Nat} (hl : l2Len ≤ frame.length)
    (ha : Wd.Agree (frame.drop l2Len) pkt) : Unchanged frame l2Len (frame.take l2Len ++ pkt) := by
  have ht : (frame.take l2Len).length = l2Len := List.length_take_of_le hl
  constructor
  case length =>
    rw [List.length_append, ha.length, List.length_drop, ht]
    omega
  case byte =>
    intro i hn
    by_cases hi : i < l2Len
    case pos => rw [Bytes.byte_append_left (by rwa [ht]), Bytes.byte_take hi]
    case neg =>
      obtain ⟨j, rfl⟩ := Nat.exists_eq_add_of_le (Nat.not_lt.mp hi)
      rw [not_and, Nat.add_sub_cancel_left] at hn
      have hb := ha.byte j (hn (Nat.le_add_right ..))
      rw [Bytes.byte_drop] at hb
      have hr : Bytes.byte (frame.take l2Len ++ pkt) ((frame.take l2Len).length + j) = pkt.byte j :=
        Bytes.byte_append_right
      rwa [ht, hb] at hr

-- A captured outbound packet goes back to where it came from.
theorem send_captured (hr : (processPacket kenv (h.config c) t skb .outbound).record = some r)
    (hlo : Flags.has r.header.flags pktLoopback = false) (hi : 0 < skb.ifindex.toInt)
    (hq : (ringCallback env h r).1 = .queued e.toQEntry)
    (hn : nextEntry fdOk waits q = some (.ok e, q'))
    (hrecv : recv fdOk flags (some buf) waits q =
      some (⟨none, some len, some addr, some bytes⟩, q''))
    (hx : Extends h h') (hready : Ready se h')
    (hcalc : ∀ pkt flags, Wd.Agree pkt (se.env.calcChecksums pkt flags)) (mtu : BitVec 32) :
    ∃ f h'', send se h' (bytes.take len) (.decode addr.encode) = (.ok (.frame f), h'') ∧
      f.ifindex = skb.ifindex ∧ f.mark = loopPreventionMark ||| h.tcPrio ∧
      Unchanged r.data r.header.l2Len (f.wire mtu).2 := by
  have hc := record_captured hr
  have hw := hc.whole
  obtain ⟨hbytes, haddr⟩ := recv_entry hn hrecv
  have he := queued_eq hw hq
  have hdata : e.data = r.data.drop r.header.l2Len := congrArg QEntry.data he
  have headdr : e.addr = recordAddress env h r.header r.data := congrArg QEntry.addr he
  have hof : (recordAddress env h r.header r.data).OfPacket := ⟨⟨_, rfl⟩, rfl, rfl, rfl⟩
  rw [hbytes, hdata, haddr, headdr, Address.decode_encode hof]
  have hl2 : r.header.l2Len ≤ r.data.length := hw.data ▸ hw.l2
  have htake : (r.data.take r.header.l2Len).length ≤ l2StashMax := by
    rw [List.length_take_of_le hl2]
    exact hc.l2
  have hstash : (recordAddress env h r.header r.data).stash =
    some ⟨r.header.gsoSize, r.data.take r.header.l2Len, htake⟩ := dif_pos htake
  have hlocal : ¬(recordAddress env h r.header r.data).Local h' := by
    rintro (hb | ⟨hb, -⟩)
    case inl => simp [recordAddress, hlo] at hb
    case inr =>
      rw [hx.loIfindex] at hb
      have := hc.loopback.mpr (hc.ifindex ▸ hb)
      simp [hlo] at this
  have hout : (recordAddress env h r.header r.data).outbound := decide_eq_true hc.direction
  have hm : (r.data.drop r.header.l2Len).length ≤ mtuMax := by
    have := hc.length
    rw [List.length_drop]
    simp only [divertMaxPacket, mtuMax] at *
    omega
  obtain ⟨priority, h'', hsend⟩ := send_out hready hc.injectable hm hlocal hout hstash
    (show 0 < r.header.ifindex.toInt from hc.ifindex ▸ hi)
  refine ⟨_, h'', hsend, hc.ifindex, ?_, ?_⟩
  · rw [prevent_eq, hx.tcPrio]
  · obtain ⟨packet, hwire, ha⟩ := Frame.wire_agree _ mtu
    rw [hwire]
    exact unchanged_of_agree hl2 ((hcalc _ _).trans ha)

end Return

-- The record of a connection request, and how it is queued.
def synRecord : PacketBuffer where
  header := ⟨54, 2, .outbound, 14, 54, 0, 0, 0, 0, 0⟩
  data   := synFrame
  room   := 2048

def synEntry : Entry :=
  ⟨⟨recordAddress calmEnv synHandle synRecord.header synFrame, synFrame.drop 14⟩, by decide⟩

def synQueue : Queue :=
  (consumeRing true [synEntry] .opened).get rfl

def synReceived : Bytes :=
  synEntry.data ++ .replicate 60 0

theorem send_captured_syn : ∃ f h'',
    send ⟨calmEnv.computing [] [], false⟩ synHandle (synReceived.take 40)
      (.decode synEntry.addr.encode) = (.ok (.frame f), h'') ∧
    f.ifindex = 2 ∧ f.mark = loopPreventionMark ||| 30001 ∧
    Unchanged synFrame 14 (f.wire 1500).2 := by
  have hr : (processPacket okEnv (synHandle.config calmConfig) (catchAll 0) synSkb .outbound).record =
    some synRecord := rfl
  have hq : (ringCallback calmEnv synHandle synRecord).1 = .queued synEntry.toQEntry := rfl
  have hn : nextEntry true [quiet 0] synQueue = some (.ok synEntry, _) := rfl
  have hrecv : recv true 0 (some largeBuffer) [quiet 0] synQueue =
    some (⟨none, some 40, some synEntry.addr, some synReceived⟩, _) := rfl
  exact send_captured hr rfl (by decide) hq hn hrecv .refl ⟨rfl, rfl, rfl, rfl, .inl rfl, rfl⟩
    (fun _ _ => Wd.calcChecksums_agree) 1500

end Handle
