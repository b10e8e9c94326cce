import EbpfDivert.Prefilter.Lower
import EbpfDivert.Primitives.Splits

open Wd (Test Field Header Insn)
open Shared (IpVer Dir)

namespace Prefilter

variable {p : PfPkt} {c c' : Cube} {cs : List Cube} {φ : Prop} {test : Test} {arg : Nat}
variable {ver : IpVer} {proto : BitVec 8} {h : Header}

-- The headers of a whole packet: present exactly when version and protocol say so.
def PfPkt.Has (p : PfPkt) : Header → Prop
  | .ip     => p.ver = .v4
  | .ipv6   => p.ver = .v6
  | .tcp    => p.proto = Wd.ipprotoTcp
  | .udp    => p.proto = Wd.ipprotoUdp
  | .icmp   => p.ver = .v4 ∧ p.proto = Wd.ipprotoIcmp
  | .icmpv6 => p.ver = .v6 ∧ p.proto = Wd.ipprotoIcmpv6

namespace TcpBits

variable {t : TcpBits} {i : Nat} {b : Bool} {x : BitVec 8}

def Mem (t : TcpBits) (x : BitVec 8) : Prop :=
  x &&& t.mask = t.flags

theorem mem_iff : t.Mem x ↔ ∀ i < 8, t.mask.getLsbD i → x.getLsbD i = t.flags.getLsbD i := by
  rw [Mem, BitVec.eq_of_getLsbD_eq_iff]
  refine forall₂_congr fun i _ => ?_
  have := congrArg (·.getLsbD i) t.sub
  cases hm : t.mask.getLsbD i <;> simp_all

theorem get_bit (hi : i < 8) :
    t.get (Flags.bit 8 i) = if t.mask.getLsbD i then some (t.flags.getLsbD i) else .none := by
  have hm : (t.mask &&& Flags.bit 8 i != 0) = _ := Flags.has_getLsbD hi
  have hf : (t.flags &&& Flags.bit 8 i != 0) = _ := Flags.has_getLsbD hi
  rw [get, hf, ← hm]
  simp only [bne_iff_ne]

theorem mem_set (hi : i < 8) (hs : ∀ s ∈ t.get (Flags.bit 8 i), s = b) :
    (t.set (Flags.bit 8 i) b).Mem x ↔ t.Mem x ∧ x.getLsbD i = b := by
  have hs (hm : t.mask.getLsbD i) : t.flags.getLsbD i = b := hs _ (by simp [get_bit hi, hm])
  have hb j : (if b then Flags.bit 8 i else 0).getLsbD j = (b && decide (j = i)) := by
    cases b <;> simp [Flags.getLsbD_bit hi]
  simp only [mem_iff, set, BitVec.getLsbD_or, BitVec.getLsbD_and, BitVec.getLsbD_not, hb,
    Flags.getLsbD_bit hi]
  grind

end TcpBits

-- The packets a cube stands for.
@[mk_iff]
structure Cube.Mem (c : Cube) (p : PfPkt) : Prop where
  ver      : ∀ v ∈ c.ver, v = p.ver
  dir      : ∀ d ∈ c.dir, d = p.direction
  loopback : ∀ b ∈ c.loopback, b = p.loopback
  proto    : c.proto.Mem p.proto.toNat
  sport    : c.sport.Mem p.sport.toNat
  dport    : c.dport.Mem p.dport.toNat
  ttl      : c.ttl.Mem p.ttl.toNat
  src      : c.src.Mem p.src
  dst      : c.dst.Mem p.dst
  tcp      : c.tcp.Mem p.tcpFlags

theorem Cube.mem_init : Cube.init.Mem p := by
  constructor <;> simp [init, TcpBits.none, TcpBits.Mem] <;> omega

abbrev PfPkt.Splits (p : PfPkt) (c : Cube) (φ : Prop) (cs : List Cube) : Prop :=
  DecisionGraph.Splits (·.exact) (·.Mem p) c φ cs

def PfPkt.port (p : PfPkt) (useSrc : Bool) : BitVec 16 :=
  if useSrc then p.sport else p.dport

def PfPkt.addr (p : PfPkt) (useSrc : Bool) : Words :=
  if useSrc then p.src else p.dst

-- The cube with all addresses.
def Cube.anywhere (c : Cube) : Cube :=
  { c with src := .full, dst := .full }

theorem Cube.mem_iff_anywhere :
    c.Mem p ↔ c.anywhere.Mem p ∧ ∀ useSrc, (c.addr useSrc).Mem (p.addr useSrc) := by
  simp only [Bool.forall_bool, Cube.mem_iff, anywhere, addr, PfPkt.addr, PfAddr.mem_full]
  tauto

-- The packet with other addresses.
def PfPkt.moved (p : PfPkt) (src dst : Words) : PfPkt :=
  { p with src, dst }

theorem Cube.mem_anywhere_moved {src dst : Words} :
    c.anywhere.Mem (p.moved src dst) ↔ c.anywhere.Mem p := by
  simp [Cube.mem_iff, anywhere, PfPkt.moved]

namespace Cube

variable {useSrc : Bool} {w : Words}

theorem widen_splits : p.Splits c φ [c.widen] :=
  .of_inexact (by simp [widen]) fun hm => { hm with }

theorem setVer_splits : p.Splits c (p.ver = ver) (c.setVer ver).toList :=
  .fix .rfl (·.ver) (·.ver ver rfl) (fun hm hv => { hm with ver := by simp [hv] })
    fun hm hv => { hm with ver := hv }

theorem setDir_splits {dir : Dir} : p.Splits c (p.direction = dir) (c.setDir dir).toList :=
  .fix .rfl (·.dir) (·.dir dir rfl) (fun hm hd => { hm with dir := by simp [hd] })
    fun hm hd => { hm with dir := hd }

theorem setDir_eq_some {dir : Dir} (h : c.setDir dir = some c') : c' = { c with dir := some dir } := by
  rw [setDir] at h
  split_ifs at h
  exact (Option.some.inj h).symm

theorem withProto_splits (ht : test ≠ .other) :
    p.Splits c (test.Sat p.proto.toNat arg) (c.withProto test arg).toList :=
  .component Range.exists_apply (Range.of_apply · ht) (·.proto)
    (fun hm hr => { hm with proto := hr })
    (fun hm => ⟨hm.proto, fun hr => { hm with proto := hr }⟩)
    (by simp)

theorem withTtl_splits (ht : test ≠ .other) :
    p.Splits c (test.Sat p.ttl.toNat arg) (c.withTtl test arg).toList :=
  .component Range.exists_apply (Range.of_apply · ht) (·.ttl)
    (fun hm hr => { hm with ttl := hr })
    (fun hm => ⟨hm.ttl, fun hr => { hm with ttl := hr }⟩)
    (by simp)

theorem withPort_splits (useSrc : Bool) (ht : test ≠ .other) :
    p.Splits c (test.Sat (p.port useSrc).toNat arg) (c.withPort useSrc test arg).toList :=
  match useSrc with
  | true =>
    .component Range.exists_apply (Range.of_apply · ht) (·.sport)
      (fun hm hr => { hm with sport := hr })
      (fun hm => ⟨hm.sport, fun hr => { hm with sport := hr }⟩)
      (by simp)
  | false =>
    .component Range.exists_apply (Range.of_apply · ht) (·.dport)
      (fun hm hr => { hm with dport := hr })
      (fun hm => ⟨hm.dport, fun hr => { hm with dport := hr }⟩)
      (by simp)

theorem withAddr_splits (useSrc : Bool) (w : Words) (ht : test ≠ .other) :
    p.Splits c (test.Sat (p.addr useSrc).value w.value) (c.withAddr useSrc test w).toList :=
  match useSrc with
  | true =>
    .component PfAddr.exists_apply (PfAddr.of_apply · ht) (·.src)
      (fun hm hr => { hm with src := hr })
      (fun hm => ⟨hm.src, fun hr => { hm with src := hr }⟩)
      (by simp)
  | false =>
    .component PfAddr.exists_apply (PfAddr.of_apply · ht) (·.dst)
      (fun hm hr => { hm with dst := hr })
      (fun hm => ⟨hm.dst, fun hr => { hm with dst := hr }⟩)
      (by simp)

theorem withAddr_ver (h : c.withAddr useSrc test w = some c') : c'.ver = c.ver := by
  simp only [withAddr, Option.map_eq_some_iff] at h
  obtain ⟨_, _, rfl⟩ := h
  cases useSrc <;> rfl

theorem setProto_eq_withProto : c.setProto proto = c.withProto .eq proto.toNat := by
  rw [setProto, withProto]
  cases ha : c.proto.apply .eq proto.toNat
  case none => rfl
  case some res =>
    have he : res.2 = true := Range.apply_eq_exact ha
    simp [he]

theorem setProto_splits : p.Splits c (p.proto = proto) (c.setProto proto).toList := by
  rw [setProto_eq_withProto]
  have h : p.Splits c (Test.eq.Sat _ _) (c.withProto .eq proto.toNat).toList := withProto_splits nofun
  exact h.congr fun _ => by simp [Test.Sat, BitVec.toNat_inj]

theorem withoutProto_splits : p.Splits c (p.proto ≠ proto) (c.withProto .neq proto.toNat).toList := by
  have h : p.Splits c (Test.neq.Sat _ _) (c.withProto .neq proto.toNat).toList := withProto_splits (by simp)
  exact h.congr fun _ => by simp [Test.Sat, BitVec.toNat_inj]

theorem setProto_protoIs (h : c.setProto proto = some c') : c'.protoIs proto := by
  simp only [setProto, Option.map_eq_some_iff] at h
  obtain ⟨⟨r, e⟩, ha, rfl⟩ := h
  simp [protoIs, Range.apply_eq_point ha]

theorem setProto_ver (h : c.setProto proto = some c') : c'.ver = c.ver := by
  simp only [setProto, Option.map_eq_some_iff] at h
  obtain ⟨_, _, rfl⟩ := h
  rfl

theorem setVer_ver (h : c.setVer ver = some c') : c'.ver = some ver := by
  rw [setVer] at h
  split_ifs at h
  cases h
  rfl

theorem Mem.proto_eq (hm : c.Mem p) (h : c.protoIs proto) : p.proto = proto := by
  have ⟨hl, hh⟩ : c.proto.data.lo = proto.toNat ∧ c.proto.data.hi = proto.toNat := by
    simpa [protoIs] using h
  have ⟨h₁, h₂, _⟩ := hm.proto
  exact BitVec.eq_of_toNat_eq (by omega)

theorem Mem.ver_eq (hm : c.Mem p) (h : c.ver = some ver) : p.ver = ver :=
  (hm.ver ver h).symm

-- The headers a cube knows of exist in all its packets.
theorem Mem.has (hm : c.Mem p) (hk : c.knows h) : p.Has h := by
  cases h <;> simp only [knows, decide_eq_true_eq] at hk
  case ip | ipv6     => exact hm.ver_eq hk
  case tcp | udp     => exact hm.proto_eq hk
  case icmp | icmpv6 => exact ⟨hm.ver_eq hk.left, hm.proto_eq hk.right⟩

theorem assume_splits : p.Splits c (p.Has h) (c.assume h).toList :=
  match h with
  | .ip | .ipv6     => setVer_splits
  | .tcp | .udp     => setProto_splits
  | .icmp | .icmpv6 => setVer_splits.bind fun _ _ => setProto_splits

theorem assume_knows (ha : c.assume h = some c') : c'.knows h := by
  cases h <;> simp only [assume, Option.bind_eq_bind, Option.bind_eq_some_iff] at ha
  case ip | ipv6 => simp [knows, setVer_ver ha]
  case tcp | udp => exact setProto_protoIs ha
  case icmp | icmpv6 =>
    obtain ⟨_, hv, hp⟩ := ha
    simp [knows, setProto_ver hp, setVer_ver hv, setProto_protoIs hp]

theorem withoutIcmp_splits {altVer : IpVer} (hv : ∀ v, v = ver ↔ v ≠ altVer) :
    p.Splits c (¬(p.ver = ver ∧ p.proto = proto)) (c.withoutIcmp ver altVer proto) := by
  refine (setVer_splits.append (setVer_splits.bind fun _ _ => withoutProto_splits)).congr fun _ => ?_
  rw [hv]
  tauto

theorem without_splits : p.Splits c (¬p.Has h) (c.without h) := by
  cases h
  case ip     => exact setVer_splits.congr fun _ => by cases hv : p.ver <;> simp [PfPkt.Has, hv]
  case ipv6   => exact setVer_splits.congr fun _ => by cases hv : p.ver <;> simp [PfPkt.Has, hv]
  case tcp    => exact withoutProto_splits
  case udp    => exact withoutProto_splits
  case icmp   => exact withoutIcmp_splits fun v => by cases v <;> simp
  case icmpv6 => exact withoutIcmp_splits fun v => by cases v <;> simp

end Cube

end Prefilter
