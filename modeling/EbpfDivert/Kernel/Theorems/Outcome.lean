import EbpfDivert.Kernel.Theorems.Process

open Shared
open Flags (flagIf)

namespace Kernel

variable {env : Env} {cfg : DivertConfig} {t : Tables} {skb : Skb} {direction : Dir}
variable {flags mm : BitVec 16} {pkt : ParsedPacket} {α : Type} {f : FilterRule α → Bool}
variable {rules : List (FilterRule α)}

-- The rule that is the first one to match.
def FirstMatch (f : FilterRule α → Bool) (rules : List (FilterRule α)) (r : FilterRule α) : Prop :=
  ∃ before after, rules = before ++ r :: after ∧ f r ∧ ∀ r' ∈ before, f r' = false

theorem scanTable_eq_some (h : scanTable f rules = some mm) :
    ∃ r, FirstMatch f rules r ∧ r.matchMask = mm := by
  induction rules
  case nil => cases h
  case cons r rules ih =>
    rw [scanTable] at h
    split_ifs at h with _ hr
    case pos =>
      cases h
      exact ⟨r, ⟨[], rules, rfl, hr, by simp⟩, rfl⟩
    case neg =>
      obtain ⟨r', ⟨before, after, rfl, hm, hb⟩, rfl⟩ := ih h
      refine ⟨r', ⟨r :: before, after, rfl, hm, ?_⟩, rfl⟩
      exact List.forall_mem_cons.mpr ⟨by simpa using hr, hb⟩

-- The first rule of the packet's family that matches it drops it.
def Dropped (t : Tables) (pkt : ParsedPacket) (direction : Dir) : Prop :=
  match pkt.ver with
  | .v4 => ∃ r, FirstMatch (matchesRuleIpv4 t pkt direction) (t.v4.take maxRules) r ∧
      Flags.has r.matchMask matchDrop
  | .v6 => ∃ r, FirstMatch (matchesRuleIpv6 t pkt direction) (t.v6.take maxRules) r ∧
      Flags.has r.matchMask matchDrop

theorem dropped_of_scan (h : scan t pkt direction = some mm) (hd : Flags.has mm matchDrop) :
    Dropped t pkt direction := by
  rw [Dropped]
  rw [scan] at h
  cases hv : pkt.ver
  all_goals
    rw [hv] at h
    obtain ⟨r, hr, rfl⟩ := scanTable_eq_some h
    exact ⟨r, hr, hd⟩

-- Fragments are not dropped.
theorem not_fragment_of_drop (h : select t pkt direction = some mm) (hd : Flags.has mm matchDrop) :
    pkt.fragment = false ∧ scan t pkt direction = some mm := by
  rw [select] at h
  split_ifs at h with hf
  case neg => exact ⟨by simpa using hf, h⟩
  case pos =>
    rw [matchFragment] at h
    split_ifs at h
    cases h
    simp [Flags.has_and_not_bit] at hd

-- What the program can do with a packet.
inductive Handled (cfg : DivertConfig) (t : Tables) (skb : Skb) (direction : Dir) : Outcome → Prop
  | stolen {r stat} (hc : r.header.capLen = skb.len) (hd : r.data = skb.bytes)
    (hs : Flags.has r.header.flags pktSniffed = false) :
    Handled cfg t skb direction ⟨.stolen, some r, stat⟩
  | sniffed {r stat} (hd : r.data = skb.bytes.take (min skb.len (snapLen cfg)))
    (hs : Flags.has r.header.flags pktSniffed) : Handled cfg t skb direction ⟨.unspec, some r, stat⟩
  | shot {pkt stat} (hp : parsePacket skb.pulled = some pkt) (hf : pkt.fragment = false)
    (hd : Dropped t { pkt with isLo := isLo cfg skb } direction) :
    Handled cfg t skb direction ⟨.shot, none, stat⟩
  | passed {stat} : Handled cfg t skb direction ⟨.unspec, none, stat⟩

theorem processPacket_handled :
    Handled cfg t skb direction (processPacket env cfg t skb direction) := by
  have hr : Run env cfg t skb direction _ := processPacket_run
  generalize processPacket env cfg t skb direction = out at hr
  cases hr
  case pass => exact .passed
  case judge flags pkt hg =>
    have hsn := (gate_flags hg).2
    have hl : 0 < skb.len := by
      have := gate_packet hg
      omega
    rw [judge]
    cases hs : select t pkt direction
    case none => exact .passed
    case some mm =>
      have ha : Acted env cfg skb pkt direction flags mm _ := act_acted hl
      dsimp only
      generalize act env cfg skb pkt direction flags mm = out at ha
      cases ha
      case drop hd =>
        obtain ⟨hf, hs⟩ := not_fragment_of_drop hs hd
        obtain ⟨_, _, pkt', _, _, hp, rfl, _⟩ := gate_eq_some hg
        exact .shot hp hf (dropped_of_scan hs hd)
      case pass  => exact .passed
      case sniff => exact .sniffed rfl (by simp [recordOf, pktHeader])
      case divert hs _ hb =>
        refine .stolen ?_ ?_ ?_
        · simp [recordOf, pktHeader, hb]
        · simp only [recordOf, Nat.min_eq_left hb]
          exact List.take_length
        · simpa [recordOf, pktHeader] using hsn

-- A stolen packet has been copied as a whole, a copy of another packet says so, only packets that a
-- rule drops are dropped, and everything else is let through.
theorem processPacket_recoverable (env : Env) (cfg : DivertConfig) (t : Tables) (skb : Skb)
    (direction : Dir) :
    ((processPacket env cfg t skb direction).act = .stolen → ∃ r,
      (processPacket env cfg t skb direction).record = some r ∧ r.header.capLen = skb.len ∧
      r.data = skb.bytes ∧ Flags.has r.header.flags pktSniffed = false) ∧
    (∀ r, (processPacket env cfg t skb direction).record = some r →
      (processPacket env cfg t skb direction).act ≠ .stolen →
      (processPacket env cfg t skb direction).act = .unspec ∧
      Flags.has r.header.flags pktSniffed ∧ r.data = skb.bytes.take (min skb.len
        (min (if cfg.snaplen = 0 then 65536 else cfg.snaplen.toNat) 65536))) ∧
    ((processPacket env cfg t skb direction).act = .shot →
      (processPacket env cfg t skb direction).record = none ∧ ∃ pkt,
      parsePacket skb.pulled = some pkt ∧ pkt.fragment = false ∧
      Dropped t { pkt with isLo := isLo cfg skb } direction) ∧
    ((processPacket env cfg t skb direction).act ≠ .stolen →
      (processPacket env cfg t skb direction).act ≠ .shot →
      (processPacket env cfg t skb direction).act = .unspec) := by
  have hh : Handled cfg t skb direction (processPacket env cfg t skb direction) :=
    processPacket_handled
  generalize processPacket env cfg t skb direction = out at hh
  have hs : snapLen cfg = min (if cfg.snaplen = 0 then 65536 else cfg.snaplen.toNat) 65536 := by
    simp [snapLen, divertMaxPacket]
  cases hh
  case stolen r _ hc hd hs => exact ⟨fun _ => ⟨r, rfl, hc, hd, hs⟩, by simp, by simp, by simp⟩
  case sniffed r _ hd hn =>
    refine ⟨by simp, ?_, by simp, fun _ _ => rfl⟩
    rintro _ ⟨⟩ _
    exact ⟨rfl, hn, hs ▸ hd⟩
  case shot pkt _ hp hf hd => exact ⟨by simp, by simp, fun _ => ⟨rfl, pkt, hp, hf, hd⟩, by simp⟩
  case passed => exact ⟨by simp, by simp, by simp, fun _ _ => rfl⟩

-- An echo request from 10.0.0.1 to 192.0.2.1.
def pingFrame : Bytes :=
  .replicate 12 2 ++ [0x08, 0x00] ++ [0x45, 0, 0, 28, 0, 0, 0x40, 0, 64, 1, 0, 0] ++
    [10, 0, 0, 1, 192, 0, 2, 1] ++ [8, 0, 0, 0, 0, 0, 0, 0]

-- A snapshot length of zero does not mean that nothing is copied.
theorem sniffed_whole : openConfig.snaplen.toNat = 0 ∧
    (processPacket okEnv openConfig (catchAll matchSniff) (sentSkb pingFrame) .outbound).act = .unspec ∧
    (processPacket okEnv openConfig (catchAll matchSniff) (sentSkb pingFrame) .outbound).record.map
      (·.data.length) = some 42 :=
  ⟨rfl, rfl, rfl⟩

end Kernel
