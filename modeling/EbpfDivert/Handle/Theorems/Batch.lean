import EbpfDivert.Handle.Send
import EbpfDivert.Handle.Theorems.Recv
import EbpfDivert.Handle.Theorems.Unmodified
import EbpfDivert.Primitives.Pieces

-- How a buffer with several packets is taken apart and sent.
namespace Handle

variable {rest pkt data : Bytes} {n : Nat}

-- The length of the first packet, if there is one.
def packetLen (rest : Bytes) : Option Nat :=
  (Wd.parsePacket rest).map (totalLength rest)

-- What the parser checks besides the length.
inductive HasLen (rest : Bytes) (n : Nat) : Prop
  | v4 (hl : 20 ≤ rest.length) (hv : rest.byte 0 >>> 4 = 4)
    (h₅ : 5 ≤ ((rest.byte 0).setWidth 4).toNat) (ht : ((rest.byte 0).setWidth 4).toNat * 4 ≤ n)
    (hp : ((rest.byte 0).setWidth 4).toNat * 4 ≤ rest.length) (hn : n = (rest.be16 2).toNat)
  | v6 (hl : 40 ≤ rest.length) (hv : rest.byte 0 >>> 4 = 6) (hn : n = 40 + (rest.be16 4).toNat)

theorem packetLen_eq_some : packetLen rest = some n ↔ HasLen rest n := by
  rw [packetLen, Wd.parsePacket]
  constructor
  case mp =>
    intro h
    cases hl : Wd.locate rest
    case none => simp [hl] at h
    case some l =>
      simp only [hl, Option.bind_eq_bind, Option.bind_some, Option.map_some, Option.some.injEq] at h
      cases Wd.locate_eq_some.mp hl
      case v4 hlen hv h₅ ht hp => exact .v4 hlen hv h₅ (h ▸ ht) hp h.symm
      case v6 hlen hv          => exact .v6 hlen hv h.symm
  case mpr =>
    intro h
    cases h
    case v4 hl hv h₅ ht hp hn =>
      rw [Wd.locate_eq_some.mpr (.v4 hl hv h₅ (hn ▸ ht) hp), hn]
      rfl
    case v6 hl hv hn =>
      rw [Wd.locate_eq_some.mpr (.v6 hl hv), hn]
      rfl

theorem HasLen.le (h : HasLen rest n) : 20 ≤ n := by
  cases h <;> omega

-- A packet with nothing behind it has the same length.
theorem hasLen_take (hn : n ≤ rest.length) : HasLen (rest.take n) n ↔ HasLen rest n := by
  by_cases h₂₀ : 20 ≤ n
  case neg => exact iff_of_false (h₂₀ ∘ HasLen.le) (h₂₀ ∘ HasLen.le)
  case pos =>
    have hb : Bytes.byte (rest.take n) 0 = rest.byte 0 := Bytes.byte_take (by omega)
    have h₂ : Bytes.be16 (rest.take n) 2 = rest.be16 2 := Bytes.be16_take (by omega)
    have h₄ : Bytes.be16 (rest.take n) 4 = rest.be16 4 := Bytes.be16_take (by omega)
    have hlen : (rest.take n).length = n := List.length_take_of_le hn
    constructor
    case mp =>
      intro h
      cases h
      case v4 hl hv h₅ ht hp hn' =>
        rw [hb] at hv h₅ ht hp
        exact .v4 (by omega) hv h₅ ht (by omega) (h₂ ▸ hn')
      case v6 hl hv hn' => exact .v6 (by omega) (hb ▸ hv) (h₄ ▸ hn')
    case mpr =>
      intro h
      cases h
      case v4 hl hv h₅ ht hp hn' =>
        rw [← hb] at hv h₅ ht hp
        exact .v4 (by omega) hv h₅ ht (by omega) (h₂ ▸ hn')
      case v6 hl hv hn' => exact .v6 (by omega) (hb ▸ hv) (h₄ ▸ hn')

theorem packetLen_delimiting : Pieces.Delimiting packetLen where
  pos h     := by
    have := (packetLen_eq_some.mp h).le
    omega
  take hn   := by rw [packetLen_eq_some, packetLen_eq_some, hasLen_take hn]

section Send

variable {envs : Nat → SendEnv} {h : Handle} {buf : Buffer} {v : Nat} {addrs : List Address}
variable {s : Sending} {out : SendOut}

def Attempt.ok (a : Attempt) : Bool := a.res.isOk

-- The length of the packets that have been sent.
def total (attempts : List Attempt) : Nat :=
  ((attempts.filter Attempt.ok).map (·.pkt.length)).sum

-- Sends packets until one of them cannot be sent.
def sendAll (envs : Nat → SendEnv) : Nat → Handle → List (Bytes × Address) → List Attempt
  | _, _, []                  => []
  | i, h, (pkt, addr) :: rest =>
    let (res, h') := send (envs i) h pkt addr
    ⟨pkt, addr, res⟩ :: if res.isOk then sendAll envs (i + 1) h' rest else []

-- The packets that the buffer holds, each with its own address.
def parts (buf : Bytes) (addrs : List Address) : List (Bytes × Address) :=
  (Pieces.split packetLen addrs.length buf).1.zip addrs

-- One iteration of the loop.
inductive Iterated (envs : Nat → SendEnv) (buf : Buffer) (v : Nat) (addr : Address)
    (addrs : List Address) (s : Sending) (rest : Bytes) : Option SendOut → Prop
  | empty (he : rest = []) : Iterated envs buf v addr addrs s rest (some (s.finish none))
  | unknown (he : rest ≠ []) (hn : packetLen rest = none) : Iterated envs buf v addr addrs s rest
      (some (s.leave (if s.i = 0 then some (.errno .inval) else none) v))
  | short {plen : Nat} (he : rest ≠ []) (hn : packetLen rest = some plen) (hl : rest.length < plen) :
    Iterated envs buf v addr addrs s rest (some (s.leave (some (.errno .inval)) v))
  | wrapped {plen : Nat} (he : rest ≠ []) (hn : packetLen rest = some plen)
    (hl : rest.length < plen) : Iterated envs buf v addr addrs s rest none
  | failed {plen : Nat} {e : SendError} {h : Handle} (he : rest ≠ [])
    (hn : packetLen rest = some plen) (hl : plen ≤ rest.length)
    (hs : send (envs s.i) s.handle (rest.take plen) addr = (.error e, h)) :
    Iterated envs buf v addr addrs s rest (some (Sending.finish
      ⟨s.i, s.off, s.sent, s.attempts ++ [⟨rest.take plen, addr, .error e⟩], h⟩ (some e)))
  | sent {plen : Nat} {x : Sent} {h : Handle} (he : rest ≠ [])
    (hn : packetLen rest = some plen) (hl : plen ≤ rest.length)
    (hs : send (envs s.i) s.handle (rest.take plen) addr = (.ok x, h)) :
    Iterated envs buf v addr addrs s rest (sendLoop envs buf v addrs ⟨s.i + 1, s.off + plen,
      s.sent + plen, s.attempts ++ [⟨rest.take plen, addr, .ok x⟩], h⟩)

theorem sendLoop_iterated {addr : Address} (ho : s.off ≤ buf.len) :
    Iterated envs buf v addr addrs s (buf.bytes.drop s.off)
      (sendLoop envs buf v (addr :: addrs) s) := by
  have hlen : (buf.bytes.drop s.off).length = buf.len - s.off := List.length_drop
  have hlt := buf.len_lt
  rw [← Buffer.len] at hlt
  rw [sendLoop]
  split
  case isTrue hle => exact .empty (List.length_eq_zero_iff.mp (by omega))
  case isFalse hle =>
    have hne : buf.bytes.drop s.off ≠ [] := by
      intro he
      rw [he, List.length_nil] at hlen
      omega
    split
    case h_1 hp => exact .unknown hne (by rw [packetLen, hp]; rfl)
    case h_2 info hp =>
      have hn : packetLen (buf.bytes.drop s.off) =
        some (totalLength (buf.bytes.drop s.off) info) := by rw [packetLen, hp]; rfl
      have h₂₀ := (packetLen_eq_some.mp hn).le
      dsimp only
      generalize totalLength (buf.bytes.drop s.off) info = plen at hn h₂₀
      split
      case isTrue hw =>
        refine .short hne hn ?_
        obtain hw | hw := hw
        case inl => omega
        case inr => have := Nat.mod_le (s.off + plen) (2 ^ 32); omega
      case isFalse hw =>
        split
        case isTrue hl => exact .wrapped hne hn (by omega)
        case isFalse hl =>
          rcases hs : send (envs s.i) s.handle ((buf.bytes.drop s.off).take plen) addr with ⟨res, h⟩
          cases res
          case error e => exact .failed hne hn (by omega) hs
          case ok x    => exact .sent hne hn (by omega) hs

theorem parts_cons {addr : Address} {plen : Nat} (he : rest ≠ []) (hn : packetLen rest = some plen)
    (hl : plen ≤ rest.length) :
    parts rest (addr :: addrs) = (rest.take plen, addr) :: parts (rest.drop plen) addrs := by
  rw [parts, List.length_cons, Pieces.split_cons he hn hl]
  rfl

-- The packets of the buffer are sent one after the other.
theorem sendLoop_attempts (ho : s.off ≤ buf.len) (h : sendLoop envs buf v addrs s = some out) :
    out.attempts = s.attempts ++ sendAll envs s.i s.handle (parts (buf.bytes.drop s.off) addrs) := by
  induction addrs generalizing s
  case nil =>
    cases h
    rw [parts, List.zip_nil_right, sendAll, List.append_nil]
    rfl
  case cons addr addrs ih =>
    have hi : Iterated envs buf v addr addrs s _ _ := sendLoop_iterated ho
    have hlen : (buf.bytes.drop s.off).length = buf.len - s.off := List.length_drop
    have hnil {qs : Pieces.Ending} (hs : Pieces.split packetLen (addrs.length + 1)
        (buf.bytes.drop s.off) = ([], qs)) :
        s.attempts = s.attempts ++ sendAll envs s.i s.handle
          (parts (buf.bytes.drop s.off) (addr :: addrs)) := by
      rw [parts, List.length_cons, hs, List.zip_nil_left, sendAll, List.append_nil]
    rw [h] at hi
    generalize hr : buf.bytes.drop s.off = rest at hi hlen hnil
    generalize hx : some out = x at hi
    cases hi
    case empty he =>
      cases hx
      exact hnil (he ▸ Pieces.split_nil)
    case unknown he hn =>
      cases hx
      exact hnil (Pieces.split_unknown he hn)
    case short he hn hl =>
      cases hx
      exact hnil (Pieces.split_short he hn hl)
    case wrapped => cases hx
    case failed plen e h' he hn hl hs =>
      cases hx
      rw [parts_cons he hn hl, sendAll, hs]
      rfl
    case sent plen x h' he hn hl hs =>
      rw [ih (by simp only; omega) hx.symm, parts_cons he hn hl, sendAll, hs, List.append_assoc,
        ← hr, List.drop_drop]
      rfl

-- The call returns unless a packet is cut off.
theorem sendLoop_isSome (ho : s.off ≤ buf.len)
    (he : (Pieces.split packetLen addrs.length (buf.bytes.drop s.off)).2 ≠ .short) :
    (sendLoop envs buf v addrs s).isSome := by
  induction addrs generalizing s
  case nil => rfl
  case cons addr addrs ih =>
    have hi : Iterated envs buf v addr addrs s _ _ := sendLoop_iterated ho
    have hlen : (buf.bytes.drop s.off).length = buf.len - s.off := List.length_drop
    generalize hr : buf.bytes.drop s.off = rest at hi hlen he
    generalize hx : sendLoop envs buf v (addr :: addrs) s = x at hi
    cases hi
    case wrapped hne hn hl => exact absurd (by rw [List.length_cons, Pieces.split_short hne hn hl]) he
    case sent plen x h' hne hn hl hs =>
      rw [List.length_cons, Pieces.split_cons hne hn hl] at he
      refine ih (by simp only; omega) ?_
      rwa [← hr, List.drop_drop] at he
    all_goals rfl

section Report

-- The caller is told what has been sent, and of an error only if nothing has.
structure Reports (out : SendOut) : Prop where
  sendLen : out.sendLen = total out.attempts
  ret     : out.ret.isSome → ∀ a ∈ out.attempts, a.ok = false

-- When a call that has sent all the packets it found reports so: it leaves `send_len` as it was if
-- it does not find the next one.
def Told (v : Nat) (qs : List Bytes) : Pieces.Ending → Prop
  | .enough | .empty => True
  | .unknown         => v = qs.flatten.length
  | .short           => v = 0 ∧ qs = []

-- What has been sent before an iteration.
structure Sending.Good (s : Sending) : Prop where
  i    : s.i = s.attempts.length
  sent : s.sent = (s.attempts.map (·.pkt)).flatten.length
  ok   : ∀ a ∈ s.attempts, a.ok ∧ 0 < a.pkt.length

theorem Sending.Good.total (hg : s.Good) : total s.attempts = s.sent := by
  have hf : s.attempts.filter Attempt.ok = s.attempts :=
    List.filter_eq_self.mpr fun a ha => (hg.ok a ha).left
  rw [Handle.total, hf, hg.sent, List.length_flatten, List.map_map]
  rfl

theorem Sending.Good.eq_nil (hg : s.Good) (h : s.sent = 0) : s.attempts = [] := by
  rw [hg.sent, List.length_flatten, List.sum_eq_zero_iff_forall_eq_nat] at h
  refine List.eq_nil_iff_forall_not_mem.mpr fun a ha => ?_
  have hp := (hg.ok a ha).right
  have hz := h a.pkt.length (by simpa using ⟨a, ha, rfl⟩)
  omega

theorem Sending.Good.next {addr : Address} {x : Sent} {h : Handle} (hg : s.Good)
    (hn : pkt.length = n) (hp : 0 < n) :
    Sending.Good ⟨s.i + 1, s.off + n, s.sent + n, s.attempts ++ [⟨pkt, addr, .ok x⟩], h⟩ where
  i    := by simp [hg.i]
  sent := by simp [hg.sent, hn]
  ok a ha := by
    obtain ha | ha := List.mem_append.mp ha
    case inl => exact hg.ok a ha
    case inr =>
      obtain rfl := List.mem_singleton.mp ha
      exact ⟨rfl, hn ▸ hp⟩

theorem Sending.Good.finish (hg : s.Good) : Reports (s.finish none) where
  sendLen := hg.total.symm
  ret h   := by simp [Sending.finish] at h

theorem Sending.Good.failed {addr : Address} {e : SendError} {h : Handle} (hg : s.Good) :
    Reports (Sending.finish ⟨s.i, s.off, s.sent, s.attempts ++ [⟨pkt, addr, .error e⟩], h⟩ (some e)) := by
  constructor
  case sendLen =>
    have hn : [(⟨pkt, addr, .error e⟩ : Attempt)].filter Attempt.ok = [] := rfl
    simp only [Sending.finish, Handle.total, List.filter_append, hn, List.append_nil]
    exact hg.total.symm
  case ret =>
    intro hr a ha
    by_cases hs : s.sent = 0
    case neg => simp [Sending.finish, hs] at hr
    case pos =>
      simp only [Sending.finish, hg.eq_nil hs, List.nil_append, List.mem_singleton] at ha
      rw [ha]
      rfl

theorem Sending.Good.unknown (hg : s.Good) :
    Reports (s.leave (if s.i = 0 then some (.errno .inval) else none) v) ↔
      Told v (s.attempts.map (·.pkt)) .unknown := by
  rw [Told, ← hg.sent, ← hg.total]
  refine ⟨fun h => h.sendLen, fun h => ⟨h, fun hr a ha => ?_⟩⟩
  by_cases hi : s.i = 0
  case neg => simp [Sending.leave, hi] at hr
  case pos =>
    have hn : s.attempts = [] := List.length_eq_zero_iff.mp (hg.i ▸ hi)
    simp [Sending.leave, hn] at ha

theorem Sending.Good.short (hg : s.Good) :
    Reports (s.leave (some (.errno .inval)) v) ↔ Told v (s.attempts.map (·.pkt)) .short := by
  rw [Told, List.map_eq_nil_iff]
  constructor
  case mp =>
    intro h
    have hn : s.attempts = [] := by
      refine List.eq_nil_iff_forall_not_mem.mpr fun a ha => ?_
      have := h.ret rfl a ha
      simp [(hg.ok a ha).left] at this
    have hv : v = Handle.total s.attempts := h.sendLen
    exact ⟨by rw [hv, hn]; rfl, hn⟩
  case mpr =>
    intro ⟨hv, hn⟩
    exact ⟨by simp [Sending.leave, hn, hv, Handle.total], fun _ a ha => by
      simp [Sending.leave, hn] at ha⟩

-- The report is right unless the loop is left between two packets.
theorem sendLoop_reports (ho : s.off ≤ buf.len) (hg : s.Good)
    (h : sendLoop envs buf v addrs s = some out) : Reports out ↔
      ((∀ a ∈ sendAll envs s.i s.handle (parts (buf.bytes.drop s.off) addrs), a.ok) →
        Told v (s.attempts.map (·.pkt) ++
            (Pieces.split packetLen addrs.length (buf.bytes.drop s.off)).1)
          (Pieces.split packetLen addrs.length (buf.bytes.drop s.off)).2) := by
  induction addrs generalizing s
  case nil =>
    cases h
    exact iff_of_true hg.finish fun _ => trivial
  case cons addr addrs ih =>
    have hi : Iterated envs buf v addr addrs s _ _ := sendLoop_iterated ho
    have hlen : (buf.bytes.drop s.off).length = buf.len - s.off := List.length_drop
    rw [h] at hi
    generalize hr : buf.bytes.drop s.off = rest at hi hlen ⊢
    generalize hx : some out = x at hi
    rw [List.length_cons]
    cases hi
    case empty he =>
      cases hx
      rw [he, Pieces.split_nil]
      exact iff_of_true hg.finish fun _ => trivial
    case unknown he hn =>
      cases hx
      rw [parts, List.length_cons, Pieces.split_unknown he hn, List.zip_nil_left, sendAll,
        List.append_nil, hg.unknown]
      exact (imp_iff_right (List.forall_mem_nil _)).symm
    case short he hn hl =>
      cases hx
      rw [parts, List.length_cons, Pieces.split_short he hn hl, List.zip_nil_left, sendAll,
        List.append_nil, hg.short]
      exact (imp_iff_right (List.forall_mem_nil _)).symm
    case wrapped => cases hx
    case failed plen e h' he hn hl hs =>
      cases hx
      refine iff_of_true hg.failed fun hall => ?_
      rw [parts_cons he hn hl, sendAll, hs] at hall
      have hf := hall ⟨rest.take plen, addr, .error e⟩ List.mem_cons_self
      exact absurd hf Bool.false_ne_true
    case sent plen x h' he hn hl hs =>
      have hp : (rest.take plen).length = plen := List.length_take_of_le hl
      have hg' : Sending.Good ⟨s.i + 1, s.off + plen, s.sent + plen,
        s.attempts ++ [⟨rest.take plen, addr, .ok x⟩], h'⟩ :=
          hg.next hp (packetLen_delimiting.pos hn)
      have hall : (∀ a ∈ sendAll envs s.i s.handle ((rest.take plen, addr) ::
          parts (rest.drop plen) addrs), a.ok) ↔
          ∀ a ∈ sendAll envs (s.i + 1) h' (parts (rest.drop plen) addrs), a.ok := by
        rw [sendAll, hs]
        exact List.forall_mem_cons.trans (and_iff_right rfl)
      rw [ih (by simp only; omega) hg' hx.symm, ← List.drop_drop, hr, parts_cons he hn hl, hall,
        Pieces.split_cons he hn hl, List.map_append, List.append_assoc]
      rfl

end Report

theorem sendAll_map {i : Nat} {xs : List (Bytes × Address)}
    (hok : ∀ a ∈ sendAll envs i h xs, a.ok) :
    (sendAll envs i h xs).map (fun a => (a.pkt, a.addr)) = xs := by
  induction xs generalizing i h
  case nil => rfl
  case cons x xs ih =>
    obtain ⟨pkt, addr⟩ := x
    rcases hs : send (envs i) h pkt addr with ⟨res, h'⟩
    rw [sendAll, hs] at hok
    obtain ⟨hx, hxs⟩ := List.forall_mem_cons.mp hok
    rw [sendAll, hs]
    simp only [Attempt.ok] at hx
    simp only [hx, ↓reduceIte] at hxs ⊢
    rw [List.map_cons, ih hxs]

end Send

-- The call reports what it has sent unless it stops at something behind packets that have all been
-- sent, which is no packet or only the start of one.
theorem sendEx_reports_iff {envs : Nat → SendEnv} {h : Handle} {buf : Buffer} {v : Nat}
    {addrs : List Address} {out : SendOut} (hs : sendEx envs h buf v addrs = some out) :
    Reports out ↔ ((∀ a ∈ sendAll envs 0 h (parts buf.bytes addrs), a.ok) →
      Told v (Pieces.split packetLen addrs.length buf.bytes).1
        (Pieces.split packetLen addrs.length buf.bytes).2) :=
  sendLoop_reports (Nat.zero_le _) ⟨rfl, rfl, List.forall_mem_nil _⟩ hs

def calmSends : Nat → SendEnv :=
  fun _ => ⟨calmEnv, false⟩

def datagramAddress : Address :=
  recordAddress calmEnv synHandle (datagramRecord [0, 0]).header (datagram [0, 0])

-- A datagram and the first bytes of another one.
def cutBuffer : Buffer where
  bytes  := (datagram [0, 0]).drop 14 ++ ((datagram [0, 0]).drop 14).take 24
  len_lt := by decide

theorem sendEx_reports_iff_first : ∃ out,
    sendEx calmSends synHandle cutBuffer 0 [datagramAddress] = some out ∧ Reports out := by
  obtain ⟨out, hs⟩ : ∃ out, sendEx calmSends synHandle cutBuffer 0 [datagramAddress] = some out :=
    ⟨_, rfl⟩
  exact ⟨out, hs, (sendEx_reports_iff hs).mpr fun _ => trivial⟩

-- The call fails although the first datagram has been sent.
theorem sendEx_misreports : ∃ out,
    sendEx calmSends synHandle cutBuffer 0 [datagramAddress, datagramAddress] = some out ∧
      out.ret.isSome ∧ out.sendLen = 0 ∧ total out.attempts = 28 :=
  ⟨_, rfl, rfl, rfl, rfl⟩

section Returned

variable {fdOk : Bool} {flags : BitVec 64} {addrLen : BitVec 32} {waits : List Round}
variable {rounds : Stream' Round} {q : Queue} {es : List Entry} {buf : Buffer} {b b' : Batch}
variable {new : List (Nat × Entry)}

-- The memory that the caller of `ebpfdivert_recv_ex` has got back, up to the returned length.
def Batch.packets (b : Batch) : Buffer where
  bytes  := (b.buf.getD []).take (b.used % 2 ^ 32)
  len_lt := by
    rw [List.length_take]
    have := Nat.mod_lt b.used (show 0 < 2 ^ 32 by decide)
    omega

structure Batch.Returned (b : Batch) : Prop where
  bytes : b.packets.bytes = b.taken.flatMap (·.2.data)
  addrs : b.addrs = b.taken.map (·.2.addr)

theorem Looped.used (hl : Looped q (some buf) n rounds es b new b') (hb : b.used ≤ buf.len)
    (hi : ∀ x ∈ new, x.1 + x.2.len ≤ buf.len) :
    b'.used = b.used + (new.flatMap (·.2.data)).length ∧ b'.used ≤ buf.len := by
  induction hl
  case take b b' q' front e rest new ho hs ht hl ih =>
    have ⟨hr, hi⟩ := List.forall_mem_cons.mp hi
    have hu : (b.copy e q').used = b.used + e.len :=
      Nat.mod_eq_of_lt <| Nat.lt_of_le_of_lt hr buf.len_lt
    obtain ⟨hl, hle⟩ := ih (hu ▸ hr) hi
    refine ⟨?_, hle⟩
    rw [hl, hu, List.flatMap_cons, List.length_append, Nat.add_assoc]
    rfl
  all_goals exact ⟨rfl, hb⟩

theorem Looped.returned {e : Entry} {q' : Queue} (hl : Looped q (some buf) n rounds es
    ((Batch.start (some buf) q').copy e q') new b') (hin : ∀ x ∈ b'.taken, x.1 + x.2.len ≤ buf.len) :
    b'.Returned := by
  have ht : b'.taken = (0, e) :: new := hl.taken
  obtain ⟨he, hnew⟩ := List.forall_mem_cons.mp (ht ▸ hin)
  rw [Nat.zero_add] at he
  have hu : ((Batch.start (some buf) q').copy e q').used = e.data.length := by
    rw [Batch.copy, Batch.start, Nat.zero_add]
    exact Nat.mod_eq_of_lt <| Nat.lt_of_le_of_lt he buf.len_lt
  have hb := hl.bytes hnew hu.symm (by rw [hu]; simp [Batch.copy, Batch.start, memcpy])
  obtain ⟨hused, hle⟩ := hl.used (hu ▸ he) hnew
  have hlt : b'.used % 2 ^ 32 = b'.used := Nat.mod_eq_of_lt <| Nat.lt_of_le_of_lt hle buf.len_lt
  constructor
  case bytes =>
    change (b'.buf.getD []).take (b'.used % 2 ^ 32) = _
    rw [hlt, hb, Option.getD_some, hused, hu, ht, List.flatMap_cons]
    exact List.take_left' List.length_append
  case addrs => rw [hl.addrs, ht]; rfl

theorem recvEx_returned (hc : q.Contents es)
    (hr : recvEx fdOk flags (some buf) addrLen waits rounds q = some (none, b))
    (hin : ∀ x ∈ b.taken, x.1 + x.2.len ≤ buf.len) : b.Returned := by
  rw [recvEx] at hr
  split at hr
  case isTrue => cases hr
  case isFalse =>
    split at hr
    case isTrue => cases hr
    case isFalse =>
      obtain ⟨res, hn, hw⟩ := hc.nextEntry fdOk waits
      rw [hn] at hr
      cases hw
      case error => cases hr
      case ok e rest q' hf hc' hq =>
        simp only [Option.bind_eq_bind, Option.bind_some] at hr
        split at hr
        case isTrue => cases hr
        case isFalse hb =>
          obtain ⟨new, b', hl, hloop⟩ := recvLoop_looped fdOk (some buf) (addrLen.toNat - 1) rounds
            ((Batch.start (some buf) q').copy e q') hc' hq
          rw [hl] at hr
          cases hr
          exact hloop.returned hin

-- A packet without what the link layer has put behind it.
def ipBytes (data : Bytes) : Bytes :=
  Pieces.first packetLen data

-- The packets of a batch can be told apart again: each of them is complete, and the buffer starts
-- with the packets alone.
structure Batch.Separable (b : Batch) : Prop where
  complete : ∀ x ∈ b.taken, ∃ n ≤ x.2.len, packetLen x.2.data = some n
  close    : (b.taken.flatMap fun x => ipBytes x.2.data) <+: b.taken.flatMap (·.2.data)

theorem Batch.Returned.split_iff (hb : b.Returned) :
    (Pieces.split packetLen b.addrs.length b.packets.bytes).1 =
      b.taken.map (fun x => ipBytes x.2.data) ↔ b.Separable := by
  have hlen : b.addrs.length = (b.taken.map fun x => ipBytes x.2.data).length := by
    rw [hb.addrs, List.length_map, List.length_map]
  have hfirst (x : Nat × Entry) : packetLen (ipBytes x.2.data) = some (ipBytes x.2.data).length ↔
      ∃ n ≤ x.2.len, packetLen x.2.data = some n := Pieces.len_first_iff packetLen_delimiting
  rw [hlen, Pieces.split_eq_iff packetLen_delimiting, List.forall_mem_map, hb.bytes,
    ← List.flatMap_def]
  simp only [hfirst]
  exact ⟨fun ⟨h₁, h₂⟩ => ⟨h₁, h₂⟩, fun ⟨h₁, h₂⟩ => ⟨h₁, h₂⟩⟩

variable {envs : Nat → SendEnv} {h : Handle} {v : Nat} {out : SendOut}

theorem sendEx_attempts (hs : sendEx envs h b.packets v b.addrs = some out)
    (hok : ∀ a ∈ out.attempts, a.ok) :
    out.attempts.map (fun a => (a.pkt, a.addr)) = parts b.packets.bytes b.addrs := by
  have ha : out.attempts = sendAll envs 0 h (parts b.packets.bytes b.addrs) :=
    sendLoop_attempts (Nat.zero_le _) hs
  rw [ha] at hok ⊢
  exact sendAll_map hok

-- Sending what has been received sends every packet again if and only if they can be told apart.
theorem sendEx_recvEx_iff (hc : q.Contents es)
    (hr : recvEx fdOk flags (some buf) addrLen waits rounds q = some (none, b))
    (hin : ∀ x ∈ b.taken, x.1 + x.2.len ≤ buf.len)
    (hok : ∀ out, sendEx envs h b.packets v b.addrs = some out → ∀ a ∈ out.attempts, a.ok) :
    (∃ out, sendEx envs h b.packets v b.addrs = some out ∧
      out.attempts.map (fun a => (a.pkt, a.addr)) =
        b.taken.map fun x => (ipBytes x.2.data, x.2.addr)) ↔ b.Separable := by
  have hb := recvEx_returned hc hr hin
  have hzip : (b.taken.map fun x => ipBytes x.2.data).zip b.addrs =
      b.taken.map fun x => (ipBytes x.2.data, x.2.addr) := by
    rw [hb.addrs, List.zip_map']
  rw [← hb.split_iff]
  constructor
  case mp =>
    intro ⟨out, hs, he⟩
    rw [sendEx_attempts hs (hok out hs), parts, ← hzip] at he
    have hle : (Pieces.split packetLen b.addrs.length b.packets.bytes).1.length ≤ b.addrs.length :=
      Pieces.length_split ..
    have hfst := congrArg (List.map Prod.fst) he
    rwa [List.map_fst_zip hle, List.map_fst_zip (by rw [hb.addrs]; simp)] at hfst
  case mpr =>
    intro he
    have hn : (Pieces.split packetLen b.addrs.length b.packets.bytes).1.length = b.addrs.length := by
      rw [he, hb.addrs, List.length_map, List.length_map]
    have hshort : (Pieces.split packetLen b.addrs.length b.packets.bytes).2 ≠ .short := by
      rw [Pieces.ending_of_split hn]
      nofun
    obtain ⟨out, hs⟩ : ∃ out, sendEx envs h b.packets v b.addrs = some out :=
      Option.isSome_iff_exists.mp <| sendLoop_isSome (Nat.zero_le _) hshort
    exact ⟨out, hs, by rw [sendEx_attempts hs (hok out hs), parts, he, hzip]⟩

end Returned

-- A datagram as it is queued, with what an Ethernet device puts behind it or without.
def plainDatagram : Entry :=
  ⟨⟨datagramAddress, (datagram [0, 0]).drop 14⟩, by decide⟩

def paddedDatagram : Entry :=
  ⟨⟨{ datagramAddress with outbound := false }, (datagram [0, 0]).drop 14 ++ .replicate 18 0⟩,
    by decide⟩

def plainQueue : Queue :=
  (consumeRing true [plainDatagram, plainDatagram] .opened).get rfl

def paddedQueue : Queue :=
  (consumeRing true [paddedDatagram, paddedDatagram] .opened).get rfl

theorem contents_plainQueue : plainQueue.Contents [plainDatagram, plainDatagram] :=
  Queue.contents_arrived (Option.some_get rfl).symm

def largeBuffer : Buffer where
  bytes  := .replicate 100 0
  len_lt := by decide

def received (q : Queue) : Option (Option RecvError × Batch) :=
  recvEx true 0 (some largeBuffer) 8 [quiet 0] (.const (quiet 0)) q

def plainBatch : Batch :=
  ((received plainQueue).get rfl).2

def paddedBatch : Batch :=
  ((received paddedQueue).get rfl).2

theorem sendEx_recvEx_iff_plain :
    received plainQueue = some (none, plainBatch) ∧ plainBatch.taken.length = 2 ∧
      plainBatch.Separable := by
  have hr : received plainQueue = some (none, plainBatch) := rfl
  have hok (out : SendOut) (ho : sendEx calmSends synHandle plainBatch.packets 0 plainBatch.addrs =
      some out) : ∀ a ∈ out.attempts, a.ok := by
    cases ho
    decide
  exact ⟨hr, rfl, (sendEx_recvEx_iff contents_plainQueue hr (by decide) hok).mp ⟨_, rfl, rfl⟩⟩

-- The bytes behind the first packet are taken for the second one.
theorem sendEx_loses : ∃ out, received paddedQueue = some (none, paddedBatch) ∧
    paddedBatch.taken.length = 2 ∧
    sendEx calmSends synHandle paddedBatch.packets 0 paddedBatch.addrs = some out ∧
    (∀ a ∈ out.attempts, a.ok) ∧ out.attempts.length = 1 ∧ out.ret = none :=
  ⟨_, rfl, rfl, rfl, by decide, rfl, rfl⟩

end Handle
