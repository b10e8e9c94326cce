import EbpfDivert.Handle.Layout

namespace Handle

variable {addr : Address} {s : L2Stash} {b : Bytes} {i n : Nat}

@[simp]
theorem layerOf_layerCode {layer : Wd.Layer} : layerOf (layerCode layer) = layer := by
  cases layer <;> decide

theorem L2Stash.length_encode : s.encode.length = 4 + s.data.length := by
  simp [encode]
  omega

-- What has been stored is found again.
theorem getStash_store (h : 58 ≤ b.length) : getStash (b.store 32 s.encode) = some s := by
  have hl : s.data.length ≤ 22 := s.len_le
  have he := s.length_encode
  have hn : 32 + s.encode.length ≤ b.length := by omega
  have hm : (b.store 32 s.encode).byte 32 = l2StashMagic := by
    rw [Bytes.byte_store hn, if_pos (by omega)]
    rfl
  have hlen : ((b.store 32 s.encode).byte 33).toNat = s.data.length := by
    rw [Bytes.byte_store hn, if_pos (by omega)]
    exact Nat.mod_eq_of_lt (by omega)
  have hgso : (b.store 32 s.encode).slice 34 2 = .enc 2 s.gsoSize.toNat := by
    refine (Bytes.slice_store_inside (k := 2) (by omega) hn).trans ?_
    exact List.take_left' Bytes.length_enc
  have hdata : (b.store 32 s.encode).slice 36 s.data.length = s.data := by
    refine (Bytes.slice_store_inside (k := 4) (by omega) hn).trans ?_
    exact List.take_length
  have hok : ¬((b.store 32 s.encode).byte 32 ≠ l2StashMagic ∨
      l2StashMax < ((b.store 32 s.encode).byte 33).toNat) := by
    rw [not_or, not_not, hlen]
    exact ⟨hm, Nat.not_lt.mpr s.len_le⟩
  refine (dif_neg hok).trans ?_
  simp only [unionOffset, l2StashOffset, Nat.reduceAdd, hlen, hgso, hdata]
  rw [Bytes.dec_enc (by have := s.gsoSize.isLt; omega), BitVec.ofNat_toNat, BitVec.setWidth_eq]

namespace Address

-- The address of a packet: the other members of the union are not used.
structure OfPacket (addr : Address) : Prop where
  timestamp : ∃ t : BitVec 64, addr.timestamp = t.toInt
  flow      : addr.flow = ⟨0, 0, 0, .zero, .zero, 0, 0, 0⟩
  socket    : addr.socket = ⟨0, 0, 0, .zero, .zero, 0, 0, 0⟩
  reflect   : addr.reflect = ⟨0, 0, .network, 0, 0⟩

theorem length_encodeFixed : addr.encodeFixed.length = 80 := by
  simp [encodeFixed]

-- The stash lies behind everything else.
theorem slice_encode (h : i + n ≤ 32) : addr.encode.slice i n = addr.encodeFixed.slice i n := by
  rw [encode]
  split
  case h_1 => rfl
  case h_2 => exact Bytes.slice_store_outside (.inl h)

theorem encode_stash : getStash addr.encode = addr.stash := by
  rw [encode]
  split
  case h_2 h => rw [h]; exact getStash_store (by rw [length_encodeFixed]; omega)
  case h_1 h =>
    have hz : addr.encodeFixed.byte 32 = 0 := by
      simp [encodeFixed, unionOffset, Bytes.byte_store]
      rfl
    rw [h, getStash, dif_pos]
    exact .inl (by rw [unionOffset, l2StashOffset, hz]; decide)

theorem slice_timestamp :
    addr.encode.slice 0 8 = .enc 8 (BitVec.ofInt 64 addr.timestamp).toNat := by
  rw [slice_encode (by decide), encodeFixed, Bytes.slice_store_outside (.inl (by decide)),
    Bytes.slice_store_outside (.inl (by decide)), Bytes.slice_store_outside (.inl (by decide)),
    Bytes.slice_store Bytes.length_enc (by simp)]

theorem slice_ifIdx : addr.encode.slice 16 4 = .enc 4 addr.network.ifIdx.toNat := by
  rw [slice_encode (by decide), encodeFixed, Bytes.slice_store_outside (.inl (by decide)),
    unionOffset, Bytes.slice_store Bytes.length_enc (by simp)]

theorem slice_subIfIdx : addr.encode.slice 20 4 = .enc 4 addr.network.subIfIdx.toNat := by
  rw [slice_encode (by decide), encodeFixed, unionOffset,
    Bytes.slice_store Bytes.length_enc (by simp)]

theorem slice_layer :
    addr.encode.slice 8 3 = [layerCode addr.layer, addr.event, addr.flagBits] := by
  rw [slice_encode (by decide), encodeFixed, Bytes.slice_store_outside (.inl (by decide)),
    Bytes.slice_store_outside (.inl (by decide))]
  exact Bytes.slice_store rfl (by simp)

theorem byte_layer (h : i < 3) :
    addr.encode.byte (8 + i) = Bytes.byte [layerCode addr.layer, addr.event, addr.flagBits] i := by
  rw [← slice_layer, Bytes.byte_slice h]

-- An address that the application hands back is the one that it has got.
theorem decode_encode (h : addr.OfPacket) : decode addr.encode = addr := by
  obtain ⟨⟨t, ht⟩, hf, hs, hr⟩ := h
  have h₈ : addr.encode.byte 8 = layerCode addr.layer := byte_layer (i := 0) (by decide)
  have h₉ : addr.encode.byte 9 = addr.event := byte_layer (i := 1) (by decide)
  have h₁₀ : addr.encode.byte 10 = addr.flagBits := byte_layer (i := 2) (by decide)
  have hts : (BitVec.ofNat 64 (addr.encode.slice 0 8).dec).toInt = addr.timestamp := by
    rw [slice_timestamp, Bytes.dec_enc (BitVec.isLt _), BitVec.ofNat_toNat, BitVec.setWidth_eq, ht,
      BitVec.ofInt_toInt]
  have hif : BitVec.ofNat 32 (addr.encode.slice 16 4).dec = addr.network.ifIdx := by
    rw [slice_ifIdx, Bytes.dec_enc (BitVec.isLt _), BitVec.ofNat_toNat, BitVec.setWidth_eq]
  have hsub : BitVec.ofNat 32 (addr.encode.slice 20 4).dec = addr.network.subIfIdx := by
    rw [slice_subIfIdx, Bytes.dec_enc (BitVec.isLt _), BitVec.ofNat_toNat, BitVec.setWidth_eq]
  have hsf : addr.flow = addr.socket := hf.trans hs.symm
  rw [decode, encode_stash]
  simp only [unionOffset, Nat.reduceAdd, hts, h₈, h₉, h₁₀, hif, hsub, layerOf_layerCode, ← hf, ← hr]
  refine Eq.trans ?_ (congrArg (fun socket => { addr with socket }) hsf)
  simp [flagBits]

end Address

end Handle
