import EbpfDivert.Handle.Reflect
import EbpfDivert.Handle.Theorems.Fate
import EbpfDivert.Wd.Theorems.Serialize

-- The filters that a handle of the reflect layer reports.
namespace Handle.Reflect

-- What the registry has of a filter.
def RegEntry.stored (e : RegEntry) : Bytes :=
  e.filter.take e.filterLen

section Entry

variable {h : Handle} {timestamp : Int} {pid : BitVec 32} {priority : Int} {w : Bytes}
variable {e : RegEntry} {m : Malloc} {item : Item} {heap : Heap}

-- The stored bytes are what is delivered, unless there is no memory for them.
theorem content_record (hl : e.filterLen ≤ regFilterMax) (hf : item.filterOk) :
    content (record m item e heap).1 (record m item e heap).2 = some e.stored := by
  have hn : e.filterLen ≤ e.filter.length := e.filter_len ▸ hl
  simp [record, hf, hl, content, RegEntry.stored, hn]

def text (h : Handle) : Bytes :=
  Wd.serializeFilter h.filter.object

-- The outcomes of writing a filter into an entry.
theorem stored_of_lt (hl : (text h).length < regFilterMax) :
    (registryAdd h timestamp pid priority).filterLen = (text h).length + 1 ∧
    (registryAdd h timestamp pid priority).stored = text h ++ [0] := by
  obtain ⟨rest, hr⟩ : ∃ rest, Wd.filterSerialize h.filter (.replicate regFilterMax 0) =
      (text h ++ 0 :: rest, some ((text h).length + 1)) :=
    Wd.filterSerialize_of_lt (by rwa [List.length_replicate])
  simp only [RegEntry.stored, registryAdd, RegEntry.of, regFilter, hr, Option.getD_some, true_and]
  rw [List.take_length_add_append, List.take_one]
  rfl

theorem stored_of_eq {c : BitVec 8} (hw : text h = w ++ [c]) (hl : (text h).length = regFilterMax) :
    (registryAdd h timestamp pid priority).filterLen = regFilterMax ∧
    (registryAdd h timestamp pid priority).stored = w ++ [0] := by
  have hr : Wd.filterSerialize h.filter (.replicate regFilterMax 0) =
      (w ++ [0], some (List.replicate regFilterMax 0#8).length) :=
    Wd.filterSerialize_of_eq hw (by rwa [List.length_replicate])
  rw [hw, List.length_append, List.length_singleton] at hl
  simp only [RegEntry.stored, registryAdd, RegEntry.of, regFilter, hr, Option.getD_some,
    List.length_replicate, true_and]
  exact List.take_of_length_le (by simp [← hl])

theorem filterLen_of_gt (hl : regFilterMax < (text h).length) :
    (registryAdd h timestamp pid priority).filterLen = 0 := by
  have hr : (Wd.filterSerialize h.filter (.replicate regFilterMax 0)).2 = none :=
    Wd.filterSerialize_of_gt (by rwa [List.length_replicate])
  simp only [registryAdd, RegEntry.of, regFilter, hr, Option.getD_none]

theorem text_concat (hl : (text h).length = regFilterMax) : ∃ w c, text h = w ++ [c] := by
  refine (List.eq_nil_or_concat' _).resolve_left fun h₀ => ?_
  rw [h₀] at hl
  cases hl

theorem filterLen_le : (registryAdd h timestamp pid priority).filterLen ≤ regFilterMax := by
  obtain hl | hl | hl := Nat.lt_trichotomy (text h).length regFilterMax
  case inl => rw [(stored_of_lt hl).1]; exact hl
  case inr.inl =>
    obtain ⟨w, c, hw⟩ := text_concat hl
    exact (stored_of_eq hw hl).1.le
  case inr.inr => rw [filterLen_of_gt hl]; exact Nat.zero_le _

end Entry

section Compile

variable {compileText : Wd.Layer → Bytes → Option (List Wd.Insn)} {h : Handle} {w : Bytes}

-- The text of a filter is recognised as such.
theorem filterCompile_eq {layer : Wd.Layer} (hw : w.head? = some (Wd.chr '@')) :
    Wd.filterCompile compileText layer w =
      (Wd.deserializeFilter.run w).map fun r => ⟨layer, r.1⟩ := by
  rw [Wd.filterCompile, if_pos hw]
  cases Wd.deserializeFilter.run w <;> rfl

theorem filterCompile_of_lt (ho : Wd.Proper h.filter.object)
    (hr : ∀ insn ∈ h.filter.object, Wd.RoundTrips insn) (hl : h.filter.object.length < 256) :
    Wd.filterCompile compileText h.layer (text h ++ [0]) = some h.filter := by
  have hb : Wd.deserializeBody.Reads (text h) h.filter.object := Wd.reads_body ho hr hl
  rw [filterCompile_eq rfl, Wd.deserializeFilter_run hb, ← h.filter_layer]
  rfl

-- A text that fills the buffer has lost its last character.
theorem filterCompile_cut {c : BitVec 8} (ho : Wd.Proper h.filter.object)
    (hr : ∀ insn ∈ h.filter.object, Wd.RoundTrips insn) (hl : h.filter.object.length < 256)
    (hw : text h = w ++ [c]) (hn : (text h).length = regFilterMax) :
    Wd.filterCompile compileText h.layer (w ++ [0]) = none := by
  have hb : Wd.deserializeBody.Reads (text h) h.filter.object := Wd.reads_body ho hr hl
  have hh : (w ++ [0]).head? = some (Wd.chr '@') := by
    have ht : (text h).head? = some (Wd.chr '@') := rfl
    cases w
    case nil => rw [hw] at hn; cases hn
    case cons => rw [hw] at ht; exact ht
  rw [filterCompile_eq hh, Wd.deserializeFilter_cut (hw ▸ hb)]
  rfl

-- The longest filters are written without their tests.
theorem text_longest (hl : h.filter.object.length = 256) :
    text h = Wd.magic ++ Wd.serializeNumber 0 ++ Wd.serializeNumber 0 := by
  rw [text, Wd.serializeFilter, hl]
  exact List.append_nil _

theorem filterCompile_longest (hl : h.filter.object.length = 256) :
    Wd.filterCompile compileText h.layer (text h ++ [0]) = none := by
  rw [filterCompile_eq rfl, text_longest hl, Wd.deserializeFilter_empty]
  rfl

end Compile

-- The stored filter of a handle can be compiled, and is the same filter, exactly if it has less than
-- 256 tests and its text does not fill the entry to the last byte.
theorem reported_filter_iff {compileText : Wd.Layer → Bytes → Option (List Wd.Insn)} {h : Handle}
    {timestamp : Int} {pid : BitVec 32} {priority : Int} (ho : Wd.Proper h.filter.object)
    (hr : ∀ insn ∈ h.filter.object, Wd.RoundTrips insn)
    (hl : 0 < (registryAdd h timestamp pid priority).filterLen) :
    let e := registryAdd h timestamp pid priority
    (∀ m item heap, item.filterOk →
      content (record m item e heap).1 (record m item e heap).2 = some e.stored) ∧
    ((∃ f, Wd.filterCompile compileText h.layer e.stored = some f ∧
      ∀ hash packet addr, Wd.filterEval f hash packet addr =
        Wd.filterEval h.filter hash packet addr) ↔
    h.filter.object.length ≠ 256 ∧ (text h).length ≠ regFilterMax) := by
  refine ⟨fun _ _ _ hf => content_record filterLen_le hf, ?_⟩
  by_cases hn : h.filter.object.length = 256
  case pos =>
    have ht : (text h).length < regFilterMax := by rw [text_longest hn]; decide
    rw [(stored_of_lt ht).2, filterCompile_longest hn]
    simp [hn]
  case neg =>
    have hn' : h.filter.object.length < 256 := Nat.lt_of_le_of_ne ho.le_max hn
    obtain ht | ht | ht := Nat.lt_trichotomy (text h).length regFilterMax
    case inl =>
      rw [(stored_of_lt ht).2]
      exact iff_of_true ⟨h.filter, filterCompile_of_lt ho hr hn', fun _ _ _ => rfl⟩ ⟨hn, ht.ne⟩
    case inr.inl =>
      obtain ⟨w, c, hw⟩ := text_concat ht
      rw [(stored_of_eq hw ht).2, filterCompile_cut ho hr hn' hw ht]
      simp [ht]
    case inr.inr =>
      rw [filterLen_of_gt ht] at hl
      cases hl

-- `tcp.DstPort == 0 or tcp.DstPort == 1 or …` with `n` tests.
def portsObject (n : Nat) : List Wd.Insn :=
  (List.range n).map fun i =>
    { field   := .tcpDstPort
      test    := .eq
      success := Wd.resultAccept
      failure := if i + 1 = n then Wd.resultReject else i + 1
      neg     := false
      arg     := .ofNarrow (.ofNat 32 i) }

def portsHandle (n : Nat) : Handle :=
  networkHandle 0 noFlags_valid (portsObject n)

theorem proper_ports {n : Nat} (hn : 0 < n) (hm : n ≤ Wd.filterMaxLen) :
    Wd.Proper (portsHandle n).filter.object := by
  have hl : (portsHandle n).filter.object.length = n := by
    simp [portsHandle, networkHandle, portsObject]
  refine ⟨by rw [hl]; exact hn, by rw [hl]; exact hm, fun {i insn b} hi => ?_⟩
  obtain ⟨j, hj, rfl⟩ : ∃ j, (List.range n)[i]? = some j ∧ _ := by
    simpa [portsHandle, networkHandle, portsObject] using hi
  obtain ⟨hlt, rfl⟩ := List.getElem?_eq_some_iff.mp hj
  have hin : i < n := by simpa using hlt
  rw [hl, List.getElem_range]
  cases b
  case true => exact .inl rfl
  case false =>
    by_cases he : i + 1 = n
    case pos => exact .inr (.inl (if_pos he))
    case neg => exact .inr (.inr (by simp only [Wd.Insn.next, he, ↓reduceIte]; grind))

theorem roundTrips_ports {n : Nat} (hn : n ≤ 256) :
    ∀ insn ∈ (portsHandle n).filter.object, Wd.RoundTrips insn := by
  intro insn hm
  obtain ⟨i, hi, rfl⟩ := List.mem_map.mp hm
  refine Wd.roundTrips_of_canonical ⟨nofun, nofun, .inl rfl, ?_, rfl⟩
  dsimp only
  split
  case isTrue => exact .inr (.inl rfl)
  case isFalse =>
    have := List.mem_range.mp hi
    exact .inr (.inr (by rw [Wd.filterMaxLen]; omega))

theorem reported_filter_ports : ∃ f,
    Wd.filterCompile (fun _ _ => none) .network (registryAdd (portsHandle 2) 0 1 0).stored = some f ∧
    ∀ hash packet addr, Wd.filterEval f hash packet addr =
      Wd.filterEval (portsHandle 2).filter hash packet addr :=
  (reported_filter_iff (proper_ports (by decide) (by decide)) (roundTrips_ports (by decide))
    (by decide +kernel)).2.mpr
    ⟨by decide, by decide +kernel⟩

-- With 256 tests the registry has a text, but not one that can be compiled.
theorem reported_filter_lost :
    Wd.Proper (portsHandle 256).filter.object ∧
    (∀ insn ∈ (portsHandle 256).filter.object, Wd.RoundTrips insn) ∧
    (registryAdd (portsHandle 256) 0 1 0).filterLen = 11 ∧
    ∀ compileText, Wd.filterCompile compileText .network
      (registryAdd (portsHandle 256) 0 1 0).stored = none := by
  have hn : (portsHandle 256).filter.object.length = 256 := by
    simp [portsHandle, networkHandle, portsObject]
  have ht : (text (portsHandle 256)).length < regFilterMax := by rw [text_longest hn]; decide
  have hl : (registryAdd (portsHandle 256) 0 1 0).filterLen = _ ∧ _ := stored_of_lt ht
  refine ⟨proper_ports (by decide) (by decide), roundTrips_ports (by decide), ?_, fun _ => ?_⟩
  · rw [hl.1, text_longest hn]; decide
  · rw [hl.2]; exact filterCompile_longest hn

end Handle.Reflect
