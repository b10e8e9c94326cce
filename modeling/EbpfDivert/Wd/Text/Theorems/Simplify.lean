import EbpfDivert.Wd.Text.Theorems.Flatten

-- A test that is decided by the compiler is decided as the evaluator would decide it, wherever its
-- variable has a value.
namespace Wd.Text

section Compare

-- A negative number counts one less than it is worth, which keeps `-0` apart from `0`.
def Number.key (n : Number) : Int :=
  if n.neg then -n.val.value - 1 else n.val.value

variable {m n : Number} {kind : Test} {a b c : Int} {r : Bool}

theorem compare_eq_of {o : Ordering} {x y : Nat} (ho : o = compare x y) (hl : x < y → a < b)
    (he : x = y → a = b) (hg : y < x → b < a) : o = compare a b := by
  rcases Nat.lt_trichotomy x y with h | h | h
  case inl     => rw [ho, Nat.compare_eq_lt.mpr h, compare_lt_iff_lt.mpr (hl h)]
  case inr.inl => rw [ho, Nat.compare_eq_eq.mpr h, compare_eq_iff_eq.mpr (he h)]
  case inr.inr => rw [ho, Nat.compare_eq_gt.mpr h, compare_gt_iff_gt.mpr (hg h)]

theorem compare128_eq : compare128 m.neg m.val n.neg n.val true = compare m.key n.key := by
  obtain ⟨neg, v⟩ := m
  obtain ⟨neg', v'⟩ := n
  have hc : Limbs.cmp v.limbs v'.limbs = compare v.value v'.value := Words.cmp128_eq_compare v v'
  cases neg <;> cases neg'
  case false.false => exact compare_eq_of hc (by simp [Number.key]) (by simp [Number.key]) (by simp [Number.key])
  case false.true =>
    have hlt : (v.value : Int) > -v'.value - 1 := by omega
    exact (compare_gt_iff_gt.mpr hlt).symm
  case true.false =>
    have hlt : (-v.value - 1 : Int) < v'.value := by omega
    exact (compare_lt_iff_lt.mpr hlt).symm
  case true.true =>
    have hs : (Limbs.cmp v.limbs v'.limbs).swap = compare v'.value v.value := by
      rw [hc, Nat.compare_swap]
    exact compare_eq_of hs (by simp [Number.key]) (by simp [Number.key]; omega) (by simp [Number.key])

theorem holds_int {v lit : Int} : kind.holds (compare v lit) =
    match kind with
    | .eq    => some (decide (v = lit))
    | .neq   => some (decide (v ≠ lit))
    | .lt    => some (decide (v < lit))
    | .leq   => some (decide (v ≤ lit))
    | .gt    => some (decide (lit < v))
    | .geq   => some (decide (lit ≤ v))
    | .other => none := by
  rcases lt_trichotomy v lit with h | h | h
  case inl     => rw [compare_lt_iff_lt.mpr h]; cases kind <;> simp [Test.holds] <;> omega
  case inr.inl => rw [compare_eq_iff_eq.mpr h]; cases kind <;> simp [Test.holds] <;> omega
  case inr.inr => rw [compare_gt_iff_gt.mpr h]; cases kind <;> simp [Test.holds] <;> omega

theorem holds_decided {eq : Bool} {lb ub v lit : Int} (hl : lb ≤ v) (hu : v ≤ ub)
    (he : eq → lb = ub) (h : decided kind eq (compare lit lb) (compare lit ub) = some r) :
    kind.holds (compare v lit) = some r := by
  rw [holds_int]
  cases kind
  case other => cases h
  all_goals
    simp only [decided, compare_lt_iff_lt, compare_gt_iff_gt, compare_eq_iff_eq, ne_eq] at h
    split_ifs at h <;> cases h <;> simp
    all_goals first | omega | grind

-- What cannot be decided lies between the bounds.
theorem le_of_not_decided {eq : Bool} {lb ub lit : Int} (hk : kind ≠ .other)
    (h : decided kind eq (compare lit lb) (compare lit ub) = none) : lb ≤ lit ∧ lit ≤ ub := by
  cases kind
  case other => exact absurd rfl hk
  all_goals
    simp only [decided, compare_lt_iff_lt, compare_gt_iff_gt, compare_eq_iff_eq, ne_eq] at h
    split_ifs at h
    omega

end Compare

section Readings

-- What the types of the source and the checks before a filter is evaluated guarantee.
structure InRange (x : Input) : Prop where
  timestamp : -2 ^ 63 ≤ x.timestamp ∧ x.timestamp < 2 ^ 63
  event     : x.event.toNat ≤ eventMax
  length    : x.layer = .network ∨ x.layer = .networkForward →
    ipHdrSize ≤ x.packet.length ∧ x.packet.length ≤ mtuMax
  payload   : x.payloadLen ≤ 0xFFFF
  priority  : -priorityMax ≤ x.reflectData.priority ∧ x.reflectData.priority ≤ priorityMax

-- Whatever is read.
def Always (p : Bool → Bool → Words → Prop) : Reading → Prop
  | .value neg big val => p neg big val
  | _                  => True

-- The values that are read are at most `k`, narrow and not negative.
def Below (k : Nat) : Reading → Prop :=
  Always fun neg big val => neg = false ∧ big = false ∧ val.value ≤ k

variable {x : Input} {f : Field} {arg : Words} {k n : Nat} {p q : Bool → Bool → Words → Prop}
  {r : Reading}

theorem Always.mono (h : Always p r) (hpq : ∀ {neg big val}, p neg big val → q neg big val) :
    Always q r := by
  cases r
  case value => exact hpq h
  all_goals trivial

theorem always_ofHeader {α : Type} {hdr : Option α} {g : α → Reading} (h : ∀ a, Always p (g a)) :
    Always p (.ofHeader hdr g) := by
  cases hdr
  case none   => trivial
  case some a => exact h a

theorem always_layered {network forward : Reading} {event : DataFlow → Reading}
    (hn : Always p network) (hf : Always p forward) (he : ∀ d, Always p (event d)) :
    Always p (x.layered network forward event) := by
  rw [Input.layered]
  split
  case h_1 => exact hn
  case h_2 => exact hf
  case h_5 => trivial
  all_goals exact he _

theorem Below.mono {j : Nat} (h : Below j r) (hk : j ≤ k) : Below k r :=
  Always.mono h fun h => ⟨h.1, h.2.1, h.2.2.trans hk⟩

theorem value_ofNarrow {w : BitVec 32} : (Words.ofNarrow w).value = w.toNat := by
  simp [Words.ofNarrow, Words.value_of]

theorem value_ofNat {m : Nat} (h : m < 2 ^ 32) : (Words.ofNarrow (.ofNat 32 m)).value = m := by
  rw [value_ofNarrow, BitVec.toNat_ofNat, Nat.mod_eq_of_lt h]

theorem below_narrow {w : BitVec 32} (h : w.toNat ≤ k) : Below k (.narrow w) :=
  ⟨rfl, rfl, value_ofNarrow ▸ h⟩

theorem below_setWidth (w : BitVec n) (hk : 2 ^ n ≤ k + 1) : Below k (.narrow (w.setWidth 32)) := by
  refine below_narrow ?_
  have := w.isLt
  rw [BitVec.toNat_setWidth]
  exact (Nat.mod_le ..).trans (by omega)

theorem below_word (w : BitVec 32) : Below 0xFFFFFFFF (.narrow w) :=
  below_narrow (Nat.le_of_lt_succ w.isLt)

theorem below_flag (b : Bool) : Below 1 (.flag b) :=
  below_narrow (by cases b <;> decide)

theorem below_data {packet : Bytes} {min max size : Nat} (hk : 2 ^ (8 * size) ≤ k + 1)
    (hs : size = 1 ∨ size = 2 ∨ size = 4) : Below k (.data packet min max arg size) := by
  rw [Reading.data]
  split
  case h_1 => trivial
  case h_2 b _ =>
    obtain rfl | rfl | rfl := hs
    case inl => exact below_setWidth (b.byte 0) hk
    case inr.inl => exact below_setWidth (b.be16 0) hk
    case inr.inr => exact (below_word (b.be32 0)).mono (Nat.le_of_succ_le_succ hk)

theorem below_and (v w : BitVec 32) : Below w.toNat (.narrow (v &&& w)) :=
  below_narrow (by rw [BitVec.toNat_and]; exact Nat.and_le_right)

theorem below_endpointPort (useSrc : Bool) : Below 0xFFFF (.narrow (x.endpointPort useSrc)) := by
  rw [Input.endpointPort]
  split
  case h_1 | h_2 => exact below_setWidth _ (by decide)
  case h_5 => exact below_narrow (by decide)
  all_goals
    split
    case isTrue => exact below_setWidth _ (by decide)
    case isFalse => exact below_narrow (by decide)

theorem readField_below (hx : InRange x) (hf : f ≠ .ipv6FlowLabel) (hk : narrowBound f = some k) :
    Below k (readField x f arg) := by
  have hp : Below 0xFFFF (.narrow (.ofNat 32 x.payloadLen)) :=
    below_narrow (by rw [BitVec.toNat_ofNat]; exact (Nat.mod_le ..).trans hx.payload)
  cases f <;> cases hk
  case ipv6FlowLabel => exact absurd rfl hf
  case zero => exact below_narrow (Nat.le_refl _)
  case icmp | icmpv6 | tcp | udp =>
    simp only [readField]
    exact always_layered (below_flag _) (below_flag _) fun _ => below_flag _
  case tcpPayloadLength | udpPayloadLength => exact always_ofHeader fun _ => hp
  case processId =>
    simp only [readField]
    split
    case isTrue => exact below_word _
    case isFalse => exact always_layered trivial trivial fun _ => below_word _
  case localPort | remotePort =>
    simp only [readField]
    exact always_layered (below_endpointPort _) trivial fun _ => below_setWidth _ (by decide)
  case protocol =>
    simp only [readField]
    exact always_layered (below_setWidth _ (by decide)) trivial fun _ => below_setWidth _ (by decide)
  case layer => exact below_narrow (by cases x.reflectData.layer <;> decide)
  case event => exact below_narrow hx.event
  case random8 | random16 => exact below_and ..
  all_goals first
    | exact always_ofHeader fun _ => below_setWidth _ (by decide)
    | exact always_ofHeader fun _ => below_flag _
    | exact below_flag _
    | exact below_word _
    | exact below_data (by decide) (by decide)
    | exact always_ofHeader fun _ => below_data (by decide) (by decide)

-- What is known of a value that was read from a field. The flow label is assembled in a way that
-- leaves its bounds.
structure Spanned (f : Field) (neg big : Bool) (val : Words) : Prop where
  positive : neg → 0 < val.value
  narrow   : big = false → val.value < 2 ^ 32
  small    : big = false → ∀ {lb ub}, fieldRange f = some (lb, ub) →
    lb.val.value < 2 ^ 32 ∧ ub.value < 2 ^ 32
  range    : f ≠ .ipv6FlowLabel → ∀ {lb ub}, fieldRange f = some (lb, ub) →
    lb.key ≤ Number.key ⟨neg, val⟩ ∧ Number.key ⟨neg, val⟩ ≤ Number.key ⟨false, ub⟩

variable {neg big : Bool} {val : Words}

theorem fieldRange_of_narrowBound (h : narrowBound f = some k) :
    fieldRange f = some (makeZero, .ofNarrow (.ofNat 32 k)) ∧ k < 2 ^ 32 := by
  cases f <;> cases h <;> exact ⟨rfl, by decide⟩

theorem spanned_of_below (hk : narrowBound f = some k) (hb : Below (2 ^ 32 - 1) r)
    (hf : f ≠ .ipv6FlowLabel → Below k r) : Always (Spanned f) r := by
  obtain ⟨hr, hlt⟩ := fieldRange_of_narrowBound hk
  have hu : (Words.ofNarrow (.ofNat 32 k)).value = k := value_ofNat hlt
  cases r
  case value neg big val =>
    obtain ⟨rfl, rfl, hv⟩ := hb
    refine ⟨by simp, fun _ => Nat.lt_of_le_pred (by decide) hv, fun _ _ _ he => ?_, fun hf' _ _ he => ?_⟩
    all_goals
      rw [hr] at he
      cases he
    case refine_1 => exact ⟨by decide, by rwa [hu]⟩
    case refine_2 =>
      have := (hf hf').2.2
      simp only [Number.key, makeZero, Words.value_zero, hu]
      simp
      omega
  all_goals trivial

-- Fields that have no bounds, and all of whose values have 32 bits.
theorem spanned_of_unbounded (hf : fieldRange f = none) (hb : Below 0xFFFFFFFF r) :
    Always (Spanned f) r := by
  refine Always.mono hb fun h => ?_
  obtain ⟨hn, -, hv⟩ := h
  refine ⟨by simp [hn], fun _ => Nat.lt_succ_of_le hv, fun _ _ _ he => ?_, fun _ _ _ he => ?_⟩ <;>
    · rw [hf] at he
      cases he

theorem spanned_wide {v lb ub : Words} (hr : fieldRange f = some (⟨false, lb⟩, ub))
    (hl : lb.value ≤ v.value) (hu : v.value ≤ ub.value) : Always (Spanned f) (.wide v) := by
  refine ⟨by simp, by simp, by simp, fun _ _ _ he => ?_⟩
  rw [hr] at he
  cases he
  simp only [Number.key]
  simp
  omega

theorem value_wide64 (v : BitVec 64) :
    (Words.of (v.setWidth 32) ((v >>> 32).setWidth 32) 0 0).value = v.toNat := by
  have := v.isLt
  simp only [Words.value_of, BitVec.toNat_setWidth, BitVec.toNat_ushiftRight, Nat.shiftRight_eq_div_pow]
  simp
  omega

theorem spanned_length (hx : InRange x) (hv : validateField x.layer .length) :
    Always (Spanned .length) (readField x .length arg) := by
  have hl : x.layer = .network ∨ x.layer = .networkForward := by
    cases h : x.layer <;> simp_all [validateField]
  obtain ⟨h₁, h₂⟩ := hx.length hl
  have hm : mtuMax < 2 ^ 32 := by decide
  have hval : (Words.ofNarrow (.ofNat 32 x.packet.length)).value = x.packet.length :=
    value_ofNat (by omega)
  refine ⟨by simp, fun _ => by rw [hval]; omega, fun _ _ _ he => ?_, fun _ _ _ he => ?_⟩ <;> cases he
  case refine_1 => decide
  case refine_2 =>
    simp only [Number.key, hval, value_ofNat hm, value_ofNat (show ipHdrSize < 2 ^ 32 by decide)]
    simp
    omega

-- A number is kept as its sign and its absolute value.
theorem key_ofInt {m : Int} {w : Words} (hw : w.value = m.natAbs) :
    Number.key ⟨m < 0, w⟩ = if m < 0 then m - 1 else m := by
  simp only [Number.key, hw, decide_eq_true_eq]
  split <;> omega

theorem spanned_priority (hx : InRange x) : Always (Spanned .priority) (readField x .priority arg) := by
  obtain ⟨h₁, h₂⟩ := hx.priority
  have hm : priorityMax < 2 ^ 32 := by decide
  have hval : (Words.ofNarrow (.ofNat 32 x.reflectData.priority.natAbs)).value =
      x.reflectData.priority.natAbs := value_ofNat (by omega)
  refine ⟨fun hn => ?_, fun _ => ?_, fun _ _ _ he => ?_, fun _ _ _ he => ?_⟩
  case refine_1 =>
    rw [decide_eq_true_eq] at hn
    rw [hval]
    omega
  case refine_2 => rw [hval]; omega
  case refine_3 => cases he; decide
  case refine_4 =>
    cases he
    rw [key_ofInt hval]
    simp only [Number.key, value_ofNat hm, if_true, Bool.false_eq_true, if_false]
    split <;> omega

theorem spanned_timestamp (hx : InRange x) :
    Always (Spanned .timestamp) (readField x .timestamp arg) := by
  obtain ⟨h₁, h₂⟩ := hx.timestamp
  have hval : (Words.of ((BitVec.ofNat 64 x.timestamp.natAbs).setWidth 32)
      ((BitVec.ofNat 64 x.timestamp.natAbs >>> 32).setWidth 32) 0 0).value = x.timestamp.natAbs := by
    rw [value_wide64, BitVec.toNat_ofNat, Nat.mod_eq_of_lt (by omega)]
  refine ⟨fun hn => ?_, by simp, by simp, fun _ _ _ he => ?_⟩
  case refine_1 =>
    rw [decide_eq_true_eq] at hn
    rw [hval]
    omega
  case refine_2 =>
    cases he
    rw [key_ofInt hval]
    simp only [Number.key, Words.value_of, if_true, Bool.false_eq_true, if_false]
    split <;> simp <;> omega

theorem readField_spanned (hx : InRange x) (hv : validateField x.layer f) :
    Always (Spanned f) (readField x f arg) := by
  have hmax (v : Words) : v.value ≤ Words.ones.value := Nat.le_sub_one_of_lt v.value_lt
  have hmapped (w : BitVec 32) : (Words.mapped 0).value ≤ (Words.mapped w).value ∧
      (Words.mapped w).value ≤ (Words.mapped 0xFFFFFFFF).value := by
    have := w.isLt
    simp only [Words.value_mapped]
    simp
    omega
  cases hk : narrowBound f
  case some k =>
    by_cases hf : f = .ipv6FlowLabel
    case pos =>
      subst hf
      exact spanned_of_below hk (always_ofHeader fun _ => below_word _) fun hn => absurd rfl hn
    case neg =>
      have hb : Below k (readField x f arg) := readField_below hx hf hk
      have hlt := (fieldRange_of_narrowBound hk).2
      exact spanned_of_below hk (hb.mono (by omega)) fun _ => hb
  case none =>
    cases f <;> cases hk
    case other => trivial
    case length => exact spanned_length hx hv
    case priority => exact spanned_priority hx
    case timestamp => exact spanned_timestamp hx
    case ipSrcAddr | ipDstAddr =>
      exact always_ofHeader fun _ => spanned_wide rfl (hmapped _).1 (hmapped _).2
    case ipv6SrcAddr | ipv6DstAddr =>
      exact always_ofHeader fun _ => spanned_wide rfl (Nat.zero_le _) (hmax _)
    case localAddr | remoteAddr =>
      simp only [readField]
      exact always_layered (spanned_wide rfl (Nat.zero_le _) (hmax _)) trivial
        fun _ => spanned_wide rfl (Nat.zero_le _) (hmax _)
    case endpointId | parentEndpointId =>
      simp only [readField]
      refine always_layered trivial trivial fun d => spanned_wide rfl (Nat.zero_le _) ?_
      rw [value_wide64]
      exact Nat.le_of_lt_succ (BitVec.isLt _)
    case loopback | impostor => exact spanned_of_unbounded rfl ((below_flag _).mono (by decide))
    case packet32 => exact spanned_of_unbounded rfl (below_data (by decide) (by decide))
    all_goals exact spanned_of_unbounded rfl (always_ofHeader fun _ => below_word _)

end Readings

section Tests

variable {x : Input} {t : TestExpr} {f : Field} {idx : BitVec 32} {b : Bounds} {r : Bool} {h : Header}
  {layer : Layer}

def Var.header : Var → Option Header
  | .field f _ => f.header
  | _          => none

def Var.Valid (layer : Layer) : Var → Prop
  | .field f _ => validateField layer f
  | _          => True

theorem bounds_type (hb : bounds t.var = some b) :
    b.type = t.var.header.elim .true (makeVar ∘ presence) := by
  cases hv : t.var <;> rw [hv] at hb
  case field f idx =>
    obtain ⟨⟨lb, ub⟩, -, rfl⟩ := Option.map_eq_some_iff.mp hb
    rfl
  all_goals
    cases hb
    rfl

theorem layer_of_header (hv : validateField layer f) (hf : f.header = some h) :
    layer = .network ∨ layer = .networkForward := by
  have : validateField layer f = decide (layer ∈ [.network, .networkForward]) := by
    cases f <;> cases hf <;> rfl
  simpa [this] using hv

-- The test that a decided one is replaced by asks for the header.
theorem answer_presence (hl : x.layer = .network ∨ x.layer = .networkForward) :
    answer x (TestExpr.insn ⟨.eq, makeVar (presence h), if r then makeOne else makeZero⟩) =
      some (x.hasHeader h == r) := by
  have hv : validateField x.layer (presence h) := by
    rcases hl with hl | hl <;> rw [hl] <;> cases h <;> rfl
  have hr : ∀ arg, readField x (presence h) arg = .flag (x.hasHeader h) := by
    intro arg
    rcases hl with hl | hl <;> cases h <;> simp [presence, readField, Input.layered, hl, Input.hasHeader]
  have ha : (TestExpr.insn ⟨.eq, makeVar (presence h), if r then makeOne else makeZero⟩).arg.word 0 =
      if r then 1 else 0 := by
    cases h <;> cases r <;> rfl
  rw [answer_flag hv (hr _) (by simp [TestExpr.insn, emitTest]), ha]
  cases x.hasHeader h <;> cases r <;> rfl

-- Only data of the packet depends on the argument of a test, by its index.
theorem readField_congr {a a' : Words} (h : isArray f → a.word 1 = a'.word 1) :
    readField x f a = readField x f a' := by
  have hd (packet : Bytes) (min max size : Nat) (ha : isArray f) :
      Reading.data packet min max a size = Reading.data packet min max a' size := by
    rw [Reading.data, Reading.data, h ha]
  cases f
  case packet | packet16 | packet32 => exact hd _ _ _ _ rfl
  case tcpPayload | tcpPayload16 | tcpPayload32 | udpPayload | udpPayload16 | udpPayload32 =>
    simp only [readField, hd _ _ _ _ rfl]
  all_goals rfl

theorem readField_emitArg (hv : t.var = .field f idx) :
    readField x f (emitArg t) = readField x f (.of 0 idx 0 0) := by
  refine readField_congr fun ha => ?_
  simp only [emitArg, hv, ha, if_true]
  rfl

theorem word_emitArg : (emitArg t).word 0 = t.val.val.word 0 := by
  rw [emitArg]
  split
  case h_1 => split <;> rfl
  case h_2 => rfl

theorem ofHeader_ne_error {α : Type} {hdr : Option α} {g : α → Reading} (hg : ∀ a, g a ≠ .error) :
    Reading.ofHeader hdr g ≠ .error := by
  cases hdr
  case none   => simp [Reading.ofHeader]
  case some a => exact hg a

theorem data_ne_error {packet : Bytes} {min max size : Nat} {arg : Words} :
    Reading.data packet min max arg size ≠ .error := by
  rw [Reading.data]
  split <;> simp [Reading.narrow]

-- A field that is valid on the layer can be read there.
theorem readField_ne_error (hv : validateField x.layer f) (arg : Words) : readField x f arg ≠ .error := by
  cases f
  case icmp | icmpv6 | tcp | udp | localAddr | remoteAddr | localPort | remotePort | protocol |
      processId | endpointId | parentEndpointId =>
    cases hl : x.layer <;> simp_all [validateField, readField, Input.layered, Reading.flag,
      Reading.narrow, Reading.wide, Reading.wide64]
  case other => cases hv
  case packet | packet16 | packet32 => exact data_ne_error
  case tcpPayload | tcpPayload16 | tcpPayload32 | udpPayload | udpPayload16 | udpPayload32 =>
    exact ofHeader_ne_error fun _ => data_ne_error
  all_goals first
    | exact Reading.noConfusion
    | exact ofHeader_ne_error fun _ => Reading.noConfusion

theorem value_of_lt {a : Words} (h : a.value < 2 ^ 32) : (a.word 0).toNat = a.value := by
  have := a.value_eq_words
  omega

-- Where all values have 32 bits, it is enough to compare the lowest words.
theorem compare128_narrow {a b b' : Words} {neg neg' : Bool} (ha : a.value < 2 ^ 32)
    (hb : b.value < 2 ^ 32) (hw : b'.word 0 = b.word 0) :
    compare128 neg a neg' b' false = compare128 neg a neg' b true := by
  have hc : Limbs.cmp a.limbs b.limbs = compare a.value b.value := Words.cmp128_eq_compare a b
  simp only [compare128, hw, hc, value_of_lt ha, value_of_lt hb]
  rfl

-- A number that is written as `-0` is the only one that does not compare as what it is worth.
def Number.Proper (n : Number) : Prop :=
  n.neg → 0 < n.val.value

theorem compare_key {m n : Number} (hm : m.Proper) (hn : n.Proper) :
    compare m.key n.key = compare m.value n.value := by
  have hlt : m.key < n.key ↔ m.value < n.value := by
    simp only [Number.key, Number.value, Number.Proper] at hm hn ⊢
    split_ifs <;> simp_all <;> omega
  have hgt : n.key < m.key ↔ n.value < m.value := by
    simp only [Number.key, Number.value, Number.Proper] at hm hn ⊢
    split_ifs <;> simp_all <;> omega
  rcases lt_trichotomy m.key n.key with h | h | h
  case inl     => rw [compare_lt_iff_lt.mpr h, compare_lt_iff_lt.mpr (hlt.mp h)]
  case inr.inl => rw [compare_eq_iff_eq.mpr h, compare_eq_iff_eq.mpr (by omega)]
  case inr.inr => rw [compare_gt_iff_gt.mpr h, compare_gt_iff_gt.mpr (hgt.mp h)]

theorem holds_of_value {v : Int} (hk : t.kind ≠ .other) (hv : t.var.value x = some v) :
    t.kind.holds (compare v t.val.value) = some (decide (t.Holds x)) := by
  have hh : t.Holds x ↔ t.kind.holds (compare v t.val.value) = some true := by
    simp [TestExpr.Holds, hv]
  cases hc : t.kind.holds (compare v t.val.value)
  case none   => cases hkind : t.kind <;> simp_all [Test.holds]
  case some r => cases r <;> simp [hh, hc]

theorem not_holds_of_none (hv : t.var.value x = none) : ¬t.Holds x := by
  simp [TestExpr.Holds, hv]

-- Data of the packet has 32 bits at most.
theorem readField_array (ha : isArray f) (arg : Words) : Below 0xFFFFFFFF (readField x f arg) := by
  cases f <;> cases ha
  case packet | packet16 | packet32 => exact below_data (by decide) (by decide)
  all_goals exact always_ofHeader fun _ => below_data (by decide) (by decide)

theorem emitArg_of_not_array (hv : t.var = .field f idx) (ha : isArray f = false) :
    emitArg t = t.val.val := by
  simp only [emitArg, hv, ha, Bool.false_eq_true, if_false]

-- The literals that the evaluator looks at as a whole: those within the bounds of the field, and
-- those of 32 bits where the field has no bounds.
structure Fitting (f : Field) (n : Number) : Prop where
  proper  : n.Proper
  narrow  : fieldRange f = none → n.val.value < 2 ^ 32
  between : ∀ {lb ub}, fieldRange f = some (lb, ub) →
    lb.key ≤ n.key ∧ n.key ≤ Number.key ⟨false, ub⟩

theorem Fitting.lt {n : Number} {neg : Bool} {val : Words} (h : Fitting f n)
    (hs : Spanned f neg false val) : n.val.value < 2 ^ 32 := by
  cases hr : fieldRange f
  case none => exact h.narrow hr
  case some range =>
    obtain ⟨lb, ub⟩ := range
    obtain ⟨hl, hu⟩ := hs.small rfl hr
    obtain ⟨h₁, h₂⟩ := h.between hr
    simp only [Number.key] at h₁ h₂
    split_ifs at h₁ h₂ <;> omega

-- A test that is left to the evaluator.
theorem answer_insn (hx : InRange x) (hk : t.kind ≠ .other) (hv : t.var = .field f idx)
    (hf : validateField x.layer f) (hn : Fitting f t.val) :
    answer x t.insn = some (decide (t.Holds x)) := by
  have hfield : t.insn.field = f := by simp [TestExpr.insn, emitTest, hv, kindToField]
  have hread : readField x t.insn.field t.insn.arg = readField x f (.of 0 idx 0 0) := by
    rw [hfield]
    exact readField_emitArg hv
  have hspan : Always (Spanned f) (readField x f (.of 0 idx 0 0)) := readField_spanned hx hf
  have harray := fun ha : isArray f => readField_array (x := x) ha (.of 0 idx 0 0)
  have hvalue : t.var.value x = readValue (readField x f (.of 0 idx 0 0)) := by rw [hv]; rfl
  cases hr : readField x f (.of 0 idx 0 0)
  case error => exact absurd hr (readField_ne_error hf _)
  case absent =>
    rw [hr] at hread hvalue
    rw [answer_absent (hfield ▸ hf) hread, decide_eq_false (not_holds_of_none hvalue)]
  case value neg big val =>
    rw [hr] at hread hvalue hspan harray
    have hcmp : compare128 neg val t.val.neg (emitArg t) big = compare (Number.value ⟨neg, val⟩) t.val.value := by
      rw [← compare_key (m := ⟨neg, val⟩) hspan.positive hn.proper, ← compare128_eq]
      cases big
      case true =>
        have ha : isArray f = false := Bool.eq_false_iff.mpr fun ha => by cases (harray ha).2.1
        rw [emitArg_of_not_array hv ha]
      case false => exact compare128_narrow (hspan.narrow rfl) (hn.lt hspan) word_emitArg
    rw [answer, if_pos (hfield ▸ hf), hread, ← holds_of_value hk hvalue, ← hcmp]
    rfl

-- What the compiler finds out about a test.
def TestExpr.ruled (t : TestExpr) : Option Bool :=
  (bounds t.var).bind fun b => decidedBy b t

theorem simplifyTest_of_ruled (hr : t.ruled = some r) : simplifyTest t =
    ⟨.eq, t.var.header.elim .true (makeVar ∘ presence), if r then makeOne else makeZero⟩ := by
  obtain ⟨b, hb, hd⟩ := Option.bind_eq_some_iff.mp hr
  simp only [simplifyTest, hb, hd, bounds_type hb]

theorem simplifyTest_of_not_ruled (hr : t.ruled = none) : simplifyTest t = t := by
  rw [simplifyTest]
  split
  case h_1 => rfl
  case h_2 b hb =>
    have hd : decidedBy b t = none := by rwa [TestExpr.ruled, hb] at hr
    rw [hd]

theorem decided_isSome {kind : Test} {lb : Ordering} (hk : kind ≠ .other) :
    (decided kind true lb lb).isSome := by
  cases kind
  case other => exact absurd rfl hk
  all_goals cases lb <;> rfl

theorem ruled_of_constant {c : Var} (hc : c = .true ∨ c = .false) (hk : t.kind ≠ .other)
    (hv : t.var = c) : t.ruled.isSome := by
  obtain rfl | rfl := hc
  all_goals
    simp only [TestExpr.ruled, hv, bounds, Option.bind_some]
    exact decided_isSome hk

theorem constant_of_not_ruled (hr : t.ruled = none) : constant t = none := by
  rw [constant, if_neg]
  rintro ⟨hk, hv⟩
  have := ruled_of_constant (.inl rfl) (by simp [hk]) hv
  rw [hr] at this
  cases this

theorem simplified_of_not_ruled (hr : t.ruled = none) :
    simplified (fun t => answer x t.insn) t = answer x t.insn := by
  rw [simplified, simplifyTest_of_not_ruled hr, constant_of_not_ruled hr, Option.none_or]

-- A test that is decided does not look at its field any more: what is left of it is the question
-- whether the header is there.
theorem simplified_of_ruled (hv : t.var.Valid x.layer) (hr : t.ruled = some r) :
    simplified (fun t => answer x t.insn) t =
      some (t.var.header.elim r fun h => x.hasHeader h == r) := by
  rw [simplified, simplifyTest_of_ruled hr]
  cases hh : t.var.header
  case none => cases r <;> rfl
  case some h =>
    obtain ⟨f, idx, hf⟩ : ∃ f idx, t.var = .field f idx := by
      cases hvar : t.var <;> rw [hvar] at hh <;> simp_all [Var.header]
    rw [hf] at hh hv
    have hc : constant ⟨.eq, makeVar (presence h), if r then makeOne else makeZero⟩ = none :=
      if_neg (by simp [makeVar])
    change (constant ⟨.eq, makeVar (presence h), if r then makeOne else makeZero⟩).or _ = _
    rw [hc, Option.none_or]
    exact answer_presence (layer_of_header hv hh)

theorem hasHeader_of_value {arg : Words} {v : Int} (hf : f.header = some h)
    (hv : readValue (readField x f arg) = some v) : x.hasHeader h := by
  by_contra hh
  have hr : readField x f arg = .absent := by
    cases f <;> cases hf <;>
      simp_all [readField, Reading.ofHeader, Input.hasHeader, Option.isSome_eq_false_iff]
  rw [hr] at hv
  cases hv

-- The tests that are compiled to what they say about the input. Where the compiler decides a test
-- whose variable has no value, the verdict has to be that of the missing header.
structure Exact (x : Input) (t : TestExpr) : Prop where
  kind   : t.kind ≠ .other
  valid  : t.var.Valid x.layer
  proper : t.val.Proper
  narrow : bounds t.var = none → t.val.val.value < 2 ^ 32
  label  : t.ruled.isSome → kindToField t.var ≠ .ipv6FlowLabel
  absent : ∀ {r}, t.ruled = some r → t.var.value x = none →
    r = t.var.header.any fun h => !x.hasHeader h

theorem Exact.fitting (he : Exact x t) (hv : t.var = .field f idx) (hr : t.ruled = none) :
    Fitting f t.val where
  proper  := he.proper
  narrow  h := he.narrow (by rw [hv, bounds, h]; rfl)
  between {lb ub} h := by
    simp only [TestExpr.ruled, hv, bounds, h, Option.map_some, Option.bind_some, decidedBy] at hr
    rw [compare128_eq (n := lb), compare128_eq (n := ⟨false, ub⟩)] at hr
    exact le_of_not_decided he.kind hr

-- Whatever the value of a variable is, it lies between the bounds.
theorem exists_number (hx : InRange x) (ht : t.var.Valid x.layer)
    (hl : kindToField t.var ≠ .ipv6FlowLabel) {v : Int} (hv : t.var.value x = some v)
    (hb : bounds t.var = some b) :
    ∃ m : Number, m.Proper ∧ m.value = v ∧ b.lb.key ≤ m.key ∧ m.key ≤ Number.key ⟨false, b.ub⟩ ∧
      (b.eq → b.lb.key = Number.key ⟨false, b.ub⟩) := by
  cases hvar : t.var <;> rw [hvar] at ht hl hv hb
  case true  => cases hv; cases hb; exact ⟨makeOne, by simp [Number.Proper, makeOne], by decide⟩
  case false => cases hv; cases hb; exact ⟨makeZero, by simp [Number.Proper, makeZero], by decide⟩
  case field f idx =>
    obtain ⟨⟨lb, ub⟩, hr, rfl⟩ := Option.map_eq_some_iff.mp hb
    have hspan : Always (Spanned f) (readField x f (.of 0 idx 0 0)) := readField_spanned hx ht
    rw [Var.value] at hv
    cases hread : readField x f (.of 0 idx 0 0) <;> rw [hread] at hv hspan <;> cases hv
    case value neg big val =>
      obtain ⟨h₁, h₂⟩ := hspan.range hl hr
      refine ⟨⟨neg, val⟩, hspan.positive, rfl, h₁, h₂, fun hz => ?_⟩
      cases of_decide_eq_true hz
      cases hr
      decide

theorem Exact.holds_ruled (hx : InRange x) (he : Exact x t) {v : Int} (hv : t.var.value x = some v)
    (hr : t.ruled = some r) : decide (t.Holds x) = r := by
  obtain ⟨b, hb, hd⟩ := Option.bind_eq_some_iff.mp hr
  have hl := he.label (by rw [hr]; rfl)
  obtain ⟨m, hm, rfl, h₁, h₂, h₃⟩ := exists_number hx he.valid hl hv hb
  have hh : t.kind.holds (compare m.key t.val.key) = some r := by
    rw [decidedBy, compare128_eq (n := b.lb), compare128_eq (n := ⟨false, b.ub⟩)] at hd
    exact holds_decided h₁ h₂ h₃ hd
  rw [compare_key hm he.proper, holds_of_value he.kind hv] at hh
  exact Option.some.inj hh

theorem Exact.simplified_eq (hx : InRange x) (he : Exact x t) :
    simplified (fun t => answer x t.insn) t = some (decide (t.Holds x)) := by
  cases hr : t.ruled
  case none =>
    rw [simplified_of_not_ruled hr]
    cases hv : t.var
    case field f idx =>
      have hf : validateField x.layer f := by have := he.valid; rwa [hv] at this
      exact answer_insn hx he.kind hv hf (he.fitting hv hr)
    all_goals
      have := ruled_of_constant (by simp) he.kind hv
      rw [hr] at this
      cases this
  case some r =>
    rw [simplified_of_ruled he.valid hr]
    cases hv : t.var.value x
    case none =>
      rw [decide_eq_false (not_holds_of_none hv), he.absent hr hv]
      cases t.var.header
      case none   => rfl
      case some h => cases hh : x.hasHeader h <;> simp [hh]
    case some v =>
      rw [he.holds_ruled hx hv hr]
      cases hh : t.var.header
      case none => rfl
      case some h =>
        have : x.hasHeader h := by
          cases hvar : t.var <;> rw [hvar] at hh hv
          case field f idx => exact hasHeader_of_value hh hv
          all_goals cases hh
        simp [this]

end Tests

section Expressions

variable {x : Input} {e : Expr} {ask : TestExpr → Option Bool}

instance Expr.decidableHolds {x : Input} : (e : Expr) → Decidable (e.Holds x)
  | .null             => isFalse id
  | .test t           => inferInstanceAs (Decidable (t.Holds x))
  | .and a b          =>
    have := decidableHolds (x := x) a
    have := decidableHolds (x := x) b
    inferInstanceAs (Decidable (a.Holds x ∧ b.Holds x))
  | .or a b           =>
    have := decidableHolds (x := x) a
    have := decidableHolds (x := x) b
    inferInstanceAs (Decidable (a.Holds x ∨ b.Holds x))
  | .question c th el =>
    have := decidableHolds (x := x) c
    have := decidableHolds (x := x) th
    have := decidableHolds (x := x) el
    inferInstanceAs (Decidable ((c.Holds x ∧ th.Holds x) ∨ (¬c.Holds x ∧ el.Holds x)))

-- Where all tests are answered by what they say, so is the expression.
theorem eval_eq_holds (hw : e.Whole) (h : ∀ t ∈ e.tests, ask t = some (decide (t.Holds x))) :
    e.eval ask = some (decide (e.Holds x)) := by
  induction e
  case null => cases hw
  case test t => exact h t List.mem_cons_self
  case and a b iha ihb =>
    have ha := iha hw.1 fun t ht => h t (List.mem_append_left _ ht)
    have hb := ihb hw.2 fun t ht => h t (List.mem_append_right _ ht)
    rw [Expr.eval, ha, hb]
    by_cases hh : a.Holds x <;> simp [Expr.Holds, hh]
  case or a b iha ihb =>
    have ha := iha hw.1 fun t ht => h t (List.mem_append_left _ ht)
    have hb := ihb hw.2 fun t ht => h t (List.mem_append_right _ ht)
    rw [Expr.eval, ha, hb]
    by_cases hh : a.Holds x <;> simp [Expr.Holds, hh]
  case question c th el ihc iht ihe =>
    have hc := ihc hw.1 fun t ht => h t (List.mem_append_left _ (List.mem_append_left _ ht))
    have ht := iht hw.2.1 fun t ht => h t (List.mem_append_left _ (List.mem_append_right _ ht))
    have he := ihe hw.2.2 fun t ht => h t (List.mem_append_right _ ht)
    rw [Expr.eval, hc, ht, he]
    by_cases hh : c.Holds x <;> simp [Expr.Holds, hh]

end Expressions

end Wd.Text
