import EbpfDivert.Wd.Text.Theorems.Numbers
import Mathlib.Data.List.Induction

-- Addresses that were written are read back.
namespace Wd.Text

section IPv4

variable {str rest : CString} {n : Words} {left : Nat} {acc addr : BitVec 32}

theorem aToI_suffix (h : aToI str = some (n, rest)) : rest = str.dropWhile Char.isDigit := by
  rw [aToI] at h
  split at h
  case isFalse => cases h
  case isTrue =>
    by_cases hv : digitsValue Char.isDigit 10 Words.zero.value str < 2 ^ 128
    case pos =>
      obtain ⟨n', hr, -⟩ := readDigits_of_lt (by decide) hv
      rw [hr] at h
      cases h
      rfl
    case neg =>
      rw [readDigits_of_le (Nat.le_of_not_lt hv)] at h
      cases h

theorem parseIPv4Part_suffix (h : parseIPv4Part left acc str = some (addr, rest)) : rest <:+ str := by
  simp only [parseIPv4Part, Option.bind_eq_bind, Option.bind_eq_some_iff] at h
  obtain ⟨⟨n, rest'⟩, ha, -, -, h⟩ := h
  cases h
  exact aToI_suffix ha ▸ List.dropWhile_suffix _

-- There is no address without a dot.
theorem parseIPv4Address_of_not_mem (h : '.' ∉ str) : parseIPv4Address str = none := by
  rw [parseIPv4Address, parseIPv4From]
  split
  case h_1 addr rest hp => exact absurd ((parseIPv4Part_suffix hp).subset List.mem_cons_self) h
  case h_2 => rfl

-- One part of an address, and what has been read of it so far.
def addPart (acc : BitVec 32) (left d : Nat) : BitVec 32 :=
  acc ||| BitVec.ofNat 32 d <<< (8 * left)

theorem word_of_value {d : Nat} (hd : d < 2 ^ 32) (hn : n.value = d) : n.word 0 = .ofNat 32 d := by
  refine BitVec.eq_of_toNat_eq ?_
  have := n.value_eq_words
  rw [BitVec.toNat_ofNat, Nat.mod_eq_of_lt hd]
  omega

theorem parseIPv4Part_toDigits {d : Nat} (hd : d ≤ 0xFF) (hs : ∀ c ∈ rest.head?, c.isDigit = false) :
    parseIPv4Part left acc (Nat.toDigits 10 d ++ rest) = some (addPart acc left d, rest) := by
  obtain ⟨n, ha, hn⟩ := aToI_toDigits (by omega : d < 2 ^ 128) hs
  have hw := word_of_value (by omega) hn
  have hg : (BitVec.ofNat 32 d).toNat ≤ 0xFF := by rw [BitVec.toNat_ofNat]; omega
  simp only [parseIPv4Part, ha, hw, hg, guard, addPart, Option.bind_eq_bind, Option.bind_some, if_true]
  rfl

theorem parseIPv4From_part {d : Nat} (hd : d ≤ 0xFF) :
    parseIPv4From (left + 1) acc (Nat.toDigits 10 d ++ '.' :: str) =
      parseIPv4From left (addPart acc (left + 1) d) str := by
  conv_lhs => rw [parseIPv4From, parseIPv4Part_toDigits hd (by simp)]
  rfl

theorem parseIPv4From_last {d : Nat} (hd : d ≤ 0xFF) :
    parseIPv4From 0 acc (Nat.toDigits 10 d) = some (addPart acc 0 d) := by
  have hpart : parseIPv4Part 0 acc (Nat.toDigits 10 d ++ []) = some (addPart acc 0 d, []) :=
    parseIPv4Part_toDigits hd (by simp)
  rw [List.append_nil] at hpart
  rw [parseIPv4From, hpart]

theorem shiftLeft_mask {m : BitVec 32} {s : Nat} (hm : ∀ i < s, m.getLsbD i = false) :
    ((addr &&& m) >>> s) <<< s = addr &&& m := by
  refine BitVec.eq_of_getLsbD_eq fun i hi => ?_
  simp only [BitVec.getLsbD_shiftLeft, BitVec.getLsbD_ushiftRight, BitVec.getLsbD_and, hi, decide_true,
    Bool.true_and]
  by_cases h : i < s
  case pos => simp [h, hm i h]
  case neg => simp [h, Nat.add_sub_cancel' (Nat.le_of_not_lt h)]

theorem addPart_bytes (addr : BitVec 32) :
    addPart (addPart (addPart (addPart 0 3 ((addr &&& 0xFF000000) >>> 24).toNat) 2
      ((addr &&& 0x00FF0000) >>> 16).toNat) 1 ((addr &&& 0x0000FF00) >>> 8).toNat) 0
      (addr &&& 0x000000FF).toNat = addr := by
  have h : addr &&& (0xFF000000 ||| 0x00FF0000 ||| 0x0000FF00 ||| 0x000000FF) = addr :=
    BitVec.and_allOnes
  have h₀ (a : BitVec 32) : 0 ||| a = a := BitVec.zero_or
  simp only [addPart, BitVec.ofNat_toNat, BitVec.setWidth_eq, Nat.reduceMul, Nat.mul_zero,
    BitVec.shiftLeft_zero, h₀]
  rw [shiftLeft_mask (by decide), shiftLeft_mask (by decide), shiftLeft_mask (by decide)]
  simpa only [BitVec.and_or_distrib_left] using h

theorem part_le {s : Nat} {m : BitVec 32} (hm : m.toNat / 2 ^ s ≤ 0xFF) : ((addr &&& m) >>> s).toNat ≤ 0xFF := by
  rw [BitVec.toNat_ushiftRight, Nat.shiftRight_eq_div_pow, BitVec.toNat_and]
  exact (Nat.div_le_div_right Nat.and_le_right).trans hm

theorem last_part_le : (addr &&& 0x000000FF).toNat ≤ 0xFF :=
  part_le (s := 0) (m := 0x000000FF) (by decide)

theorem parseIPv4Address_format (addr : BitVec 32) :
    parseIPv4Address (formatIPv4Addr addr) = some addr := by
  simp only [parseIPv4Address, formatIPv4Addr, formatDecNumber32_eq]
  rw [parseIPv4From_part (part_le (by decide)), parseIPv4From_part (part_le (by decide)),
    parseIPv4From_part (part_le (by decide)), parseIPv4From_last last_part_le, addPart_bytes]

end IPv4

section Groups

variable {g : BitVec 16} {gs pre post : List (BitVec 16)} {str rest : CString} {left last : Bool}
  {acc : Groups} {more : Nat} {next : Groups → CString → Option Groups}

def hex (g : BitVec 16) : CString :=
  Nat.toDigits 16 g.toNat

theorem formatHexNumber_group (g : BitVec 16) : formatHexNumber (.ofNarrow (g.setWidth 32)) = hex g := by
  have hv : (Words.ofNarrow (g.setWidth 32)).value = g.toNat := by
    have := g.isLt
    simp only [Words.ofNarrow, Words.value_of, BitVec.toNat_setWidth]
    simp
    omega
  rw [formatHexNumber_eq, hv, hex]

theorem isXDigit_of_mem_hex {c : Char} (hc : c ∈ hex g) : isXDigit c := by
  obtain ⟨d, hd, rfl⟩ := Digits.mem_toDigits (by decide) hc
  exact isXDigit_digitChar hd

theorem length_hex (g : BitVec 16) : (hex g).length ≤ 4 :=
  (Nat.length_toDigits_le_iff (by decide) (by decide)).mpr g.isLt

theorem parseGroup_hex (hr : ∀ c ∈ rest.head?, isXDigit c = false) :
    parseGroup (hex g ++ rest) = some (g, rest) := by
  have hdigits : ((hex g ++ rest).take 4).takeWhile isXDigit = hex g := by
    have hstop : (rest.take (4 - (hex g).length)).takeWhile isXDigit = [] := by
      cases rest
      case nil => simp
      case cons c rest =>
        cases 4 - (hex g).length
        case zero => rfl
        case succ => simp [hr c rfl]
    rw [List.take_append, List.take_of_length_le (length_hex g),
      List.takeWhile_append_of_pos fun c => isXDigit_of_mem_hex, hstop, List.append_nil]
  have hlt := g.isLt
  obtain ⟨n, hn, -, hv⟩ := @aToX_toDigits [] g.toNat (by omega) (by simp)
  rw [List.append_nil, ← hex] at hn
  have hw : (n.word 0).setWidth 16 = g := by
    rw [word_of_value (by omega) hv]
    simp
  simp only [parseGroup, hdigits, hn, Option.bind_eq_bind, Option.bind_some, hw, List.drop_left]

-- Groups that are written one after the other have no dots between them.
def joined : List (BitVec 16) → CString
  | []      => []
  | [g]     => hex g
  | g :: gs => hex g ++ ':' :: joined gs

def leading (gs : List (BitVec 16)) : CString :=
  gs.flatMap fun g => hex g ++ [':']

theorem dot_not_mem_hex : '.' ∉ hex g :=
  fun h => by cases isXDigit_of_mem_hex h

theorem dot_not_mem_joined : '.' ∉ joined gs := by
  induction gs using joined.induct
  case case1 => simp [joined]
  case case2 => exact dot_not_mem_hex
  case case3 g gs _ ih => simp [joined, dot_not_mem_hex, ih]

theorem dot_not_mem_leading : '.' ∉ leading gs := by
  simp [leading, dot_not_mem_hex]

theorem parseGroupThen_colon (hd : '.' ∉ str) :
    parseGroupThen next last left acc (hex g ++ ':' :: str) = next (acc.push left g) str := by
  have hn : parseIPv4Address (hex g ++ ':' :: str) = none :=
    parseIPv4Address_of_not_mem (by simp [dot_not_mem_hex, hd])
  have hp : parseGroup (hex g ++ ':' :: str) = some (g, ':' :: str) := parseGroup_hex (by simp [isXDigit])
  simp [parseGroupThen, hn, hp]

theorem parseGroupThen_end (h : left = false ∨ last = true) :
    parseGroupThen next last left acc (hex g) = some (acc.push left g) := by
  have hn : parseIPv4Address (hex g) = none := parseIPv4Address_of_not_mem dot_not_mem_hex
  have hp : parseGroup (hex g ++ []) = some (g, []) := parseGroup_hex (by simp)
  rw [List.append_nil] at hp
  have hc : ¬left = true ∨ last = true := by simpa using h
  simp only [parseGroupThen, hn, hp, ite_self, if_pos hc]

theorem push_left : acc.push true g = { acc with laddr := acc.laddr ++ [g] } := rfl

theorem push_right : acc.push false g = { acc with raddr := acc.raddr ++ [g] } := rfl

theorem head_hex (g : BitVec 16) : ∃ c s, hex g = c :: s ∧ c ≠ ':' := by
  obtain ⟨c, s, h⟩ := List.exists_cons_of_ne_nil (Nat.toDigits_ne_nil (b := 16) (n := g.toNat))
  refine ⟨c, s, h, ?_⟩
  rintro rfl
  cases isXDigit_of_mem_hex (g := g) (h ▸ List.mem_cons_self)

-- A group comes next, not a second colon.
theorem parseGroups_hex : parseGroups (more + 1) left acc (hex g ++ str) =
    parseGroupThen (parseGroups more left) (more = 0) left acc (hex g ++ str) := by
  obtain ⟨c, s, h, hc⟩ := head_hex g
  rw [parseGroups, if_neg (by simp [h, hc])]

-- The groups before the `::`, or before the end of an address without it.
theorem parseGroups_leading (hl : pre.length ≤ more) (hd : '.' ∉ str) :
    parseGroups more true acc (leading pre ++ str) =
      parseGroups (more - pre.length) true { acc with laddr := acc.laddr ++ pre } str := by
  induction pre generalizing more acc
  case nil => simp [leading]
  case cons g pre ih =>
    obtain ⟨more, rfl⟩ : ∃ k, more = k + 1 := ⟨more - 1, by simp at hl; omega⟩
    have hl' : pre.length ≤ more := by simpa using hl
    have hs : leading (g :: pre) ++ str = hex g ++ ':' :: (leading pre ++ str) := by simp [leading]
    rw [hs, parseGroups_hex, parseGroupThen_colon (by simp [dot_not_mem_leading, hd]), push_left, ih hl']
    simp

-- The groups behind the `::`.
theorem parseGroups_joined (hl : gs.length ≤ more) (hne : gs ≠ []) :
    parseGroups more false acc (joined gs) = some { acc with raddr := acc.raddr ++ gs } := by
  induction gs generalizing more acc
  case nil => exact absurd rfl hne
  case cons g gs ih =>
    obtain ⟨more, rfl⟩ : ∃ k, more = k + 1 := ⟨more - 1, by simp at hl; omega⟩
    cases gs
    case nil =>
      have hlast : parseGroups (more + 1) false acc (hex g ++ []) =
          parseGroupThen (parseGroups more false) (more = 0) false acc (hex g ++ []) := parseGroups_hex
      rw [List.append_nil] at hlast
      rw [joined, hlast, parseGroupThen_end (.inl rfl)]
      rfl
    case cons g' gs =>
      have hl' : (g' :: gs).length ≤ more := by simpa using hl
      rw [joined, parseGroups_hex, parseGroupThen_colon dot_not_mem_joined, push_right, ih hl' (by simp)]
      · simp
      · simp

theorem joined_ne_nil (h : gs ≠ []) : joined gs ≠ [] := by
  cases gs
  case nil => exact absurd rfl h
  case cons g gs =>
    obtain ⟨c, s, hc, -⟩ := head_hex g
    cases gs <;> simp [joined, hc]

theorem parseGroups_colon {m : Nat} {l : List (BitVec 16)} (hl : post.length ≤ m + 1) :
    parseGroups (m + 1) true ⟨l, [], none⟩ (':' :: joined post) = some ⟨l, post, none⟩ := by
  by_cases hp : post = []
  case pos => simp [parseGroups, hp, joined]
  case neg =>
    obtain ⟨g, post, rfl⟩ := List.exists_cons_of_ne_nil hp
    have hj : parseGroups (m + 1) false ⟨l, [], none⟩ (joined (g :: post)) = some ⟨l, [] ++ g :: post, none⟩ :=
      parseGroups_joined hl hp
    obtain ⟨s, hs⟩ : ∃ s, joined (g :: post) = hex g ++ s := by
      cases post
      case nil  => exact ⟨[], by simp [joined]⟩
      case cons => exact ⟨_, rfl⟩
    rw [hs, parseGroups_hex, ← hs] at hj
    rw [parseGroups, if_pos List.head?_cons, if_neg (by simp), List.tail_cons, if_neg (joined_ne_nil hp), hj]
    rfl

-- An address does not start with a colon if there is a group before the `::`.
theorem splitIPv6Address_of_head {c : Char} (hc : c ≠ ':') :
    splitIPv6Address (c :: str) = parseGroups 8 true ⟨[], [], none⟩ (c :: str) := by
  rw [splitIPv6Address]
  all_goals simp [hc]

-- An address with a `::`.
theorem splitIPv6Address_run (h : pre.length + post.length ≤ 7) :
    splitIPv6Address ((if pre = [] then [':', ':'] else leading pre ++ [':']) ++ joined post) =
      some ⟨pre, post, none⟩ := by
  by_cases hp : pre = []
  case pos =>
    subst hp
    by_cases hq : post = []
    case pos => subst hq; rfl
    case neg =>
      obtain ⟨c, s, hs⟩ := List.exists_cons_of_ne_nil (joined_ne_nil hq)
      have hj : parseGroups 8 false ⟨[], [], none⟩ (joined post) = some ⟨[], [] ++ post, none⟩ :=
        parseGroups_joined (by simp at h; omega) hq
      rw [hs] at hj ⊢
      exact hj
  case neg =>
    rw [if_neg hp, List.append_assoc, List.singleton_append]
    obtain ⟨g, pre, rfl⟩ := List.exists_cons_of_ne_nil hp
    obtain ⟨c, s, hs, hc⟩ := head_hex g
    have hhead : ∃ t, leading (g :: pre) ++ ':' :: joined post = c :: t := by
      simp [leading, hs]
    obtain ⟨t, ht⟩ := hhead
    have hlen : 8 - (g :: pre).length = 7 - (g :: pre).length + 1 := by omega
    rw [ht, splitIPv6Address_of_head hc, ← ht,
      parseGroups_leading (by omega) (by simp [dot_not_mem_joined]), hlen, parseGroups_colon (by omega)]
    rfl

theorem joined_concat : joined (pre ++ [g]) = leading pre ++ hex g := by
  induction pre
  case nil => rfl
  case cons g' pre ih =>
    obtain ⟨g'', rest, h⟩ := List.exists_cons_of_ne_nil (show pre ++ [g] ≠ [] by simp)
    rw [h] at ih
    rw [List.cons_append, h, joined, ih]
    · simp [leading]
    · simp

-- An address without it.
theorem splitIPv6Address_joined (h : gs.length = 8) : splitIPv6Address (joined gs) = some ⟨gs, [], none⟩ := by
  obtain ⟨pre, g, rfl⟩ := (List.eq_nil_or_concat gs).resolve_left (by rintro rfl; cases h)
  rw [List.concat_eq_append] at h ⊢
  have hpre : pre.length = 7 := by simpa using h
  obtain ⟨g', pre', hp⟩ := List.exists_cons_of_ne_nil (show pre ≠ [] by rintro rfl; cases hpre)
  obtain ⟨c, s, hs, hc⟩ := head_hex g'
  obtain ⟨t, ht⟩ : ∃ t, leading pre ++ hex g = c :: t := by simp [leading, hp, hs]
  have hlast : parseGroups 1 true ⟨pre, [], none⟩ (hex g ++ []) =
      parseGroupThen (parseGroups 0 true) true true ⟨pre, [], none⟩ (hex g ++ []) := parseGroups_hex
  rw [List.append_nil, parseGroupThen_end (.inr (by simp))] at hlast
  rw [joined_concat, ht, splitIPv6Address_of_head hc, ← ht, parseGroups_leading (by omega) dot_not_mem_hex,
    hpre]
  exact hlast

end Groups

section Run

variable {g : BitVec 16} {gs pre post : List (BitVec 16)} {z : ZeroRun} {p : Nat}

-- What has been found in the groups that were read.
structure Finds (gs : List (BitVec 16)) (z : ZeroRun) : Prop where
  current : ∃ pre, gs = pre ++ List.replicate z.count 0 ∧ pre.length = z.curr
  none    : z.max = 0 → ∀ g ∈ gs, g ≠ 0
  some    : 0 < z.max → ∃ pre post, gs = pre ++ (List.replicate z.max 0 ++ post) ∧ pre.length = z.start

theorem zeroRun_append : zeroRun (gs ++ [g]) = (zeroRun gs).read gs.length g := by
  simp [zeroRun, List.zipIdx_append]

theorem Finds.read (h : Finds gs z) : Finds (gs ++ [g]) (z.read gs.length g) := by
  obtain ⟨pre, hp, hl⟩ := h.current
  rw [ZeroRun.read]
  split
  case isTrue hg =>
    refine ⟨⟨gs ++ [g], by simp, by simp⟩, fun hm => ?_, fun hm => ?_⟩
    case refine_1 => simpa [or_imp, forall_and] using ⟨h.none hm, hg⟩
    case refine_2 =>
      obtain ⟨pre, post, rfl, hl⟩ := h.some hm
      exact ⟨pre, post ++ [g], by simp, hl⟩
  case isFalse hg =>
    cases not_not.mp hg
    have hrun : gs ++ [0] = pre ++ List.replicate (z.count + 1) 0 := by
      conv_lhs => rw [hp, List.append_assoc, ← List.replicate_succ']
    split
    case isTrue => exact ⟨⟨pre, hrun, hl⟩, by simp, fun _ => ⟨pre, [], by simpa using hrun, hl⟩⟩
    case isFalse hm =>
      refine ⟨⟨pre, hrun, hl⟩, fun hz => absurd (hz ▸ Nat.succ_pos _) hm, fun hm => ?_⟩
      obtain ⟨pre, post, rfl, hl⟩ := h.some hm
      exact ⟨pre, post ++ [0], by simp, hl⟩

theorem finds_zeroRun (gs : List (BitVec 16)) : Finds gs (zeroRun gs) := by
  induction gs using List.reverseRecOn
  case nil => exact ⟨⟨[], rfl, rfl⟩, by simp, fun h => absurd h (by decide)⟩
  case append_singleton gs g ih => exact zeroRun_append ▸ ih.read

theorem formatGroups_skip (m : Nat) :
    formatGroups z m p (List.replicate m 0 ++ post) = formatGroups z 0 (p + m) post := by
  induction m generalizing p
  case zero => rfl
  case succ m ih =>
    rw [List.replicate_succ, List.cons_append, formatGroups, ih]
    congr 1
    omega

theorem formatGroups_group (h : ¬(0 < z.max ∧ p = z.start)) : formatGroups z 0 p (g :: gs) =
    hex g ++ (if p ≠ 7 then [':'] else []) ++ formatGroups z 0 (p + 1) gs := by
  rw [formatGroups, if_neg h, formatHexNumber_group]

theorem formatGroups_after (h : z.max = 0 ∨ z.start < p) (hp : p + post.length = 8) :
    formatGroups z 0 p post = joined post := by
  induction post generalizing p
  case nil => rfl
  case cons g post ih =>
    rw [List.length_cons] at hp
    rw [formatGroups_group (by omega), ih (by omega) (by omega)]
    cases post
    case nil => simp [joined, show p = 7 by simp at hp; omega]
    case cons g' post =>
      have : p ≠ 7 := by simp at hp; omega
      simp [joined, this]

theorem formatGroups_before (h : p + pre.length = z.start) (hz : z.start < 8) :
    formatGroups z 0 p (pre ++ gs) = leading pre ++ formatGroups z 0 z.start gs := by
  induction pre generalizing p
  case nil => simp [leading, ← h]
  case cons g pre ih =>
    rw [List.length_cons] at h
    have : p ≠ 7 := by omega
    rw [List.cons_append, formatGroups_group (by omega), ih (by omega)]
    simp [leading, this]

theorem formatGroups_run (hz : 0 < z.max) (hl : pre.length = z.start)
    (h : (pre ++ (List.replicate z.max 0 ++ post)).length = 8) :
    formatGroups z 0 0 (pre ++ (List.replicate z.max 0 ++ post)) =
      (if pre = [] then [':', ':'] else leading pre ++ [':']) ++ joined post := by
  simp only [List.length_append, List.length_replicate] at h
  obtain ⟨m, hm⟩ : ∃ m, z.max = m + 1 := ⟨z.max - 1, by omega⟩
  rw [formatGroups_before (by omega) (by omega), hm, List.replicate_succ, List.cons_append, formatGroups,
    if_pos ⟨hz, rfl⟩, hm, Nat.add_sub_cancel, formatGroups_skip, formatGroups_after (by omega) (by omega)]
  cases pre
  case nil => simp [leading, ← hl]
  case cons => simp [← hl]

end Run

section IPv6

variable {gs pre post : List (BitVec 16)} {a : Words} {m i : Nat}

-- The group at a position comes from one of the two parts.
theorem getD_parts (hg : gs = pre ++ (List.replicate m 0 ++ post)) (hl : gs.length = 8) (hi : i < 8) :
    gs.getD i 0 = pre.getD i 0 ||| post.getD
      (if 8 ≤ i + post.length then i + post.length - 8 else i + post.length) 0 := by
  subst hg
  simp only [List.length_append, List.length_replicate] at hl
  have hz (l : List (BitVec 16)) {k : Nat} (hk : l.length ≤ k) : l.getD k 0 = 0 :=
    List.getD_eq_default _ _ hk
  by_cases h₁ : i < pre.length
  case pos =>
    rw [if_neg (by omega), hz post (by omega), List.getD_append _ _ _ _ h₁]
    exact BitVec.or_zero.symm
  case neg =>
    rw [List.getD_append_right _ _ _ _ (by omega), hz pre (by omega)]
    by_cases h₂ : i - pre.length < m
    case pos =>
      rw [List.getD_append _ _ _ _ (by simpa using h₂), if_neg (by omega), hz post (by omega),
        List.getD_replicate _ h₂]
      rfl
    case neg =>
      rw [List.getD_append_right _ _ _ _ (by simpa using h₂), if_pos (by omega), List.length_replicate,
        show i + post.length - 8 = i - pre.length - m by omega]
      exact BitVec.zero_or.symm

theorem word_halves (w : BitVec 32) :
    (w.setWidth 16).setWidth 32 ||| ((w >>> 16).setWidth 16).setWidth 32 <<< 16 = w := by
  refine BitVec.eq_of_getLsbD_eq fun i hi => ?_
  simp only [BitVec.getLsbD_or, BitVec.getLsbD_shiftLeft, BitVec.getLsbD_setWidth, BitVec.getLsbD_ushiftRight,
    hi, decide_true, Bool.true_and]
  by_cases h : i < 16
  case pos => simp [h]
  case neg => simp [h, Nat.add_sub_cancel' (Nat.le_of_not_lt h), show i - 16 < 16 by omega,
    show i - 16 < 32 by omega]

theorem or_halves (l₀ l₁ r₀ r₁ : BitVec 16) :
    l₁.setWidth 32 ||| l₀.setWidth 32 <<< 16 ||| r₁.setWidth 32 ||| r₀.setWidth 32 <<< 16 =
      (l₁ ||| r₁).setWidth 32 ||| (l₀ ||| r₀).setWidth 32 <<< 16 := by
  rw [BitVec.setWidth_or, BitVec.setWidth_or, BitVec.shiftLeft_or_distrib,
    BitVec.or_assoc (l₁.setWidth 32), BitVec.or_comm (l₀.setWidth 32 <<< 16),
    ← BitVec.or_assoc (l₁.setWidth 32), BitVec.or_assoc]

theorem length_groups (a : Words) : (groups a).length = 8 := rfl

theorem getD_groups (hi : i < 4) : (groups a).getD (2 * i) 0 = (a.word (3 - i) >>> 16).setWidth 16 ∧
    (groups a).getD (2 * i + 1) 0 = (a.word (3 - i)).setWidth 16 := by
  interval_cases i <;> exact ⟨rfl, rfl⟩

theorem word_groups (hg : groups a = pre ++ (List.replicate m 0 ++ post)) (hi : i < 4) :
    Groups.word ⟨pre, post, none⟩ i = some (a.word (3 - i)) := by
  have h₁ := getD_parts hg (length_groups a) (by omega : 2 * i < 8)
  have h₂ := getD_parts hg (length_groups a) (by omega : 2 * i + 1 < 8)
  have hl : pre.length + (m + post.length) = 8 := by
    have := congrArg List.length hg
    simpa [length_groups] using this.symm
  rw [(getD_groups hi).1] at h₁
  rw [(getD_groups hi).2, Nat.add_right_comm] at h₂
  simp only [Groups.word, Option.isSome_none, Bool.false_eq_true, if_false, Nat.add_zero]
  rw [if_pos (by constructor <;> split <;> omega), or_halves, ← h₁, ← h₂, word_halves]

-- All groups one behind the other, or with a run of zeros left out.
theorem formatIPv6Addr_eq (h : a.isMappedIpv4 = false) : formatIPv6Addr a = joined (groups a) ∨
    ∃ pre m post, groups a = pre ++ (List.replicate m 0 ++ post) ∧ pre.length + post.length ≤ 7 ∧
      formatIPv6Addr a = (if pre = [] then [':', ':'] else leading pre ++ [':']) ++ joined post := by
  have hne : ¬(a.word 3 = 0 ∧ a.word 2 = 0 ∧ a.word 1 = 0x0000FFFF) := by
    simpa [Words.isMappedIpv4, and_assoc] using h
  rw [formatIPv6Addr, if_neg hne]
  rcases Nat.eq_zero_or_pos (zeroRun (groups a)).max with hz | hz
  case inl => exact .inl (formatGroups_after (.inl hz) (length_groups a))
  case inr =>
    obtain ⟨pre, post, hg, hl⟩ := (finds_zeroRun (groups a)).some hz
    have hlen : (pre ++ (List.replicate (zeroRun (groups a)).max 0 ++ post)).length = 8 := by
      rw [← hg, length_groups]
    have hf := formatGroups_run hz hl hlen
    rw [← hg] at hf
    simp only [List.length_append, List.length_replicate] at hlen
    exact .inr ⟨pre, _, post, hg, by omega, hf⟩

-- What is written is read back, unless it is an IPv4 address.
theorem parseIPv6Address_format (h : a.isMappedIpv4 = false) :
    parseIPv6Address (formatIPv6Addr a) = some (some a) := by
  obtain ⟨pre, m, post, hg, hs⟩ : ∃ pre m post, groups a = pre ++ (List.replicate m 0 ++ post) ∧
      splitIPv6Address (formatIPv6Addr a) = some ⟨pre, post, none⟩ := by
    rcases formatIPv6Addr_eq h with hf | ⟨pre, m, post, hg, hlen, hf⟩
    case inl => exact ⟨groups a, 0, [], by simp, by rw [hf, splitIPv6Address_joined (length_groups a)]⟩
    case inr => exact ⟨pre, m, post, hg, by rw [hf, splitIPv6Address_run hlen]⟩
  have h₀ : Groups.word ⟨pre, post, none⟩ 0 = some (a.word 3) := word_groups hg (by decide)
  have h₁ : Groups.word ⟨pre, post, none⟩ 1 = some (a.word 2) := word_groups hg (by decide)
  have h₂ : Groups.word ⟨pre, post, none⟩ 2 = some (a.word 1) := word_groups hg (by decide)
  have h₃ : Groups.word ⟨pre, post, none⟩ 3 = some (a.word 0) := word_groups hg (by decide)
  rw [parseIPv6Address, hs]
  simp only [h₀, h₁, h₂, h₃, Option.bind_eq_bind, Option.bind_some]
  rw [← a.eq_of_words]

end IPv6

section Bounds

variable {g g' : Groups} {next : Groups → CString → Option Groups} {str : CString} {more : Nat}
  {last left : Bool} {part : BitVec 16}

-- How many turns of the loop an address has taken.
def Groups.count (g : Groups) : Nat :=
  g.laddr.length + g.raddr.length + if g.ipv4.isSome then 1 else 0

theorem count_push : (g.push left part).count = g.count + 1 := by
  cases left <;> simp [Groups.push, Groups.count] <;> omega

theorem ipv4_push : (g.push left part).ipv4 = g.ipv4 := by
  cases left <;> rfl

theorem count_parseGroupThen (hg : g.ipv4 = none)
    (hn : ∀ {g str g'}, g.ipv4 = none → next g str = some g' → g'.count ≤ g.count + more)
    (h : parseGroupThen next last left g str = some g') : g'.count ≤ g.count + (more + 1) := by
  rw [parseGroupThen] at h
  split at h
  case h_1 addr _ =>
    cases h
    simp [Groups.count, hg]
  case h_2 =>
    split at h
    case h_1 => cases h
    case h_2 part _ =>
      split_ifs at h
      cases h
      rw [count_push]
      omega
    case h_3 part c s _ =>
      split_ifs at h
      have := hn (ipv4_push.trans hg) h
      rw [count_push] at this
      omega

theorem count_parseGroups (hg : g.ipv4 = none) (h : parseGroups more left g str = some g') :
    g'.count ≤ g.count + more := by
  induction more generalizing g g' left str
  case zero => cases h; omega
  case succ more ih =>
    rw [parseGroups] at h
    split_ifs at h
    case pos => cases h; omega
    case neg => exact count_parseGroupThen hg ih h
    case neg => exact count_parseGroupThen hg ih h

theorem count_splitIPv6Address (h : splitIPv6Address str = some g) : g.count ≤ 8 := by
  rw [splitIPv6Address.eq_def] at h
  split at h
  case h_1 => cases h; decide
  case h_3 => cases h
  case h_2 | h_4 => exact count_parseGroups rfl h

theorem word_eq_none_iff {i : Nat} (hc : g.count ≤ 8) (hi : i < 4) :
    g.word i = none ↔ g.ipv4.isSome ∧ g.raddr.length = 7 ∧ i = 3 := by
  rw [Groups.count] at hc
  simp only [Groups.word, ite_eq_right_iff, reduceCtorEq, imp_false]
  generalize g.ipv4.isSome = ipv4 at hc ⊢
  cases ipv4
  case false =>
    simp only [Bool.false_eq_true, if_false, false_and, iff_false, not_not, Nat.add_zero] at hc ⊢
    constructor <;> split <;> omega
  case true =>
    simp only [if_true, true_and] at hc ⊢
    split <;> split <;> omega

-- The only addresses that are assembled from memory behind the array.
theorem parseIPv6Address_eq_none_iff : parseIPv6Address str = none ↔
    ∃ g, splitIPv6Address str = some g ∧ g.ipv4.isSome ∧ g.raddr.length = 7 := by
  rw [parseIPv6Address]
  cases hs : splitIPv6Address str
  case none => simp
  case some g =>
    have hc := count_splitIPv6Address hs
    have hsome {i : Nat} (hi : i < 3) : ∃ w, g.word i = some w := by
      rw [← Option.ne_none_iff_exists', ne_eq, word_eq_none_iff hc (by omega)]
      omega
    obtain ⟨w₀, h₀⟩ := hsome (by decide : 0 < 3)
    obtain ⟨w₁, h₁⟩ := hsome (by decide : 1 < 3)
    obtain ⟨w₂, h₂⟩ := hsome (by decide : 2 < 3)
    have h₃ := word_eq_none_iff hc (by decide : 3 < 4)
    simp only [h₀, h₁, h₂, Option.bind_eq_bind, Option.bind_some, Option.some.injEq, exists_eq_left',
      and_true] at h₃ ⊢
    rw [← h₃]
    cases g.word 3
    case none => simp
    case some w =>
      simp only [Option.bind_some, reduceCtorEq, iff_false]
      split
      case h_1 => simp
      case h_2 => split <;> simp

end Bounds

end Wd.Text
