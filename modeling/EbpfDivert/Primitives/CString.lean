import Mathlib.Algebra.Group.Int.Defs
import Mathlib.Algebra.Group.Nat.Defs
import Mathlib.Data.List.Basic

-- Strings of C and what its library reads from them. A character stands for a byte, the end of the
-- list for the terminator.
abbrev CString := List Char

namespace CString

def isSpace (c : Char) : Bool :=
  c = ' ' ∨ '\t' ≤ c ∧ c ≤ '\r'

-- Letters are the digits after nine, other characters are digits of no base.
def digitVal (c : Char) : Nat :=
  if c.isDigit then c.toNat - '0'.toNat
  else if c.isAlpha then c.toLower.toNat - 'a'.toNat + 10
  else 36

-- The number that the digits at the start of a string stand for.
def number (b : Nat) (s : CString) : Nat :=
  (s.takeWhile (digitVal · < b)).foldl (fun n c => b * n + digitVal c) 0

-- In base 16 the digits may follow `0x`.
def magnitude (b : Nat) (s : CString) : Nat :=
  match s with
  | '0' :: x :: t => if b = 16 ∧ (x = 'x' ∨ x = 'X') then number b t else number b s
  | _             => number b s

def signed (b : Nat) : CString → Int
  | '-' :: s => -magnitude b s
  | '+' :: s => magnitude b s
  | s        => magnitude b s

-- A number that does not fit into a `long` is replaced by the closest one that does.
def strtol (b : Nat) (s : CString) : Int :=
  max (-2 ^ 63) (min (2 ^ 63 - 1) (signed b (s.dropWhile isSpace)))

-- The lower half of the `long`, as an `int`.
def atoi (s : CString) : Int :=
  (BitVec.ofInt 32 (strtol 10 s)).toInt

-- `strcasecmp` finds no difference.
def sameUpToCase (s t : CString) : Bool :=
  s.map Char.toLower == t.map Char.toLower

-- A copy into a buffer of `size` bytes.
def copied (size : Nat) (s : CString) : CString :=
  s.take (size - 1)

-- What stands before the first `c` of a string, and what stands after it.
def cut (c : Char) (s : CString) : CString × Option CString :=
  (s.takeWhile (· ≠ c), (s.dropWhile (· ≠ c)).tail?)

-- The tokens of `strtok`.
def tokens (delims s : CString) : List CString :=
  (s.splitOnP (· ∈ delims)).filter (· ≠ [])

variable {s t : CString} {c : Char} {b n : Nat}

theorem digitVal_of_isDigit (h : c.isDigit) : digitVal c = c.toNat - '0'.toNat :=
  if_pos h

theorem digitVal_lt_ten_iff : digitVal c < 10 ↔ c.isDigit := by
  rw [digitVal]
  split_ifs with h h'
  case pos =>
    have h₉ : c.toNat ≤ 57 := (Char.isDigit_iff_toNat.mp h).2
    have h₀ : '0'.toNat = 48 := rfl
    simp only [h, iff_true]
    omega
  all_goals simp [h]

-- Neither a blank nor a sign.
def Plain (c : Char) : Prop :=
  isSpace c = false ∧ c ≠ '-' ∧ c ≠ '+'

-- Blanks and signs come before the digits and the letters.
theorem plain_of_lt (h : 45 < c.toNat) : Plain c := by
  have hne {c' : Char} (hc : c'.toNat ≤ 45) : c ≠ c' := by
    rintro rfl
    omega
  have hs : ¬c ≤ '\r' := by
    intro hr
    have : c.toNat ≤ 13 := Char.le_def.mp hr
    omega
  exact ⟨by simp [isSpace, hs, hne], hne (by decide), hne (by decide)⟩

theorem signed_of_plain (h : Plain c) : signed b (c :: s) = magnitude b (c :: s) := by
  rw [signed]
  case x_1 => exact fun _ hs => h.2.1 (List.cons.inj hs).1
  case x_2 => exact fun _ hs => h.2.2 (List.cons.inj hs).1

theorem magnitude_ten : magnitude 10 s = number 10 s := by
  unfold magnitude
  split <;> simp

theorem atoi_of_plain (h : Plain c) (hn : number 10 (c :: s) < 2 ^ 31) :
    atoi (c :: s) = number 10 (c :: s) := by
  have hs : strtol 10 (c :: s) = number 10 (c :: s) := by
    rw [strtol, List.dropWhile_cons_of_neg (by simp [h.1]), signed_of_plain h, magnitude_ten]
    omega
  rw [atoi, hs, BitVec.toInt_ofInt, Int.bmod_eq_of_le (by omega) (by omega)]

-- A number that was written in decimal is read back, whatever follows it other than a digit.
theorem number_toDigits (h : ∀ c ∈ s.head?, ¬c.isDigit) :
    number 10 (Nat.toDigits 10 n ++ s) = n := by
  have hd : ∀ c ∈ Nat.toDigits 10 n, c.isDigit := fun c =>
    Nat.isDigit_of_mem_toDigits (by decide) (by decide)
  have ht : s.takeWhile (digitVal · < 10) = [] := by
    cases s
    case nil => rfl
    case cons c s => exact List.takeWhile_cons_of_neg (by simpa [digitVal_lt_ten_iff] using h)
  rw [number, List.takeWhile_append_of_pos fun c hc => by simpa [digitVal_lt_ten_iff] using hd c hc,
    ht, List.append_nil]
  calc
    _ = Nat.ofDigitChars 10 (Nat.toDigits 10 n) 0 :=
      List.foldl_ext _ _ _ fun m c hc => by rw [digitVal_of_isDigit (hd c hc)]
    _ = n := Nat.ofDigitChars_ten_toDigits

theorem atoi_toDigits (h : ∀ c ∈ s.head?, ¬c.isDigit) (hn : n < 2 ^ 31) :
    atoi (Nat.toDigits 10 n ++ s) = n := by
  obtain ⟨c, ds, hc⟩ := List.exists_cons_of_ne_nil (Nat.toDigits_ne_nil (b := 10) (n := n))
  have hd : c.isDigit :=
    Nat.isDigit_of_mem_toDigits (by decide) (by decide) (hc ▸ List.mem_cons_self)
  have hl : 48 ≤ c.toNat := (Char.isDigit_iff_toNat.mp hd).1
  have hv : number 10 (c :: (ds ++ s)) = n := by
    rw [← List.cons_append, ← hc, number_toDigits h]
  rw [hc, List.cons_append, atoi_of_plain (plain_of_lt (by omega)) (by omega), hv]

theorem isAlpha_of_toLower (h : c.toLower.isLower) : c.isAlpha := by
  refine (Bool.or_eq_true ..).mpr ?_
  by_cases hu : c.val ≥ 'A'.val ∧ c.val ≤ 'Z'.val
  case pos => exact .inl (decide_eq_true hu)
  case neg =>
    have hc : c.toLower = c := dif_neg hu
    exact .inr (hc ▸ h)

-- A word is not a number.
theorem atoi_of_isAlpha (h : c.isAlpha) : atoi (c :: s) = 0 := by
  have hc : 65 ≤ c.toNat := by
    rcases (Bool.or_eq_true ..).mp h with h | h
    case inl => exact UInt32.le_iff_toNat_le.mp (of_decide_eq_true h).1
    case inr =>
      have : 97 ≤ c.toNat :=
        UInt32.le_iff_toNat_le.mp (of_decide_eq_true ((Bool.and_eq_true ..).mp h).1)
      omega
  have hd : ¬digitVal c < 10 := by
    rw [digitVal_lt_ten_iff]
    intro hd
    have : c.toNat ≤ 57 := (Char.isDigit_iff_toNat.mp hd).2
    omega
  have hn : number 10 (c :: s) = 0 := by
    rw [number, List.takeWhile_cons_of_neg (by simpa using hd)]
    rfl
  rw [atoi_of_plain (plain_of_lt (by omega)) (by omega), hn]
  rfl

end CString
