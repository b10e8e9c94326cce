import EbpfDivert.Primitives.CString
import EbpfDivert.Primitives.LimbArith
import EbpfDivert.Words

-- Numbers and addresses in filters and in what is printed of them.
namespace Wd.Text

section Read

def isXDigit (c : Char) : Bool :=
  c.isDigit || ('a' ≤ c && c ≤ 'f') || ('A' ≤ c && c ≤ 'F')

-- None where the result has more than 128 bits.
def mulAdd128 (m c : Nat) (n : Words) : Option Words :=
  let r := Limbs.mulAdd m c n.limbs
  if r.2 = 0 then some ⟨r.1, by rw [Limbs.length_mulAdd, n.length_eq]⟩ else none

def mul128 (n : Words) (m : Nat) : Option Words :=
  mulAdd128 m 0 n

def add128 (n : Words) (a : Nat) : Option Words :=
  mulAdd128 1 a n

-- The digits at the start of a string behind those that `n` stands for, and what follows them.
def readDigits (isDigit : Char → Bool) (b : Nat) : (n : Words) → CString → Option (Words × CString)
  | n, []       => some (n, [])
  | n, c :: str =>
    if isDigit c then do
      let n ← mul128 n b
      let n ← add128 n (CString.digitVal c)
      readDigits isDigit b n str
    else
      some (n, c :: str)

-- The words above those that the caller asks for are not looked at.
def aToI (str : CString) : Option (Words × CString) :=
  if str.head?.any Char.isDigit then readDigits Char.isDigit 10 .zero str else none

-- Behind the `0x` there need not be a digit.
def aToX (withPrefix : Bool) (str : CString) : Option (Words × CString) :=
  if withPrefix then
    match str with
    | '0' :: 'x' :: str => readDigits isXDigit 16 .zero str
    | _                 => none
  else
    if str.head?.any isXDigit then readDigits isXDigit 16 .zero str else none

-- A part of an address is the lowest word of the number.
def parseIPv4Part (left : Nat) (addr : BitVec 32) (str : CString) : Option (BitVec 32 × CString) := do
  let (n, str) ← aToI str
  guard ((n.word 0).toNat ≤ 0xFF)
  some (addr ||| n.word 0 <<< (8 * left), str)

def parseIPv4From : (left : Nat) → (addr : BitVec 32) → CString → Option (BitVec 32)
  | 0,        addr, str =>
    match parseIPv4Part 0 addr str with
    | some (addr, []) => some addr
    | _               => none
  | left + 1, addr, str =>
    match parseIPv4Part (left + 1) addr str with
    | some (addr, '.' :: str) => parseIPv4From left addr str
    | _                       => none

def parseIPv4Address (str : CString) : Option (BitVec 32) :=
  parseIPv4From 3 0 str

-- The groups of an IPv6 address before and after the `::`, and the IPv4 address at its end.
structure Groups where
  laddr : List (BitVec 16)
  raddr : List (BitVec 16)
  ipv4  : Option (BitVec 32)

def Groups.push (g : Groups) (left : Bool) (part : BitVec 16) : Groups :=
  if left then { g with laddr := g.laddr ++ [part] } else { g with raddr := g.raddr ++ [part] }

-- At most four digits, and what follows them.
def parseGroup (str : CString) : Option (BitVec 16 × CString) := do
  let digits := (str.take 4).takeWhile isXDigit
  let (n, _) ← aToX false digits
  some ((n.word 0).setWidth 16, str.drop digits.length)

-- A group and what follows it, or the IPv4 address at the end. `last` is set if the group is the
-- eighth one.
def parseGroupThen (next : Groups → CString → Option Groups) (last left : Bool) (g : Groups)
    (str : CString) : Option Groups :=
  match if g.laddr.length < 6 then parseIPv4Address str else none with
  | some addr => some { g with ipv4 := some addr }
  | none      =>
    match parseGroup str with
    | none                => none
    | some (part, [])     => if ¬left ∨ last then some (g.push left part) else none
    | some (part, c :: s) => if c = ':' then next (g.push left part) s else none

-- `more` groups may follow. What comes behind eight groups and a colon is not looked at.
def parseGroups : (more : Nat) → (left : Bool) → Groups → CString → Option Groups
  | 0,        _,    g, _   => some g
  | more + 1, left, g, str =>
    if str.head? = some ':' then
      if ¬left then none
      else if str.tail = [] then some g
      else parseGroupThen (parseGroups more false) (more = 0) false g str.tail
    else parseGroupThen (parseGroups more left) (more = 0) left g str

def splitIPv6Address (str : CString) : Option Groups :=
  match str with
  | [':', ':']       => some ⟨[], [], none⟩
  | ':' :: ':' :: str => parseGroups 8 false ⟨[], [], none⟩ str
  | ':' :: _         => none
  | str              => parseGroups 8 true ⟨[], [], none⟩ str

-- The groups behind the `::` end with the last one. None where this reads behind the array, which
-- has eight groups.
def Groups.word (g : Groups) (i : Nat) : Option (BitVec 32) :=
  let j := g.raddr.length + if g.ipv4.isSome then 2 else 0
  let wrap := fun k => if 8 ≤ k then k - 8 else k
  let k := wrap (2 * i + j)
  let l := wrap (2 * i + j + 1)
  let group := fun (a : List (BitVec 16)) k => (a.getD k 0).setWidth 32
  if k < 8 ∧ l < 8 then
    some (group g.laddr (2 * i + 1) ||| group g.laddr (2 * i) <<< 16 |||
      group g.raddr l ||| group g.raddr k <<< 16)
  else
    none

-- The outer result is none where the address is assembled from memory that does not belong to it,
-- the inner one where there is no address.
def parseIPv6Address (str : CString) : Option (Option Words) :=
  match splitIPv6Address str with
  | none   => some none
  | some g => do
    let a := Words.of (← g.word 3) (← g.word 2) (← g.word 1) (← g.word 0)
    match g.ipv4 with
    | none      => some (some a)
    | some addr =>
      if a.word 3 ≠ 0 ∨ a.word 2 ≠ 0 ∨ a.word 0 ≠ 0 ∨ (a.word 1 ≠ 0x0000FFFF ∧ a.word 1 ≠ 0) then some none
      else some (some (.of addr (a.word 1) (a.word 2) (a.word 3)))

end Read

section Write

-- A sum of products, as far as the array goes. The loop is bounded by nine limbs: none where it
-- would leave an array with fewer of them.
def bigMulRound (r : List (BitVec 32)) (a c i : Nat) : Option (List (BitVec 32)) :=
  let s := Limbs.addAt (a * c) i r
  if s.2 ≠ 0 ∧ r.length < 9 then none else some s.1

-- 2 ^ 160 / 10, rounded up.
def tenth : List (BitVec 32) :=
  [0x9999999A, 0x99999999, 0x99999999, 0x99999999, 0x19999999]

-- The quotient and the remainder.
def divTen128 (a : Words) : Option (Words × Nat) := do
  let r ← ([0, 1, 2, 3].flatMap fun i => [0, 1, 2, 3, 4].map fun j => (i, j)).foldlM
    (fun r (i, j) => bigMulRound r (a.word i).toNat (tenth.getD j 0).toNat (i + j))
    (List.replicate 9 0)
  let m ← [0, 1, 2, 3, 4].foldlM (fun m i => bigMulRound m (r.getD i 0).toNat 10 i)
    (List.replicate 6 0)
  some (.of (r.getD 5 0) (r.getD 6 0) (r.getD 7 0) (r.getD 8 0), (m.getD 5 0).toNat)

-- The digits from that of weight `10 ^ k` on. Zeros are left out until another digit came.
def formatDecNumber32From : (k : Nat) → (zeroes : Bool) → (val : Nat) → CString
  | 0,     _,      val => [Nat.digitChar val]
  | k + 1, zeroes, val =>
    if val / 10 ^ (k + 1) = 0 ∧ ¬zeroes then
      formatDecNumber32From k false (val % 10 ^ (k + 1))
    else
      Nat.digitChar (val / 10 ^ (k + 1)) :: formatDecNumber32From k true (val % 10 ^ (k + 1))

def formatDecNumber32 (val : BitVec 32) : CString :=
  formatDecNumber32From 9 false val.toNat

-- The digits are put into a buffer of `left` characters, the lowest one first.
def formatDecNumberFrom : (left : Nat) → Words → Option CString
  | 0,        _ => some []
  | left + 1, a =>
    if a = .zero then some [] else do
      let (a, digit) ← divTen128 a
      let buf ← formatDecNumberFrom left a
      some (Nat.digitChar digit :: buf)

def formatDecNumber (a : Words) : Option CString :=
  if a = .zero then some ['0'] else (formatDecNumberFrom 40 a).map List.reverse

-- The four bits of weight `16 ^ k` and those below them.
def formatHexFrom : (k : Nat) → (zeroes : Bool) → Words → CString
  | 0,     zeroes, _ => if zeroes then [] else ['0']
  | k + 1, zeroes, a =>
    let dig := (a.word (k / 8)).toNat / 16 ^ (k % 8) % 16
    if dig = 0 ∧ ¬zeroes then formatHexFrom k false a
    else Nat.digitChar dig :: formatHexFrom k true a

-- Words that are zero are left out from the top.
def topWord (a : Words) : Nat :=
  if a.word 3 ≠ 0 then 3 else if a.word 2 ≠ 0 then 2 else if a.word 1 ≠ 0 then 1 else 0

def formatHexNumber (a : Words) : CString :=
  formatHexFrom (8 * (topWord a + 1)) false a

def formatIPv4Addr (addr : BitVec 32) : CString :=
  formatDecNumber32 ((addr &&& 0xFF000000) >>> 24) ++ '.' ::
  (formatDecNumber32 ((addr &&& 0x00FF0000) >>> 16) ++ '.' ::
  (formatDecNumber32 ((addr &&& 0x0000FF00) >>> 8) ++ '.' ::
  formatDecNumber32 (addr &&& 0x000000FF)))

-- The groups of an address, the highest one first.
def groups (a : Words) : List (BitVec 16) :=
  [3, 2, 1, 0].flatMap fun i => [(a.word i >>> 16).setWidth 16, (a.word i).setWidth 16]

-- The first one of the longest runs of zeros, of which `count` have been read since `curr`.
structure ZeroRun where
  curr  : Nat := 0
  count : Nat := 0
  start : Nat := 0
  max   : Nat := 0

def ZeroRun.read (z : ZeroRun) (p : Nat) (g : BitVec 16) : ZeroRun :=
  if g ≠ 0 then { z with curr := p + 1, count := 0 }
  else if z.max < z.count + 1 then
    { z with count := z.count + 1, start := z.curr, max := z.count + 1 }
  else { z with count := z.count + 1 }

def zeroRun (gs : List (BitVec 16)) : ZeroRun :=
  gs.zipIdx.foldl (fun z (g, p) => z.read p g) {}

-- From the group at `p` on, of which the first `skip` are part of the run of zeros.
def formatGroups (z : ZeroRun) : (skip p : Nat) → List (BitVec 16) → CString
  | _,        _, []      => []
  | skip + 1, p, _ :: gs => formatGroups z skip (p + 1) gs
  | 0,        p, g :: gs =>
    if 0 < z.max ∧ p = z.start then
      (if p = 0 then [':', ':'] else [':']) ++ formatGroups z (z.max - 1) (p + 1) gs
    else
      formatHexNumber (.ofNarrow (g.setWidth 32)) ++ (if p ≠ 7 then [':'] else []) ++
        formatGroups z 0 (p + 1) gs

def formatIPv6Addr (a : Words) : CString :=
  if a.word 3 = 0 ∧ a.word 2 = 0 ∧ a.word 1 = 0x0000FFFF then formatIPv4Addr (a.word 0)
  else formatGroups (zeroRun (groups a)) 0 0 (groups a)

end Write

end Wd.Text
